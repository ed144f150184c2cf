import Mathlib.Data.Nat.ModEq
import Mathlib.Data.Fintype.EquivFin

/-!
# Walking round a list in a circle

`next p l cur` looks for the first element satisfying `p` after the cursor and, if there is none,
from the start of the list. A cursor that is not on the list leaves nothing after it.

* `next_getElem`: on the members that satisfy `p`, `next` is the cyclic successor.
* `walk_getElem`: `n` moves go `n` places round.
* `exists_walk_eq`: every member satisfying `p` is met within one round, whatever the cursor.
* `evenTurns_of_stride`: moving round by a stride prime to the number of places gives every
  place one turn between two turns of another.
-/

namespace Cyclic

open List Option

section

variable {α : Type*} [DecidableEq α] {c x : α}

/-- What stands behind `c` on the list. -/
def behind (c : α) : List α → List α
  | [] => []
  | a :: l => if a = c then l else behind c l

/-- What a scan has in front of it: the whole list for a null cursor. -/
def after : Option α → List α → List α
  | none, l => l
  | some c, l => behind c l

/-- The next element satisfying `p`, going round at the end of the list. -/
def next (p : α → Bool) (l : List α) (cur : Option α) : Option α :=
  ((after cur l).find? p).or (l.find? p)

/-- `n` moves of `next`. -/
def walk (p : α → Bool) (l : List α) : Nat → Option α → Option α
  | 0, cur => cur
  | n + 1, cur => walk p l n (next p l cur)

theorem mem_of_mem_behind : ∀ {l : List α}, x ∈ behind c l → x ∈ l
  | a :: l, h => by
    unfold behind at h
    split at h
    · exact List.mem_cons_of_mem _ h
    · exact List.mem_cons_of_mem _ (mem_of_mem_behind h)

theorem behind_of_notMem : ∀ {l : List α}, c ∉ l → behind c l = []
  | [], _ => rfl
  | a :: l, h => by
    obtain ⟨hne, hl⟩ := ne_and_not_mem_of_not_mem_cons h
    rw [behind, if_neg (Ne.symm hne), behind_of_notMem hl]

theorem behind_append {r : List α} : ∀ {l : List α}, c ∉ l → behind c (l ++ c :: r) = r
  | [], _ => by simp [behind]
  | a :: l, h => by
    obtain ⟨hne, hl⟩ := ne_and_not_mem_of_not_mem_cons h
    rw [cons_append, behind, if_neg (Ne.symm hne), behind_append hl]

variable {p : α → Bool} {l : List α} {cur : Option α}

theorem mem_of_mem_after (h : x ∈ after cur l) : x ∈ l := by
  cases cur with
  | none => exact h
  | some c => exact mem_of_mem_behind h

/-- A scan that finds something finds a member that satisfies `p`. -/
theorem next_some (h : next p l cur = some x) : x ∈ l ∧ p x = true := by
  rcases or_eq_some_iff.1 h with h | ⟨_, h⟩
  · exact ⟨mem_of_mem_after (mem_of_find?_eq_some h), find?_some h⟩
  · exact ⟨mem_of_find?_eq_some h, find?_some h⟩

/-- A scan finds nothing just when no member satisfies `p`. -/
theorem next_eq_none_iff : next p l cur = none ↔ ∀ x ∈ l, ¬ p x = true := by
  rw [next, or_eq_none_iff, find?_eq_none, find?_eq_none]
  exact ⟨fun h => h.2, fun h => ⟨fun x hx => h x (mem_of_mem_after hx), h⟩⟩

theorem next_of_notMem (h : ∀ c ∈ cur, c ∉ l) : next p l cur = (l.filter p).head? := by
  rw [head?_filter]
  cases cur with
  | none => exact or_self
  | some c => rw [next, after, behind_of_notMem (h c rfl), find?_nil, none_or]

/-- A cursor on the list is passed before the scan looks. -/
theorem next_append {l₁ l₂ : List α} (h : c ∉ l₁) :
    next p (l₁ ++ c :: l₂) (some c) =
      (l₂.filter p).head?.or ((l₁ ++ c :: l₂).filter p).head? := by
  rw [next, after, behind_append h, head?_filter, head?_filter]

/-- **On the members that satisfy `p` the scan is the cyclic successor.** -/
theorem next_getElem (hl : l.Nodup) (i : Nat) (hi : i < (l.filter p).length) :
    next p l (some (l.filter p)[i]) =
      (l.filter p)[(i + 1) % (l.filter p).length]? := by
  generalize hc : (l.filter p)[i] = c
  obtain ⟨hmem, hp⟩ := mem_filter.1 (hc ▸ getElem_mem hi)
  obtain ⟨l₁, l₂, rfl⟩ := append_of_mem hmem
  have hnot : c ∉ l₁ := fun h => disjoint_of_nodup_append hl h mem_cons_self
  have hfilter : (l₁ ++ c :: l₂).filter p = l₁.filter p ++ c :: l₂.filter p := by
    rw [filter_append, filter_cons_of_pos hp]
  -- the place of `c` is the number of members satisfying `p` in front of it
  have hplace : i = (l₁.filter p).length := by
    have hnodup := hl.filter p
    simp only [hfilter] at hi hc hnodup
    have hget : (l₁.filter p ++ c :: l₂.filter p)[i] =
        (l₁.filter p ++ c :: l₂.filter p)[(l₁.filter p).length] := by
      rw [hc, getElem_append_right (le_refl _)]
      simp
    exact hnodup.getElem_inj_iff.1 hget
  rw [next_append hnot, hfilter]
  simp only [length_append, length_cons, ← hplace]
  cases hr : l₂.filter p with
  | nil =>
    rw [length_nil, zero_add, Nat.mod_self, head?_nil, none_or, head?_eq_getElem?]
  | cons b r =>
    rw [Nat.mod_eq_of_lt (by simp), getElem?_append_right (by omega), ← hplace]
    simp

/-- `n` moves from the `i`-th member satisfying `p` lead to the `(i + n)`-th, counted round. -/
theorem walk_getElem (hl : l.Nodup) : ∀ (n i : Nat) (hi : i < (l.filter p).length),
    walk p l n (some (l.filter p)[i]) = (l.filter p)[(i + n) % (l.filter p).length]?
  | 0, i, hi => by rw [walk, Nat.add_zero, Nat.mod_eq_of_lt hi, getElem?_eq_getElem hi]
  | n + 1, i, hi => by
    have hlt : (i + 1) % (l.filter p).length < (l.filter p).length := Nat.mod_lt _ (by omega)
    rw [walk, next_getElem hl i hi, getElem?_eq_getElem hlt, walk_getElem hl n _ hlt,
      Nat.mod_add_mod, add_right_comm, add_assoc]

/-- Where nothing satisfies `p` every move leads nowhere. -/
theorem walk_eq_none (h : ∀ x ∈ l, ¬ p x = true) : ∀ (n : Nat) (cur : Option α), walk p l (n + 1) cur = none
  | 0, _ => next_eq_none_iff.2 h
  | n + 1, cur => walk_eq_none h n (next p l cur)

/-- From a cursor off the list the first move leads to the first member satisfying `p`. -/
theorem walk_of_notMem (hl : l.Nodup) (h : ∀ c ∈ cur, c ∉ l) (n : Nat) :
    walk p l (n + 1) cur = (l.filter p)[n % (l.filter p).length]? := by
  rw [walk, next_of_notMem h]
  by_cases hpos : 0 < (l.filter p).length
  · rw [head?_eq_getElem?, getElem?_eq_getElem hpos, walk_getElem hl n 0 hpos, zero_add]
  have hnil : l.filter p = [] := eq_nil_of_length_eq_zero (by omega)
  rw [hnil, head?_nil, getElem?_nil]
  cases n with
  | zero => rfl
  | succ n => exact walk_eq_none (filter_eq_nil_iff.1 hnil) n none

/-- Every member satisfying `p` is met within one round, wherever the cursor is. -/
theorem exists_walk_eq (hl : l.Nodup) (cur : Option α) (hx : x ∈ l.filter p) :
    ∃ n, n < (l.filter p).length ∧ walk p l (n + 1) cur = some x := by
  obtain ⟨hxl, hxp⟩ := mem_filter.1 hx
  obtain ⟨j, hj, rfl⟩ := getElem_of_mem hx
  cases hstart : next p l cur with
  | none => exact absurd hxp (next_eq_none_iff.1 hstart _ hxl)
  | some y =>
    obtain ⟨hyl, hyp⟩ := next_some hstart
    obtain ⟨i, hi, rfl⟩ := getElem_of_mem (mem_filter.2 ⟨hyl, hyp⟩)
    refine ⟨(j + (l.filter p).length - i) % (l.filter p).length, Nat.mod_lt _ (by omega), ?_⟩
    rw [walk, hstart, walk_getElem hl _ i hi, Nat.add_mod_mod,
      show i + (j + (l.filter p).length - i) = j + (l.filter p).length by omega,
      Nat.add_mod_right, Nat.mod_eq_of_lt hj, getElem?_eq_getElem hj]

end

variable {α : Type*} {j s k : Nat}

/-- Between two successive turns of one element every other member of `e` has exactly one turn. -/
def EvenTurns (e l : List α) : Prop :=
  ∀ (a b : Nat) (x : α), a < b → l[a]? = some x → l[b]? = some x → (∀ t, a < t → t < b → l[t]? ≠ some x) →
    ∀ y ∈ e, y ≠ x → ∃! t, (a < t ∧ t < b) ∧ l[t]? = some y

/-- The turns `l` go round the places `e` in steps of `s`. -/
def Strides (e : List α) (s : Nat) (l : List α) : Prop :=
  ∃ i, ∀ t < l.length, l[t]? = e[(i + s * t) % e.length]?

variable {e l : List α} {s : Nat}

theorem strides_singleton {x : α} (hx : x ∈ e) : Strides e s [x] := by
  obtain ⟨i, hi, rfl⟩ := getElem_of_mem hx
  refine ⟨i, fun t ht => ?_⟩
  obtain rfl : t = 0 := by simpa using ht
  rw [mul_zero, add_zero, Nat.mod_eq_of_lt hi, getElem?_eq_getElem hi]
  rfl

/-- One more turn, `s` places past the last one. -/
theorem strides_concat {x y : α} (h : Strides e s (l ++ [x])) (hx : e[j]? = some x) (he : e.Nodup)
    (hy : e[(j + s) % e.length]? = some y) : Strides e s (l ++ [x] ++ [y]) := by
  obtain ⟨i, hi⟩ := h
  refine ⟨i, fun t ht => ?_⟩
  rcases lt_or_ge t (l ++ [x]).length with hlt | hge
  · rw [getElem?_append_left hlt]
    exact hi t hlt
  have hlen : (l ++ [x] ++ [y]).length = l.length + 2 := by simp
  have hend : t = l.length + 1 := by
    simp only [length_append, length_singleton] at hge
    omega
  have hlast := hi l.length (by simp)
  rw [getElem?_append_right le_rfl, Nat.sub_self] at hlast
  -- the last turn fixes the place `j`
  have hj : j = (i + s * l.length) % e.length := by
    have hjlt := (List.getElem?_eq_some_iff.1 hx).1
    exact (getElem?_inj hjlt he).1 (hx.trans hlast)
  have hplace : (j + s) % e.length = (i + s * (l.length + 1)) % e.length := by
    rw [hj, Nat.mod_add_mod, Nat.mul_succ, add_assoc]
  rw [hend, getElem?_append_right (by simp), ← hplace, hy]
  simp

/-- Steps prime to the number of places meet the same place just once a round. -/
theorem mod_stride_inj {i t u : Nat} (hs : Nat.Coprime s k) (h : (i + s * t) % k = (i + s * u) % k) : t ≡ u [MOD k] := by
  have hmul : s * t ≡ s * u [MOD k] := Nat.ModEq.add_left_cancel' i h
  exact Nat.ModEq.cancel_left_of_coprime (Nat.coprime_comm.1 hs) hmul

/-- Every place comes up in each window as long as the circle. -/
theorem exists_stride_eq (i a : Nat) (hs : Nat.Coprime s k) (hj : j < k) :
    ∃ t, a < t ∧ t ≤ a + k ∧ (i + s * t) % k = j := by
  have hk : 0 < k := by omega
  let f : Fin k → Fin k := fun m => ⟨(i + s * (a + 1 + m)) % k, Nat.mod_lt _ hk⟩
  have hinj : Function.Injective f := by
    intro m n hmn
    have hmod := mod_stride_inj hs (Fin.mk.inj hmn)
    have hrest : (m : Nat) ≡ n [MOD k] := Nat.ModEq.add_left_cancel' (a + 1) hmod
    exact Fin.ext (Nat.ModEq.eq_of_lt_of_lt hrest m.2 n.2)
  obtain ⟨m, hm⟩ := Finite.injective_iff_surjective.1 hinj ⟨j, hj⟩
  exact ⟨a + 1 + m, by omega, by omega, Fin.mk.inj hm⟩

/-- **Fair turns.**  A stride prime to the number of places leaves nobody out. -/
theorem evenTurns_of_stride (he : e.Nodup) (hs : Nat.Coprime s e.length) (h : Strides e s l) : EvenTurns e l := by
  obtain ⟨i, hi⟩ := h
  intro a b x hab ha hb hfirst y hy hyx
  have hblt : b < l.length := (List.getElem?_eq_some_iff.1 hb).1
  obtain ⟨j, hj, rfl⟩ := getElem_of_mem hy
  have hpos : 0 < e.length := by omega
  -- turns of one element are congruent
  have hcong : ∀ t u z, t < l.length → u < l.length → l[t]? = some z → l[u]? = some z →
      t ≡ u [MOD e.length] := by
    intro t u z ht hu htz huz
    rw [hi t ht] at htz
    rw [hi u hu] at huz
    have hlt : (i + s * t) % e.length < e.length := Nat.mod_lt _ hpos
    exact mod_stride_inj hs ((getElem?_inj hlt he).1 (htz.trans huz.symm))
  have hdvd : e.length ∣ b - a :=
    (Nat.modEq_iff_dvd' (by omega)).1 (hcong a b x (by omega) hblt ha hb)
  -- so the next turn of `x` is exactly one round later
  have hround : b = a + e.length := by
    have hle : e.length ≤ b - a := Nat.le_of_dvd (by omega) hdvd
    by_contra hne
    refine hfirst (a + e.length) (by omega) (by omega) ?_
    rw [hi _ (by omega), mul_add, ← add_assoc, Nat.add_mul_mod_self_right, ← hi a (by omega), ha]
  obtain ⟨t, hat, htb, htj⟩ := exists_stride_eq i a hs hj
  have hty : l[t]? = some e[j] := by rw [hi t (by omega), htj, getElem?_eq_getElem hj]
  have htne : t ≠ b := by
    rintro rfl
    exact hyx (Option.some.inj (hty.symm.trans hb))
  refine ⟨t, ⟨⟨hat, by omega⟩, hty⟩, ?_⟩
  rintro u ⟨⟨hau, hub⟩, huy⟩
  have hmod := hcong u t _ (by omega) (by omega) huy hty
  exact Nat.ModEq.eq_of_abs_lt hmod (by rw [abs_lt]; omega)

end Cyclic
