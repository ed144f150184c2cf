import Mathlib.Tactic.Cases

/-!
# Maps made of intervals

A map on the natural numbers given by a list of pieces. Each piece holds a half-open interval and gives every point
of it a value.

* `Ordered`: no piece is empty and the pieces stand apart, from left to right.
* `valueAt_insert`: a piece that fits in adds its own points.
* `Ordered.replace`: pieces in the middle may be exchanged for others that hold no other points.
* `Ordered.join`: two adjacent pieces may be joined.
-/

namespace Intervals

open List Option

variable {α β : Type*} (lo hi : α → Nat) (val : α → Nat → β)

/-- The value of the piece that holds `n`. -/
def valueAt (xs : List α) (n : Nat) : Option β := (xs.find? fun x => lo x ≤ n ∧ n < hi x).map fun x => val x n

/-- No piece is empty, and each one ends before the next begins. -/
structure Ordered (xs : List α) : Prop where
  nonempty : ∀ x ∈ xs, lo x < hi x
  apart : xs.Pairwise fun x y => hi x ≤ lo y

variable {lo hi val} {xs ys zs : List α} {x y z : α} {n : Nat} {b : β}

section

@[simp] theorem valueAt_nil : valueAt lo hi val [] n = none := rfl

theorem valueAt_cons :
    valueAt lo hi val (x :: xs) n = if lo x ≤ n ∧ n < hi x then some (val x n) else valueAt lo hi val xs n := by
  by_cases h : lo x ≤ n ∧ n < hi x
  · simp [valueAt, h]
  · rw [if_neg h, valueAt, List.find?_cons_of_neg (by simpa using h), valueAt]

theorem valueAt_append : valueAt lo hi val (xs ++ ys) n = (valueAt lo hi val xs n).or (valueAt lo hi val ys n) := by
  simp [valueAt, List.find?_append, map_or]

theorem valueAt_eq_none : valueAt lo hi val xs n = none ↔ ∀ x ∈ xs, n < lo x ∨ hi x ≤ n := by
  simp only [valueAt, map_eq_none_iff, List.find?_eq_none, decide_eq_true_eq]
  constructor
  · intro h x hx
    have := h x hx
    omega
  · intro h x hx
    have := h x hx
    omega

theorem exists_of_valueAt (h : valueAt lo hi val xs n = some b) : ∃ x ∈ xs, lo x ≤ n ∧ n < hi x ∧ val x n = b := by
  obtain ⟨x, hfind, hval⟩ := map_eq_some_iff.1 h
  have hx := List.find?_some hfind
  simp only [decide_eq_true_eq] at hx
  exact ⟨x, mem_of_find?_eq_some hfind, hx.1, hx.2, hval⟩

end

theorem ordered_nil : Ordered lo hi ([] : List α) :=
  ⟨fun x hx => (by cases hx), List.Pairwise.nil⟩

theorem ordered_append :
    Ordered lo hi (xs ++ ys) ↔ Ordered lo hi xs ∧ Ordered lo hi ys ∧ ∀ x ∈ xs, ∀ y ∈ ys, hi x ≤ lo y := by
  constructor
  · intro h
    obtain ⟨hxs, hys, hcross⟩ := pairwise_append.1 h.apart
    exact ⟨⟨fun x hx => h.nonempty x (mem_append_left _ hx), hxs⟩,
      ⟨fun y hy => h.nonempty y (mem_append_right _ hy), hys⟩, hcross⟩
  · rintro ⟨hxs, hys, hcross⟩
    exact ⟨forall_mem_append.2 ⟨hxs.nonempty, hys.nonempty⟩, pairwise_append.2 ⟨hxs.apart, hys.apart, hcross⟩⟩

theorem ordered_cons : Ordered lo hi (x :: xs) ↔ lo x < hi x ∧ Ordered lo hi xs ∧ ∀ y ∈ xs, hi x ≤ lo y := by
  constructor
  · intro h
    obtain ⟨hx, hxs⟩ := pairwise_cons.1 h.apart
    exact ⟨h.nonempty x mem_cons_self, ⟨fun y hy => h.nonempty y (mem_cons_of_mem _ hy), hxs⟩, hx⟩
  · rintro ⟨hne, hxs, hx⟩
    exact ⟨forall_mem_cons.2 ⟨hne, hxs.nonempty⟩, pairwise_cons.2 ⟨hx, hxs.apart⟩⟩

theorem ordered_middle : Ordered lo hi (xs ++ x :: ys) ↔
    Ordered lo hi (xs ++ ys) ∧ lo x < hi x ∧ (∀ y ∈ xs, hi y ≤ lo x) ∧ ∀ y ∈ ys, hi x ≤ lo y := by
  constructor
  · intro h
    obtain ⟨hxs, hrest, hcross⟩ := ordered_append.1 h
    obtain ⟨hne, hys, hx⟩ := ordered_cons.1 hrest
    exact ⟨ordered_append.2 ⟨hxs, hys, fun a ha b hb => hcross a ha b (mem_cons_of_mem _ hb)⟩, hne,
      fun a ha => hcross a ha x mem_cons_self, hx⟩
  · rintro ⟨h, hne, hbefore, hafter⟩
    obtain ⟨hxs, hys, hcross⟩ := ordered_append.1 h
    exact ordered_append.2 ⟨hxs, ordered_cons.2 ⟨hne, hys, hafter⟩,
      fun a ha => forall_mem_cons.2 ⟨hbefore a ha, hcross a ha⟩⟩

theorem Ordered.valueAt_of_mem (h : Ordered lo hi xs) (hx : x ∈ xs) (hlo : lo x ≤ n) (hhi : n < hi x) :
    valueAt lo hi val xs n = some (val x n) := by
  induction xs with
  | nil => cases hx
  | cons y ys ih =>
    obtain ⟨-, hys, hy⟩ := ordered_cons.1 h
    rw [valueAt_cons]
    rcases mem_cons.1 hx with rfl | hx
    · rw [if_pos ⟨hlo, hhi⟩]
    have := hy x hx
    rw [if_neg (by omega)]
    exact ih hys hx

/-- **A piece that fits in** adds its own points and changes no other one. -/
theorem valueAt_insert (h : Ordered lo hi (xs ++ x :: ys)) :
    valueAt lo hi val (xs ++ x :: ys) n = (valueAt lo hi val (xs ++ ys) n).or (valueAt lo hi val [x] n) := by
  obtain ⟨-, -, -, hafter⟩ := ordered_middle.1 h
  rw [valueAt_append, valueAt_append, valueAt_cons, Option.or_assoc, valueAt_cons]
  split
  · rename_i hin
    have hnone : valueAt lo hi val ys n = none := by
      rw [valueAt_eq_none]
      intro y hy
      have := hafter y hy
      omega
    rw [hnone]
    rfl
  · rw [valueAt_nil, Option.or_none]

/-- **Pieces in the middle** may be exchanged for others that hold no other points. -/
theorem Ordered.replace (h : Ordered lo hi (xs ++ ys ++ zs)) {ys' : List α} (hys' : Ordered lo hi ys')
    (hsub : ∀ n, valueAt lo hi val ys n = none → valueAt lo hi val ys' n = none) :
    Ordered lo hi (xs ++ ys' ++ zs) := by
  obtain ⟨hleft, hzs, hcross⟩ := ordered_append.1 h
  obtain ⟨hxs, hys, hxy⟩ := ordered_append.1 hleft
  -- The first and the last point of a new piece lie in old ones.
  have hold : ∀ y ∈ ys', ∀ n, lo y ≤ n → n < hi y → ∃ x ∈ ys, lo x ≤ n ∧ n < hi x := by
    intro y hy n hlo hhi
    cases hvalue : valueAt lo hi val ys n with
    | none =>
      have hnone := hsub n hvalue
      rw [hys'.valueAt_of_mem hy hlo hhi] at hnone
      cases hnone
    | some b =>
      obtain ⟨x, hx, hxlo, hxhi, -⟩ := exists_of_valueAt hvalue
      exact ⟨x, hx, hxlo, hxhi⟩
  refine ordered_append.2 ⟨ordered_append.2 ⟨hxs, hys', ?_⟩, hzs, ?_⟩
  · intro a ha y hy
    obtain ⟨x, hx, hlo, -⟩ := hold y hy (lo y) (Nat.le_refl _) (hys'.nonempty y hy)
    exact Nat.le_trans (hxy a ha x hx) hlo
  · intro a ha c hc
    rcases mem_append.1 ha with ha | ha
    · exact hcross a (mem_append_left _ ha) c hc
    have hne := hys'.nonempty a ha
    obtain ⟨x, hx, -, hhi⟩ := hold a ha (hi a - 1) (by omega) (by omega)
    have := hcross x (mem_append_right _ hx) c hc
    omega

variable (hadj : hi x = lo y) (hlo : lo z = lo x) (hhi : hi z = hi y)
  (hx : ∀ n, lo x ≤ n → n < hi x → val z n = val x n) (hy : ∀ n, lo y ≤ n → n < hi y → val z n = val y n)
include hadj hlo hhi hx hy

/-- A piece that holds the points of two adjacent ones and agrees with them stands for both. -/
theorem valueAt_join (h : Ordered lo hi [x, y]) : valueAt lo hi val [z] n = valueAt lo hi val [x, y] n := by
  have hxne := h.nonempty x (by simp)
  have hyne := h.nonempty y (by simp)
  simp only [valueAt_cons, valueAt_nil]
  by_cases h1 : lo x ≤ n ∧ n < hi x
  · rw [if_pos (by omega), if_pos h1, hx n h1.1 h1.2]
  rw [if_neg h1]
  by_cases h2 : lo y ≤ n ∧ n < hi y
  · rw [if_pos (by omega), if_pos h2, hy n h2.1 h2.2]
  · rw [if_neg (by omega), if_neg h2]

theorem Ordered.join (h : Ordered lo hi (xs ++ [x, y] ++ ys)) :
    Ordered lo hi (xs ++ [z] ++ ys) ∧ ∀ n, valueAt lo hi val (xs ++ [z] ++ ys) n = valueAt lo hi val (xs ++ [x, y] ++ ys) n := by
  have hmid := (ordered_append.1 (ordered_append.1 h).1).2.1
  have heq := fun n => valueAt_join (n := n) hadj hlo hhi hx hy hmid
  have hxne := hmid.nonempty x (by simp)
  have hyne := hmid.nonempty y (by simp)
  constructor
  · refine @Ordered.replace _ _ _ _ val _ _ _ h _ (ordered_cons.2 ⟨by omega, ordered_nil, nofun⟩) ?_
    intro n hn
    exact (heq n).trans hn
  · intro n
    rw [valueAt_append, valueAt_append, heq n, valueAt_append, valueAt_append]

end Intervals
