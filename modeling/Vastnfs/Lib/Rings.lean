import Mathlib.Data.List.Nodup

/-!
# Circular doubly linked lists

Nodes linked by a `next` and a `prev` pointer, as in `linux/list.h`: a list is a ring through a node
that serves as its head, and a node of its own is the empty list. A pointer without a value is one
that must not be followed.

* `IsRing.rotate`: every node of a ring can serve as its head.
* `IsRing.addTail`, `IsRing.addBefore`, `IsRing.del`, `IsRing.delHead`: what the operations do to a ring.
* `IsRing.find`, `IsRing.walk`: a search along the pointers is a search of the list, and a walk gives the list.
-/

namespace Rings

open List Function

variable {α : Type*}

/-! ## Operations -/

structure Links (α : Type*) where
  (next prev : α → Option α)

section

variable [DecidableEq α] (L : Links α)

def init (a : α) : Links α where
  next := Function.update L.next a (some a)
  prev := Function.update L.prev a (some a)

def isEmpty (a : α) : Bool := L.next a = some a

/-- `new` goes between `p` and `n`. -/
def add (new p n : α) : Links α where
  prev := Function.update (Function.update L.prev n (some new)) new (some p)
  next := Function.update (Function.update L.next new (some n)) p (some new)

/-- `new` goes before `a`, that is to the tail of the list with head `a`. -/
def addTail (new a : α) : Option (Links α) := (L.prev a).map fun p => add L new p a

/-- The neighbours of `a` are linked to each other, and its own pointers are spoiled. -/
def del (a : α) : Option (Links α) :=
  match L.prev a, L.next a with
  | some p, some n => some
      { prev := Function.update (Function.update L.prev n (some p)) a none
        next := Function.update (Function.update L.next p (some n)) a none }
  | _, _ => none

/-- The first node from `a` on that satisfies `P`, before `stop` is reached. -/
def find (P : α → Bool) (stop : α) : Nat → α → Option (Option α)
  | 0, _ => none
  | fuel + 1, a =>
    if a = stop then some none
    else if P a then some (some a)
    else (L.next a).bind fun b => find P stop fuel b

/-- The nodes behind `a`, up to `stop`. -/
def walk (stop : α) : Nat → α → List α
  | 0, _ => []
  | fuel + 1, a =>
    match L.next a with
    | none => []
    | some b => if b = stop then [] else b :: walk stop fuel b

end

/-! ## Rings -/

section

variable {L L' : Links α} {a b c h new x y : α} {l xs ys : List α}

/-- The pointers lead from `a` through `l` to `b`, and back. -/
def Linked (L : Links α) : α → List α → α → Prop
  | a, [], b => L.next a = some b ∧ L.prev b = some a
  | a, x :: xs, b => L.next a = some x ∧ L.prev x = some a ∧ Linked L x xs b

/-- The list `l` with head `h`. -/
structure IsRing (L : Links α) (h : α) (l : List α) : Prop where
  linked : Linked L h l h
  nodup : (h :: l).Nodup

/-- The pointers of `a` are the same. -/
def Same (L L' : Links α) (a : α) : Prop := L'.next a = L.next a ∧ L'.prev a = L.prev a

theorem linked_append : Linked L a (xs ++ y :: ys) b ↔ Linked L a xs y ∧ Linked L y ys b := by
  induction xs generalizing a with
  | nil => simp [Linked, and_assoc]
  | cons x xs ih => simp [Linked, ih, and_assoc]

theorem linked_congr (hnext : ∀ x ∈ a :: l, L'.next x = L.next x) (hprev : ∀ x ∈ l ++ [b], L'.prev x = L.prev x)
    (hl : Linked L a l b) : Linked L' a l b := by
  induction l generalizing a with
  | nil =>
    refine ⟨?_, ?_⟩
    · rw [hnext a mem_cons_self]
      exact hl.1
    · rw [hprev b (by simp)]
      exact hl.2
  | cons x xs ih =>
    refine ⟨?_, ?_, ?_⟩
    · rw [hnext a mem_cons_self]
      exact hl.1
    · rw [hprev x (by simp)]
      exact hl.2.1
    · exact ih (fun y hy => hnext y (mem_cons_of_mem a hy)) (fun y hy => hprev y (by simp at hy ⊢; tauto)) hl.2.2

theorem Linked.prev_eq (hl : Linked L a l b) : L.prev b = some (l.getLastD a) := by
  induction l generalizing a with
  | nil => exact hl.2
  | cons x xs ih =>
    rw [getLastD_cons]
    exact ih hl.2.2

/-- The last node is linked to `c` instead. -/
theorem Linked.redirect (hl : Linked L a l b) (hnodup : (a :: l).Nodup) (hnext : L'.next (l.getLastD a) = some c)
    (hprev : L'.prev c = some (l.getLastD a)) (hsameNext : ∀ x ∈ a :: l, x ≠ l.getLastD a → L'.next x = L.next x)
    (hsamePrev : ∀ x ∈ l, L'.prev x = L.prev x) : Linked L' a l c := by
  induction l generalizing a with
  | nil => exact ⟨hnext, hprev⟩
  | cons x xs ih =>
    rw [getLastD_cons] at hnext hprev hsameNext
    obtain ⟨ha, hnodup⟩ := nodup_cons.1 hnodup
    refine ⟨?_, ?_, ih hl.2.2 hnodup hnext hprev (fun y hy => hsameNext y (mem_cons_of_mem a hy)) fun y hy =>
      hsamePrev y (mem_cons_of_mem x hy)⟩
    · rw [hsameNext a mem_cons_self fun heq => ha (heq ▸ getLastD_mem_cons)]
      exact hl.1
    · rw [hsamePrev x mem_cons_self]
      exact hl.2.1

theorem IsRing.congr (hr : IsRing L h l) (hsame : ∀ x ∈ h :: l, Same L L' x) : IsRing L' h l := by
  refine ⟨linked_congr (fun x hx => (hsame x hx).1) (fun x hx => (hsame x ?_).2) hr.linked, hr.nodup⟩
  simp only [mem_append, mem_singleton] at hx
  rcases hx with hx | rfl
  · exact mem_cons_of_mem h hx
  · exact mem_cons_self

/-- **Every node can serve as the head.** -/
theorem IsRing.rotate (hr : IsRing L h (xs ++ y :: ys)) : IsRing L y (ys ++ h :: xs) := by
  obtain ⟨hlinked, hnodup⟩ := hr
  obtain ⟨hto, hfrom⟩ := linked_append.1 hlinked
  refine ⟨linked_append.2 ⟨hfrom, hto⟩, ?_⟩
  have hperm : (h :: (xs ++ y :: ys)).Perm (y :: (ys ++ h :: xs)) := by
    rw [← cons_append, ← cons_append]
    exact perm_append_comm
  exact hperm.nodup_iff.1 hnodup

end

variable [DecidableEq α] {L L' : Links α} {a b h new x y p n stop : α} {l xs ys : List α} {fuel : Nat} {P : α → Bool}

theorem isRing_init (L : Links α) (a : α) : IsRing (init L a) a [] :=
  ⟨⟨update_self .., update_self ..⟩, nodup_singleton a⟩

theorem same_init (hne : x ≠ a) : Same L (init L a) x :=
  ⟨update_of_ne hne .., update_of_ne hne ..⟩

theorem IsRing.isEmpty_iff (hr : IsRing L h l) : isEmpty L h = true ↔ l = [] := by
  cases l with
  | nil =>
    have hself : L.next h = some h := hr.linked.1
    simp [isEmpty, hself]
  | cons x xs =>
    have hne : x ≠ h := by
      rintro rfl
      exact (nodup_cons.1 hr.nodup).1 mem_cons_self
    have hnext : L.next h = some x := hr.linked.1
    simp [isEmpty, hnext, hne]

theorem add_next_new (hne : new ≠ p) : (add L new p n).next new = some n := by
  simp [add, hne]

theorem add_next_left (p n : α) : (add L new p n).next p = some new := update_self ..

theorem add_prev_new (p n : α) : (add L new p n).prev new = some p := update_self ..

theorem add_prev_right (hne : n ≠ new) : (add L new p n).prev n = some new := by
  simp [add, hne]

theorem add_next_of_ne (hnew : x ≠ new) (hp : x ≠ p) : (add L new p n).next x = L.next x := by
  simp [add, hnew, hp]

theorem add_prev_of_ne (hnew : x ≠ new) (hn : x ≠ n) : (add L new p n).prev x = L.prev x := by
  simp [add, hnew, hn]

theorem IsRing.addTail (hr : IsRing L h l) (hnew : new ∉ h :: l) :
    ∃ L', addTail L new h = some L' ∧ IsRing L' h (l ++ [new]) ∧ ∀ x, x ∉ h :: new :: l → Same L L' x := by
  have hnodup : (h :: (l ++ [new])).Nodup := by
    rw [← cons_append, ← concat_eq_append]
    exact List.Nodup.concat hnew hr.nodup
  obtain ⟨hh, hl⟩ := not_or.1 (mt mem_cons.2 hnew)
  have hp : l.getLastD h ∈ h :: l := getLastD_mem_cons
  refine ⟨add L new (l.getLastD h) h, by simp [Rings.addTail, hr.linked.prev_eq], ⟨linked_append.2 ⟨?_, ?_, ?_⟩, hnodup⟩,
    fun x hx => ?_⟩
  · refine hr.linked.redirect hr.nodup (add_next_left _ h) (add_prev_new _ h) (fun x hx hxp => ?_) fun x hx => ?_
    · exact add_next_of_ne (fun heq => hnew (heq ▸ hx)) hxp
    · exact add_prev_of_ne (fun heq => hl (heq ▸ hx)) fun heq => (nodup_cons.1 hr.nodup).1 (heq ▸ hx)
  · exact add_next_new fun heq => hnew (heq ▸ hp)
  · exact add_prev_right (Ne.symm hh)
  · simp only [mem_cons, not_or] at hx
    refine ⟨add_next_of_ne hx.2.1 fun heq => ?_, add_prev_of_ne hx.2.1 hx.1⟩
    rcases mem_cons.1 hp with hp | hp
    · exact hx.1 (heq.trans hp)
    · exact hx.2.2 (heq ▸ hp)

theorem IsRing.addBefore (hr : IsRing L h (xs ++ y :: ys)) (hnew : new ∉ h :: (xs ++ y :: ys)) :
    ∃ L', Rings.addTail L new y = some L' ∧ IsRing L' h (xs ++ new :: y :: ys) ∧
      ∀ x, x ∉ h :: new :: (xs ++ y :: ys) → Same L L' x := by
  have hnew' : new ∉ y :: (ys ++ h :: xs) := by
    simp at hnew ⊢
    tauto
  obtain ⟨L', hadd, hring, hsame⟩ := hr.rotate.addTail hnew'
  refine ⟨L', hadd, ?_, fun x hx => hsame x (by simp at hx ⊢; tauto)⟩
  rw [append_assoc, cons_append] at hring
  have hback := hring.rotate
  rwa [append_assoc, singleton_append] at hback

/-- The pointers once the neighbours `p` and `n` of `a` are linked to each other. -/
theorem del_eq (hprev : L.prev a = some p) (hnext : L.next a = some n) :
    ∃ L', del L a = some L' ∧ (p ≠ a → L'.next p = some n) ∧ (n ≠ a → L'.prev n = some p) ∧
      (∀ x, x ≠ a → x ≠ p → L'.next x = L.next x) ∧ ∀ x, x ≠ a → x ≠ n → L'.prev x = L.prev x := by
  have hdel : del L a = some
      { prev := Function.update (Function.update L.prev n (some p)) a none
        next := Function.update (Function.update L.next p (some n)) a none } := by
    simp [del, hprev, hnext]
  refine ⟨_, hdel, fun hp => ?_, fun hn => ?_, fun x hx hp => ?_, fun x hx hn => ?_⟩
  · simp [update_of_ne hp]
  · simp [update_of_ne hn]
  · simp [update_of_ne hx, update_of_ne hp]
  · simp [update_of_ne hx, update_of_ne hn]

/-- **The head is taken out**; the first node of the list is then its head. -/
theorem IsRing.delHead (hr : IsRing L h (y :: ys)) :
    ∃ L', del L h = some L' ∧ IsRing L' y ys ∧ ∀ x, x ∉ h :: y :: ys → Same L L' x := by
  obtain ⟨hh, hnodup⟩ := nodup_cons.1 hr.nodup
  obtain ⟨hnext, -, hlinked⟩ := hr.linked
  have hmem : ys.getLastD y ∈ y :: ys := getLastD_mem_cons
  obtain ⟨L', hdel, hp, hn, hsameNext, hsamePrev⟩ := del_eq hlinked.prev_eq hnext
  refine ⟨L', hdel, ⟨?_, hnodup⟩, fun x hx => ?_⟩
  · refine hlinked.redirect hnodup (hp fun heq => hh (heq ▸ hmem)) (hn fun heq => hh (heq ▸ mem_cons_self))
      (fun x hx hxp => hsameNext x (fun heq => hh (heq ▸ hx)) hxp) fun x hx => ?_
    exact hsamePrev x (fun heq => hh (mem_cons_of_mem y (heq ▸ hx))) fun heq => (nodup_cons.1 hnodup).1 (heq ▸ hx)
  · obtain ⟨hxh, hx⟩ := not_or.1 (mt mem_cons.2 hx)
    exact ⟨hsameNext x hxh fun heq => hx (heq ▸ hmem), hsamePrev x hxh fun heq => hx (heq ▸ mem_cons_self)⟩

theorem IsRing.del (hr : IsRing L h (xs ++ y :: ys)) :
    ∃ L', Rings.del L y = some L' ∧ IsRing L' h (xs ++ ys) ∧ ∀ x, x ∉ h :: (xs ++ y :: ys) → Same L L' x := by
  have hrot := hr.rotate
  cases ys with
  | nil =>
    obtain ⟨L', hdel, hring, hsame⟩ := hrot.delHead
    refine ⟨L', hdel, ?_, fun x hx => hsame x (by simp at hx ⊢; tauto)⟩
    rwa [append_nil]
  | cons z zs =>
    obtain ⟨L', hdel, hring, hsame⟩ := hrot.delHead
    exact ⟨L', hdel, hring.rotate, fun x hx => hsame x (by simp at hx ⊢; tauto)⟩

/-- A search along the pointers is a search of the list. -/
theorem find_linked (hlinked : Linked L a l stop) (hstop : stop ∉ a :: l) (hfuel : l.length + 2 ≤ fuel) :
    find L P stop fuel a = some ((a :: l).find? P) := by
  induction l generalizing a fuel with
  | nil =>
    obtain ⟨fuel, rfl⟩ : ∃ n, fuel = n + 2 := ⟨fuel - 2, by simp at hfuel; omega⟩
    have hne : a ≠ stop := fun heq => hstop (by simp [heq])
    have hnext : L.next a = some stop := hlinked.1
    cases hP : P a <;> simp [find, hne, hP, hnext]
  | cons x xs ih =>
    obtain ⟨fuel, rfl⟩ : ∃ n, fuel = n + 1 := ⟨fuel - 1, by simp at hfuel; omega⟩
    have hne : a ≠ stop := fun heq => hstop (by simp [heq])
    have hnext : L.next a = some x := hlinked.1
    have hrest := ih hlinked.2.2 (fun hmem => hstop (mem_cons_of_mem a hmem)) (by simp at hfuel; omega : xs.length + 2 ≤ fuel)
    cases hP : P a with
    | true => simp [find, hne, hP]
    | false => simp [find, hne, hP, hnext, hrest, List.find?_cons_of_neg]

theorem IsRing.find (hr : IsRing L h l) (hfuel : l.length + 1 ≤ fuel) :
    ((L.next h).bind fun a => Rings.find L P h fuel a) = some (l.find? P) := by
  cases l with
  | nil =>
    obtain ⟨fuel, rfl⟩ : ∃ n, fuel = n + 1 := ⟨fuel - 1, by simp at hfuel; omega⟩
    have hnext : L.next h = some h := hr.linked.1
    simp [hnext, Rings.find]
  | cons x xs =>
    have hnext : L.next h = some x := hr.linked.1
    rw [hnext, Option.bind_some]
    exact find_linked hr.linked.2.2 (nodup_cons.1 hr.nodup).1 hfuel

theorem walk_linked (hlinked : Linked L a l stop) (hstop : stop ∉ l) (hfuel : l.length ≤ fuel) :
    walk L stop fuel a = l := by
  induction l generalizing a fuel with
  | nil =>
    have hnext : L.next a = some stop := hlinked.1
    cases fuel <;> simp [walk, hnext]
  | cons x xs ih =>
    obtain ⟨fuel, rfl⟩ : ∃ n, fuel = n + 1 := ⟨fuel - 1, by simp at hfuel; omega⟩
    have hnext : L.next a = some x := hlinked.1
    have hne : x ≠ stop := fun heq => hstop (by simp [heq])
    have hrest := ih hlinked.2.2 (fun hmem => hstop (mem_cons_of_mem x hmem)) (by simpa using hfuel)
    simp [walk, hnext, hne, hrest]

theorem IsRing.walk (hr : IsRing L h l) (hfuel : l.length ≤ fuel) : Rings.walk L h fuel h = l :=
  walk_linked hr.linked (nodup_cons.1 hr.nodup).1 hfuel

end Rings
