import Mathlib.Data.List.Perm.Basic

/-!
# Bubble sort

Passes over a list that swap neighbours out of order, until one pass swaps none.

* `bubbleSort_perm`: the elements stay.
-/

namespace BubbleSort

variable {α : Type*} (gt : α → α → Bool)

/-- One pass with `a` in front of the list, and whether it found nothing to swap. -/
def bubbleFrom (a : α) : List α → List α × Bool
  | [] => ([a], true)
  | b :: l =>
    if gt a b then (b :: (bubbleFrom a l).1, false) else (a :: (bubbleFrom b l).1, (bubbleFrom b l).2)

def bubblePass : List α → List α × Bool
  | [] => ([], true)
  | a :: l => bubbleFrom gt a l

/-- Passes until one finds nothing to swap, at most so many. -/
def bubbleLoop : Nat → List α → List α
  | 0, l => l
  | n + 1, l => if (bubblePass gt l).2 then (bubblePass gt l).1 else bubbleLoop n (bubblePass gt l).1

def bubbleSort (l : List α) : List α := bubbleLoop gt (l.length * l.length + 1) l

variable {gt}

theorem bubbleFrom_perm (a : α) (l : List α) : (bubbleFrom gt a l).1.Perm (a :: l) := by
  induction l generalizing a with
  | nil => exact List.Perm.refl _
  | cons b l ih =>
    rw [bubbleFrom]
    split
    · exact ((ih a).cons b).trans (List.Perm.swap a b l)
    · exact (ih b).cons a

theorem bubblePass_perm (l : List α) : (bubblePass gt l).1.Perm l := by
  cases l with
  | nil => exact List.Perm.refl _
  | cons a l => exact bubbleFrom_perm a l

theorem bubbleLoop_perm (n : Nat) (l : List α) : (bubbleLoop gt n l).Perm l := by
  induction n generalizing l with
  | zero => exact List.Perm.refl _
  | succ n ih =>
    rw [bubbleLoop]
    split
    · exact bubblePass_perm l
    · exact (ih _).trans (bubblePass_perm l)

theorem bubbleSort_perm (l : List α) : (bubbleSort gt l).Perm l := bubbleLoop_perm _ l

end BubbleSort
