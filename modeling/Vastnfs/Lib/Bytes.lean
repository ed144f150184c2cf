import Mathlib.Tactic.IntervalCases
import Mathlib.Tactic.SplitIfs

/-!
# Memory

A memory is a function from addresses to what is stored there. A copy reads the memory as it was before.

* `copy_append`, `move_right_append`, `move_left_append`: a copy done in two pieces.
* `copyBy_eq`, `moveRightBy_eq`: a copy done piece by piece, in a loop.
* `slice_append`, `slice_congr`, `slice_store`: the contents of an area as a list.
* `toNat_roundUp`: lengths in whole words.
-/

namespace Bytes

open List

variable {α : Type*}

/-- `n` places of `m` from `dst` on become those of `src` from `base` on. -/
def copy (m : Nat → α) (dst : Nat) (src : Nat → α) (base n : Nat) : Nat → α := fun a =>
  if dst ≤ a ∧ a < dst + n then src (base + (a - dst)) else m a

def move (m : Nat → α) (dst base n : Nat) : Nat → α := copy m dst m base n

/-- The list `d`, from `dst` on. -/
def store [Inhabited α] (m : Nat → α) (dst : Nat) (d : List α) : Nat → α := copy m dst (fun i => d.getD i default) 0 d.length

/-- The `n` places from `off` on. -/
def slice (m : Nat → α) (off n : Nat) : List α := (List.range n).map fun i => m (off + i)

/-! ## Copies -/

section

variable {m src : Nat → α} {dst base n k a : Nat}

theorem copy_inside (h : dst ≤ a ∧ a < dst + n) : copy m dst src base n a = src (base + (a - dst)) := if_pos h

theorem copy_outside (h : a < dst ∨ dst + n ≤ a) : copy m dst src base n a = m a := if_neg (by omega)

@[simp] theorem copy_zero : copy m dst src base 0 = m := by
  funext a
  exact copy_outside (by omega)

theorem move_congr {m' : Nat → α} (h : base ≤ dst) (hm : ∀ b ≤ a, m b = m' b) : move m dst base n a = move m' dst base n a := by
  unfold move copy
  split_ifs
  · exact hm _ (by omega)
  · exact hm a le_rfl

theorem copy_append : copy (copy m dst src base k) (dst + k) src (base + k) n = copy m dst src base (k + n) := by
  funext a
  unfold copy
  split_ifs <;> first | omega | rfl | (congr 1; omega)

/-- Within one memory the last piece goes first when the data goes to higher addresses. -/
theorem move_right_append (h : base ≤ dst) : move (move m (dst + n) (base + n) k) dst base n = move m dst base (n + k) := by
  funext a
  unfold move copy
  split_ifs <;> first | omega | rfl | (congr 1; omega)

/-- The first piece goes first when the data goes to lower addresses. -/
theorem move_left_append (h : dst ≤ base) : move (move m dst base k) (dst + k) (base + k) n = move m dst base (k + n) := by
  funext a
  unfold move copy
  split_ifs <;> first | omega | rfl | (congr 1; omega)

end

/-! ## Copies in a loop -/

section

/-- A copy whose next piece has at most `chunk dst base` places. -/
def copyBy (chunk : Nat → Nat → Nat) (m : Nat → α) (dst : Nat) (src : Nat → α) (base n : Nat) : Nat → α :=
  let k := min (chunk dst base) n
  if k = 0 then m else copyBy chunk (copy m dst src base k) (dst + k) src (base + k) (n - k)
termination_by n

/-- A copy to higher addresses, from the end on; `chunk` is asked where the area that is left ends. -/
def moveRightBy (chunk : Nat → Nat → Nat) (m : Nat → α) (dst base n : Nat) : Nat → α :=
  let k := min (chunk (dst + n) (base + n)) n
  if k = 0 then m else moveRightBy chunk (move m (dst + (n - k)) (base + (n - k)) k) dst base (n - k)
termination_by n

variable {chunk : Nat → Nat → Nat} (hchunk : ∀ dst base, 0 < chunk dst base)
include hchunk

theorem copyBy_eq (m : Nat → α) (dst : Nat) (src : Nat → α) (base n : Nat) :
    copyBy chunk m dst src base n = copy m dst src base n := by
  induction n using Nat.strongRecOn generalizing m dst base with
  | _ n ih =>
    have hpos := hchunk dst base
    unfold copyBy
    by_cases hn : n = 0
    · rw [if_pos (by omega), hn, copy_zero]
    rw [if_neg (by omega), ih _ (by omega), copy_append]
    congr 1
    omega

theorem moveRightBy_eq (m : Nat → α) {dst base : Nat} (h : base ≤ dst) (n : Nat) :
    moveRightBy chunk m dst base n = move m dst base n := by
  induction n using Nat.strongRecOn generalizing m with
  | _ n ih =>
    have hpos := hchunk (dst + n) (base + n)
    unfold moveRightBy
    by_cases hn : n = 0
    · rw [if_pos (by omega), hn, move, copy_zero]
    rw [if_neg (by omega), ih _ (by omega), move_right_append h]
    congr 1
    omega

end

/-! ## Areas -/

variable {m m' src : Nat → α} {off off' n k dst base i : Nat}

@[simp] theorem length_slice : (slice m off n).length = n := by simp [slice]

@[simp] theorem slice_zero : slice m off 0 = [] := rfl

theorem slice_append : slice m off k ++ slice m (off + k) n = slice m off (k + n) := by
  simp only [slice, range_add, map_append, map_map]
  congr 1
  refine map_congr_left fun i _ => ?_
  show m (off + k + i) = m (off + (k + i))
  rw [Nat.add_assoc]

theorem slice_congr (h : ∀ i < n, m (off + i) = m' (off' + i)) : slice m off n = slice m' off' n :=
  map_congr_left fun i hi => h i (mem_range.1 hi)

theorem getElem?_slice (hi : i < n) : (slice m off n)[i]? = some (m (off + i)) := by
  simp [slice, hi]

theorem take_slice : (slice m off n).take k = slice m off (min k n) := by
  rw [slice, slice, ← map_take, take_range]

theorem drop_slice : (slice m off n).drop k = slice m (off + k) (n - k) := by
  rcases Nat.le_total k n with hkn | hnk
  · rw [← Nat.add_sub_cancel' hkn, ← slice_append, drop_left' length_slice, Nat.add_sub_cancel_left]
  · rw [drop_eq_nil_of_le (by rw [length_slice]; exact hnk), Nat.sub_eq_zero_of_le hnk, slice_zero]

theorem take_drop_slice {j : Nat} (h : i + j ≤ n) : ((slice m off n).drop i).take j = slice m (off + i) j := by
  rw [drop_slice, take_slice, Nat.min_eq_left (by omega)]

theorem flatten_slices (k : Nat) : ((List.range k).map fun i => slice m (i * n) n).flatten = slice m 0 (k * n) := by
  induction k with
  | zero => rw [Nat.zero_mul]; rfl
  | succ k ih =>
    rw [range_succ, map_append, flatten_append, ih, Nat.succ_mul, ← slice_append, Nat.zero_add]
    simp

theorem slice_copy : slice (copy m dst src base n) dst n = slice src base n :=
  slice_congr fun i hi => by
    rw [copy_inside (by omega), Nat.add_sub_cancel_left]

theorem slice_copy_before (h : off + k ≤ dst) : slice (copy m dst src base n) off k = slice m off k :=
  slice_congr fun i hi => copy_outside (by omega)

theorem slice_copy_behind (h : dst + n ≤ off) : slice (copy m dst src base n) off k = slice m off k :=
  slice_congr fun i hi => copy_outside (by omega)

variable [Inhabited α]

theorem slice_store (d : List α) : slice (store m off d) off d.length = d := by
  rw [store, slice_copy]
  refine ext_getElem? fun i => ?_
  by_cases hi : i < d.length
  · rw [getElem?_slice hi, Nat.zero_add, getD_eq_getElem?_getD, List.getElem?_eq_getElem hi, Option.getD_some]
  · rw [List.getElem?_eq_none (by rw [length_slice]; omega), List.getElem?_eq_none (by omega)]

theorem slice_store_before {d : List α} (h : off + k ≤ dst) : slice (store m dst d) off k = slice m off k :=
  slice_copy_before h

/-! ## Words -/

theorem toNat_roundUp (x : BitVec 32) : ((x + 3) &&& ~~~3#32).toNat = (x.toNat + 3) % 2 ^ 32 / 4 * 4 := by
  have hand : ∀ y : BitVec 32, y &&& ~~~3#32 = y >>> 2 <<< 2 := fun y => by
    ext i hi
    interval_cases i <;> simp
  rw [hand]
  simp [Nat.shiftRight_eq_div_pow, Nat.shiftLeft_eq]
  omega

end Bytes
