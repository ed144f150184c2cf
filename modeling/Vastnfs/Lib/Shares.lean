import Mathlib.Data.List.Count
import Mathlib.Tactic.Ring

/-!
# Even shares

`n` items are dealt to `k` slots in order: every slot gets `n / k` of them, and the first `n % k`
slots one more.

* `start_all`: the shares add up to `n`.
* `seat_spec`: dealing item by item, a full slot being left for the next one, reaches the seat of
  every item.
* `count_slot`: and so gives every slot its share.
-/

namespace Shares

/-- The share of slot `m`. -/
def share (n k m : Nat) : Nat := n / k + if m < n % k then 1 else 0

/-- The number of items in the slots before slot `m`. -/
def start (n k m : Nat) : Nat := m * (n / k) + min m (n % k)

/-- The seat after a seat: the next place of the slot, or the first one of the next slot. -/
def nextSeat (n k : Nat) (s : Nat × Nat) : Nat × Nat :=
  if s.2 + 1 < share n k s.1 then (s.1, s.2 + 1) else (s.1 + 1, 0)

/-- The slot of item `j` and its place there. -/
def seat (n k : Nat) : Nat → Nat × Nat
  | 0 => (0, 0)
  | j + 1 => nextSeat n k (seat n k j)

/-- The slot of item `j`. -/
def slot (n k j : Nat) : Nat := (seat n k j).1

variable {n k m j : Nat}

theorem start_zero : start n k 0 = 0 := by
  simp [start]

theorem start_succ : start n k (m + 1) = start n k m + share n k m := by
  have hmul : (m + 1) * (n / k) = m * (n / k) + n / k := Nat.succ_mul _ _
  unfold start share
  split <;> omega

theorem start_all (hk : 0 < k) : start n k k = n := by
  unfold start
  rw [min_eq_right (Nat.mod_lt n hk).le]
  exact Nat.div_add_mod n k

theorem start_mono : Monotone (start n k) := by
  refine monotone_nat_of_le_succ fun m => ?_
  rw [start_succ]
  exact Nat.le_add_right _ _

/-- A slot is not empty as long as there are items left for it. -/
theorem share_pos (h : start n k m < n) : 0 < share n k m := by
  have hn : k * (n / k) + n % k = n := Nat.div_add_mod n k
  unfold start at h
  unfold share
  rcases eq_zero_or_pos (n / k) with hq | hq
  · rw [hq, mul_zero, zero_add] at hn h
    rw [if_pos (by omega)]
    omega
  · omega

/-- The slots in use are the first ones, as many as there are items or slots. -/
theorem share_pos_iff (hm : m < k) : 0 < share n k m ↔ m < min n k := by
  have hn : n = k * (n / k) + n % k := (Nat.div_add_mod n k).symm
  unfold share
  rcases eq_zero_or_pos (n / k) with hq | hq
  · rw [hq, mul_zero, zero_add] at hn
    rw [← hn, hq]
    split <;> omega
  have hkn : k ≤ k * (n / k) := Nat.le_mul_of_pos_right k hq
  constructor
  · intro _
    omega
  · intro _
    omega

/-- **The seat of an item.**  It lies in its slot, after the items of the slots before it. -/
theorem seat_spec : ∀ {j : Nat}, j < n →
    start n k (seat n k j).1 + (seat n k j).2 = j ∧ (seat n k j).2 < share n k (seat n k j).1
  | 0, h => ⟨start_zero, share_pos (by rw [seat, start_zero]; exact h)⟩
  | j + 1, h => by
    obtain ⟨hat, hlt⟩ := seat_spec (Nat.lt_of_succ_lt h)
    rw [seat, nextSeat]
    split_ifs with hc
    · exact ⟨by rw [← add_assoc, hat], hc⟩
    have hnext : start n k ((seat n k j).1 + 1) = j + 1 := by
      rw [start_succ]
      omega
    exact ⟨hnext, share_pos (hnext.trans_lt h)⟩

/-- An item is in the slot whose range it falls in. -/
theorem slot_eq_iff (hj : j < n) : slot n k j = m ↔ start n k m ≤ j ∧ j < start n k (m + 1) := by
  obtain ⟨hat, hlt⟩ := seat_spec (k := k) hj
  have hend : j < start n k (slot n k j + 1) := by
    rw [start_succ]
    unfold slot
    omega
  constructor
  · rintro rfl
    exact ⟨by unfold slot; omega, hend⟩
  · rintro ⟨hlo, hhi⟩
    by_contra hne
    rcases Nat.lt_or_gt_of_ne hne with hlt' | hgt
    · have hle : start n k (slot n k j + 1) ≤ start n k m := start_mono hlt'
      omega
    have hle : start n k (m + 1) ≤ start n k (slot n k j) := start_mono hgt
    unfold slot at hle
    omega

theorem slot_lt (hk : 0 < k) (hj : j < n) : slot n k j < k := by
  have hlo := ((slot_eq_iff (k := k) hj).1 rfl).1
  by_contra hge
  have hle : start n k k ≤ start n k (slot n k j) := start_mono (not_lt.1 hge)
  rw [start_all hk] at hle
  omega

theorem slot_lt_min (hk : 0 < k) (hj : j < n) : slot n k j < min n k := by
  rw [← share_pos_iff (slot_lt hk hj)]
  exact Nat.zero_lt_of_lt (seat_spec hj).2

theorem start_min (hk : 0 < k) : start n k (min n k) = n := by
  rcases le_total k n with hle | hle
  · rw [min_eq_right hle, start_all hk]
  rw [min_eq_left hle]
  rcases Nat.lt_or_eq_of_le hle with hlt | rfl
  · rw [start, Nat.div_eq_of_lt hlt, Nat.mod_eq_of_lt hlt, mul_zero, zero_add, min_self]
  · exact start_all hk

theorem slot_last (hk : 0 < k) (hn : 0 < n) : slot n k (n - 1) = min n k - 1 := by
  have hpos : 0 < min n k := Nat.lt_min.2 ⟨hn, hk⟩
  have hend : start n k (min n k - 1 + 1) = n := by
    rw [Nat.sub_add_cancel hpos, start_min hk]
  have hshare : 0 < share n k (min n k - 1) := (share_pos_iff (by omega)).2 (by omega)
  rw [slot_eq_iff (by omega), hend]
  rw [start_succ] at hend
  omega

theorem slot_mono : Monotone (slot n k) := by
  refine monotone_nat_of_le_succ fun j => ?_
  rw [slot, slot, seat, nextSeat]
  split
  · exact le_refl _
  · exact Nat.le_succ _

theorem countP_range_interval (a b : Nat) :
    (List.range n).countP (fun j => decide (a ≤ j ∧ j < b)) = min b n - min a n := by
  induction n with
  | zero => simp
  | succ n ih =>
    rw [List.range_succ, List.countP_append, ih, List.countP_singleton]
    by_cases h : a ≤ n ∧ n < b
    · rw [decide_eq_true h, if_pos rfl]
      omega
    · rw [decide_eq_false h, if_neg Bool.false_ne_true]
      omega

/-- **Every slot gets its share.** -/
theorem count_slot (hm : m < k) : (List.range n).countP (fun j => decide (slot n k j = m)) = share n k m := by
  have hslot : (List.range n).countP (fun j => decide (slot n k j = m)) =
      (List.range n).countP (fun j => decide (start n k m ≤ j ∧ j < start n k (m + 1))) := by
    refine List.countP_congr fun j hj => ?_
    rw [decide_eq_true_iff, decide_eq_true_iff]
    exact slot_eq_iff (List.mem_range.1 hj)
  have hle : start n k (m + 1) ≤ n := by
    conv_rhs => rw [← start_all (n := n) (Nat.zero_lt_of_lt hm)]
    exact start_mono hm
  rw [hslot, countP_range_interval, min_eq_left hle, min_eq_left (by rw [start_succ] at hle; omega),
    start_succ, Nat.add_sub_cancel_left]

end Shares
