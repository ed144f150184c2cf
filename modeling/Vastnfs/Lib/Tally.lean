import Mathlib.Algebra.Order.BigOperators.Group.List
import Mathlib.Data.Finset.Max
import Mathlib.Tactic.Linarith

/-!
# Counting and averages

A `tally` counts the members of a finite set that satisfy a predicate.

* `tally_change`: what it becomes when one member joins, leaves or changes its answer.
* `toNat_change`, `toNat_stale`: an unsigned counter that follows the change still shows the tally,
  and one that misses it does not.
* `exists_mul_length_le_sum`: somebody is at or below the average.
-/

namespace Tally

variable {ι : Type*} [DecidableEq ι]

/-- How many members of `s` satisfy `P`. -/
def tally (s : Finset ι) (P : ι → Prop) [DecidablePred P] : Nat := (s.filter P).card

def one (P : Prop) [Decidable P] : Nat := if P then 1 else 0

@[simp] theorem one_pos {P : Prop} [Decidable P] (h : P) : one P = 1 := if_pos h

@[simp] theorem one_neg {P : Prop} [Decidable P] (h : ¬ P) : one P = 0 := if_neg h

variable {s : Finset ι} {i : ι} {P Q : ι → Prop} [DecidablePred P] [DecidablePred Q]

omit [DecidableEq ι] in
theorem tally_congr (h : ∀ j ∈ s, P j ↔ Q j) : tally s P = tally s Q := by
  rw [tally, tally, Finset.filter_congr h]

theorem tally_erase (s : Finset ι) (i : ι) (P : ι → Prop) [DecidablePred P] :
    tally s P = tally (s.erase i) P + one (i ∈ s ∧ P i) := by
  rw [tally, tally, Finset.filter_erase]
  by_cases hi : i ∈ s ∧ P i
  · rw [one_pos hi, Finset.card_erase_add_one (Finset.mem_filter.2 hi)]
  · rw [one_neg hi, Nat.add_zero, Finset.erase_eq_of_notMem (fun h => hi (Finset.mem_filter.1 h))]

/-- Only `i` may join, leave, or change its answer. -/
theorem tally_change {s' : Finset ι} (hs : s'.erase i = s.erase i) (h : ∀ j, j ≠ i → (P j ↔ Q j)) :
    tally s' Q + one (i ∈ s ∧ P i) = tally s P + one (i ∈ s' ∧ Q i) := by
  have hrest : tally (s.erase i) P = tally (s'.erase i) Q := by
    rw [hs]
    exact tally_congr fun j hj => h j (Finset.ne_of_mem_erase hj)
  rw [tally_erase s' i Q, tally_erase s i P, hrest]
  exact Nat.add_right_comm _ _ _

/-! ## Unsigned counters -/

def unit (b : Bool) : UInt32 := if b then 1 else 0

theorem unit_eq_ofNat (b : Bool) : unit b = UInt32.ofNat (one (b = true)) := by
  cases b <;> rfl

theorem counter_up (c : UInt32) (p : Prop) [Decidable p] :
    (if p then c + 1 else c) + unit false = c + unit (decide p) := by
  by_cases hp : p <;> simp [unit, hp]

theorem counter_down (c : UInt32) (p : Prop) [Decidable p] :
    (if p then c - 1 else c) + unit (decide p) = c + unit false := by
  by_cases hp : p <;> simp [unit, hp]

theorem counter_trans {a b c p q r : UInt32} (h : b + p = a + q) (h' : c + q = b + r) : c + p = a + r := by
  have hsum : c + p + q = a + r + q := by
    calc c + p + q = c + q + p := by ac_rfl
      _ = b + p + r := by rw [h']; ac_rfl
      _ = a + r + q := by rw [h]; ac_rfl
  exact (UInt32.add_left_inj q).1 hsum

section

variable {p q : ι → Bool} {c c' : UInt32} (hi : i ∈ s) (h : ∀ j, j ≠ i → p j = q j)
include hi h

theorem tally_bool_change :
    tally s (fun j => q j = true) + one (p i = true) = tally s (fun j => p j = true) + one (q i = true) := by
  have hchange := tally_change (s := s) (i := i) (P := fun j => p j = true) (Q := fun j => q j = true) rfl
    fun j hj => by rw [h j hj]
  simpa only [hi, true_and] using hchange

/-- A counter that follows the change of one member shows the new tally, also where it wraps. -/
theorem toNat_change (hcard : s.card < 2 ^ 32) (hc : c' + unit (p i) = c + unit (q i))
    (hkept : c.toNat = tally s fun j => p j = true) : c'.toNat = tally s fun j => q j = true := by
  have hlt : (tally s fun j => q j = true) < 2 ^ 32 := Nat.lt_of_le_of_lt (Finset.card_filter_le s _) hcard
  have hc' : c' = UInt32.ofNat (tally s fun j => q j = true) := by
    rw [← UInt32.add_left_inj (unit (p i)), hc, ← UInt32.ofNat_toNat (x := c), hkept, unit_eq_ofNat, unit_eq_ofNat,
      ← UInt32.ofNat_add, ← UInt32.ofNat_add, tally_bool_change hi h]
  rw [hc', UInt32.toNat_ofNat', Nat.mod_eq_of_lt hlt]

theorem toNat_stale (hne : p i ≠ q i) (hkept : c.toNat = tally s fun j => p j = true) :
    c.toNat ≠ tally s fun j => q j = true := by
  intro hstill
  have hchange := tally_bool_change hi h
  apply hne
  cases hp : p i <;> cases hq : q i <;> simp_all

end

theorem exists_mul_length_le_sum (f : ι → Nat) {l : List ι} (hl : l ≠ []) :
    ∃ x ∈ l, f x * l.length ≤ (l.map f).sum := by
  obtain ⟨a, ha⟩ := List.exists_mem_of_ne_nil l hl
  obtain ⟨x, hx, hmin⟩ := Finset.exists_min_image l.toFinset f ⟨a, List.mem_toFinset.2 ha⟩
  refine ⟨x, List.mem_toFinset.1 hx, ?_⟩
  have hle := List.card_nsmul_le_sum (l.map f) (f x) (by
    intro n hn
    obtain ⟨y, hy, rfl⟩ := List.mem_map.1 hn
    exact hmin y (List.mem_toFinset.2 hy))
  rw [List.length_map, nsmul_eq_mul, Nat.cast_id, Nat.mul_comm] at hle
  exact hle

end Tally
