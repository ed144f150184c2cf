import Mathlib.Data.BitVec

/-!
# A sliding window of numbers seen

A receiver that sees every number at most once keeps the numbers seen so far; one of `w` numbers of memory
keeps the greatest of them and a ring of `w` bits for the numbers that are less than `w` below it.

* `offer`: the numbers seen, after one more has been offered; `offer_nodup`: none is taken twice.
* `Marks`: the ring remembers just the numbers seen inside the window.
* `Marks.slide`, `Marks.jump`, `Marks.mark`: the window moves by one, by `w` or more, and takes a number.
-/

namespace ReplayWindow

variable {w : Nat}

/-! ## The numbers seen -/

def top (seen : List Nat) : Nat := seen.foldr max 0

/-- A number is taken when it has not been seen and exceeds the greatest one seen less `w`. -/
def Admits (w : Nat) (seen : List Nat) (n : Nat) : Prop := n ∉ seen ∧ top seen < n + w
deriving Decidable

/-- The numbers seen after `n` has been offered. -/
def offer (w : Nat) (seen : List Nat) (n : Nat) : List Nat := if Admits w seen n then n :: seen else seen

@[simp] theorem offer_of_admits {seen : List Nat} {n : Nat} (h : Admits w seen n) : offer w seen n = n :: seen := if_pos h

@[simp] theorem offer_of_not_admits {seen : List Nat} {n : Nat} (h : ¬ Admits w seen n) : offer w seen n = seen := if_neg h

theorem offer_nodup {seen : List Nat} (h : seen.Nodup) (n : Nat) : (offer w seen n).Nodup := by
  by_cases hnew : Admits w seen n
  · rw [offer_of_admits hnew]
    exact List.nodup_cons.2 ⟨hnew.1, h⟩
  · rw [offer_of_not_admits hnew]
    exact h

/-! ## The ring -/

/-- The ring with the bit of `n` set. -/
def setBit (ring : BitVec w) (n : Nat) : BitVec w := ring ||| BitVec.twoPow w (n % w)

/-- The ring with the bit of `n` cleared. -/
def clearBit (ring : BitVec w) (n : Nat) : BitVec w := ring &&& ~~~ BitVec.twoPow w (n % w)

/-- The bit of `n`. -/
def testBit (ring : BitVec w) (n : Nat) : Bool := ring.getLsbD (n % w)

variable {ring : BitVec w} {m n i : Nat} {seen : List Nat}

theorem testBit_setBit (hw : 0 < w) : testBit (setBit ring n) i = (testBit ring i || decide (n % w = i % w)) := by
  have hn := Nat.mod_lt n hw
  simp [testBit, setBit, BitVec.getLsbD_twoPow, hn]

theorem testBit_clearBit (hw : 0 < w) : testBit (clearBit ring n) i = (testBit ring i && !decide (n % w = i % w)) := by
  have hi := Nat.mod_lt i hw
  simp [testBit, clearBit, hi, eq_comm]

/-- Two numbers of one window with the same bit are the same. -/
theorem eq_of_mod_eq (h : n % w = i % w) (hn : n ≤ m) (hn' : m < n + w) (hi : i ≤ m) (hi' : m < i + w) : n = i := by
  refine Nat.ModEq.eq_of_abs_lt h ?_
  rw [abs_lt]
  omega

/-- The ring remembers the numbers seen that are less than `w` below `m`, and none is above. -/
structure Marks (ring : BitVec w) (m : Nat) (seen : List Nat) : Prop where
  below : ∀ i ∈ seen, i ≤ m
  bit : ∀ i, i ≤ m → m < i + w → testBit ring i = decide (i ∈ seen)

/-- The window moves by one: the bit of the number that comes in was that of the number that goes out. -/
theorem Marks.slide (hw : 0 < w) (h : Marks ring m seen) : Marks (clearBit ring (m + 1)) (m + 1) seen := by
  refine ⟨fun i hi => Nat.le_succ_of_le (h.below i hi), fun i hi hi' => ?_⟩
  rw [testBit_clearBit hw]
  by_cases heq : (m + 1) % w = i % w
  · have hi'' : m + 1 = i := eq_of_mod_eq heq le_rfl (by omega) hi hi'
    have hnot : i ∉ seen := fun hmem => by
      have := h.below i hmem
      omega
    simp [heq, hnot]
  · have hne : i ≠ m + 1 := fun hi => heq (by rw [hi])
    simp [heq, h.bit i (by omega) (by omega)]

theorem Marks.jump (h : Marks ring m seen) (hle : m + w ≤ n) : Marks (0 : BitVec w) n seen := by
  refine ⟨fun i hi => ?_, fun i hi hi' => ?_⟩
  · have := h.below i hi
    omega
  · have hnot : i ∉ seen := fun hmem => by
      have := h.below i hmem
      omega
    simp [testBit, hnot]

theorem Marks.mark (hw : 0 < w) (h : Marks ring m seen) (hn : n ≤ m) (hn' : m < n + w) :
    Marks (setBit ring n) m (n :: seen) := by
  refine ⟨List.forall_mem_cons.2 ⟨hn, h.below⟩, fun i hi hi' => ?_⟩
  · rw [testBit_setBit hw, h.bit i hi hi']
    have hiff : n % w = i % w ↔ i = n :=
      ⟨fun heq => (eq_of_mod_eq heq hn hn' hi hi').symm, fun heq => by rw [heq]⟩
    simp only [hiff, List.mem_cons, Bool.decide_or]
    exact Bool.or_comm _ _

end ReplayWindow
