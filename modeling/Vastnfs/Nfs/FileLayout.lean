import Mathlib.Data.Int.ModEq

/-!
# File layouts

A layout and its device as the file layout driver takes them from the server, and the place on the data servers that it
gives to each byte of the file (`fs/nfs/filelayout/`).

* `densePlaced_iff`: when dense striping gives every byte a place of its own.
-/

namespace Vastnfs.Nfs

/-! ## Layouts and devices -/

inductive StripeType
  | sparse | dense
deriving DecidableEq

/-- `struct nfs4_filelayout_segment`. -/
structure FilelayoutSegment where
  stripeType : StripeType
  (stripeUnit firstStripeIndex patternOffset numFh : Nat)

/-- `struct nfs4_file_layout_dsaddr`. -/
structure FileLayoutDsaddr where
  (stripeCount dsNum : Nat)

def maxStripeCnt : Nat := 4096

def maxMultiCnt : Nat := 256

/-- What the server sends, up to the file handles and addresses: the layout with its range, and the device. -/
structure LayoutWords where
  (nflUtil firstStripeIndex : BitVec 32)
  patternOffset : BitVec 64
  numFh : BitVec 32
  (offset length : BitVec 64)
  indices : List (BitVec 32)
  num : BitVec 32

section

variable (w : LayoutWords)

def filelayoutDecodeLayout : Option FilelayoutSegment :=
  if max maxStripeCnt maxMultiCnt < w.numFh.toNat then none
  else some
    { stripeType := if w.nflUtil &&& 1#32 ≠ 0#32 then .dense else .sparse
      stripeUnit := (w.nflUtil &&& ~~~0x3F#32).toNat
      firstStripeIndex := w.firstStripeIndex.toNat
      patternOffset := w.patternOffset.toNat
      numFh := w.numFh.toNat }

/-- `nfs4_fl_alloc_deviceid_node`, where the indices are kept as bytes. -/
def nfs4FlAllocDeviceidNode : Option FileLayoutDsaddr :=
  if maxStripeCnt < w.indices.length then none
  else if maxMultiCnt < w.num.toNat then none
  else if w.num.toNat ≤ (w.indices.map fun i => i.toNat % 2 ^ 8).foldl max 0 then none
  else some ⟨w.indices.length, w.num.toNat⟩

def filelayoutCheckLayout (fl : FilelayoutSegment) : Bool :=
  w.offset = 0#64 && w.length = BitVec.allOnes 64 && fl.patternOffset ≤ w.offset.toNat && fl.stripeUnit ≠ 0

def filelayoutCheckDeviceid (fl : FilelayoutSegment) (ds : FileLayoutDsaddr) : Bool :=
  fl.firstStripeIndex < ds.stripeCount &&
    !(fl.stripeType = .sparse && 1 < fl.numFh && fl.numFh ≠ ds.dsNum || fl.stripeType = .dense && fl.numFh ≠ ds.stripeCount)

/-- The segment and the device the driver goes on with. -/
def acceptLayout : Option (FilelayoutSegment × FileLayoutDsaddr) :=
  (filelayoutDecodeLayout w).bind fun fl => (nfs4FlAllocDeviceidNode w).bind fun ds =>
    if filelayoutCheckLayout w fl && filelayoutCheckDeviceid fl ds then some (fl, ds) else none

end

/-! ## Places -/

section

variable (fl : FilelayoutSegment) (ds : FileLayoutDsaddr) (offset : Nat)

def FilelayoutSegment.inPattern : Nat := (offset + 2 ^ 64 - fl.patternOffset) % 2 ^ 64

/-- Here and below `none` is a division by zero. -/
def nfs4FlCalcJIndex : Option Nat :=
  if fl.stripeUnit = 0 ∨ ds.stripeCount = 0 then none
  else some ((fl.inPattern offset / fl.stripeUnit + fl.firstStripeIndex) % 2 ^ 64 % ds.stripeCount)

/-- The `stripe_width` of `filelayout_get_dense_offset`, which has 32 bits. -/
def stripeWidth : Nat := fl.stripeUnit * ds.stripeCount % 2 ^ 32

def filelayoutGetDenseOffset : Option Nat :=
  if stripeWidth fl ds = 0 ∨ fl.stripeUnit = 0 then none
  else some
    ((fl.inPattern offset / stripeWidth fl ds * fl.stripeUnit + fl.inPattern offset % fl.stripeUnit) % 2 ^ 64)

def filelayoutGetDserverOffset : Option Nat :=
  match fl.stripeType with
  | .sparse => some offset
  | .dense => filelayoutGetDenseOffset fl ds offset

/-- Every byte has a place of its own, and the bytes of a stripe unit lie in a row. -/
structure Placed : Prop where
  divides : ∀ x < 2 ^ 63, nfs4FlCalcJIndex fl ds x ≠ none ∧ filelayoutGetDserverOffset fl ds x ≠ none
  injective : ∀ x < 2 ^ 63, ∀ y < 2 ^ 63, nfs4FlCalcJIndex fl ds x = nfs4FlCalcJIndex fl ds y →
    filelayoutGetDserverOffset fl ds x = filelayoutGetDserverOffset fl ds y → x = y
  inRow : ∀ x, x + 1 < 2 ^ 63 → (x + 1) / fl.stripeUnit = x / fl.stripeUnit →
    filelayoutGetDserverOffset fl ds (x + 1) = (filelayoutGetDserverOffset fl ds x).map (· + 1)

/-- What the checks say of a dense layout. -/
structure Accepted : Prop where
  dense : fl.stripeType = .dense
  unit : 0 < fl.stripeUnit
  unit_lt : fl.stripeUnit < 2 ^ 32
  index : fl.firstStripeIndex < ds.stripeCount
  count : ds.stripeCount ≤ 4096
  pattern : fl.patternOffset = 0

end

section

variable {fl : FilelayoutSegment} {ds : FileLayoutDsaddr} {u c d k x y : Nat}

theorem eq_of_place (hu : 0 < u) (hd : 0 < d) (hle : d ≤ c) (hj : (x / u + k) % c = (y / u + k) % c)
    (ho : x / (u * d) * u + x % u = y / (u * d) * u + y % u) : x = y := by
  have hrem : x % u = y % u := by
    have hmod := congrArg (· % u) ho
    simpa using hmod
  have hq : x / u / d = y / u / d := by
    rw [hrem] at ho
    rw [Nat.div_div_eq_div_mul, Nat.div_div_eq_div_mul]
    exact Nat.eq_of_mul_eq_mul_right hu (Nat.add_right_cancel ho)
  have hunit : x / u = y / u := by
    refine Nat.ModEq.eq_of_abs_lt (Nat.ModEq.add_right_cancel' k hj) ?_
    have hx := Nat.div_add_mod (x / u) d
    have hy := Nat.div_add_mod (y / u) d
    have hxlt := Nat.mod_lt (x / u) hd
    have hylt := Nat.mod_lt (y / u) hd
    rw [hq] at hx
    rw [abs_lt]
    omega
  rw [← Nat.div_add_mod x u, ← Nat.div_add_mod y u, hunit, hrem]

theorem place_le : x / (u * d) * u + x % u ≤ x := by
  have hle := Nat.mul_le_mul_right u (Nat.div_le_self (x / u) d)
  rw [Nat.div_div_eq_div_mul] at hle
  have hx := Nat.div_add_mod' x u
  omega

theorem succ_mod (h : (x + 1) / u = x / u) : (x + 1) % u = x % u + 1 := by
  have hx := Nat.div_add_mod x u
  have hx' := Nat.div_add_mod (x + 1) u
  rw [h] at hx'
  omega

theorem accepted_of_acceptLayout {w : LayoutWords} (h : acceptLayout w = some (fl, ds)) (hdense : fl.stripeType = .dense) :
    Accepted fl ds := by
  simp only [acceptLayout, filelayoutDecodeLayout, nfs4FlAllocDeviceidNode, Option.bind_eq_some_iff,
    Option.ite_none_left_eq_some, Option.ite_none_right_eq_some] at h
  obtain ⟨fl', ⟨-, hfl⟩, ds', ⟨hcount, -, -, hds⟩, hchecks, heq⟩ := h
  cases heq
  cases hfl
  cases hds
  simp only [filelayoutCheckLayout, filelayoutCheckDeviceid, Bool.and_eq_true, decide_eq_true_eq] at hchecks
  obtain ⟨⟨⟨⟨hoffset, -⟩, hpattern⟩, hunit⟩, hindex, -⟩ := hchecks
  rw [hoffset] at hpattern
  exact ⟨hdense, Nat.pos_of_ne_zero hunit, BitVec.isLt _, hindex, not_lt.1 hcount, Nat.le_zero.1 hpattern⟩

section

variable (h : Accepted fl ds)

include h

theorem inPattern_eq (hx : x < 2 ^ 63) : fl.inPattern x = x := by
  rw [FilelayoutSegment.inPattern, h.pattern]
  omega

theorem calcJIndex_eq (hx : x < 2 ^ 63) :
    nfs4FlCalcJIndex fl ds x = some ((x / fl.stripeUnit + fl.firstStripeIndex) % ds.stripeCount) := by
  have hindex := h.index
  have hcount := h.count
  have hunit := h.unit
  have hstripe := Nat.div_le_self x fl.stripeUnit
  have hlt : x / fl.stripeUnit + fl.firstStripeIndex < 2 ^ 64 := by omega
  rw [nfs4FlCalcJIndex, if_neg (by omega), inPattern_eq h hx, Nat.mod_eq_of_lt hlt]

theorem dserverOffset_eq (hx : x < 2 ^ 63) (hw : stripeWidth fl ds ≠ 0) : filelayoutGetDserverOffset fl ds x =
    some ((x / stripeWidth fl ds * fl.stripeUnit + x % fl.stripeUnit) % 2 ^ 64) := by
  have hunit := h.unit
  rw [filelayoutGetDserverOffset, h.dense]
  dsimp only
  rw [filelayoutGetDenseOffset, if_neg (by omega), inPattern_eq h hx]

theorem Placed.dvd (hplaced : Placed fl ds) (hw : stripeWidth fl ds ≠ 0) : fl.stripeUnit ∣ stripeWidth fl ds := by
  by_contra hdvd
  have hlt : stripeWidth fl ds < 2 ^ 32 := Nat.mod_lt _ (by decide)
  obtain ⟨w, hwidth⟩ := Nat.exists_eq_succ_of_ne_zero hw
  rw [hwidth] at hdvd hlt
  have hsame := Nat.succ_div_of_not_dvd hdvd
  have hnext := hplaced.inRow w (by omega) hsame
  rw [dserverOffset_eq h (by omega) hw, dserverOffset_eq h (by omega) hw, hwidth, succ_mod hsame,
    Nat.div_self (Nat.succ_pos w), Nat.div_eq_of_lt (Nat.lt_succ_self w)] at hnext
  have hmod := Nat.mod_lt w h.unit
  have hunit := h.unit
  have hunit_lt := h.unit_lt
  simp at hnext
  omega

theorem placed_of_dvd (hw : stripeWidth fl ds ≠ 0) (hdvd : fl.stripeUnit ∣ stripeWidth fl ds) : Placed fl ds := by
  obtain ⟨d, hd⟩ := hdvd
  have hpos : 0 < d := Nat.pos_of_ne_zero fun h0 => hw (by rw [hd, h0, Nat.mul_zero])
  have hle : d ≤ ds.stripeCount := Nat.le_of_mul_le_mul_left (hd ▸ Nat.mod_le _ _) h.unit
  have hoffset : ∀ x < 2 ^ 63, filelayoutGetDserverOffset fl ds x =
      some (x / (fl.stripeUnit * d) * fl.stripeUnit + x % fl.stripeUnit) := by
    intro x hx
    rw [dserverOffset_eq h hx hw, hd, Nat.mod_eq_of_lt (place_le.trans_lt (by omega))]
  constructor
  · intro x hx
    rw [calcJIndex_eq h hx, hoffset x hx]
    exact ⟨Option.some_ne_none _, Option.some_ne_none _⟩
  · intro x hx y hy hj ho
    rw [calcJIndex_eq h hx, calcJIndex_eq h hy] at hj
    rw [hoffset x hx, hoffset y hy] at ho
    exact eq_of_place h.unit hpos hle (Option.some.inj hj) (Option.some.inj ho)
  · intro x hx hsame
    rw [hoffset _ hx, hoffset x (by omega), succ_mod hsame, ← Nat.div_div_eq_div_mul, hsame, Nat.div_div_eq_div_mul]
    rfl

end

end

/-- **Dense striping places every byte of the file**, unless the width of a stripe does not fit 32 bits and what is
left of it is 0 or not a multiple of the stripe unit. -/
theorem densePlaced_iff (w : LayoutWords) {fl : FilelayoutSegment} {ds : FileLayoutDsaddr}
    (h : acceptLayout w = some (fl, ds)) (hdense : fl.stripeType = .dense) :
    Placed fl ds ↔ stripeWidth fl ds ≠ 0 ∧ fl.stripeUnit ∣ stripeWidth fl ds := by
  have hok := accepted_of_acceptLayout h hdense
  constructor
  · intro hplaced
    have hw : stripeWidth fl ds ≠ 0 := by
      intro hzero
      apply (hplaced.divides 0 (by decide)).2
      rw [filelayoutGetDserverOffset, hdense]
      exact if_pos (Or.inl hzero)
    exact ⟨hw, hplaced.dvd hok hw⟩
  · rintro ⟨hw, hdvd⟩
    exact placed_of_dvd hok hw hdvd

def twoStripes (nflUtil : BitVec 32) : LayoutWords := ⟨nflUtil, 0, 0, 2, 0, BitVec.allOnes 64, [0, 0], 1⟩

theorem densePlaced_small : Placed ⟨.dense, 64, 0, 0, 2⟩ ⟨2, 1⟩ :=
  (densePlaced_iff (twoStripes 65) rfl rfl).2 (by decide)

/-- Two stripe units of 2 GiB: the width is 0. -/
theorem dense_divides_by_zero : ∃ fl ds, acceptLayout (twoStripes 0x80000001) = some (fl, ds) ∧
    fl.stripeType = .dense ∧ filelayoutGetDserverOffset fl ds 0 = none :=
  ⟨_, _, rfl, by decide⟩

end Vastnfs.Nfs
