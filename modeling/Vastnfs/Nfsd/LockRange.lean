import Mathlib.Algebra.Order.Ring.Int

/-!
# Byte ranges of NFSv4 locks

The range of a lock is an unsigned offset and length on the wire and a signed first and last byte in `struct file_lock`.
`nfsd4_lock` folds the one into the other, and `nfs4_set_lock_denied` unfolds it for the client whose lock is refused
(`fs/nfsd/nfs4state.c`).

* `nfsd4LockRange_toNat`: the range that is locked.
* `truthful_iff`: it is reported as it was asked for up to the last byte of the signed range.
-/

namespace Vastnfs.Nfsd

open BitVec

inductive FlType
  | rdlck | wrlck | unlck
deriving DecidableEq

/-- What `struct file_lock` says of a range; both ends are a `loff_t`. -/
structure FileLock where
  flType : FlType
  (flStart flEnd : BitVec 64)
deriving DecidableEq

def offsetMax : BitVec 64 := 0x7fffffffffffffff

def nfs4MaxUint64 : BitVec 64 := 0xffffffffffffffff

def checkLockLength (offset length : BitVec 64) : Bool :=
  length == 0 || (length != nfs4MaxUint64 && ~~~offset < length)

def lastByteOffset (start len : BitVec 64) : BitVec 64 :=
  if start < start + len then start + len - 1 else nfs4MaxUint64

def nfs4TransformLockOffset (lock : FileLock) : FileLock :=
  let lock := if lock.flStart.toInt < 0 then { lock with flStart := offsetMax } else lock
  if lock.flEnd.toInt < 0 then { lock with flEnd := offsetMax } else lock

/-- The range `nfsd4_lock` and `nfsd4_lockt` ask the file system for. -/
def nfsd4LockRange (type : FlType) (offset length : BitVec 64) : FileLock :=
  nfs4TransformLockOffset ⟨type, offset, lastByteOffset offset length⟩

/-- `struct nfsd4_lock_denied` without the owner. -/
structure LockDenied where
  (ldStart ldLength : BitVec 64)
  ldWrite : Bool

def nfs4SetLockDenied (fl : FileLock) : LockDenied where
  ldStart := fl.flStart
  ldLength := if fl.flEnd ≠ nfs4MaxUint64 then fl.flEnd - fl.flStart + 1 else nfs4MaxUint64
  ldWrite := fl.flType ≠ .rdlck

/-- The lock covers the bytes asked for that a file of at most `OFFSET_MAX` bytes can have, and a client it is in the way of
is told its range; of a range that goes further the length may be told as `NFS4_MAX_UINT64`. -/
structure Truthful (offset length : BitVec 64) (fl : FileLock) : Prop where
  covers : ∀ b < 2 ^ 63 - 1, fl.flStart.toInt ≤ b ∧ b ≤ fl.flEnd.toInt ↔ offset.toNat ≤ b ∧ b < offset.toNat + length.toNat
  start : (nfs4SetLockDenied fl).ldStart = offset
  length : (nfs4SetLockDenied fl).ldLength = length ∨
    2 ^ 63 ≤ offset.toNat + length.toNat ∧ (nfs4SetLockDenied fl).ldLength = nfs4MaxUint64

theorem toInt_nonneg_iff (x : BitVec 64) : 0 ≤ x.toInt ↔ x.toNat < 2 ^ 63 := by
  rw [toInt_eq_toNat_cond]
  omega

section

variable {offset length : BitVec 64} (h : checkLockLength offset length = false)
include h

theorem lastByteOffset_toNat : 0 < length.toNat ∧
    (lastByteOffset offset length).toNat = min (offset.toNat + length.toNat - 1) (2 ^ 64 - 1) := by
  simp only [checkLockLength, nfs4MaxUint64, Bool.or_eq_false_iff, Bool.and_eq_false_iff, beq_eq_false_iff_ne,
    bne_eq_false_iff_eq, decide_eq_false_iff_not] at h
  unfold lastByteOffset nfs4MaxUint64
  split <;> bv_omega

theorem nfsd4LockRange_toNat (type : FlType) :
    (nfsd4LockRange type offset length).flStart.toNat = min offset.toNat (2 ^ 63 - 1) ∧
      (nfsd4LockRange type offset length).flEnd.toNat = min (offset.toNat + length.toNat - 1) (2 ^ 63 - 1) := by
  obtain ⟨hpos, hlast⟩ := lastByteOffset_toNat h
  have hmax : offsetMax.toNat = 2 ^ 63 - 1 := rfl
  simp only [nfsd4LockRange, nfs4TransformLockOffset, ← Int.not_le, toInt_nonneg_iff]
  split <;> split <;> (dsimp only at *; omega)

/-- **Conflicts are reported truthfully** just for ranges up to the last byte of the signed range. -/
theorem truthful_iff (type : FlType) :
    Truthful offset length (nfsd4LockRange type offset length) ↔ offset.toNat + length.toNat ≤ 2 ^ 63 := by
  have hpos := (lastByteOffset_toNat h).1
  obtain ⟨hstart, hend⟩ := nfsd4LockRange_toNat h type
  generalize nfsd4LockRange type offset length = fl at hstart hend ⊢
  have hlen : (nfs4SetLockDenied fl).ldLength.toNat = fl.flEnd.toNat - fl.flStart.toNat + 1 := by
    have hne : fl.flEnd ≠ nfs4MaxUint64 := by
      unfold nfs4MaxUint64
      bv_omega
    rw [nfs4SetLockDenied, if_pos hne]
    bv_omega
  constructor
  · rintro ⟨-, hs : fl.flStart = offset, hl | ⟨-, hl⟩⟩
    · rw [hs] at hstart
      rw [hl, hs] at hlen
      omega
    · have hmax : nfs4MaxUint64.toNat = 2 ^ 64 - 1 := rfl
      rw [hl] at hlen
      omega
  · intro hle
    have hs : fl.flStart = offset := toNat_inj.1 (by omega)
    refine ⟨fun b hb => ?_, hs, .inl (toNat_inj.1 (by omega))⟩
    rw [toInt_eq_toNat_of_lt (by omega), toInt_eq_toNat_of_lt (by omega)]
    omega

end

theorem truthful_iff_ten : Truthful 0 10 (nfsd4LockRange .rdlck 0 10) :=
  (truthful_iff (by decide) .rdlck).2 (by decide)

/-- A lock up to the end of the file is reported with half of the length. -/
theorem untruthful_to_eof : ¬ Truthful 0 nfs4MaxUint64 (nfsd4LockRange .wrlck 0 nfs4MaxUint64) := fun h => by
  have hlen := h.length
  revert hlen
  decide

end Vastnfs.Nfsd
