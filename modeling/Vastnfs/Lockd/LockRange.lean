import Vastnfs.Nfsd.LockRange

/-!
# Byte ranges of NLMv4 locks

The client and the callbacks of the server encode a lock in `fs/lockd/clnt4xdr.c`, the server decodes it and encodes the
holder of a conflicting one in `xdr4.c` and `svc4proc.c`.

* `survives_iff`: locks and their holders come through, but for holders that are sent by a callback.
-/

namespace Vastnfs.Lockd

open BitVec Nfsd

/-- `struct nlm_lock` with a POSIX lock; its opaques are no longer than their decoders allow. -/
structure NlmLock where
  (caller fh oh : List (BitVec 8))
  fl : FileLock
  caller_le : caller.length ≤ 1024
  fh_le : fh.length ≤ 128
  oh_le : oh.length ≤ 1024
  ordered : fl.flStart ≤ fl.flEnd
  signed : fl.flEnd ≤ offsetMax

/-- The bytes an encoder asks `xdr_reserve_space` for, which rounds up, and those it writes there. -/
structure Area where
  (nbytes written : Nat)

abbrev Area.Inside (a : Area) : Prop := a.written ≤ (a.nbytes + 3) / 4 * 4

def netobjArea (data : List (BitVec 8)) : Area := ⟨4 + data.length, 4 + (data.length + 3) / 4 * 4⟩

/-- `struct nlm4_lock` on the wire, without `svid`. -/
structure Nlm4Lock where
  (caller fh oh : List (BitVec 8))
  (lOffset lLen : BitVec 64)
  areas : List Area

/-- `struct nlm4_holder` on the wire, without `svid`. -/
structure Nlm4Holder where
  exclusive : Bool
  oh : List (BitVec 8)
  (lOffset lLen : BitVec 64)
  areas : List Area

def nlm4OffsetMax : BitVec 64 := 0x7fffffffffffffff

/-- `clnt4xdr.c` compares with `<=` and `xdr4.c` with `<`. -/
def loffTToS64 (below : BitVec 64 → BitVec 64 → Bool) (offset : BitVec 64) : BitVec 64 :=
  if below nlm4OffsetMax offset then nlm4OffsetMax else if below offset (-nlm4OffsetMax) then -nlm4OffsetMax else offset

/-- `nlm4_compute_offsets`, which is written out in `svcxdr_encode_holder`. -/
def nlm4ComputeOffsets (below : BitVec 64 → BitVec 64 → Bool) (fl : FileLock) : BitVec 64 × BitVec 64 :=
  (loffTToS64 below fl.flStart, if fl.flEnd = offsetMax then 0 else loffTToS64 below (fl.flEnd - fl.flStart + 1))

def encodeNlm4Lock (lock : NlmLock) : Nlm4Lock :=
  let (lOffset, lLen) := nlm4ComputeOffsets BitVec.sle lock.fl
  ⟨lock.caller, lock.fh, lock.oh, lOffset, lLen,
    [netobjArea lock.caller, netobjArea lock.fh, netobjArea lock.oh, ⟨4 + 8 + 8, 4 + 8 + 8⟩]⟩

def encodeNlm4Holder (lock : NlmLock) : Nlm4Holder :=
  let (lOffset, lLen) := nlm4ComputeOffsets BitVec.sle lock.fl
  ⟨lock.fl.flType = .rdlck, lock.oh, lOffset, lLen, [⟨4, 4⟩, ⟨4, 4⟩, netobjArea lock.oh, ⟨4 + 4, 8 + 8⟩]⟩

def svcxdrEncodeHolder (lock : NlmLock) : Nlm4Holder :=
  let (start, len) := nlm4ComputeOffsets BitVec.slt lock.fl
  ⟨lock.fl.flType ≠ .rdlck, lock.oh, start, len, [⟨4, 4⟩, ⟨4, 4⟩, netobjArea lock.oh, ⟨8, 8⟩, ⟨8, 8⟩]⟩

def nlm4svcSetFileLockRange (type : FlType) (off len : BitVec 64) : FileLock where
  flType := type
  flStart := off
  flEnd := if len = 0 ∨ (off + len - 1).toInt < 0 then offsetMax else off + len - 1

/-- The lock it leaves in `result->lock.fl`. -/
def decodeNlm4Holder (holder : Nlm4Holder) : Option FileLock :=
  if 1024 < holder.oh.length then none
  else some (nlm4svcSetFileLockRange (if holder.exclusive then .wrlck else .rdlck) holder.lOffset holder.lLen)

/-- `svcxdr_decode_lock`, and what `nlm4svc_retrieve_args` makes of the lock unless it answers `nlm4_fbig`. -/
def nlm4svcRetrieveArgs (lock : Nlm4Lock) : Option FileLock :=
  if 1024 < lock.caller.length ∨ 128 < lock.fh.length ∨ 1024 < lock.oh.length then none
  else
    let fl := nlm4svcSetFileLockRange .rdlck lock.lOffset lock.lLen
    if offsetMax < lock.lOffset ∨ (lock.lLen ≠ 0 ∧ offsetMax - lock.lOffset < lock.lLen - 1) then none
    else some { fl with flStart := lock.lOffset, flEnd := if lock.lLen ≠ 0 then lock.lOffset + lock.lLen - 1 else offsetMax }

/-- How the holder of a lock is sent: in the reply to TEST, or by a TEST_RES callback. -/
inductive HolderPath
  | reply | callback

def HolderPath.encode : HolderPath → NlmLock → Nlm4Holder
  | .reply => svcxdrEncodeHolder
  | .callback => encodeNlm4Holder

/-- The range of a lock comes through in a request, range and exclusiveness do so in an answer, and every encoder stays
inside the space it reserved. -/
structure Survives (path : HolderPath) (lock : NlmLock) : Prop where
  args : ∃ t, nlm4svcRetrieveArgs (encodeNlm4Lock lock) = some ⟨t, lock.fl.flStart, lock.fl.flEnd⟩
  holder : ∃ t, decodeNlm4Holder (path.encode lock) = some ⟨t, lock.fl.flStart, lock.fl.flEnd⟩ ∧
    (t = .rdlck ↔ lock.fl.flType = .rdlck)
  inside : ∀ a ∈ (encodeNlm4Lock lock).areas ++ (path.encode lock).areas, a.Inside

theorem loffTToS64_eq {below : BitVec 64 → BitVec 64 → Bool} (hbelow : ∀ x y, below x y = true → x.toInt ≤ y.toInt)
    {x : BitVec 64} (h : x ≤ offsetMax) : loffTToS64 below x = x := by
  have hx : x.toNat ≤ 2 ^ 63 - 1 := h
  have hint : x.toInt = x.toNat := toInt_eq_toNat_of_lt (by omega)
  unfold loffTToS64
  split_ifs with hmax hmin
  · have hle := hbelow _ _ hmax
    have htop : nlm4OffsetMax.toInt = 2 ^ 63 - 1 := rfl
    exact toNat_inj.1 (show 2 ^ 63 - 1 = _ by omega)
  · have hle := hbelow _ _ hmin
    have hbottom : (-nlm4OffsetMax).toInt = -(2 ^ 63 - 1) := rfl
    omega
  · rfl

theorem netobjArea_inside (data : List (BitVec 8)) : (netobjArea data).Inside := by
  show 4 + (data.length + 3) / 4 * 4 ≤ (4 + data.length + 3) / 4 * 4
  omega

/-- How a range is on the wire: up to `OFFSET_MAX`, or with its length. -/
def OnWire (fl : FileLock) (lLen : BitVec 64) : Prop :=
  lLen = 0 ∧ fl.flEnd = offsetMax ∨ lLen ≠ 0 ∧ lLen - 1 ≤ offsetMax - fl.flStart ∧ fl.flStart + lLen - 1 = fl.flEnd

section

variable (lock : NlmLock)

theorem start_le : lock.fl.flStart ≤ offsetMax := BitVec.le_trans lock.ordered lock.signed

theorem exists_onWire {below : BitVec 64 → BitVec 64 → Bool} (hbelow : ∀ x y, below x y = true → x.toInt ≤ y.toInt) :
    ∃ lLen, nlm4ComputeOffsets below lock.fl = (lock.fl.flStart, lLen) ∧ OnWire lock.fl lLen := by
  have hordered := lock.ordered
  have hsigned := lock.signed
  unfold nlm4ComputeOffsets
  rw [loffTToS64_eq hbelow (start_le lock)]
  split_ifs with hend
  · exact ⟨0, rfl, .inl ⟨rfl, hend⟩⟩
  · unfold OnWire
    unfold offsetMax at *
    rw [loffTToS64_eq hbelow (by unfold offsetMax; bv_omega)]
    exact ⟨_, rfl, .inr ⟨by bv_omega, by bv_omega, by bv_omega⟩⟩

variable {lock} {lLen : BitVec 64} (h : OnWire lock.fl lLen)
include h

theorem setFileLockRange_eq (type : FlType) :
    nlm4svcSetFileLockRange type lock.fl.flStart lLen = ⟨type, lock.fl.flStart, lock.fl.flEnd⟩ := by
  have hnonneg := (toInt_nonneg_iff lock.fl.flEnd).2 (Nat.lt_of_le_of_lt lock.signed (by decide))
  rcases h with ⟨hzero, hend⟩ | ⟨hne, -, hend⟩
  · rw [nlm4svcSetFileLockRange, if_pos (.inl hzero), hend]
  · rw [nlm4svcSetFileLockRange, hend, if_neg (not_or.2 ⟨hne, Int.not_lt.2 hnonneg⟩)]

theorem retrieveArgs_eq (hclnt : nlm4ComputeOffsets BitVec.sle lock.fl = (lock.fl.flStart, lLen)) :
    nlm4svcRetrieveArgs (encodeNlm4Lock lock) = some ⟨.rdlck, lock.fl.flStart, lock.fl.flEnd⟩ := by
  have hfits := not_or.2 ⟨Nat.not_lt.2 lock.caller_le, not_or.2 ⟨Nat.not_lt.2 lock.fh_le, Nat.not_lt.2 lock.oh_le⟩⟩
  have hstart := BitVec.not_lt.2 (start_le lock)
  rw [nlm4svcRetrieveArgs, encodeNlm4Lock, hclnt]
  dsimp only
  rw [if_neg hfits]
  rcases h with ⟨hzero, hend⟩ | ⟨hne, hle, hend⟩
  · rw [if_neg (not_or.2 ⟨hstart, fun h => h.1 hzero⟩), if_neg (Classical.not_not.2 hzero), hend]
    rfl
  · rw [if_neg (not_or.2 ⟨hstart, fun h => BitVec.not_lt.2 hle h.2⟩), if_pos hne, hend]
    rfl

end

/-- **Locks and holders come through**, just when the holder is in the reply. -/
theorem survives_iff (path : HolderPath) (lock : NlmLock) : Survives path lock ↔ path = .reply := by
  obtain ⟨lLen, hclnt, hwire⟩ := exists_onWire lock fun _ _ => BitVec.sle_iff_toInt_le.1
  obtain ⟨len, hsvc, hwire'⟩ := exists_onWire lock fun _ _ h => Int.le_of_lt (BitVec.slt_iff_toInt_lt.1 h)
  constructor
  · intro h
    cases path with
    | reply => rfl
    | callback =>
      have hinside : (⟨4 + 4, 8 + 8⟩ : Area).Inside := h.inside _ (by simp [HolderPath.encode, encodeNlm4Holder])
      exact absurd hinside (by decide)
  · rintro rfl
    refine ⟨⟨_, retrieveArgs_eq hwire hclnt⟩, ⟨if lock.fl.flType = .rdlck then .rdlck else .wrlck, ?_, ?_⟩, ?_⟩
    · simp [decodeNlm4Holder, HolderPath.encode, svcxdrEncodeHolder, hsvc, lock.oh_le, setFileLockRange_eq hwire']
    · split_ifs <;> simp [*]
    · simp [HolderPath.encode, svcxdrEncodeHolder, encodeNlm4Lock, netobjArea_inside]

/-- A callback names a writer as a reader. -/
theorem survives_callback :
    ¬ Survives .callback ⟨[], [], [], ⟨.wrlck, 0, 9⟩, by decide, by decide, by decide, by decide, by decide⟩ := fun h => by
  obtain ⟨t, hdecode, ht⟩ := h.holder
  cases (show some (⟨.rdlck, 0, 9⟩ : FileLock) = _ from hdecode)
  exact nomatch ht.1 rfl

end Vastnfs.Lockd
