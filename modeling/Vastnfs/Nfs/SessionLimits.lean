import Vastnfs.Nfs.SlotTable

/-!
# The limits of a session

What the server sets for a session reaches the slot table with every SEQUENCE result (`fs/nfs/nfs4session.c`), and the
sizes of reads and writes once the session is there (`fs/nfs/nfs4client.c`).

* `targets_followed`: the limits of the table, and the target that it follows.
* `ioSizes_fit_iff`: when the sizes fit the channel.
-/

namespace Vastnfs.Nfs

open Runs

/-! ## Targets -/

/-- What `nfs41_update_target_slotid` gets: the generation of the slot, the result and the room for new slots. -/
structure SequenceResult where
  generation : BitVec 64
  (highest target : BitVec 32)
  waiters : List Nat := []
  last : Nat := 0

def followResult (tbl : Nfs4SlotTable) (r : SequenceResult) : Nfs4SlotTable :=
  nfs41UpdateTargetSlotid tbl r.generation r.highest.toNat r.target.toNat r.waiters r.last

def Nfs4SlotTable.limits (tbl : Nfs4SlotTable) : Nat × Nat × Nat × BitVec 32 :=
  (tbl.maxSlotid, tbl.serverHighestSlotid, tbl.targetHighestSlotid, tbl.dTarget)

section

variable {tbl : Nfs4SlotTable} {room : Nat}

theorem limits_createSlots {slotid : Nat} {seqInit : BitVec 32} : ∀ (room : Nat) (tbl : Nfs4SlotTable),
    (createSlots slotid seqInit room tbl).1.limits = tbl.limits
  | 0, _ => rfl
  | room + 1, tbl => by
    rw [createSlots]
    split
    · rfl
    · exact limits_createSlots room _

theorem limits_alloc : (nfs4AllocSlot tbl room).1.limits = tbl.limits := by
  have hfind : ∀ slotid, (nfs4FindOrCreateSlot tbl slotid 1 room).1.limits = tbl.limits := by
    intro slotid
    unfold nfs4FindOrCreateSlot
    split
    · rfl
    · exact limits_createSlots room tbl
  rw [nfs4AllocSlot]
  split
  · have hfound := hfind (findFirstZeroBit tbl.usedSlots (slotSucc tbl.maxSlotid))
    split <;> rename_i heq <;> rw [heq] at hfound <;> exact hfound
  · rfl

theorem limits_wake : ∀ (waiters : List Nat) (last : Nat) (tbl : Nfs4SlotTable),
    (nfs41WakeSlotTable waiters last tbl).limits = tbl.limits
  | [], last, tbl => by
    have halloc := @limits_alloc tbl last
    rw [nfs41WakeSlotTable]
    split <;> rename_i heq <;> rw [heq] at halloc <;> exact halloc
  | room :: waiters, last, tbl => by
    have halloc := @limits_alloc tbl room
    rw [nfs41WakeSlotTable]
    split <;> rename_i heq <;> rw [heq] at halloc
    · exact halloc
    · exact (limits_wake waiters last _).trans halloc

theorem follow_cases (target : Nat) : (nfs41FollowTargetSlotid tbl target).targetHighestSlotid = target ∨
    (nfs41FollowTargetSlotid tbl target).targetHighestSlotid = tbl.targetHighestSlotid ∧
      (nfs41FollowTargetSlotid tbl target).dTarget =
        nfs41DerivativeTargetSlotid (BitVec.ofNat 32 target) (BitVec.ofNat 32 tbl.targetHighestSlotid) := by
  unfold nfs41FollowTargetSlotid
  dsimp only
  split
  · exact .inr ⟨rfl, rfl⟩
  refine .inl ?_
  unfold nfs41SetTargetSlotidLocked
  split
  · assumption
  · rfl

theorem follow_adopts {target : Nat} (h : tbl.targetHighestSlotid = target ∨ tbl.dTarget =
    nfs41DerivativeTargetSlotid (BitVec.ofNat 32 target) (BitVec.ofNat 32 tbl.targetHighestSlotid)) :
    (nfs41FollowTargetSlotid tbl target).targetHighestSlotid = target := by
  have hsame : nfs41SameSignOrZero (nfs41DerivativeTargetSlotid (BitVec.ofNat 32 target)
      (BitVec.ofNat 32 tbl.targetHighestSlotid)) tbl.dTarget = true := by
    rcases h with h | h
    · simp [h, nfs41DerivativeTargetSlotid, nfs41SameSignOrZero]
    · simp [h, nfs41SameSignOrZero]
  simp only [nfs41FollowTargetSlotid, nfs41IsOutlierTargetSlotid, hsame, Bool.true_or, Bool.not_true, Bool.false_eq_true,
    if_false, nfs41SetTargetSlotidLocked]
  split
  · assumption
  · rfl

/-- The largest slot number is under every limit. -/
structure UnderLimits (tbl : Nfs4SlotTable) (target : Nat) : Prop where
  table : tbl.maxSlotid ≤ nfs4MaxSlotTable - 1
  server : tbl.maxSlotid ≤ tbl.serverHighestSlotid
  stored : tbl.maxSlotid ≤ tbl.targetHighestSlotid
  received : tbl.maxSlotid ≤ target

theorem followResult_spec (tbl : Nfs4SlotTable) (r : SequenceResult) : UnderLimits (followResult tbl r) r.target.toNat ∧
    (followResult tbl r).targetHighestSlotid = (nfs41FollowTargetSlotid tbl r.target.toNat).targetHighestSlotid ∧
    (followResult tbl r).dTarget = (nfs41FollowTargetSlotid tbl r.target.toNat).dTarget := by
  rw [followResult, nfs41UpdateTargetSlotid, nfs41SetMaxSlotidLocked]
  generalize nfs41FollowTargetSlotid tbl r.target.toNat = tbl
  obtain ⟨tbl', htbl', htarget, hd⟩ : ∃ tbl', (if tbl.generation = r.generation then
      nfs41SetServerSlotidLocked tbl r.highest.toNat else tbl) = tbl' ∧
      tbl'.targetHighestSlotid = tbl.targetHighestSlotid ∧ tbl'.dTarget = tbl.dTarget := by
    refine ⟨_, rfl, ?_⟩
    unfold nfs41SetServerSlotidLocked nfs4ShrinkSlotTable
    split_ifs <;> exact ⟨rfl, rfl⟩
  have hwake := limits_wake r.waiters r.last { tbl' with
    maxSlotid := min (min (min (nfs4MaxSlotTable - 1) r.target.toNat) tbl'.serverHighestSlotid) tbl'.targetHighestSlotid }
  simp only [Nfs4SlotTable.limits, Prod.mk.injEq] at hwake
  obtain ⟨hmax, hserver, htarget', hd'⟩ := hwake
  rw [htbl']
  exact ⟨⟨by omega, by omega, by omega, by omega⟩, by omega, hd'.trans hd⟩

end

/-- **The target of the server.**  After every run of results the largest slot number is under each limit, and a target
that comes twice in a row is taken over. -/
theorem targets_followed (tbl : Nfs4SlotTable) (rs : List SequenceResult) (r r' : SequenceResult) :
    UnderLimits ((rs ++ [r]).foldl followResult tbl) r.target.toNat ∧
      ((rs ++ [r, { r' with target := r.target }]).foldl followResult tbl).targetHighestSlotid = r.target.toNat := by
  simp only [List.foldl_append, List.foldl_cons, List.foldl_nil]
  generalize rs.foldl followResult tbl = tbl
  obtain ⟨hunder, htarget, hd⟩ := followResult_spec tbl r
  refine ⟨hunder, (followResult_spec _ _).2.1.trans (follow_adopts ?_)⟩
  rw [htarget, hd]
  rcases @follow_cases tbl r.target.toNat with h | ⟨h, h'⟩
  · exact .inl h
  · exact .inr (by rw [h', h])

/-! ## Sizes -/

/-- The sizes in `struct nfs_server` that a session limits. -/
inductive IoSize where
  | rsize | wsize | dtsize | gxasize | sxasize | lxasize

/-- `nfs41_maxread_overhead` and the others, with `NFS4_MAXTAGLEN` zero. -/
def IoSize.overhead : IoSize → Nat
  | .rsize | .dtsize => 904
  | .wsize => 1044
  | .gxasize => 908
  | .sxasize => 1284
  | .lxasize => 916

def IoSize.channel (fcAttrs : ChannelAttrs) : IoSize → Nat
  | .wsize | .sxasize => fcAttrs.maxRqstSz
  | .rsize | .dtsize | .gxasize | .lxasize => fcAttrs.maxRespSz

/-- A size is cut to what the overhead leaves, a difference of 32-bit numbers. -/
def limitSize (fcAttrs : ChannelAttrs) (i : IoSize) (size : Nat) : Nat :=
  min size ((i.channel fcAttrs + 2 ^ 32 - i.overhead) % 2 ^ 32)

def nfs4SessionLimitRwsize (fcAttrs : ChannelAttrs) (server : IoSize → Nat) : IoSize → Nat
  | .dtsize => limitSize fcAttrs .dtsize (server .dtsize)
  | .rsize => limitSize fcAttrs .rsize (server .rsize)
  | .wsize => limitSize fcAttrs .wsize (server .wsize)
  | i => server i

def nfs4SessionLimitXasize (fcAttrs : ChannelAttrs) (server : IoSize → Nat) : IoSize → Nat
  | .gxasize => limitSize fcAttrs .gxasize (server .gxasize)
  | .sxasize => limitSize fcAttrs .sxasize (server .sxasize)
  | .lxasize => limitSize fcAttrs .lxasize (server .lxasize)
  | i => server i

/-- Every size is positive and leaves room for the rest of the message. -/
def FitsSession (fcAttrs : ChannelAttrs) (server : IoSize → Nat) : Prop :=
  ∀ i, 0 < server i ∧ server i + i.overhead ≤ i.channel fcAttrs

/-- **Sizes fit the session** just when they were positive and every message is longer than its overhead. -/
theorem ioSizes_fit_iff {args : CreateSessionArgs} {res res' : CreateSessionRes}
    (hverify : nfs4VerifyChannelAttrs args res = some res') (hu32 : ∀ i : IoSize, i.channel res.fcAttrs < 2 ^ 32)
    (server : IoSize → Nat) :
    FitsSession res'.fcAttrs (nfs4SessionLimitXasize res'.fcAttrs (nfs4SessionLimitRwsize res'.fcAttrs server)) ↔
      ∀ i, 0 < server i ∧ i.overhead < i.channel res.fcAttrs := by
  have hchannel : ∀ i : IoSize, i.channel res'.fcAttrs = i.channel res.fcAttrs := by
    obtain ⟨maxReqs, -, rfl⟩ := verifyChannelAttrs_spec hverify
    exact fun i => by cases i <;> rfl
  refine forall_congr' fun i => ?_
  have hlimit : nfs4SessionLimitXasize res'.fcAttrs (nfs4SessionLimitRwsize res'.fcAttrs server) i =
      limitSize res'.fcAttrs i (server i) := by
    cases i <;> rfl
  have hi := hu32 i
  rw [hlimit, limitSize, hchannel]
  omega

theorem ioSizes_fit_small : FitsSession (channelsOf 2 1).fcAttrs
    (nfs4SessionLimitXasize (channelsOf 2 1).fcAttrs (nfs4SessionLimitRwsize (channelsOf 2 1).fcAttrs fun _ => 65536)) :=
  (@ioSizes_fit_iff (channelsOf 2 1) { channelsOf 2 1 with backChan := true } _ rfl (by intro i; cases i <;> decide) _).2
    (by intro i; cases i <;> decide)

/-- Replies of 512 bytes are accepted, and a read asks for 64 kilobytes. -/
theorem ioSizes_unlimited :
    nfs4VerifyChannelAttrs (channelsOf 2 1) ⟨{ channelsOf 2 1 with fcAttrs := ⟨4096, 512, 0, 8, 2⟩ }, true⟩ =
        some ⟨{ channelsOf 2 1 with fcAttrs := ⟨4096, 512, 0, 8, 2⟩ }, true⟩ ∧
      nfs4SessionLimitXasize ⟨4096, 512, 0, 8, 2⟩ (nfs4SessionLimitRwsize ⟨4096, 512, 0, 8, 2⟩ fun _ => 65536) .rsize =
        65536 :=
  ⟨rfl, rfl⟩

end Vastnfs.Nfs
