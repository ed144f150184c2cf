import Mathlib.Algebra.Order.Ring.Int
import Mathlib.Data.Finset.Basic
import Vastnfs.Lib.Runs

/-!
# The slot tables of a session

The fore and the back channel of an NFSv4.1 session have a table of slots each: a list of slots, a bitmap of those in
use, and the limits that the server set (`fs/nfs/nfs4session.c`). The server resizes the tables with every SEQUENCE
reply, with CB_RECALL_SLOT and with CREATE_SESSION; slot numbers are 32-bit numbers.

* `SlotInv`: what holds of a table, with one lemma per function that keeps it.
* `slotTables_safe`: in which runs both tables keep it.
* `slotTables_broken`: a live slot freed and a bit set outside the bitmap.
-/

namespace Vastnfs.Nfs

open Runs List Option

/-! ## Slot tables -/

def nfs4NoSlot : Nat := 2 ^ 32 - 1

def nfs4MaxSlotTable : Nat := 1024

def slotSucc (x : Nat) : Nat := (x + 1) % 2 ^ 32

def slotPred (x : Nat) : Nat := (x + (2 ^ 32 - 1)) % 2 ^ 32

/-- `struct nfs4_slot`; the sequence number is that of the back channel. -/
structure Nfs4Slot where
  slotNr : Nat
  seqNr : BitVec 32
  generation : BitVec 64 := 0
  deriving DecidableEq

/-- `struct nfs4_slot_table`. The last two fields record what went wrong: a slot freed in use, a bit outside the map. -/
structure Nfs4SlotTable where
  slots : List Nfs4Slot := []
  usedSlots : Finset Nat := ∅
  (maxSlots maxSlotid : Nat := 0)
  highestUsedSlotid : Nat := nfs4NoSlot
  (targetHighestSlotid serverHighestSlotid : Nat := 0)
  (dTarget d2Target : BitVec 32 := 0)
  generation : BitVec 64 := 0
  (freedInUse outOfMap : Bool := false)
  deriving DecidableEq

section

variable (tbl : Nfs4SlotTable)

def Nfs4SlotTable.touch (i : Nat) : Nfs4SlotTable := { tbl with outOfMap := tbl.outOfMap || nfs4MaxSlotTable ≤ i }

def nfs4ShrinkSlotTable (newsize : Nat) : Nfs4SlotTable :=
  if tbl.maxSlots ≤ newsize then tbl
  else
    { tbl with
      slots := tbl.slots.take newsize
      maxSlots := tbl.maxSlots - (tbl.slots.drop newsize).length
      freedInUse := tbl.freedInUse || (tbl.slots.drop newsize).any fun slot => slot.slotNr ∈ tbl.usedSlots }

def lastBitBelow (used : Finset Nat) : (size : Nat) → Option Nat
  | 0 => none
  | size + 1 => if size ∈ used then some size else lastBitBelow used size

/-- `find_last_bit` below `size`; `size` if there is none. -/
def findLastBit (used : Finset Nat) (size : Nat) : Nat := (lastBitBelow used size).getD size

/-- `find_first_zero_bit` below `size`; `size` if there is none. -/
def findFirstZeroBit (used : Finset Nat) (size : Nat) : Nat := ((List.range size).find? (· ∉ used)).getD size

def nfs4FreeSlot (slotid : Nat) : Nfs4SlotTable :=
  let used := tbl.usedSlots.erase slotid
  { tbl.touch slotid with
    usedSlots := used
    highestUsedSlotid :=
      if slotid = tbl.highestUsedSlotid then
        if findLastBit used slotid < slotid then findLastBit used slotid else nfs4NoSlot
      else tbl.highestUsedSlotid }

/-- The part of `nfs4_find_or_create_slot` that makes new slots, at most `room` of them. -/
def createSlots (slotid : Nat) (seqInit : BitVec 32) : (room : Nat) → Nfs4SlotTable → Nfs4SlotTable × Option Nfs4Slot
  | 0, tbl => (tbl, none)
  | room + 1, tbl =>
    let slot : Nfs4Slot := { slotNr := tbl.maxSlots, seqNr := seqInit }
    let tbl' := { tbl with slots := tbl.slots ++ [slot], maxSlots := tbl.maxSlots + 1 }
    if slot.slotNr = slotid then (tbl', some slot) else createSlots slotid seqInit room tbl'

/-- `room` is the number of slots that can be allocated. -/
def nfs4FindOrCreateSlot (slotid : Nat) (seqInit : BitVec 32) (room : Nat) : Nfs4SlotTable × Option Nfs4Slot :=
  match tbl.slots.find? (·.slotNr = slotid) with
  | some slot => (tbl, some slot)
  | none => createSlots slotid seqInit room tbl

def nfs4LockSlot (slotid : Nat) : Nfs4SlotTable :=
  { tbl.touch slotid with
    usedSlots := insert slotid tbl.usedSlots
    highestUsedSlotid :=
      if tbl.highestUsedSlotid < slotid ∨ tbl.highestUsedSlotid = nfs4NoSlot then slotid else tbl.highestUsedSlotid
    slots := tbl.slots.map fun slot => if slot.slotNr = slotid then { slot with generation := tbl.generation } else slot }

def nfs4LookupSlot (slotid room : Nat) : Nfs4SlotTable × Option Nfs4Slot :=
  if slotid ≤ tbl.maxSlotid then nfs4FindOrCreateSlot tbl slotid 0 room else (tbl, none)

/-- What it does to the table. -/
def nfs4SlotSeqidInUse (slotid room : Nat) : Nfs4SlotTable :=
  match nfs4LookupSlot tbl slotid room with
  | (tbl, none) => tbl
  | (tbl, some _) => tbl.touch slotid

def nfs4AllocSlot (room : Nat) : Nfs4SlotTable × Option Nat :=
  let slotid := findFirstZeroBit tbl.usedSlots (slotSucc tbl.maxSlotid)
  if slotid ≤ tbl.maxSlotid then
    match nfs4FindOrCreateSlot tbl slotid 1 room with
    | (tbl, none) => (tbl, none)
    | (tbl, some slot) => (nfs4LockSlot tbl slot.slotNr, some slot.slotNr)
  else (tbl, none)

/-- Whether it returns 0. -/
def nfs4GrowSlotTable (maxReqs : Nat) (ivalue : BitVec 32) (room : Nat) : Nfs4SlotTable × Bool :=
  if maxReqs ≤ tbl.maxSlots then (tbl, true)
  else
    let (tbl, slot) := nfs4FindOrCreateSlot tbl (slotPred maxReqs) ivalue room
    (tbl, slot.isSome)

def nfs4ResetSlotTable (serverHighestSlotid : Nat) (ivalue : BitVec 32) : Nfs4SlotTable :=
  let tbl := nfs4ShrinkSlotTable tbl (slotSucc serverHighestSlotid)
  { tbl with
    slots := tbl.slots.map fun slot => { slot with seqNr := ivalue }
    highestUsedSlotid := nfs4NoSlot
    targetHighestSlotid := serverHighestSlotid
    serverHighestSlotid := serverHighestSlotid
    dTarget := 0
    d2Target := 0
    maxSlotid := serverHighestSlotid }

def nfs4ReallocSlotTable (maxReqs : Nat) (ivalue : BitVec 32) (room : Nat) : Nfs4SlotTable × Bool :=
  let maxReqs := min maxReqs nfs4MaxSlotTable
  match nfs4GrowSlotTable tbl maxReqs ivalue room with
  | (tbl, false) => (tbl, false)
  | (tbl, true) => (nfs4ResetSlotTable tbl (slotPred maxReqs) ivalue, true)

/-- A slot for each waiter, with the room for new slots it finds, and one that nobody takes. -/
def nfs41WakeSlotTable : (waiters : List Nat) → (last : Nat) → Nfs4SlotTable → Nfs4SlotTable
  | [], last, tbl =>
    match nfs4AllocSlot tbl last with
    | (tbl, none) => tbl
    | (tbl, some slotid) => nfs4FreeSlot tbl slotid
  | room :: waiters, last, tbl =>
    match nfs4AllocSlot tbl room with
    | (tbl, none) => tbl
    | (tbl, some _) => nfs41WakeSlotTable waiters last tbl

def nfs41SetMaxSlotidLocked (target : Nat) (waiters : List Nat) (last : Nat) : Nfs4SlotTable :=
  nfs41WakeSlotTable waiters last
    { tbl with maxSlotid := min (min (min (nfs4MaxSlotTable - 1) target) tbl.serverHighestSlotid) tbl.targetHighestSlotid }

def nfs41SetTargetSlotidLocked (target : Nat) : Nfs4SlotTable :=
  if tbl.targetHighestSlotid = target then tbl
  else { tbl with targetHighestSlotid := target, generation := tbl.generation + 1 }

def nfs41SetTargetSlotid (target : Nat) (waiters : List Nat) (last : Nat) : Nfs4SlotTable :=
  nfs41SetMaxSlotidLocked { nfs41SetTargetSlotidLocked tbl target with dTarget := 0, d2Target := 0 } target waiters last

def nfs41SetServerSlotidLocked (highest : Nat) : Nfs4SlotTable :=
  if tbl.serverHighestSlotid = highest then tbl
  else if highest < tbl.highestUsedSlotid then tbl
  else { nfs4ShrinkSlotTable tbl (slotSucc highest) with serverHighestSlotid := highest }

def nfs41DerivativeTargetSlotid (s1 s2 : BitVec 32) : BitVec 32 :=
  let d := s1 - s2
  if d = 0 then 0 else if d.toInt < 0 then (d - 1).sshiftRight 1 else (d + 1).sshiftRight 1

def nfs41SameSignOrZero (s1 s2 : BitVec 32) : Bool := s1 = 0 ∨ s2 = 0 ∨ s1.toInt.sign = s2.toInt.sign

def nfs41IsOutlierTargetSlotid (newTarget : Nat) : Nfs4SlotTable × Bool :=
  let d := nfs41DerivativeTargetSlotid (BitVec.ofNat 32 newTarget) (BitVec.ofNat 32 tbl.targetHighestSlotid)
  let d2 := nfs41DerivativeTargetSlotid d tbl.dTarget
  ({ tbl with dTarget := d, d2Target := d2 }, !(nfs41SameSignOrZero d tbl.dTarget || nfs41SameSignOrZero d2 tbl.d2Target))

/-- The first part of `nfs41_update_target_slotid`: the target is taken over unless it is an outlier. -/
def nfs41FollowTargetSlotid (target : Nat) : Nfs4SlotTable :=
  let judged := nfs41IsOutlierTargetSlotid tbl target
  if judged.2 then judged.1 else nfs41SetTargetSlotidLocked judged.1 target

def nfs41UpdateTargetSlotid (generation : BitVec 64) (highest target : Nat) (waiters : List Nat) (last : Nat) : Nfs4SlotTable :=
  let tbl := nfs41FollowTargetSlotid tbl target
  let tbl := if tbl.generation = generation then nfs41SetServerSlotidLocked tbl highest else tbl
  nfs41SetMaxSlotidLocked tbl target waiters last

/-- `nfs41_release_slot`: the slot goes to a waiter, if there is one and it may still be used, or is freed. -/
def nfs41ReleaseTableSlot (slotid : Nat) (waiter : Bool) : Nfs4SlotTable :=
  if slotid ≤ tbl.maxSlotid ∧ waiter then
    { tbl with slots := tbl.slots.map fun slot =>
        if slot.slotNr = slotid then { slot with generation := tbl.generation } else slot }
  else nfs4FreeSlot tbl slotid

end

/-! ## The session -/

/-- `struct nfs4_channel_attrs` -/
structure ChannelAttrs where
  (maxRqstSz maxRespSz maxRespSzCached maxOps maxReqs : Nat)
  deriving DecidableEq

/-- The channels of CREATE_SESSION as the client asks for them. -/
structure CreateSessionArgs where
  (fcAttrs bcAttrs : ChannelAttrs)
  deriving DecidableEq

/-- The channels as the server grants them; `backChan` is the flag `SESSION4_BACK_CHAN`. -/
structure CreateSessionRes extends CreateSessionArgs where
  backChan : Bool
  deriving DecidableEq

/-- The number of requests is cut to what a table can hold. -/
def nfs4VerifyForeChannelAttrs (sent rcvd : ChannelAttrs) : Option ChannelAttrs :=
  if sent.maxRespSz < rcvd.maxRespSz then none
  else if rcvd.maxOps < sent.maxOps then none
  else if rcvd.maxReqs = 0 then none
  else some { rcvd with maxReqs := min rcvd.maxReqs nfs4MaxSlotTable }

def nfs4VerifyBackChannelAttrs (sent rcvd : ChannelAttrs) (backChan : Bool) : Bool :=
  !backChan || !(sent.maxRqstSz < rcvd.maxRqstSz || rcvd.maxRespSz < sent.maxRespSz ||
    sent.maxRespSzCached < rcvd.maxRespSzCached || sent.maxOps < rcvd.maxOps || sent.maxReqs < rcvd.maxReqs)

def nfs4VerifyChannelAttrs (args : CreateSessionArgs) (res : CreateSessionRes) : Option CreateSessionRes :=
  (nfs4VerifyForeChannelAttrs args.fcAttrs res.fcAttrs).bind fun fcAttrs =>
    if nfs4VerifyBackChannelAttrs args.bcAttrs res.bcAttrs res.backChan then some { res with fcAttrs := fcAttrs } else none

structure Nfs4Session where
  (fcSlotTable bcSlotTable : Nfs4SlotTable := {})
  backChan : Bool := false
  deriving DecidableEq

/-- `nfs4_setup_session_slot_tables`, with the room for new slots in each table. -/
def nfs4SetupSessionSlotTables (ses : Nfs4Session) (res : CreateSessionRes) (fcRoom bcRoom : Nat) : Nfs4Session :=
  match nfs4ReallocSlotTable ses.fcSlotTable res.fcAttrs.maxReqs 1 fcRoom with
  | (fc, false) => { ses with fcSlotTable := fc, backChan := res.backChan }
  | (fc, true) =>
    if res.backChan then
      match nfs4ReallocSlotTable ses.bcSlotTable res.bcAttrs.maxReqs 0 bcRoom with
      | (bc, true) => { fcSlotTable := fc, bcSlotTable := bc, backChan := true }
      | (bc, false) =>
        if bc.slots = [] then
          { fcSlotTable := nfs4ShrinkSlotTable fc 0, bcSlotTable := nfs4ShrinkSlotTable bc 0, backChan := true }
        else { fcSlotTable := fc, bcSlotTable := bc, backChan := true }
    else { ses with fcSlotTable := fc, backChan := false }

/-- Whether the request may go on, and the bits it reads. -/
def validateSeqid (tbl : Nfs4SlotTable) (slot : Nfs4Slot) (slotid : Nat) (seqid : BitVec 32) : Nfs4SlotTable × Bool :=
  if tbl.serverHighestSlotid < slotid then (tbl, false)
  else if seqid = slot.seqNr then (tbl.touch slot.slotNr, false)
  else (tbl, seqid = slot.seqNr + 1)

/-- The referring calls are looked up in the fore channel. -/
def nfs4CallbackSequence (ses : Nfs4Session) (slotid : Nat) (seqid : BitVec 32) (cachethis : Bool) (room : Nat)
    (refs : List (BitVec 32 × Nat)) : Nfs4Session :=
  if !ses.backChan then ses
  else
    match nfs4LookupSlot ses.bcSlotTable slotid room with
    | (bc, none) => { ses with bcSlotTable := bc }
    | (bc, some slot) =>
      match validateSeqid bc slot slotid seqid with
      | (bc, false) => { ses with bcSlotTable := bc }
      | (bc, true) =>
        -- `nfs4_try_to_lock_slot`
        if slot.slotNr ∈ bc.usedSlots then { ses with bcSlotTable := bc.touch slot.slotNr }
        else
          let bc := nfs4LockSlot bc slot.slotNr
          if cachethis then { ses with bcSlotTable := bc }
          else
            { ses with
              bcSlotTable := { bc with slots := bc.slots.map fun s =>
                if s.slotNr = slot.slotNr then { s with seqNr := seqid } else s }
              fcSlotTable := refs.foldl (fun fc ref => nfs4SlotSeqidInUse fc ref.1.toNat ref.2) ses.fcSlotTable }

/-- What happens to a session. Lists of waiters and numbers say how many slots can be allocated each time. -/
inductive SessionEvent where
  | createSession (args : CreateSessionArgs) (res : CreateSessionRes) (fcRoom bcRoom : Nat)
  | allocSlot (room : Nat)
  | releaseSlot (slotid : Nat) (waiter : Bool)
  | sequenceResult (slotid : Nat) (highest target : BitVec 32) (waiters : List Nat) (last : Nat)
  | cbRecallSlot (target : BitVec 32) (waiters : List Nat) (last : Nat)
  | cbSequence (slotid seqid : BitVec 32) (cachethis : Bool) (room : Nat) (refs : List (BitVec 32 × Nat))
  | cbDone (slotid : Nat)
  | endDrain (waiters : List Nat) (fcLast bcLast : Nat)
  deriving DecidableEq

/-- One event. Slots are released and get results only while they are in use; the tables are empty when a session is made. -/
def sessionStep (ses : Nfs4Session) : SessionEvent → Option Nfs4Session
  | .createSession args res fcRoom bcRoom =>
    if ses.fcSlotTable.highestUsedSlotid = nfs4NoSlot ∧ ses.bcSlotTable.highestUsedSlotid = nfs4NoSlot then
      match nfs4VerifyChannelAttrs args res with
      | none => some ses
      | some res => some (nfs4SetupSessionSlotTables ses res fcRoom bcRoom)
    else none
  | .allocSlot room => some { ses with fcSlotTable := (nfs4AllocSlot ses.fcSlotTable room).1 }
  | .releaseSlot slotid waiter =>
    if slotid ∈ ses.fcSlotTable.usedSlots then
      some { ses with fcSlotTable := nfs41ReleaseTableSlot ses.fcSlotTable slotid waiter }
    else none
  | .sequenceResult slotid highest target waiters last =>
    if slotid ∈ ses.fcSlotTable.usedSlots then
      (ses.fcSlotTable.slots.find? (·.slotNr = slotid)).map fun slot =>
        { ses with fcSlotTable :=
          nfs41UpdateTargetSlotid ses.fcSlotTable slot.generation highest.toNat target.toNat waiters last }
    else none
  | .cbRecallSlot target waiters last =>
    some { ses with fcSlotTable := nfs41SetTargetSlotid ses.fcSlotTable target.toNat waiters last }
  | .cbSequence slotid seqid cachethis room refs => some (nfs4CallbackSequence ses slotid.toNat seqid cachethis room refs)
  | .cbDone slotid =>
    if slotid ∈ ses.bcSlotTable.usedSlots then some { ses with bcSlotTable := nfs4FreeSlot ses.bcSlotTable slotid } else none
  | .endDrain waiters fcLast bcLast =>
    some { ses with
      fcSlotTable := nfs41WakeSlotTable waiters fcLast ses.fcSlotTable
      bcSlotTable := nfs41WakeSlotTable [] bcLast ses.bcSlotTable }

/-! ## What holds of a table -/

/-- The highest bit, or `NFS4_NO_SLOT`. -/
def IsHighest (used : Finset Nat) (h : Nat) : Prop := used = ∅ ∧ h = nfs4NoSlot ∨ h ∈ used ∧ ∀ i ∈ used, i ≤ h

/-- The slots are numbered, bits in use have a slot, the highest one is known, no bit lies outside the map and no slot was
freed in use. -/
structure SlotTableSafe (tbl : Nfs4SlotTable) : Prop where
  numbered : tbl.slots.map Nfs4Slot.slotNr = List.range tbl.maxSlots
  used : ∀ i ∈ tbl.usedSlots, i < tbl.maxSlots
  highest : IsHighest tbl.usedSlots tbl.highestUsedSlotid
  kept : tbl.freedInUse = false
  inMap : tbl.outOfMap = false ∧ ∀ i ∈ tbl.usedSlots, i < nfs4MaxSlotTable

structure SlotInv (tbl : Nfs4SlotTable) : Prop where
  numbered : tbl.slots.map Nfs4Slot.slotNr = List.range tbl.maxSlots
  fits : tbl.maxSlots ≤ nfs4MaxSlotTable
  used : ∀ i ∈ tbl.usedSlots, i < tbl.maxSlots
  highest : IsHighest tbl.usedSlots tbl.highestUsedSlotid
  bounded : tbl.maxSlotid < nfs4MaxSlotTable
  kept : tbl.freedInUse = false
  inMap : tbl.outOfMap = false

theorem SlotInv.safe {tbl : Nfs4SlotTable} (h : SlotInv tbl) : SlotTableSafe tbl where
  __ := h
  inMap := ⟨h.inMap, fun i hi => lt_of_lt_of_le (h.used i hi) h.fits⟩

section

variable {used : Finset Nat} {size i h : Nat}

theorem lastBitBelow_eq_none (hnone : lastBitBelow used size = none) : ∀ j < size, j ∉ used := by
  induction size with
  | zero =>
    intro j hj
    omega
  | succ size ih =>
    rw [lastBitBelow] at hnone
    split at hnone
    · cases hnone
    rename_i hsize
    intro j hj
    rcases Nat.lt_succ_iff_lt_or_eq.1 hj with hj | rfl
    · exact ih hnone j hj
    · exact hsize

theorem lastBitBelow_eq_some (hsome : lastBitBelow used size = some i) : i < size ∧ i ∈ used ∧ ∀ j < size, j ∈ used → j ≤ i := by
  induction size with
  | zero => cases hsome
  | succ size ih =>
    rw [lastBitBelow] at hsome
    split_ifs at hsome with hsize
    · cases hsome
      exact ⟨Nat.lt_succ_self _, hsize, fun j hj _ => Nat.le_of_lt_succ hj⟩
    obtain ⟨hlt, hmem, hmax⟩ := ih hsome
    refine ⟨Nat.lt_succ_of_lt hlt, hmem, fun j hj hjused => ?_⟩
    rcases Nat.lt_succ_iff_lt_or_eq.1 hj with hj | rfl
    · exact hmax j hj hjused
    · exact absurd hjused hsize

theorem isHighest_findLastBit (hall : ∀ j ∈ used, j < size) :
    IsHighest used (if findLastBit used size < size then findLastBit used size else nfs4NoSlot) := by
  rw [findLastBit]
  cases hlast : lastBitBelow used size with
  | none =>
    rw [getD_none, if_neg (lt_irrefl _)]
    refine .inl ⟨?_, rfl⟩
    rw [Finset.eq_empty_iff_forall_notMem]
    intro j hj
    exact lastBitBelow_eq_none hlast j (hall j hj) hj
  | some i =>
    obtain ⟨hlt, hmem, hmax⟩ := lastBitBelow_eq_some hlast
    rw [getD_some, if_pos hlt]
    exact .inr ⟨hmem, fun j hj => hmax j (hall j hj) hj⟩

theorem IsHighest.erase (hh : IsHighest used h) (hi : i ≠ nfs4NoSlot) : IsHighest (used.erase i)
    (if i = h then if findLastBit (used.erase i) i < i then findLastBit (used.erase i) i else nfs4NoSlot else h) := by
  rcases hh with ⟨rfl, rfl⟩ | ⟨hmem, hmax⟩
  · rw [if_neg hi]
    exact .inl ⟨Finset.erase_empty _, rfl⟩
  split
  · rename_i heq
    apply isHighest_findLastBit
    intro j hj
    have hle := hmax j (Finset.mem_of_mem_erase hj)
    have hne := Finset.ne_of_mem_erase hj
    omega
  · rename_i hne
    exact .inr ⟨Finset.mem_erase.2 ⟨Ne.symm hne, hmem⟩, fun j hj => hmax j (Finset.mem_of_mem_erase hj)⟩

theorem IsHighest.insert (hh : IsHighest used h) (hall : ∀ j ∈ used, j ≠ nfs4NoSlot) :
    IsHighest (insert i used) (if h < i ∨ h = nfs4NoSlot then i else h) := by
  rcases hh with ⟨rfl, rfl⟩ | ⟨hmem, hmax⟩
  · rw [if_pos (.inr rfl)]
    exact .inr ⟨Finset.mem_insert_self _ _, (Finset.forall_mem_insert ..).2 ⟨le_refl _, nofun⟩⟩
  have hne := hall h hmem
  split_ifs with hlt
  · refine .inr ⟨Finset.mem_insert_self _ _, (Finset.forall_mem_insert ..).2 ⟨le_refl _, fun j hj => ?_⟩⟩
    have := hmax j hj
    omega
  exact .inr ⟨Finset.mem_insert_of_mem hmem, (Finset.forall_mem_insert ..).2 ⟨by omega, hmax⟩⟩

end

section

variable {tbl tbl' : Nfs4SlotTable} {slotid newsize room target highest last : Nat} {seqInit ivalue : BitVec 32}
  {slot : Nfs4Slot} {waiters : List Nat} {f : Nfs4Slot → Nfs4Slot}

section

variable (h : SlotInv tbl)
include h

theorem SlotInv.touch (hid : slotid < nfs4MaxSlotTable) : SlotInv (tbl.touch slotid) := by
  refine { h with inMap := ?_ }
  simp [Nfs4SlotTable.touch, h.inMap, hid]

theorem SlotInv.slots_length : tbl.slots.length = tbl.maxSlots := by
  have := congrArg length h.numbered
  simpa using this

theorem SlotInv.shrink (hsize : ∀ i ∈ tbl.usedSlots, i < newsize) : SlotInv (nfs4ShrinkSlotTable tbl newsize) := by
  have hlength := h.slots_length
  have hfits := h.fits
  rw [nfs4ShrinkSlotTable]
  split_ifs with hlt
  · exact h
  have hmax : tbl.maxSlots - (tbl.slots.drop newsize).length = newsize := by
    rw [length_drop]
    omega
  rw [hmax]
  refine ⟨?_, by dsimp only; omega, hsize, h.highest, h.bounded, ?_, h.inMap⟩
  · rw [map_take, h.numbered, take_range, min_eq_left (by omega)]
  · rw [h.kept, Bool.false_or, List.any_eq_false]
    intro slot hslot
    -- The slots behind the new end have higher numbers.
    have hnr : slot.slotNr ∈ (range tbl.maxSlots).drop newsize := by
      rw [← h.numbered, ← map_drop]
      exact mem_map_of_mem hslot
    obtain ⟨k, hk, hget⟩ := mem_iff_getElem.1 hnr
    simp only [getElem_drop, getElem_range] at hget
    rw [decide_eq_true_eq]
    intro hused
    have := hsize _ hused
    omega

theorem SlotInv.free (hid : slotid < nfs4MaxSlotTable) : SlotInv (nfs4FreeSlot tbl slotid) := by
  have hno : slotid ≠ nfs4NoSlot := by
    intro heq
    rw [heq] at hid
    exact absurd hid (by decide)
  refine { h.touch hid with used := fun i hi => h.used i (Finset.mem_of_mem_erase hi), highest := h.highest.erase hno }

theorem SlotInv.not_noSlot : ∀ i ∈ tbl.usedSlots, i ≠ nfs4NoSlot := by
  rintro i hi rfl
  have := h.used _ hi
  have hfits := h.fits
  simp only [nfs4NoSlot, nfs4MaxSlotTable] at this hfits
  omega

end

theorem map_slotNr (hf : ∀ slot, (f slot).slotNr = slot.slotNr) (slots : List Nfs4Slot) :
    (slots.map f).map Nfs4Slot.slotNr = slots.map Nfs4Slot.slotNr := by
  rw [List.map_map]
  exact List.map_congr_left fun slot _ => hf slot

theorem map_slotNr_ite (hf : ∀ slot, (f slot).slotNr = slot.slotNr) (slots : List Nfs4Slot) (i : Nat) :
    (slots.map fun slot => if slot.slotNr = i then f slot else slot).map Nfs4Slot.slotNr = slots.map Nfs4Slot.slotNr := by
  apply map_slotNr
  intro slot
  split
  · exact hf slot
  · rfl

theorem SlotInv.lock (h : SlotInv tbl) (hid : slotid < tbl.maxSlots) : SlotInv (nfs4LockSlot tbl slotid) := by
  have hmap : slotid < nfs4MaxSlotTable := lt_of_lt_of_le hid h.fits
  exact { h.touch hmap with
    numbered := (map_slotNr_ite (f := fun slot => { slot with generation := tbl.generation }) (fun _ => rfl) _ _).trans h.numbered
    used := (Finset.forall_mem_insert ..).2 ⟨hid, h.used⟩
    highest := h.highest.insert h.not_noSlot }

theorem SlotInv.createSlots (hid : slotid < nfs4MaxSlotTable) : ∀ (room : Nat) (tbl : Nfs4SlotTable), SlotInv tbl → tbl.maxSlots ≤ slotid →
    SlotInv (createSlots slotid seqInit room tbl).1 ∧
    (createSlots slotid seqInit room tbl).1 =
      { tbl with
        slots := (Nfs.createSlots slotid seqInit room tbl).1.slots
        maxSlots := (Nfs.createSlots slotid seqInit room tbl).1.maxSlots } ∧
    ∀ slot, (Nfs.createSlots slotid seqInit room tbl).2 = some slot →
      slot.slotNr = slotid ∧ slotid < (Nfs.createSlots slotid seqInit room tbl).1.maxSlots := by
  intro room
  induction room with
  | zero =>
    intro tbl h _
    exact ⟨h, rfl, nofun⟩
  | succ room ih =>
    intro tbl h hle
    have hnew : SlotInv { tbl with
        slots := tbl.slots ++ [{ slotNr := tbl.maxSlots, seqNr := seqInit }], maxSlots := tbl.maxSlots + 1 } := by
      refine { h with numbered := ?_, fits := ?_, used := fun i hi => Nat.lt_succ_of_lt (h.used i hi) }
      · rw [map_append, h.numbered, range_succ]
        rfl
      · exact lt_of_le_of_lt hle hid
    rw [Nfs.createSlots]
    dsimp only
    split_ifs with heq
    · refine ⟨hnew, rfl, ?_⟩
      rintro slot hslot
      cases hslot
      exact ⟨heq, by dsimp only; omega⟩
    · obtain ⟨hinv, hframe, hslot⟩ := ih _ hnew (by dsimp only; omega)
      exact ⟨hinv, hframe, hslot⟩

/-- What `nfs4_find_or_create_slot` does: only the list of slots can grow. -/
structure Found (tbl tbl' : Nfs4SlotTable) (slotid : Nat) (found : Option Nfs4Slot) : Prop where
  inv : SlotInv tbl'
  frame : tbl' = { tbl with slots := tbl'.slots, maxSlots := tbl'.maxSlots }
  slotNr : ∀ slot, found = some slot → slot.slotNr = slotid ∧ slotid < tbl'.maxSlots

section

variable (h : SlotInv tbl)
include h

theorem SlotInv.find (hid : slotid < nfs4MaxSlotTable) :
    Found tbl (nfs4FindOrCreateSlot tbl slotid seqInit room).1 slotid (nfs4FindOrCreateSlot tbl slotid seqInit room).2 := by
  rw [nfs4FindOrCreateSlot]
  split
  · rename_i slot hfind
    refine ⟨h, rfl, ?_⟩
    intro slot' hslot'
    cases hslot'
    have hnr : slot.slotNr = slotid := by simpa using find?_some hfind
    have hmem : slot.slotNr ∈ range tbl.maxSlots := by
      rw [← h.numbered]
      exact mem_map_of_mem (mem_of_find?_eq_some hfind)
    exact ⟨hnr, hnr ▸ mem_range.1 hmem⟩
  rename_i hnone
  have hle : tbl.maxSlots ≤ slotid := by
    by_contra hlt
    have hmem : slotid ∈ tbl.slots.map Nfs4Slot.slotNr := by
      rw [h.numbered]
      exact mem_range.2 (not_le.1 hlt)
    obtain ⟨slot, hslot, hnr⟩ := mem_map.1 hmem
    exact absurd hnr (by simpa using find?_eq_none.1 hnone slot hslot)
  obtain ⟨hinv, hframe, hslot⟩ := SlotInv.createSlots hid room tbl h hle
  exact ⟨hinv, hframe, hslot⟩

theorem SlotInv.lookup :
    Found tbl (nfs4LookupSlot tbl slotid room).1 slotid (nfs4LookupSlot tbl slotid room).2 := by
  rw [nfs4LookupSlot]
  split_ifs with hle
  · exact h.find (lt_of_le_of_lt hle h.bounded)
  · exact ⟨h, rfl, nofun⟩

theorem SlotInv.seqidInUse : SlotInv (nfs4SlotSeqidInUse tbl slotid room) := by
  have hfound := @SlotInv.lookup _ slotid room h
  rw [nfs4SlotSeqidInUse]
  split
  · rename_i heq
    rw [heq] at hfound
    exact hfound.inv
  rename_i slot heq
  rw [heq] at hfound
  exact hfound.inv.touch (lt_of_lt_of_le (hfound.slotNr slot rfl).2 hfound.inv.fits)

theorem SlotInv.alloc : SlotInv (nfs4AllocSlot tbl room).1 ∧
    ∀ i, (nfs4AllocSlot tbl room).2 = some i → i ∈ (nfs4AllocSlot tbl room).1.usedSlots := by
  rw [nfs4AllocSlot]
  split_ifs with hle
  · have hfound := @SlotInv.find _ _ room 1 h (lt_of_le_of_lt hle h.bounded)
    split
    · rename_i heq
      rw [heq] at hfound
      exact ⟨hfound.inv, nofun⟩
    rename_i slot heq
    rw [heq] at hfound
    obtain ⟨hnr, hlt⟩ := hfound.slotNr slot rfl
    refine ⟨hfound.inv.lock (hnr ▸ hlt), ?_⟩
    intro i hi
    cases hi
    exact Finset.mem_insert_self _ _
  · exact ⟨h, nofun⟩

end

theorem SlotInv.wake : ∀ (waiters : List Nat) (last : Nat) (tbl : Nfs4SlotTable), SlotInv tbl →
    SlotInv (nfs41WakeSlotTable waiters last tbl) := by
  intro waiters
  induction waiters with
  | nil =>
    intro last tbl h
    obtain ⟨hinv, hused⟩ := h.alloc
    rw [nfs41WakeSlotTable]
    split
    · rename_i heq
      rw [heq] at hinv
      exact hinv
    rename_i i heq
    rw [heq] at hinv hused
    exact hinv.free (lt_of_lt_of_le (hinv.used i (hused i rfl)) hinv.fits)
  | cons room waiters ih =>
    intro last tbl h
    obtain ⟨hinv, -⟩ := h.alloc
    rw [nfs41WakeSlotTable]
    split
    · rename_i heq
      rw [heq] at hinv
      exact hinv
    rename_i i heq
    rw [heq] at hinv
    exact ih last _ hinv

section

variable (h : SlotInv tbl)
include h

theorem SlotInv.setMax : SlotInv (nfs41SetMaxSlotidLocked tbl target waiters last) := by
  apply SlotInv.wake
  refine { h with bounded := ?_ }
  simp only [nfs4MaxSlotTable]
  omega

theorem SlotInv.setTargetLocked : SlotInv (nfs41SetTargetSlotidLocked tbl target) := by
  rw [nfs41SetTargetSlotidLocked]
  split
  · exact h
  · exact { h with }

theorem SlotInv.setTarget : SlotInv (nfs41SetTargetSlotid tbl target waiters last) := by
  apply SlotInv.setMax
  exact { h.setTargetLocked with }

/-- **A new size from the server** frees no slot in use, unless it is `NFS4_NO_SLOT`. -/
theorem SlotInv.setServer (hlt : highest < nfs4NoSlot) : SlotInv (nfs41SetServerSlotidLocked tbl highest) := by
  rw [nfs41SetServerSlotidLocked]
  split
  · exact h
  split_ifs with hge
  · exact h
  have hsucc : slotSucc highest = highest + 1 := by
    simp only [slotSucc, nfs4NoSlot] at hlt ⊢
    omega
  have hshrink : SlotInv (nfs4ShrinkSlotTable tbl (slotSucc highest)) := by
    apply h.shrink
    intro i hi
    rcases h.highest with ⟨hempty, -⟩ | ⟨-, hmax⟩
    · rw [hempty] at hi
      cases hi
    · have := hmax i hi
      omega
  exact { hshrink with }

theorem SlotInv.update {generation : BitVec 64} (hlt : highest < nfs4NoSlot) :
    SlotInv (nfs41UpdateTargetSlotid tbl generation highest target waiters last) := by
  have hfollow : SlotInv (nfs41FollowTargetSlotid tbl target) := by
    have hjudged : SlotInv (nfs41IsOutlierTargetSlotid tbl target).1 := { h with }
    rw [nfs41FollowTargetSlotid]
    split
    · exact hjudged
    · exact hjudged.setTargetLocked
  apply SlotInv.setMax
  split
  · exact hfollow.setServer hlt
  · exact hfollow

theorem SlotInv.release {waiter : Bool} (hid : slotid ∈ tbl.usedSlots) :
    SlotInv (nfs41ReleaseTableSlot tbl slotid waiter) := by
  rw [nfs41ReleaseTableSlot]
  split
  · exact { h with numbered :=
      (map_slotNr_ite (f := fun slot => { slot with generation := tbl.generation }) (fun _ => rfl) _ _).trans h.numbered }
  · exact h.free (lt_of_lt_of_le (h.used _ hid) h.fits)

theorem SlotInv.drained (hdrained : tbl.highestUsedSlotid = nfs4NoSlot) : tbl.usedSlots = ∅ := by
  rcases h.highest with ⟨hempty, -⟩ | ⟨hmem, -⟩
  · exact hempty
  · exact absurd hdrained (h.not_noSlot _ hmem)

theorem SlotInv.reset (hempty : tbl.usedSlots = ∅) (hlt : highest < nfs4MaxSlotTable) :
    SlotInv (nfs4ResetSlotTable tbl highest ivalue) := by
  have hshrink : SlotInv (nfs4ShrinkSlotTable tbl (slotSucc highest)) := by
    apply h.shrink
    rw [hempty]
    nofun
  have hused : (nfs4ShrinkSlotTable tbl (slotSucc highest)).usedSlots = ∅ := by
    rw [nfs4ShrinkSlotTable]
    split
    · exact hempty
    · exact hempty
  refine { hshrink with
    numbered := (map_slotNr (f := fun slot => { slot with seqNr := ivalue }) (fun _ => rfl) _).trans hshrink.numbered
    highest := .inl ⟨hused, rfl⟩
    bounded := hlt }

/-- **`nfs4_realloc_slot_table`** for at least one request. -/
theorem SlotInv.realloc {maxReqs : Nat} (hempty : tbl.usedSlots = ∅) (hreqs : maxReqs ≠ 0) :
    SlotInv (nfs4ReallocSlotTable tbl maxReqs ivalue room).1 ∧
      (nfs4ReallocSlotTable tbl maxReqs ivalue room).1.usedSlots = ∅ := by
  have hpred : slotPred (min maxReqs nfs4MaxSlotTable) < nfs4MaxSlotTable := by
    simp only [slotPred, nfs4MaxSlotTable]
    omega
  have hgrow : SlotInv (nfs4GrowSlotTable tbl (min maxReqs nfs4MaxSlotTable) ivalue room).1 ∧
      (nfs4GrowSlotTable tbl (min maxReqs nfs4MaxSlotTable) ivalue room).1.usedSlots = ∅ := by
    rw [nfs4GrowSlotTable]
    split
    · exact ⟨h, hempty⟩
    have hfound := @SlotInv.find _ _ room ivalue h hpred
    refine ⟨hfound.inv, ?_⟩
    rw [hfound.frame]
    exact hempty
  rw [nfs4ReallocSlotTable]
  split
  · rename_i heq
    rw [heq] at hgrow
    exact hgrow
  rename_i heq
  rw [heq] at hgrow
  have hreset := @SlotInv.reset _ _ ivalue hgrow.1 hgrow.2 hpred
  refine ⟨hreset, ?_⟩
  exact hreset.drained rfl

end

end

/-! ## Runs of a session -/

def Nfs4Session.Safe (ses : Nfs4Session) : Prop := SlotTableSafe ses.fcSlotTable ∧ SlotTableSafe ses.bcSlotTable

def SessionInv (ses : Nfs4Session) : Prop := SlotInv ses.fcSlotTable ∧ SlotInv ses.bcSlotTable

/-- The server grants a back channel no less than one request, and no highest slot number is `NFS4_NO_SLOT`. -/
def SessionEvent.Tame : SessionEvent → Prop
  | .createSession _ res _ _ => res.backChan = true → res.bcAttrs.maxReqs ≠ 0
  | .sequenceResult _ highest _ _ _ => highest.toNat ≠ nfs4NoSlot
  | _ => True

section

variable {ses ses' : Nfs4Session} {e : SessionEvent} {args : CreateSessionArgs} {res res' : CreateSessionRes}

theorem verifyChannelAttrs_spec (h : nfs4VerifyChannelAttrs args res = some res') :
    ∃ maxReqs ≠ 0, res' = { res with fcAttrs := { res.fcAttrs with maxReqs := maxReqs } } := by
  obtain ⟨fcAttrs, hfore, hback⟩ := bind_eq_some_iff.1 h
  obtain ⟨-, rfl⟩ := of_guarded hback
  simp only [nfs4VerifyForeChannelAttrs] at hfore
  split_ifs at hfore with _ _ hne
  cases hfore
  refine ⟨_, ?_, rfl⟩
  simp only [nfs4MaxSlotTable]
  omega

theorem SessionInv.setup {fcRoom bcRoom : Nat} (h : SessionInv ses) (hfc : ses.fcSlotTable.usedSlots = ∅)
    (hbc : ses.bcSlotTable.usedSlots = ∅) (hfore : res.fcAttrs.maxReqs ≠ 0)
    (hback : res.backChan = true → res.bcAttrs.maxReqs ≠ 0) : SessionInv (nfs4SetupSessionSlotTables ses res fcRoom bcRoom) := by
  have hfc' := @SlotInv.realloc _ fcRoom 1 h.1 _ hfc hfore
  rw [nfs4SetupSessionSlotTables]
  split
  · rename_i heq
    rw [heq] at hfc'
    exact ⟨hfc'.1, h.2⟩
  rename_i heq
  rw [heq] at hfc'
  split_ifs with hchan
  · have hbc' := @SlotInv.realloc _ bcRoom 0 h.2 _ hbc (hback hchan)
    split
    · rename_i heq'
      rw [heq'] at hbc'
      exact ⟨hfc'.1, hbc'.1⟩
    rename_i heq'
    rw [heq'] at hbc'
    split
    · constructor
      · apply hfc'.1.shrink
        rw [hfc'.2]
        nofun
      · apply hbc'.1.shrink
        rw [hbc'.2]
        nofun
    · exact ⟨hfc'.1, hbc'.1⟩
  · exact ⟨hfc'.1, h.2⟩

theorem SlotInv.foldl_seqidInUse : ∀ (refs : List (BitVec 32 × Nat)) (tbl : Nfs4SlotTable), SlotInv tbl →
    SlotInv (refs.foldl (fun fc ref => nfs4SlotSeqidInUse fc ref.1.toNat ref.2) tbl) := by
  intro refs
  induction refs with
  | nil => exact fun tbl h => h
  | cons ref refs ih => exact fun tbl h => ih _ h.seqidInUse

theorem SessionInv.cbSequence {slotid room : Nat} {seqid : BitVec 32} {cachethis : Bool} {refs : List (BitVec 32 × Nat)}
    (h : SessionInv ses) : SessionInv (nfs4CallbackSequence ses slotid seqid cachethis room refs) := by
  have hfound := @SlotInv.lookup _ slotid room h.2
  rw [nfs4CallbackSequence]
  split
  · exact h
  split
  · rename_i heq
    rw [heq] at hfound
    exact ⟨h.1, hfound.inv⟩
  rename_i bc slot heq
  rw [heq] at hfound
  obtain ⟨hnr, hlt⟩ := hfound.slotNr slot rfl
  have hbit : slot.slotNr < nfs4MaxSlotTable := hnr ▸ lt_of_lt_of_le hlt hfound.inv.fits
  -- Validation reads a bit at most.
  have hvalid : SlotInv (validateSeqid bc slot slotid seqid).1 ∧
      slotid < (validateSeqid bc slot slotid seqid).1.maxSlots := by
    rw [validateSeqid]
    split
    · exact ⟨hfound.inv, hlt⟩
    split
    · exact ⟨hfound.inv.touch hbit, hlt⟩
    · exact ⟨hfound.inv, hlt⟩
  split
  · rename_i heq'
    rw [heq'] at hvalid
    exact ⟨h.1, hvalid.1⟩
  rename_i heq'
  rw [heq'] at hvalid
  split
  · exact ⟨h.1, hvalid.1.touch hbit⟩
  have hlock := hvalid.1.lock (hnr ▸ hvalid.2)
  split
  · exact ⟨h.1, hlock⟩
  · exact ⟨SlotInv.foldl_seqidInUse refs _ h.1, { hlock with numbered :=
      (map_slotNr_ite (f := fun s => { s with seqNr := seqid }) (fun _ => rfl) _ _).trans hlock.numbered }⟩

/-- **Every event** of a tame server keeps both tables in order. -/
theorem sessionStep_inv (h : SessionInv ses) (he : e.Tame) (hstep : sessionStep ses e = some ses') : SessionInv ses' := by
  cases e with
  | createSession args res fcRoom bcRoom =>
    obtain ⟨⟨hfc, hbc⟩, hsome⟩ := ite_none_right_eq_some.mp hstep
    split at hsome
    · cases hsome
      exact h
    rename_i res' hverify
    cases hsome
    obtain ⟨maxReqs, hfore, rfl⟩ := verifyChannelAttrs_spec hverify
    exact h.setup (h.1.drained hfc) (h.2.drained hbc) hfore he
  | allocSlot room =>
    cases hstep
    exact ⟨h.1.alloc.1, h.2⟩
  | releaseSlot slotid waiter =>
    obtain ⟨hused, rfl⟩ := of_guarded hstep
    exact ⟨h.1.release hused, h.2⟩
  | sequenceResult slotid highest target waiters last =>
    obtain ⟨-, hsome⟩ := ite_none_right_eq_some.mp hstep
    obtain ⟨slot, -, rfl⟩ := map_eq_some_iff.1 hsome
    have hlt : highest.toNat < nfs4NoSlot := by
      have hne : highest.toNat ≠ nfs4NoSlot := he
      simp only [nfs4NoSlot] at hne ⊢
      omega
    exact ⟨h.1.update hlt, h.2⟩
  | cbRecallSlot target waiters last =>
    cases hstep
    exact ⟨h.1.setTarget, h.2⟩
  | cbSequence slotid seqid cachethis room refs =>
    cases hstep
    exact h.cbSequence
  | cbDone slotid =>
    obtain ⟨hused, rfl⟩ := of_guarded hstep
    exact ⟨h.1, h.2.free (lt_of_lt_of_le (h.2.used _ hused) h.2.fits)⟩
  | endDrain waiters fcLast bcLast =>
    cases hstep
    exact ⟨SlotInv.wake _ _ _ h.1, SlotInv.wake _ _ _ h.2⟩

theorem sessionInv_init : SessionInv {} := by
  have hempty : SlotInv {} := ⟨rfl, by decide, nofun, .inl ⟨rfl, rfl⟩, by decide, rfl, rfl⟩
  exact ⟨hempty, hempty⟩

end

/-- **Safe tables.**  In every run whose events are all tame, both tables are safe in every state. -/
theorem slotTables_safe (es : List SessionEvent) (hes : EachStep sessionStep (fun _ e => e.Tame) {} es) :
    Always sessionStep Nfs4Session.Safe {} es :=
  always_of_eachStep sessionStep_inv (fun h => ⟨h.1.safe, h.2.safe⟩) sessionInv_init hes

instance (e : SessionEvent) : Decidable e.Tame := by
  cases e <;> dsimp only [SessionEvent.Tame] <;> infer_instance

def channelsOf (fcReqs bcReqs : Nat) : CreateSessionArgs where
  fcAttrs := ⟨4096, 4096, 0, 8, fcReqs⟩
  bcAttrs := ⟨4096, 4096, 0, 2, bcReqs⟩

/-- A session with two slots, one of them in use when the server shrinks the table. -/
theorem slotTables_safe_shrunk : Always sessionStep Nfs4Session.Safe {}
    [.createSession (channelsOf 2 1) { channelsOf 2 1 with backChan := true } 2 1, .allocSlot 2, .sequenceResult 0 0 0 [] 2,
      .cbSequence 0 1 false 1 [], .cbDone 0, .releaseSlot 0 false] :=
  slotTables_safe _ (by decide)

/-- A SEQUENCE result with the highest number frees the slot of its own call; a back channel without requests sets a bit
outside the map. -/
theorem slotTables_broken :
    (run sessionStep {} [.createSession (channelsOf 2 1) { channelsOf 2 1 with backChan := false } 2 0, .allocSlot 2,
      .sequenceResult 0 0xffffffff 1 [] 0]).map (fun ses => ses.fcSlotTable.freedInUse) = some true ∧
    (run sessionStep {} [.createSession (channelsOf 2 1) { channelsOf 2 0 with backChan := true } 2 0,
      .cbSequence 1024 1 false 2000 []]).map (fun ses => ses.bcSlotTable.outOfMap) = some true := by
  constructor
  · decide
  · decide +kernel

end Vastnfs.Nfs
