import Mathlib.Data.List.Basic

/-!
# Replies of COMPOUND

An operation of a COMPOUND is encoded behind those before it, and cut back to its status when it leaves no room for
what may follow (`fs/nfsd/nfs4xdr.c`, `fs/nfsd/nfs4proc.c`). A reply is a list of words.

* `encodeOperation`: one operation, with what it leaves for the owner a retransmission is answered from.
* `encodeOperation_spec`: with room for an error, the reply grows by the operation and stays within its buffer.
* `compoundLoop_spec`: the loop over the operations keeps to the buffer, and passes over none unless one failed.
-/

namespace Vastnfs.Nfsd

abbrev Word := BitVec 32

/-- A status, `nfs_ok` being 0. -/
abbrev Nfsstat := BitVec 32

def nfserrResource : Nfsstat := 10018

def nfserrRepTooBig : Nfsstat := 10066

def nfserrRepTooBigToCache : Nfsstat := 10067

def opIllegal : Word := 10044

def errSlackSpace : Nat := 16

/-! ## One operation -/

/-- The part of `struct nfsd4_compoundres` and its stream that the encoders use. -/
structure CompoundRes where
  words : List Word
  buflen : Nat
  opcnt : Nat
  dataOffset : Nat := 0

def CompoundRes.len (res : CompoundRes) : Nat := 4 * res.words.length

structure Encoding where
  status : Nfsstat
  data : List Word
  /-- Whether it sets `cstate.data_offset` to the end of what it wrote. -/
  marks : Bool := false

/-- An encoder: it knows the room that is left, in bytes, and the status of the operation. -/
abbrev Encoder := Nat → Nfsstat → Encoding

/-- What the errors of an encoder wrote went through `xdr_reserve_space`. -/
def Encoder.ErrorsFit (encoder : Encoder) : Prop :=
  ∀ room status, (encoder room status).status ≠ 0 → 4 * (encoder room status).data.length ≤ room

structure Encoded where
  res : CompoundRes
  status : Nfsstat
  /-- What is recorded for the owner, `none` on the ways that jump past it. -/
  replay : Option (Nfsstat × List Word)

/-- The error of a session's reply that is too big, by `NFSD4_SLOT_CACHETHIS`. -/
def tooBig (cachethis : Bool) : Nfsstat := if cachethis then nfserrRepTooBigToCache else nfserrRepTooBig

/-- `nfsd4_check_resp_size`: `slot` is the `NFSD4_SLOT_CACHETHIS` of the session's slot, `none` without a session. -/
def checkRespSize (slot : Option Bool) (res : CompoundRes) (respsize : Nat) : Nfsstat :=
  if res.len + respsize ≤ res.buflen then 0
  else match slot with
    | none => nfserrResource
    | some cachethis => tooBig cachethis

/-- The errors an operation is cut back to its status for. -/
def cutBack (status : Nfsstat) : Bool :=
  status == nfserrResource || status == nfserrRepTooBig || status == nfserrRepTooBigToCache

def encodedStatus (slot : Option Bool) (last : Bool) (res : CompoundRes) (status : Nfsstat) : Nfsstat :=
  let status := if status = 0 then checkRespSize slot res (if last then 0 else errSlackSpace) else status
  match slot with
  | none => status
  | some cachethis => if status = nfserrResource then tooBig cachethis else status

/-- `nfsd4_encode_operation`: `nontrivialError` is `OP_NONTRIVIAL_ERROR_ENCODE`, `last` is `nfsd4_last_compound_op`. -/
def encodeOperation (slot : Option Bool) (last : Bool) (opnum : Word) (nontrivialError : Bool) (encoder : Encoder)
    (res : CompoundRes) (status : Nfsstat) : Encoded :=
  if res.buflen < res.len + 8 then ⟨res, status, none⟩
  else if opnum = opIllegal ∨ (status ≠ 0 ∧ nontrivialError = false) then
    ⟨{ res with words := res.words ++ [opnum, status] }, status, none⟩
  else
    let e := encoder (res.buflen - (res.len + 8)) status
    let full := { res with words := res.words ++ opnum :: e.status :: e.data }
    let status := encodedStatus slot last full e.status
    let data := if cutBack status then [] else e.data
    -- the status has its place in front of the data
    ⟨{ full with words := res.words ++ opnum :: status :: data
                 dataOffset := if e.marks then full.len else res.dataOffset }, status, some (status, data)⟩

theorem cutBack_tooBig (cachethis : Bool) : cutBack (tooBig cachethis) = true := by
  cases cachethis <;> decide

theorem tooBig_ne_zero (cachethis : Bool) : tooBig cachethis ≠ 0 := by
  cases cachethis <;> decide

section

variable {slot : Option Bool} {last : Bool} {res : CompoundRes} {status : Nfsstat} {opnum : Word} {nontrivialError : Bool}
  {encoder : Encoder}

theorem checkRespSize_cases (respsize : Nat) :
    checkRespSize slot res respsize = 0 ∧ res.len + respsize ≤ res.buflen ∨
      checkRespSize slot res respsize ≠ 0 ∧ cutBack (checkRespSize slot res respsize) = true := by
  unfold checkRespSize
  split
  · exact .inl ⟨rfl, ‹_›⟩
  cases slot with
  | none => exact .inr ⟨by decide, by decide⟩
  | some cachethis => exact .inr ⟨tooBig_ne_zero _, cutBack_tooBig _⟩

theorem encodedStatus_cases :
    encodedStatus slot last res status = 0 ∧ status = 0 ∧ res.len + (if last then 0 else errSlackSpace) ≤ res.buflen ∨
      encodedStatus slot last res status ≠ 0 ∧ (status ≠ 0 ∨ cutBack (encodedStatus slot last res status) = true) := by
  have hslot : ∀ st : Nfsstat, (match slot with
      | none => st
      | some cachethis => if st = nfserrResource then tooBig cachethis else st) = st ∨
      ∃ cachethis, (match slot with
      | none => st
      | some cachethis => if st = nfserrResource then tooBig cachethis else st) = tooBig cachethis ∧ st ≠ 0 := by
    intro st
    cases slot with
    | none => exact .inl rfl
    | some cachethis =>
      by_cases hst : st = nfserrResource
      · exact .inr ⟨cachethis, if_pos hst, hst ▸ by decide⟩
      · exact .inl (if_neg hst)
  unfold encodedStatus
  split
  · rename_i hstatus
    obtain heq | ⟨cachethis, heq, hne⟩ := hslot (checkRespSize slot res (if last then 0 else errSlackSpace))
    · rw [heq]
      obtain ⟨hzero, hroom⟩ | ⟨hne, hcut⟩ := @checkRespSize_cases slot res (if last then 0 else errSlackSpace)
      · exact .inl ⟨hzero, hstatus, hroom⟩
      · exact .inr ⟨hne, .inr hcut⟩
    · rw [heq]
      exact .inr ⟨tooBig_ne_zero _, .inr (cutBack_tooBig _)⟩
  rename_i hstatus
  obtain heq | ⟨cachethis, heq, -⟩ := hslot status
  · rw [heq]
    exact .inr ⟨hstatus, .inl hstatus⟩
  · rw [heq]
    exact .inr ⟨tooBig_ne_zero _, .inl hstatus⟩

theorem encodedStatus_zero (h : res.len + (if last then 0 else errSlackSpace) ≤ res.buflen) :
    encodedStatus slot last res 0 = 0 := by
  have hcheck : checkRespSize slot res (if last then 0 else errSlackSpace) = 0 := if_pos h
  unfold encodedStatus
  rw [if_pos rfl, hcheck]
  cases slot <;> rfl

/-- What an encoded operation is: its number, its status and its data behind what was there. -/
structure EncodesTo (last : Bool) (opnum : Word) (res : CompoundRes) (e : Encoded) (data : List Word) : Prop where
  words : e.res.words = res.words ++ opnum :: e.status :: data
  buflen : e.res.buflen = res.buflen
  opcnt : e.res.opcnt = res.opcnt
  within : e.res.len ≤ res.buflen
  room : e.status = 0 → e.res.len + (if last then 0 else errSlackSpace) ≤ res.buflen

/-- **With room for an error an operation is encoded within the buffer**, and a success leaves room for what follows. -/
theorem encodeOperation_spec (hfit : encoder.ErrorsFit) (hroom : res.len + 8 ≤ res.buflen)
    (hlegal : status = 0 → opnum ≠ opIllegal) :
    ∃ data, EncodesTo last opnum res (encodeOperation slot last opnum nontrivialError encoder res status) data := by
  have hlen : ∀ data : List Word, ∀ st : Nfsstat,
      4 * (res.words ++ opnum :: st :: data).length = res.len + 8 + 4 * data.length := by
    intro data st
    simp only [CompoundRes.len, List.length_append, List.length_cons]
    omega
  unfold encodeOperation
  rw [if_neg (Nat.not_lt.2 hroom)]
  split_ifs with herr
  · refine ⟨[], rfl, rfl, rfl, Nat.le_trans (Nat.le_of_eq (hlen [] status)) hroom, ?_⟩
    intro hzero
    obtain hill | herr := herr
    · exact absurd hill (hlegal hzero)
    · exact absurd hzero herr.1
  generalize he : encoder (res.buflen - (res.len + 8)) status = e
  dsimp only
  generalize hfull : ({ res with words := res.words ++ opnum :: e.status :: e.data } : CompoundRes) = full
  have hfullLen : full.len = res.len + 8 + 4 * e.data.length := hfull ▸ hlen e.data e.status
  have hbuflen : full.buflen = res.buflen := hfull ▸ rfl
  refine ⟨_, rfl, rfl, rfl, ?_, ?_⟩
  · rw [CompoundRes.len, hlen]
    obtain ⟨-, -, hfits⟩ | ⟨-, herr | hcut⟩ := @encodedStatus_cases slot last full e.status
    · split
      · exact hroom
      · omega
    · have := hfit (res.buflen - (res.len + 8)) status (he ▸ herr)
      rw [he] at this
      split
      · exact hroom
      · omega
    · rw [if_pos hcut]
      exact hroom
  · intro hzero
    obtain ⟨-, -, hfits⟩ | ⟨hne, -⟩ := @encodedStatus_cases slot last full e.status
    · rw [CompoundRes.len, hlen]
      rw [hfullLen, hbuflen] at hfits
      split
      · exact Nat.le_trans (Nat.add_le_add_right (by simp) _) hfits
      · exact hfits
    · exact absurd hzero hne

theorem encodeOperation_dataOffset (hmarks : ∀ room st, (encoder room st).marks = false) :
    (encodeOperation slot last opnum nontrivialError encoder res status).res.dataOffset = res.dataOffset := by
  unfold encodeOperation
  split
  · rfl
  split
  · rfl
  · simp [hmarks]

theorem encodeOperation_ne_zero (hstay : ∀ room, (encoder room status).status ≠ 0) (hne : status ≠ 0) :
    (encodeOperation slot last opnum nontrivialError encoder res status).status ≠ 0 := by
  set out := encoder (res.buflen - (res.len + 8)) status
  unfold encodeOperation
  split
  · exact hne
  split
  · exact hne
  dsimp only
  obtain ⟨-, hzero, -⟩ | ⟨hres, -⟩ := @encodedStatus_cases slot last
    { res with words := res.words ++ opnum :: out.status ::
        out.data } out.status
  · exact absurd hzero (hstay _)
  · exact hres

/-- What is recorded for the owner is the status and the body of the operation as the reply has them. -/
theorem encodeOperation_replay {st : Nfsstat} {data : List Word}
    (h : (encodeOperation slot last opnum nontrivialError encoder res status).replay = some (st, data)) :
    (encodeOperation slot last opnum nontrivialError encoder res status).status = st ∧
      (encodeOperation slot last opnum nontrivialError encoder res status).res.words = res.words ++ opnum :: st :: data := by
  unfold encodeOperation at h ⊢
  split at h
  · cases h
  split at h
  · cases h
  rename_i hroom herr
  rw [if_neg hroom, if_neg herr]
  cases h
  exact ⟨rfl, rfl⟩

theorem encodeOperation_recorded (hroom : res.len + 8 ≤ res.buflen) (hlegal : opnum ≠ opIllegal)
    (hstatus : status = 0 ∨ nontrivialError = true) :
    ∃ st data, (encodeOperation slot last opnum nontrivialError encoder res status).replay = some (st, data) := by
  unfold encodeOperation
  rw [if_neg (Nat.not_lt.2 hroom), if_neg]
  · exact ⟨_, _, rfl⟩
  rintro (hill | ⟨hne, htrivial⟩)
  · exact hlegal hill
  · obtain hzero | htrue := hstatus
    · exact hne hzero
    · exact absurd (htrue.symm.trans htrivial) (by simp)

end

/-! ## The loop over the operations -/

/-- An operation of a COMPOUND with what becomes of it. -/
structure Nfsd4Op where
  opnum : Word
  nontrivialError : Bool := false
  /-- The status it has before it is run: of the decoder, or for want of a file handle. -/
  preset : Nfsstat := 0
  /-- `op_rsize_bop`, for an operation that modifies something. -/
  rsize : Option Nat := none
  /-- What `op_func` and the check of the export return. -/
  result : Nfsstat := 0
  encode : Nat → Nfsstat → Nfsstat × List Word := fun _ status => (status, [])
  errors_fit : ∀ room status, (encode room status).1 ≠ 0 → 4 * (encode room status).2.length ≤ room := by
    intros; exact Nat.zero_le _
  errors_stay : ∀ room status, status ≠ 0 → (encode room status).1 ≠ 0 := by intros; assumption
  illegal : opnum = opIllegal → preset ≠ 0 := by decide

def Nfsd4Op.encoder (op : Nfsd4Op) : Encoder := fun room status => ⟨(op.encode room status).1, (op.encode room status).2, false⟩

/-- The status of an operation once it has been processed: `args->opcnt` is `opcnt`. -/
def Nfsd4Op.process (op : Nfsd4Op) (slot : Option Bool) (opcnt : Nat) (res : CompoundRes) : Nfsstat :=
  if op.preset ≠ 0 then op.preset
  else
    let status := match op.rsize with
      | none => 0
      | some plen => checkRespSize slot res (plen + if res.opcnt < opcnt then errSlackSpace else 0)
    if status ≠ 0 then status else op.result

/-- `nfsd4_encode_operation` for an operation, the `resp->opcnt`th of `opcnt`. -/
def Nfsd4Op.encodeAs (op : Nfsd4Op) (slot : Option Bool) (opcnt : Nat) (res : CompoundRes) (status : Nfsstat) : Encoded :=
  encodeOperation slot (opcnt = res.opcnt) op.opnum op.nontrivialError op.encoder res status

def Nfsd4Op.run (op : Nfsd4Op) (slot : Option Bool) (opcnt : Nat) (res : CompoundRes) : Encoded :=
  let res := { res with opcnt := res.opcnt + 1 }
  op.encodeAs slot opcnt res (op.process slot opcnt res)

def compoundLoop (slot : Option Bool) (opcnt : Nat) : List Nfsd4Op → CompoundRes → Nfsstat → CompoundRes × Nfsstat
  | [], res, status => (res, status)
  | op :: ops, res, status =>
    if status ≠ 0 then (res, status)
    else compoundLoop slot opcnt ops (op.run slot opcnt res).res (op.run slot opcnt res).status

variable {slot : Option Bool} {opcnt : Nat}

theorem Nfsd4Op.encoder_fits (op : Nfsd4Op) : op.encoder.ErrorsFit := op.errors_fit

theorem Nfsd4Op.process_illegal (op : Nfsd4Op) (res : CompoundRes) (h : op.process slot opcnt res = 0) :
    op.opnum ≠ opIllegal := by
  intro hill
  have hpreset := op.illegal hill
  rw [Nfsd4Op.process, if_pos hpreset] at h
  exact hpreset h

/-- A reply within its buffer that leaves room for an error when more operations follow. -/
structure Roomy (res : CompoundRes) (status : Nfsstat) (more : Bool) : Prop where
  within : res.len ≤ res.buflen
  room : status = 0 → more = true → res.len + errSlackSpace ≤ res.buflen

/-- What the loop leaves of a reply. -/
structure LoopTo (res out : CompoundRes) (status : Nfsstat) (left : Nat) (body : List Word) : Prop where
  words : out.words = res.words ++ body
  within : out.len ≤ res.buflen
  dataOffset : out.dataOffset = res.dataOffset
  opcnt_ge : res.opcnt ≤ out.opcnt
  opcnt_le : out.opcnt ≤ res.opcnt + left
  all : status = 0 → out.opcnt = res.opcnt + left
  none_run : out.opcnt = res.opcnt → body = []

/-- **The loop keeps to the buffer, and passes over no operation unless one failed.** -/
theorem compoundLoop_spec (ops : List Nfsd4Op) (res : CompoundRes) (status : Nfsstat)
    (hroomy : Roomy res status !ops.isEmpty) (hopcnt : res.opcnt + ops.length = opcnt) :
    ∃ body, LoopTo res (compoundLoop slot opcnt ops res status).1 (compoundLoop slot opcnt ops res status).2
      ops.length body := by
  induction ops generalizing res status with
  | nil =>
    exact ⟨[], by rw [List.append_nil]; rfl, hroomy.within, rfl, Nat.le_refl _, Nat.le_refl _, fun _ => rfl, fun _ => rfl⟩
  | cons op ops ih =>
    rw [compoundLoop]
    split_ifs with hstatus
    · refine ⟨[], by rw [List.append_nil], hroomy.within, rfl, Nat.le_refl _, Nat.le_add_right _ _, ?_, fun _ => rfl⟩
      exact fun hzero => absurd hzero hstatus
    have hroom := hroomy.room (not_not.1 hstatus) rfl
    rw [List.length_cons] at hopcnt
    obtain ⟨data, henc⟩ := @encodeOperation_spec slot (opcnt = res.opcnt + 1) { res with opcnt := res.opcnt + 1 }
      (op.process slot opcnt { res with opcnt := res.opcnt + 1 }) op.opnum op.nontrivialError op.encoder
      op.encoder_fits (Nat.le_trans (Nat.add_le_add_left (by decide) _) hroom) (op.process_illegal _)
    set next := op.run slot opcnt res
    have hoffset : next.res.dataOffset = res.dataOffset :=
      encodeOperation_dataOffset fun _ _ => rfl
    change EncodesTo _ _ _ next data at henc
    have hbuf : next.res.buflen = res.buflen := henc.buflen
    have hcnt : next.res.opcnt = res.opcnt + 1 := henc.opcnt
    have hnext : Roomy next.res next.status !ops.isEmpty := by
      refine ⟨by rw [hbuf]; exact henc.within, fun hzero hmore => ?_⟩
      have hnotlast : ¬ opcnt = res.opcnt + 1 := by
        intro hlast
        have : ops = [] := List.length_eq_zero_iff.1 (by omega)
        simp [this] at hmore
      have := henc.room hzero
      rw [hbuf]
      simpa [hnotlast] using this
    obtain ⟨body, hloop⟩ := ih next.res next.status hnext (by omega)
    refine ⟨op.opnum :: next.status :: data ++ body, ?_, ?_, ?_, ?_, ?_, ?_, ?_⟩
    · rw [hloop.words, henc.words, List.append_assoc]
    · exact hbuf ▸ hloop.within
    · exact hloop.dataOffset.trans hoffset
    · have := hloop.opcnt_ge
      omega
    · have := hloop.opcnt_le
      rw [List.length_cons]
      omega
    · intro hzero
      have := hloop.all hzero
      rw [List.length_cons]
      omega
    · intro hnone
      have := hloop.opcnt_ge
      omega

end Vastnfs.Nfsd
