import Mathlib.Data.Vector.Defs
import Vastnfs.Lib.Runs
import Vastnfs.Nfsd.CompoundReply

/-!
# Replies kept by a state owner

NFSv4.0 has no sessions: the operations that change the state of an owner carry a sequence number, and the owner keeps
the reply to the last of them for a retransmission (`fs/nfsd/nfs4state.c`). The number is used up by the class of the
error in `nfsd4_bump_seqid`; the reply is recorded in `nfsd4_encode_operation`.

* `ownerStep`: the operations of one owner, from looking it up to encoding the reply.
* `OwnerInv.step`: the owner expects the number behind the last one used up and keeps the reply to that operation.
* `ownerReplay_faithful`: retransmissions are answered with the reply in every run in which no failed operation but LOCK
  uses up a number, replies fit the buffer of the owner, and retransmissions get as far as the owner.
* `replayBody_within_iff`: what is recorded fits the buffer but for a denied LOCK with a long name.
-/

namespace Vastnfs.Nfsd

open Runs Option
open List hiding Vector

/-! ## Sequence numbers -/

/-- `nfserr_stale_clientid`, `nfserr_stale_stateid` and so on: the errors that use up no number. -/
def seqidKeepers : List Nfsstat := [10022, 10023, 10025, 10026, 10036, 10018, 10020, 10019]

def seqidMutatingErr (status : Nfsstat) : Bool := !seqidKeepers.contains status

def nfserrBadStateid : Nfsstat := 10025

def nfserrBadSeqid : Nfsstat := 10026

/-- What `nfsd4_check_seqid` finds, without a session. -/
inductive SeqidCheck
  | ok | replayMe | badSeqid
deriving DecidableEq

def checkSeqid (soSeqid seqid : BitVec 32) : SeqidCheck :=
  if seqid = soSeqid - 1 then .replayMe
  else if seqid = soSeqid then .ok
  else .badSeqid

/-- The operations with a sequence number. A LOCK that brings a new lock owner carries that of the open owner. -/
inductive SeqidKind
  | open | openConfirm | openDowngrade | close | lock | lockNew | locku
deriving DecidableEq

namespace SeqidKind

def opnum : SeqidKind → Word
  | .open => 18
  | .openConfirm => 20
  | .openDowngrade => 21
  | .close => 4
  | .lock => 12
  | .lockNew => 12
  | .locku => 14

def nontrivialError : SeqidKind → Bool
  | .lock => true
  | .lockNew => true
  | _ => false

theorem opnum_legal (k : SeqidKind) : k.opnum ≠ opIllegal := by
  cases k <;> decide

end SeqidKind

/-! ## The owner and its operations -/

/-- `struct nfs4_stateowner` with its `so_replay`. -/
structure Nfs4Stateowner where
  soSeqid : BitVec 32
  confirmed : Bool := false
  /-- `nfserr_serverfault` at first. -/
  rpStatus : Nfsstat := 10006
  rpBuf : List Word := []
  /-- Whether a reply was written past the end of `rp_ibuf`. -/
  overrun : Bool := false
deriving DecidableEq

/-- `NFSD4_REPLAY_ISIZE`, in words. -/
def replayWords : Nat := 28

/-- An operation of an owner with what becomes of it. -/
structure OwnerOp where
  kind : SeqidKind
  seqid : BitVec 32
  /-- The error that ends it before its owner is looked up: of the decoder, the file handle, the client or the stateid. -/
  entry : Nfsstat := 0
  /-- For an OPEN that is replayed: whether the file handle kept with the reply can still be used. -/
  openfh : Nfsstat := 0
  /-- The checks of the stateid behind that of the number. -/
  precheck : Nfsstat := 0
  /-- What the rest of the operation returns. -/
  result : Nfsstat := 0
  /-- Whether an OPEN reclaims and so confirms its owner. -/
  reclaims : Bool := false
  encoder : Encoder
  res : CompoundRes
  last : Bool := true

structure OpAnswer where
  status : Nfsstat
  body : List Word
deriving DecidableEq

namespace OwnerOp

variable (op : OwnerOp)

def encode (status : Nfsstat) : Encoded :=
  encodeOperation none op.last op.kind.opnum op.kind.nontrivialError op.encoder op.res status

/-- What the client reads: the status, and what is behind it in the reply. -/
def answered (status : Nfsstat) (words : List Word) : OpAnswer := ⟨status, words.drop (op.res.words.length + 2)⟩

def answer (status : Nfsstat) : OpAnswer := op.answered (op.encode status).status (op.encode status).res.words

def replayed (owner : Nfs4Stateowner) : OpAnswer :=
  if op.res.buflen < op.res.len + (8 + 4 * owner.rpBuf.length) then op.answered owner.rpStatus op.res.words
  else op.answered owner.rpStatus (op.res.words ++ op.kind.opnum :: owner.rpStatus :: owner.rpBuf)

/-- The status of an operation whose number is the expected one. -/
def status (confirmed : Bool) : Nfsstat :=
  if op.precheck ≠ 0 then op.precheck
  else match op.kind with
    | .open => op.result
    | .openConfirm => if confirmed then nfserrBadStateid else 0
    | .openDowngrade => if confirmed then op.result else nfserrBadStateid
    | .close => 0
    | .lock => op.result
    | .lockNew => if confirmed then op.result else nfserrBadStateid
    | .locku => op.result

def confirms (confirmed : Bool) : Bool :=
  match op.kind with
  | .open => confirmed || op.reclaims
  | .openConfirm => confirmed || op.precheck == 0
  | _ => confirmed

/-- `nfsd4_bump_seqid` and what `nfsd4_encode_operation` records. -/
def finish (owner : Nfs4Stateowner) (status : Nfsstat) : Nfs4Stateowner :=
  if !seqidMutatingErr status then owner
  else match (op.encode status).replay with
    | none => { owner with soSeqid := owner.soSeqid + 1 }
    | some (st, data) =>
      { owner with
        soSeqid := owner.soSeqid + 1
        rpStatus := st
        rpBuf := data
        overrun := owner.overrun || decide (replayWords < data.length) }

end OwnerOp

/-! ## Runs -/

/-- The last operation that used up a number, with its reply. That of a LOCK which brought this lock owner is kept by the
open owner. -/
structure Consumed where
  seqid : BitVec 32
  reply : Option (SeqidKind × OpAnswer)

/-- An owner, if there is one, with the history of its numbers. -/
structure OwnerState where
  owner : Option Nfs4Stateowner
  consumed : Option Consumed

/-- An operation of the owner, or, for a lock owner, a LOCK through an open owner. -/
inductive OwnerEvent
  | op (op : OwnerOp)
  | lockThrough (seqid : BitVec 32) (status : Nfsstat)

def OwnerEvent.seqid : OwnerEvent → BitVec 32
  | .op o => o.seqid
  | .lockThrough seqid _ => seqid

def OwnerState.init : OwnerState := ⟨none, none⟩

namespace OwnerState

variable (s : OwnerState)

def confirmed : Bool := s.owner.any (·.confirmed)

/-- The owner an operation works on: OPEN replaces an owner that is not confirmed. -/
def ownerOf (op : OwnerOp) : Option Nfs4Stateowner :=
  if op.kind = .open ∧ s.confirmed = false then some { soSeqid := op.seqid } else s.owner

/-- How the number of an operation compares, `none` if it does not get that far. -/
def check (op : OwnerOp) : Option SeqidCheck :=
  if op.entry ≠ 0 then none
  else (s.ownerOf op).map fun owner =>
    if op.kind = .open ∧ s.confirmed = false then .ok else checkSeqid owner.soSeqid op.seqid

def execute (op : OwnerOp) (owner : Nfs4Stateowner) : OwnerState :=
  let status := op.status owner.confirmed
  let next := op.finish { owner with confirmed := op.confirms owner.confirmed } status
  { -- an owner that was made for this OPEN goes when it fails
    owner := if op.kind = .open ∧ s.confirmed = false ∧ status ≠ 0 then none else some next
    consumed := if seqidMutatingErr status then some ⟨op.seqid, some (op.kind, op.answer status)⟩ else s.consumed }

/-- An operation, from `op_func` to its reply. -/
def process (op : OwnerOp) : OwnerState × OpAnswer :=
  match s.ownerOf op, s.check op with
  | some owner, some .ok => (s.execute op owner, op.answer (op.status owner.confirmed))
  | some owner, some .replayMe =>
    if op.kind = .open ∧ op.openfh ≠ 0 then
      ({ s with owner := some (op.finish owner op.openfh) }, op.answer op.openfh)
    else (s, op.replayed owner)
  | _, some .badSeqid => (s, op.answer nfserrBadSeqid)
  | _, _ => (s, op.answer (if op.entry ≠ 0 then op.entry else nfserrBadStateid))

/-- A LOCK through an open owner, unless there is no memory for its stateid. -/
def lockThrough (seqid : BitVec 32) (status : Nfsstat) : OwnerState :=
  let owner := s.owner.getD { soSeqid := seqid }
  if seqid ≠ owner.soSeqid then s
  -- an owner that was made for this LOCK goes with its stateid when it fails
  else if s.owner.isNone ∧ status ≠ 0 then s
  else if seqidMutatingErr status then
    { owner := some { owner with soSeqid := owner.soSeqid + 1 }, consumed := some ⟨seqid, none⟩ }
  else s

end OwnerState

def ownerStep (s : OwnerState) : OwnerEvent → Option OwnerState
  | .op op => some (s.process op).1
  | .lockThrough seqid status => some (s.lockThrough seqid status)

namespace OwnerState

variable (s : OwnerState)

/-- Whether an event is executed, as against refused or answered from the owner. -/
def executes : OwnerEvent → Bool
  | .op op => s.check op == some .ok
  | .lockThrough seqid _ => (s.owner.getD { soSeqid := seqid }).soSeqid == seqid

/-- The operation is a retransmission of the one that used up the last number, which was answered so. -/
def Retries (op : OwnerOp) (ans : OpAnswer) : Prop := s.consumed = some ⟨op.seqid, some (op.kind, ans)⟩

/-- An operation that is executed and uses up its number is recorded for the owner, within its buffer. -/
def recorded (op : OwnerOp) : Bool :=
  (s.ownerOf op).all fun owner =>
    let status := op.status owner.confirmed
    !s.executes (.op op) || !seqidMutatingErr status ||
      ((status == 0 || op.kind.nontrivialError) && decide (op.res.len + 8 ≤ op.res.buflen) &&
        decide ((op.answer status).body.length ≤ replayWords))

/-- A retransmission gets as far as the owner, and has room for the reply. -/
def reached (op : OwnerOp) : Bool :=
  s.consumed.all fun c => c.reply.all fun reply =>
    !(c.seqid == op.seqid && reply.1 == op.kind) ||
      op.entry == 0 && decide (op.res.len + (8 + 4 * reply.2.body.length) ≤ op.res.buflen)

/-- An OPEN finds an owner that is confirmed or has used up no number, and its file handle can still be used. -/
def opened (op : OwnerOp) : Bool := op.kind != .open || op.openfh == 0 && (s.confirmed || s.consumed.isNone)

end OwnerState

def OwnerClear (s : OwnerState) : OwnerEvent → Prop
  | .op op => s.recorded op = true ∧ s.reached op = true ∧ s.opened op = true
  | .lockThrough _ _ => True

instance (s : OwnerState) : ∀ e, Decidable (OwnerClear s e)
  | .op _ => inferInstanceAs (Decidable (_ ∧ _ ∧ _))
  | .lockThrough _ _ => isTrue trivial

/-! ## Retransmissions -/

/-- The owner keeps the reply to the operation that used up the last number. -/
structure OwnerInv (s : OwnerState) : Prop where
  keeps : ∀ c, s.consumed = some c → ∃ owner, s.owner = some owner ∧ owner.soSeqid = c.seqid + 1 ∧
    ∀ k ans, c.reply = some (k, ans) → owner.rpStatus = ans.status ∧ owner.rpBuf = ans.body
  within : ∀ owner, s.owner = some owner → owner.overrun = false

section

variable {s : OwnerState} {op : OwnerOp} {owner : Nfs4Stateowner} {status : Nfsstat} {e : OwnerEvent}

/-- **What an operation can do**: nothing to the owner; fail to replay an OPEN; or be executed. -/
theorem process_cases (s : OwnerState) (op : OwnerOp) :
    (s.process op).1 = s ∨ (op.kind = .open ∧ op.openfh ≠ 0) ∨
      ∃ owner, s.ownerOf op = some owner ∧ s.check op = some .ok ∧ (s.process op).1 = s.execute op owner := by
  unfold OwnerState.process
  split
  · exact .inr (.inr ⟨_, by assumption, by assumption, rfl⟩)
  · split
    · exact .inr (.inl ‹_›)
    · exact .inl rfl
  · exact .inl rfl
  · exact .inl rfl

theorem seqid_of_check (howner : s.ownerOf op = some owner) (hcheck : s.check op = some .ok) :
    op.seqid = owner.soSeqid := by
  unfold OwnerState.check at hcheck
  split at hcheck
  · cases hcheck
  rw [howner, map_some, Option.some.injEq] at hcheck
  split_ifs at hcheck with hopen
  · rw [OwnerState.ownerOf, if_pos hopen] at howner
    cases howner
    rfl
  unfold checkSeqid at hcheck
  split_ifs at hcheck
  assumption

theorem OwnerClear.finds (hclear : OwnerClear s (.op op)) {c : Consumed} (hc : s.consumed = some c) :
    ¬ (op.kind = .open ∧ s.confirmed = false) ∧ s.ownerOf op = s.owner := by
  have hold : ¬ (op.kind = .open ∧ s.confirmed = false) := by
    rintro ⟨hopen, hconfirmed⟩
    have hopened := hclear.2.2
    simp [OwnerState.opened, hopen, hconfirmed, hc] at hopened
  exact ⟨hold, if_neg hold⟩

theorem drop_header {α : Type} (l : List α) (a b : α) (data : List α) : (l ++ a :: b :: data).drop (l.length + 2) = data := by
  rw [drop_append, drop_eq_nil_of_le (by omega)]
  simp

theorem finish_recorded (hmutates : seqidMutatingErr status = true)
    (hstatus : status = 0 ∨ op.kind.nontrivialError = true) (hroom : op.res.len + 8 ≤ op.res.buflen)
    (hfits : (op.answer status).body.length ≤ replayWords) (hwithin : owner.overrun = false) :
    (op.finish owner status).soSeqid = owner.soSeqid + 1 ∧ (op.finish owner status).rpStatus = (op.answer status).status ∧
      (op.finish owner status).rpBuf = (op.answer status).body ∧ (op.finish owner status).overrun = false := by
  obtain ⟨st, data, hreplay⟩ : ∃ st data, (op.encode status).replay = some (st, data) :=
    encodeOperation_recorded hroom op.kind.opnum_legal hstatus
  obtain ⟨hst, hwords⟩ := encodeOperation_replay hreplay
  have hanswer : op.answer status = ⟨st, data⟩ := by
    unfold OwnerOp.answer OwnerOp.answered OwnerOp.encode
    rw [hst, hwords, drop_header]
  rw [hanswer] at hfits ⊢
  unfold OwnerOp.finish
  rw [hmutates, hreplay]
  simp only [Bool.not_true, Bool.false_eq_true, if_false, hwithin, Bool.false_or, decide_eq_false_iff_not, Nat.not_lt]
  exact ⟨trivial, trivial, trivial, hfits⟩

theorem finish_of_not_mutating (h : seqidMutatingErr status = false) : op.finish owner status = owner := by
  unfold OwnerOp.finish
  rw [h]
  rfl

section

variable (h : OwnerInv s)
include h

theorem ownerOf_within (howner : s.ownerOf op = some owner) : owner.overrun = false := by
  unfold OwnerState.ownerOf at howner
  split at howner
  · cases howner
    rfl
  · exact h.within owner howner

theorem OwnerInv.execute (hclear : OwnerClear s (.op op)) (howner : s.ownerOf op = some owner)
    (hcheck : s.check op = some .ok) : OwnerInv (s.execute op owner) := by
  have hrecorded := hclear.1
  have hover := ownerOf_within h howner
  have hexec : s.executes (.op op) = true := by simp [OwnerState.executes, hcheck]
  cases hmutates : seqidMutatingErr (op.status owner.confirmed) with
  | true =>
    simp only [OwnerState.recorded, howner, all_some, hexec, hmutates, Bool.not_true, Bool.false_or,
      Bool.and_eq_true, Bool.or_eq_true, beq_iff_eq, decide_eq_true_eq] at hrecorded
    obtain ⟨⟨hstatus, hroom⟩, hfits⟩ := hrecorded
    obtain ⟨hseqid, hst, hbuf, hwithin⟩ := @finish_recorded op
      { owner with confirmed := op.confirms owner.confirmed } _ hmutates hstatus hroom hfits hover
    have hkept : (s.execute op owner).owner = some (op.finish { owner with confirmed := op.confirms owner.confirmed }
        (op.status owner.confirmed)) := by
      refine if_neg ?_
      rintro ⟨hopen, -, hne⟩
      obtain hzero | hnontrivial := hstatus
      · exact hne hzero
      · rw [hopen] at hnontrivial
        cases hnontrivial
    constructor
    · intro c hc
      simp only [OwnerState.execute, hmutates, if_true] at hc
      cases hc
      refine ⟨_, hkept, hseqid.trans (by rw [seqid_of_check howner hcheck]), ?_⟩
      intro k ans hreply
      cases hreply
      exact ⟨hst, hbuf⟩
    · intro owner' howner'
      cases hkept.symm.trans howner'
      exact hwithin
  | false =>
    have hsame := @finish_of_not_mutating op { owner with confirmed := op.confirms owner.confirmed } _ hmutates
    have hconsumed : (s.execute op owner).consumed = s.consumed := by simp [OwnerState.execute, hmutates]
    constructor
    · intro c hc
      rw [hconsumed] at hc
      obtain ⟨hold, hfound⟩ := hclear.finds hc
      obtain ⟨owner', howner', hseqid, hreply⟩ := h.keeps c hc
      cases howner'.symm.trans (hfound.symm.trans howner)
      refine ⟨_, if_neg fun hgone => hold ⟨hgone.1, hgone.2.1⟩, ?_⟩
      rw [hsame]
      exact ⟨hseqid, hreply⟩
    · intro owner' howner'
      simp only [OwnerState.execute, hsame] at howner'
      split at howner'
      · cases howner'
      · cases howner'
        exact hover

theorem OwnerInv.lockThrough (seqid : BitVec 32) (status : Nfsstat) : OwnerInv (s.lockThrough seqid status) := by
  have hover : (s.owner.getD { soSeqid := seqid }).overrun = false := by
    cases howner : s.owner with
    | none => rfl
    | some owner => exact h.within owner howner
  unfold OwnerState.lockThrough
  dsimp only
  split
  · exact h
  rename_i hseqid
  split
  · exact h
  split
  · constructor
    · intro c hc
      cases hc
      exact ⟨_, rfl, congrArg (· + 1) (not_not.1 hseqid).symm, nofun⟩
    · intro owner howner
      cases howner
      exact hover
  · exact h

theorem OwnerInv.step {t : OwnerState} (hclear : OwnerClear s e) (hstep : ownerStep s e = some t) : OwnerInv t := by
  cases e with
  | lockThrough seqid status =>
    cases hstep
    exact h.lockThrough seqid status
  | op op =>
    cases hstep
    obtain heq | ⟨hopen, hfh⟩ | ⟨owner, howner, hcheck, heq⟩ := process_cases s op
    · rw [heq]
      exact h
    · have hopened := hclear.2.2
      simp [OwnerState.opened, hopen] at hopened
      exact absurd hopened.1 hfh
    · rw [heq]
      exact h.execute hclear howner hcheck

/-- **A retransmission is answered with the reply, and changes nothing.** -/
theorem OwnerInv.retries (hclear : OwnerClear s (.op op)) {ans : OpAnswer} (hretry : s.Retries op ans) :
    s.executes (.op op) = false ∧ s.process op = (s, ans) := by
  obtain ⟨hold, hfound⟩ := hclear.finds hretry
  obtain ⟨-, hreached, hopened⟩ := hclear
  obtain ⟨owner, howner, hseqid, hreply⟩ := h.keeps _ hretry
  obtain ⟨hst, hbuf⟩ := hreply _ _ rfl
  rw [OwnerState.Retries] at hretry
  simp only [OwnerState.reached, hretry, all_some, beq_self_eq_true, Bool.and_self, Bool.not_true, Bool.false_or,
    Bool.and_eq_true, beq_iff_eq, decide_eq_true_eq] at hreached
  obtain ⟨hentry, hroom⟩ := hreached
  have hfh : ¬ (op.kind = .open ∧ op.openfh ≠ 0) := by
    rintro ⟨hopen, hne⟩
    simp [OwnerState.opened, hopen] at hopened
    exact hne hopened.1
  have hof : s.ownerOf op = some owner := hfound.trans howner
  have hcheck : s.check op = some .replayMe := by
    have hminus : op.seqid = owner.soSeqid - 1 := by
      rw [hseqid]
      exact (BitVec.add_sub_cancel _ _).symm
    rw [OwnerState.check, if_neg (not_not.2 hentry), hof, map_some, if_neg hold, checkSeqid, if_pos hminus]
  refine ⟨by simp [OwnerState.executes, hcheck], ?_⟩
  unfold OwnerState.process
  rw [hof, hcheck]
  dsimp only
  rw [if_neg hfh, OwnerOp.replayed, hbuf, hst, if_neg (Nat.not_lt.2 hroom), OwnerOp.answered, drop_header]

/-- **An operation is executed only with the number behind the last one used up.** -/
theorem OwnerInv.executes_next (hclear : OwnerClear s e) (hexec : s.executes e = true) {c : Consumed}
    (hc : s.consumed = some c) : e.seqid = c.seqid + 1 := by
  obtain ⟨owner, howner, hseqid, -⟩ := h.keeps c hc
  cases e with
  | lockThrough seqid status =>
    simp only [OwnerState.executes, howner, getD_some, beq_iff_eq] at hexec
    exact hexec.symm.trans hseqid
  | op op =>
    have hof : s.ownerOf op = some owner := (hclear.finds hc).2.trans howner
    exact (seqid_of_check hof (by simpa [OwnerState.executes] using hexec)).trans hseqid

end

end

/-- **Retransmissions to an owner are answered with the reply.**  In every run whose steps all meet the condition, an
operation is executed only with the number behind the last one used up, a retransmission of the operation that used up
the last number is not executed and gets the status and body of that operation, and no reply is written past the buffer of
the owner. -/
theorem ownerReplay_faithful (es : List OwnerEvent) (h : EachStep ownerStep OwnerClear .init es) :
    EachStep ownerStep (fun s e =>
      (s.executes e = true → ∀ c, s.consumed = some c → e.seqid = c.seqid + 1) ∧
      ∀ op, e = .op op → ∀ ans, s.Retries op ans → s.executes e = false ∧ s.process op = (s, ans)) .init es ∧
    Always ownerStep (fun s => ∀ owner, s.owner = some owner → owner.overrun = false) .init es := by
  have hinit : OwnerInv .init := ⟨nofun, nofun⟩
  constructor
  · refine h.imp_of_invariant (J := OwnerInv) (fun s e t hs hclear ht => hs.step hclear ht) ?_ hinit
    intro s e t hs hclear _
    refine ⟨fun hexec c hc => hs.executes_next hclear hexec hc, ?_⟩
    rintro op rfl ans hretry
    exact hs.retries hclear hretry
  · exact always_of_eachStep (fun h => OwnerInv.step h) OwnerInv.within hinit h

def sampleOwnerOp (kind : SeqidKind) (seqid : BitVec 32) (result : Nfsstat) (body : List Word) : OwnerOp where
  kind := kind
  seqid := seqid
  result := result
  encoder := fun _ status => { status := status, data := body }
  res := { words := [], buflen := 1024, opcnt := 1 }

theorem ownerReplay_faithful_sample :
    Always ownerStep (fun s => ∀ owner, s.owner = some owner → owner.overrun = false) .init
      [.op (sampleOwnerOp .open 1 0 [1]), .op (sampleOwnerOp .openConfirm 2 0 [2]),
        .op (sampleOwnerOp .openDowngrade 3 0 [3]), .op (sampleOwnerOp .openDowngrade 3 0 [3])] :=
  (ownerReplay_faithful _ (by decide)).2

/-- A failed OPEN_DOWNGRADE (`nfserr_inval`) uses up its number but is not recorded: its retransmission is answered with
the success of the OPEN_CONFIRM before it. A retransmitted OPEN whose file is gone (`nfserr_stale`) uses up a number. A
denied LOCK with a long owner name is written past the buffer. -/
theorem ownerReplay_stale :
    (∃ s, run ownerStep .init [.op (sampleOwnerOp .open 1 0 [1]), .op (sampleOwnerOp .openConfirm 2 0 [2]),
        .op (sampleOwnerOp .openDowngrade 3 22 [])] = some s ∧
      s.Retries (sampleOwnerOp .openDowngrade 3 22 []) ⟨22, []⟩ ∧
      (s.process (sampleOwnerOp .openDowngrade 3 22 [])).2 = ⟨0, [2]⟩) ∧
    (∃ s owner, run ownerStep .init [.op (sampleOwnerOp .open 1 0 [1]), .op (sampleOwnerOp .openConfirm 2 0 [2]),
        .op (sampleOwnerOp .open 3 0 [3]), .op { sampleOwnerOp .open 3 0 [3] with openfh := 70 }] = some s ∧
      s.owner = some owner ∧ owner.soSeqid = 5) ∧
    ∃ s owner, run ownerStep .init [.lockThrough 1 0, .op (sampleOwnerOp .lock 2 10010 (List.replicate 40 0))] = some s ∧
      s.owner = some owner ∧ owner.overrun = true :=
  ⟨⟨_, rfl, rfl, rfl⟩, ⟨_, _, rfl, rfl, rfl⟩, _, _, rfl, rfl, rfl⟩

/-! ## Bodies of replies -/

def nfserrDenied : Nfsstat := 10010

/-- `struct nfsd4_lock_denied`; the owner is empty for a lock that is not of NFSv4. -/
structure Nfsd4LockDenied where
  clientid : Vector Word 2
  owner : List (BitVec 8)
  (start length : Vector Word 2)
  type : Word

/-- What an OPEN says of a delegation, by `op_delegate_type`. -/
inductive OpenDelegate
  | none
  | read (stateid : Vector Word 4) (opRecall : Word)
  | write (stateid : Vector Word 4) (opRecall : Word)
  | noneExt (whyNoDeleg : Word)

/-- The part of `op->u` that is encoded. -/
structure OpResults where
  stateid : Vector Word 4
  cinfo : Vector Word 5
  rflags : Word
  bmval : Vector Word 3
  delegate : OpenDelegate
  denied : Nfsd4LockDenied

/-- Pieces one after the other, each with an `xdr_reserve_space` of its own. -/
def encodePieces : Nat → List (List Word) → Encoding
  | _, [] => { status := 0, data := [] }
  | room, piece :: pieces =>
    if room < 4 * piece.length then { status := nfserrResource, data := [] }
    else
      let rest := encodePieces (room - 4 * piece.length) pieces
      { rest with data := piece ++ rest.data }

def bitmapWords (bmval : Vector Word 3) : List Word :=
  if bmval[2] ≠ 0 then [3, bmval[0], bmval[1], bmval[2]]
  else if bmval[1] ≠ 0 then [2, bmval[0], bmval[1]]
  else [1, bmval[0]]

def OpenDelegate.pieces : OpenDelegate → List (List Word)
  | .none => [[0]]
  | .read stateid opRecall => [[1], stateid.toList, [opRecall, 0, 0, 0, 0]]
  | .write stateid opRecall => [[2], stateid.toList, [opRecall, 1, ~~~0, ~~~0, 0, 0, 0, 0]]
  | .noneExt why => [[3], if why = 1 ∨ why = 2 then [why, 0] else [why]]

def OpResults.openPieces (u : OpResults) : List (List Word) :=
  [u.stateid.toList, u.cinfo.toList ++ [u.rflags], bitmapWords u.bmval] ++ u.delegate.pieces

def opaqueWords (bytes : List (BitVec 8)) : List Word :=
  (List.range ((bytes.length + 3) / 4)).map fun i =>
    bytes.getD (4 * i) 0 ++ bytes.getD (4 * i + 1) 0 ++ bytes.getD (4 * i + 2) 0 ++ bytes.getD (4 * i + 3) 0

/-- `nfsd4_encode_lock_denied`, which goes again without the name of the owner when that does not fit. -/
def encodeLockDenied (ld : Nfsd4LockDenied) (room : Nat) : Encoding :=
  let owner := if room < 32 + 4 * (opaqueWords ld.owner).length then [] else ld.owner
  if room < 32 + 4 * (opaqueWords owner).length then { status := nfserrResource, data := [] }
  else
    { status := nfserrDenied
      data := ld.start.toList ++ ld.length.toList ++ ld.type ::
        if owner = [] then [0, 0, 0] else ld.clientid.toList ++ BitVec.ofNat 32 owner.length :: opaqueWords owner }

/-- The operations in `nfsd4_enc_ops`. -/
def SeqidKind.encoder (u : OpResults) : SeqidKind → Encoder
  | .open => fun room _ => encodePieces room u.openPieces
  | .lock | .lockNew => fun room status =>
    if status = 0 then encodePieces room [u.stateid.toList]
    else if status = nfserrDenied then encodeLockDenied u.denied room
    else { status := status, data := [] }
  | _ => fun room _ => encodePieces room [u.stateid.toList]

section

variable (u : OpResults) {k : SeqidKind} {room : Nat} {status : Nfsstat}

theorem encodePieces_length : ∀ (room : Nat) (pieces : List (List Word)),
    (encodePieces room pieces).data.length ≤ pieces.flatten.length
  | _, [] => Nat.le_refl _
  | room, piece :: pieces => by
    have hrest := encodePieces_length (room - 4 * piece.length) pieces
    rw [encodePieces, flatten_cons, length_append]
    split
    · exact Nat.zero_le _
    · rw [length_append]
      omega

theorem openPieces_length : u.openPieces.flatten.length ≤ replayWords := by
  have hbitmap : (bitmapWords u.bmval).length ≤ 4 := by
    unfold bitmapWords
    split_ifs <;> simp
  have hdelegate : u.delegate.pieces.flatten.length ≤ 13 := by
    cases u.delegate with
    | noneExt why =>
      simp only [OpenDelegate.pieces]
      split_ifs <;> simp
    | _ => simp [OpenDelegate.pieces]
  simp only [OpResults.openPieces, flatten_append, flatten_cons, flatten_nil, length_append,
    Vector.length_toList, length_cons, length_nil, replayWords]
  omega

theorem encodeLockDenied_eq (ld : Nfsd4LockDenied) (h : 32 + 4 * (opaqueWords ld.owner).length ≤ room) :
    (encodeLockDenied ld room).status = nfserrDenied ∧
      (encodeLockDenied ld room).data.length = 8 + (opaqueWords ld.owner).length := by
  simp only [encodeLockDenied, if_neg (Nat.not_lt.2 h), true_and]
  by_cases howner : ld.owner = []
  · simp [howner, opaqueWords]
  · simp [howner]
    omega

/-- A denied LOCK, with room for the name of an owner that is longer than 80 bytes. -/
def LongName (k : SeqidKind) (room : Nat) (status : Nfsstat) : Prop :=
  k.nontrivialError = true ∧ status = nfserrDenied ∧ 20 < (opaqueWords u.denied.owner).length ∧
    32 + 4 * (opaqueWords u.denied.owner).length ≤ room

theorem LongName.encoder (h : LongName u k room status) : (k.encoder u room status).status = nfserrDenied ∧
    replayWords < (k.encoder u room status).data.length := by
  obtain ⟨hlock, rfl, hlong, hroom⟩ := h
  have heq : k.encoder u room nfserrDenied = encodeLockDenied u.denied room := by
    cases k <;> first | rfl | cases hlock
  obtain ⟨hstatus, hlen⟩ := encodeLockDenied_eq u.denied hroom
  rw [heq, hlen]
  exact ⟨hstatus, by rw [replayWords]; omega⟩

theorem encoder_length (h : ¬ LongName u k room status) : (k.encoder u room status).data.length ≤ replayWords := by
  have hstateid : (encodePieces room [u.stateid.toList]).data.length ≤ replayWords :=
    Nat.le_trans (encodePieces_length _ _) (by simp [replayWords])
  have hlock (hk : k.nontrivialError = true) : (if status = 0 then encodePieces room [u.stateid.toList]
      else if status = nfserrDenied then encodeLockDenied u.denied room
      else { status := status, data := [] }).data.length ≤ replayWords := by
    split_ifs with hzero hdenied
    · exact hstateid
    · by_cases hroom : 32 + 4 * (opaqueWords u.denied.owner).length ≤ room
      · rw [(encodeLockDenied_eq u.denied hroom).2]
        have hshort : ¬ 20 < (opaqueWords u.denied.owner).length := fun hlong => h ⟨hk, hdenied, hlong, hroom⟩
        rw [replayWords]
        omega
      · simp only [encodeLockDenied, if_pos (Nat.lt_of_not_le hroom), if_true]
        split <;> simp [replayWords]
    · exact Nat.zero_le _
  cases k with
  | «open» => exact Nat.le_trans (encodePieces_length _ _) (openPieces_length u)
  | lock => exact hlock rfl
  | lockNew => exact hlock rfl
  | _ => exact hstateid

end

/-- **What is copied for the owner fits its buffer**, unless it is a denied LOCK with a long name. -/
theorem replayBody_within_iff (u : OpResults) (k : SeqidKind) (last : Bool) (res : CompoundRes) (status : Nfsstat) :
    (∀ st data, (encodeOperation none last k.opnum k.nontrivialError (k.encoder u) res status).replay = some (st, data) →
        data.length ≤ replayWords) ↔
      ¬ LongName u k (res.buflen - (res.len + 8)) status := by
  unfold encodeOperation
  split
  · refine iff_of_true nofun fun h => ?_
    have hroom := h.2.2.2
    omega
  split_ifs with herr
  · refine iff_of_true nofun fun h => ?_
    rcases herr with hill | ⟨-, hk⟩
    · exact k.opnum_legal hill
    · exact absurd (hk.symm.trans h.1) (by decide)
  dsimp only
  constructor
  · intro hall hlong
    obtain ⟨hstatus, hlen⟩ := hlong.encoder
    have hfits := hall _ _ rfl
    rw [hstatus] at hfits
    exact absurd hfits (Nat.not_le.2 hlen)
  · intro hshort st data hdata
    cases hdata
    split
    · exact Nat.zero_le _
    · exact encoder_length u hshort

def deniedFor (owner : List (BitVec 8)) : OpResults :=
  ⟨.replicate 4 0, .replicate 5 0, 0, .replicate 3 0, .none, ⟨.replicate 2 0, owner, .replicate 2 0, .replicate 2 0, 1⟩⟩

/-- A LOCK denied for an owner with a name of 84 bytes: 116 bytes are copied. -/
theorem replayBody_overruns : ∃ st data, (encodeOperation none true 12 true
    (SeqidKind.lock.encoder (deniedFor (List.replicate 84 0))) ⟨[], 1024, 1, 0⟩ nfserrDenied).replay = some (st, data) ∧
      4 * data.length = 116 :=
  ⟨_, _, rfl, by decide⟩

end Vastnfs.Nfsd
