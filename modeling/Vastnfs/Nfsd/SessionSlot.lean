import Vastnfs.Nfsd.CompoundReply
import Vastnfs.Nfsd.SessionMemory

/-!
# Slots of a session

A slot takes one COMPOUND after the other and keeps the reply to the last for a retransmission
(`fs/nfsd/nfs4state.c`). SEQUENCE takes the slot, the operations behind it run without a lock, and
`nfsd4_sequence_done` keeps the reply and gives the slot back.

* `nfsd4Sequence`, `storeCacheEntry`, `replayCacheEntry`: the functions of the source.
* `slotStep`: COMPOUNDs arriving at one slot, each with its end.
* `procCompound_spec`: the reply to a COMPOUND whose SEQUENCE fits.
* `slot_exactlyOnce`: what the slot guarantees in every run whose SEQUENCE results fit the reply and whose new requests
  come when no retransmission is still being answered.
-/

namespace Vastnfs.Nfsd

open Runs List Bool CompoundRes

/-! ## The session and its requests -/

def nfserrRetryUncachedRep : Nfsstat := 10068

def nfserrSeqFalseRetry : Nfsstat := 10076

def nfserrSeqMisordered : Nfsstat := 10063

def nfserrJukebox : Nfsstat := 10008

def nfserrServerfault : Nfsstat := 10006

def nfserrTooManyOps : Nfsstat := 10070

def nfserrReqTooBig : Nfsstat := 10065

def opSequence : Word := 53

structure SlotSession where
  seFchannel : ChannelAttrs
  clamped : Clamped seFchannel
  sessionid : List Word
  sessionid_length : sessionid.length = 4
  slotid : Word

def SlotSession.space (ses : SlotSession) : Nat := (slotBytes ses.seFchannel).toNat - sizeofSlot.toNat

structure SlotRequest where
  seqid : BitVec 32
  cachethis : Bool
  /-- `rq_cred`, up to `same_creds`. -/
  cred : Nat
  /-- The operations behind SEQUENCE. -/
  ops : List Nfsd4Op
  /-- `rq_arg.len`. -/
  argLen : Nat
  /-- The reply in front of the SEQUENCE result: the RPC header and that of the COMPOUND. -/
  hdr : List Word
  hdr_ge : 9 ≤ hdr.length
  hdr_le : hdr.length ≤ 256
  /-- `rq_res.buflen`. -/
  buflen : Nat
  buflen_ge : 4096 ≤ buflen
  authSlack : Nat := 0
  /-- What `nfsd4_sequence_check_conn` returns. -/
  connStatus : Nfsstat := 0
  /-- `seq->status_flags`. -/
  statusFlags : Word := 0

namespace SlotRequest

variable (r : SlotRequest)

def opcnt : Nat := r.ops.length + 1

def reply : CompoundRes := { words := r.hdr, buflen := r.buflen, opcnt := 1 }

def limit (ses : SlotSession) : Nat :=
  if r.cachethis then ses.seFchannel.maxrespCached.toNat else ses.seFchannel.maxrespSz.toNat

def sequenceWords (ses : SlotSession) : List Word :=
  ses.sessionid ++
    [r.seqid, ses.slotid, ses.seFchannel.maxreqs - 1, ses.seFchannel.maxreqs - 1, r.statusFlags]

def encodeSequence (ses : SlotSession) : Encoder := fun room _ =>
  if room < 36 then { status := nfserrResource, data := [] } else { status := 0, data := r.sequenceWords ses, marks := true }

def sequenceOp (ses : SlotSession) (cachethis : Bool) (res : CompoundRes) : Encoded :=
  encodeOperation (some cachethis) (r.opcnt = res.opcnt) opSequence false (r.encodeSequence ses) res 0

end SlotRequest

/-! ## The slot -/

/-- `struct nfsd4_slot` with its flags. -/
structure Nfsd4Slot where
  slSeqid : BitVec 32
  (inuse initialized cached cachethis : Bool)
  slOpcnt : Nat
  slStatus : Nfsstat
  slCred : Nat
  /-- `sl_datalen`, in bytes. -/
  slDatalen : Nat
  slData : List Word

def newSlot : Nfsd4Slot := ⟨0, false, false, false, false, 0, 0, 0, 0, []⟩

/-- `nfsd4_cache_this`: `nfsd4_is_solo_sequence` looks at the operations in the reply. -/
def cacheThis (cachethis : Bool) (opcnt : Nat) : Bool := cachethis || opcnt == 1

/-- `nfsd4_store_cache_entry`: `buf->len - base` wraps, and bytes that are not there are not copied. -/
def storeCacheEntry (slot : Nfsd4Slot) (cred : Nat) (res : CompoundRes) (status : Nfsstat) : Nfsd4Slot :=
  let slot := { slot with initialized := true, slOpcnt := res.opcnt, slStatus := status, slCred := cred }
  if cacheThis slot.cachethis res.opcnt then
    { slot with
      cached := true
      slDatalen := (res.len + 2 ^ 32 - res.dataOffset) % 2 ^ 32
      slData := if res.dataOffset ≤ res.len then res.words.drop (res.dataOffset / 4) else slot.slData }
  else { slot with cached := false }

/-- `nfsd4_sequence_done` for a COMPOUND with a session, `cstate.status` not being `nfserr_replay_cache`. -/
def sequenceDone (slot : Nfsd4Slot) (cred : Nat) (res : CompoundRes) (status : Nfsstat) : Nfsd4Slot :=
  { storeCacheEntry slot cred res status with inuse := false }

def replayMatchesCache (slot : Nfsd4Slot) (r : SlotRequest) : Bool :=
  slot.cachethis == r.cachethis && !(decide (slot.slOpcnt < r.opcnt) && slot.slStatus == 0) &&
    !decide (r.opcnt < slot.slOpcnt) && slot.slCred == r.cred

def encSequenceReplay (ses : SlotSession) (slot : Nfsd4Slot) (r : SlotRequest) : CompoundRes × Nfsstat :=
  let e := r.sequenceOp ses slot.cachethis r.reply
  if slot.cached then (e.res, e.status)
  else match r.ops with
    | [] => (e.res, nfserrSeqFalseRetry)
    | op :: _ =>
      let e := op.encodeAs (some slot.cachethis) r.opcnt { e.res with opcnt := e.res.opcnt + 1 } nfserrRetryUncachedRep
      (e.res, e.status)

def replayCacheEntry (ses : SlotSession) (slot : Nfsd4Slot) (r : SlotRequest) : CompoundRes × Nfsstat :=
  let (res, status) := encSequenceReplay ses slot r
  if status ≠ 0 then (res, status)
  else if res.buflen < res.len + slot.slDatalen then (res, nfserrServerfault)
  else ({ res with words := res.words ++ slot.slData.take (slot.slDatalen / 4), opcnt := slot.slOpcnt }, slot.slStatus)

inductive SequenceResult
  /-- It fails and takes no slot. -/
  | refused (status : Nfsstat)
  /-- The answer comes from the slot. -/
  | replay (res : CompoundRes) (status : Nfsstat)
  /-- The slot is taken. -/
  | accepted (slot : Nfsd4Slot) (res : CompoundRes)

def SequenceResult.taken : SequenceResult → Bool
  | .accepted _ _ => true
  | _ => false

/-- `nfsd4_sequence`, with `xdr_restrict_buflen`. -/
def nfsd4Sequence (ses : SlotSession) (slot : Nfsd4Slot) (r : SlotRequest) : SequenceResult :=
  if ses.seFchannel.maxops.toNat < r.opcnt then .refused nfserrTooManyOps
  else if ses.seFchannel.maxreqSz.toNat < r.argLen then .refused nfserrReqTooBig
  else match checkSlotSeqid r.seqid slot.slSeqid slot.inuse with
    | .jukebox => .refused nfserrJukebox
    | .seqMisordered => .refused nfserrSeqMisordered
    | .replayCache =>
      if !slot.initialized then .refused nfserrSeqMisordered
      else if !replayMatchesCache slot r then .refused nfserrSeqFalseRetry
      else .replay (replayCacheEntry ses slot r).1 (replayCacheEntry ses slot r).2
    | .ok =>
      if r.connStatus ≠ 0 then .refused r.connStatus
      else if r.limit ses < r.authSlack + r.reply.len then .refused (tooBig r.cachethis)
      else .accepted { slot with slSeqid := r.seqid, inuse := true, cachethis := r.cachethis }
        { r.reply with buflen := min r.buflen (r.limit ses - r.authSlack) }

/-- The rest of `nfsd4_proc_compound` once SEQUENCE has the slot, whose `NFSD4_SLOT_CACHETHIS` is `cachethis`. -/
def procCompound (ses : SlotSession) (cachethis : Bool) (r : SlotRequest) (res : CompoundRes) : CompoundRes × Nfsstat :=
  let e := r.sequenceOp ses cachethis res
  compoundLoop (some cachethis) r.opcnt r.ops e.res e.status

/-! ## Runs -/

/-- A reply: its status, the number of its operations and the words behind SEQUENCE. -/
structure SlotReply where
  status : Nfsstat
  opcnt : Nat
  body : List Word
deriving DecidableEq

def SlotRequest.answer (r : SlotRequest) (res : CompoundRes) (status : Nfsstat) : SlotReply :=
  ⟨status, res.opcnt, res.words.drop (r.hdr.length + 11)⟩

/-- A COMPOUND between SEQUENCE and `nfsd4_sequence_done`. -/
inductive Inflight
  | executing (r : SlotRequest) (res : CompoundRes)
  | replaying (cred : Nat) (res : CompoundRes) (status : Nfsstat)

/-- The slot, what is under way on it and what has been. -/
structure SlotState where
  slot : Nfsd4Slot
  inflight : List Inflight
  /-- The sequence numbers of the COMPOUNDs that were executed. -/
  log : List (BitVec 32)
  /-- The last of them with its reply. -/
  last : Option (SlotRequest × SlotReply)

/-- A COMPOUND arrives, or the one at some place of those under way comes to its end. -/
inductive SlotEvent
  | arrive (r : SlotRequest)
  | finish (i : Nat)

def SlotState.init : SlotState := ⟨newSlot, [], [], none⟩

def SlotState.executed (s : SlotState) (r : SlotRequest) (res : CompoundRes) (status : Nfsstat) (rest : List Inflight) :
    SlotState :=
  { slot := sequenceDone s.slot r.cred res status
    inflight := rest
    log := s.log ++ [r.seqid]
    last := some (r, r.answer res status) }

/-- What happens at the slot. `nfsd4_proc_compound` sets `cstate.status` to the status it returns on every way out, so
`nfsd4_sequence_done` also stores what it has just read. -/
def slotStep (ses : SlotSession) (s : SlotState) : SlotEvent → Option SlotState
  | .arrive r =>
    match nfsd4Sequence ses s.slot r with
    | .refused _ => some s
    | .replay res status => some { s with inflight := s.inflight ++ [.replaying r.cred res status] }
    | .accepted slot res => some { s with slot := slot, inflight := s.inflight ++ [.executing r res] }
  | .finish i =>
    match s.inflight[i]? with
    | none => none
    | some (.replaying cred res status) =>
      some { s with slot := sequenceDone s.slot cred res status, inflight := s.inflight.eraseIdx i }
    | some (.executing r res) =>
      let out := procCompound ses s.slot.cachethis r res
      some (s.executed r out.1 out.2 (s.inflight.eraseIdx i))

/-! ## The reply to a COMPOUND -/

/-- The SEQUENCE result fits the reply, and an error of the next operation too. -/
def SlotRequest.Fits (r : SlotRequest) (ses : SlotSession) : Prop :=
  r.reply.len + 44 + (if r.ops.isEmpty then 0 else errSlackSpace) ≤ min r.buflen (r.limit ses - r.authSlack)
deriving Decidable

section

variable {ses : SlotSession} {r : SlotRequest} {cachethis : Bool} {res : CompoundRes}

theorem SlotRequest.sequenceWords_length : (r.sequenceWords ses).length = 9 := by
  simp [sequenceWords, ses.sessionid_length]

section

variable (hcnt : res.opcnt = 1) (hroom : res.len + 44 + (if r.ops.isEmpty then 0 else errSlackSpace) ≤ res.buflen)
include hcnt hroom

theorem SlotRequest.sequenceOp_eq :
    (r.sequenceOp ses cachethis res).status = 0 ∧
      (r.sequenceOp ses cachethis res).res =
        { res with words := res.words ++ opSequence :: 0 :: r.sequenceWords ses, dataOffset := res.len + 44 } := by
  have hlen : ∀ st : Nfsstat, 4 * (res.words ++ opSequence :: st :: r.sequenceWords ses).length = res.len + 44 := by
    intro st
    simp only [len, length_append, length_cons, sequenceWords_length]
    omega
  have hlast : decide (r.opcnt = res.opcnt) = r.ops.isEmpty := by
    cases hops : r.ops <;> simp [opcnt, hcnt, hops]
  have hencode : r.encodeSequence ses (res.buflen - (res.len + 8)) 0 =
      { status := 0, data := r.sequenceWords ses, marks := true } :=
    if_neg (by omega)
  have hstatus : encodedStatus (some cachethis) r.ops.isEmpty
      { res with words := res.words ++ opSequence :: 0 :: r.sequenceWords ses } 0 = 0 :=
    encodedStatus_zero (by rw [len, hlen]; exact hroom)
  unfold sequenceOp encodeOperation
  rw [if_neg (by omega), hencode, hlast]
  dsimp only
  rw [hstatus]
  refine ⟨rfl, ?_⟩
  simp only [len, hlen, if_true]
  rfl

/-- **The reply to a COMPOUND whose SEQUENCE fits**: what is behind SEQUENCE is within the limit, and there is nothing
when SEQUENCE stands alone. -/
theorem procCompound_spec :
    ∃ body, LoopTo { res with words := res.words ++ opSequence :: 0 :: r.sequenceWords ses, dataOffset := res.len + 44 }
      (procCompound ses cachethis r res).1 (procCompound ses cachethis r res).2 r.ops.length body := by
  obtain ⟨hstatus, hres⟩ := @SlotRequest.sequenceOp_eq ses r cachethis res hcnt hroom
  have hlen : 4 * (res.words ++ opSequence :: 0 :: r.sequenceWords ses).length = res.len + 44 := by
    simp only [len, length_append, length_cons, SlotRequest.sequenceWords_length]
    omega
  rw [procCompound, hres]
  refine compoundLoop_spec _ _ _ ⟨?_, ?_⟩ (by simp only [hcnt, SlotRequest.opcnt]; omega)
  · rw [len, hlen]
    exact Nat.le_trans (Nat.le_add_right _ _) hroom
  · intro _ hmore
    rw [len, hlen]
    simpa [not_eq_true' _ ▸ hmore] using hroom

end

end

/-! ## What a slot keeps -/

theorem storeCacheEntry_cached {slot : Nfsd4Slot} {cred k : Nat} {res : CompoundRes} {status : Nfsstat}
    (hcache : cacheThis slot.cachethis res.opcnt = true) (hoffset : res.dataOffset = 4 * k) (hk : k ≤ res.words.length)
    (hlen : res.len < 2 ^ 32) :
    storeCacheEntry slot cred res status =
      { slot with
        initialized := true, slOpcnt := res.opcnt, slStatus := status, slCred := cred, cached := true
        slDatalen := 4 * (res.words.drop k).length, slData := res.words.drop k } := by
  have hle : res.dataOffset ≤ res.len := by
    rw [len]
    omega
  have hdatalen : (res.len + 2 ^ 32 - res.dataOffset) % 2 ^ 32 = 4 * (res.words.drop k).length := by
    rw [Nat.sub_add_comm hle, Nat.add_mod_right, Nat.mod_eq_of_lt (by omega), length_drop, len]
    omega
  unfold storeCacheEntry
  rw [if_pos hcache, if_pos hle, hdatalen, hoffset, Nat.mul_div_cancel_left _ (by decide)]

theorem sequenceDone_slSeqid (slot : Nfsd4Slot) (cred : Nat) (res : CompoundRes) (status : Nfsstat) :
    (sequenceDone slot cred res status).slSeqid = slot.slSeqid := by
  unfold sequenceDone storeCacheEntry
  dsimp only
  split <;> rfl

/-- The request whose reply a slot keeps passed the checks of the session. -/
def SlotRequest.Admitted (r : SlotRequest) (ses : SlotSession) : Prop :=
  r.opcnt ≤ ses.seFchannel.maxops.toNat ∧ r.argLen ≤ ses.seFchannel.maxreqSz.toNat

def SlotRequest.caches (r : SlotRequest) (rep : SlotReply) : Bool := cacheThis r.cachethis rep.opcnt

/-- The slot keeps the reply to a request, or that there was one. -/
structure Keeps (slot : Nfsd4Slot) (r : SlotRequest) (rep : SlotReply) : Prop where
  initialized : slot.initialized = true
  cachethis : slot.cachethis = r.cachethis
  cred : slot.slCred = r.cred
  cached : slot.cached = r.caches rep
  opcnt_le : slot.slOpcnt ≤ r.opcnt
  all : slot.slStatus = 0 → slot.slOpcnt = r.opcnt
  uncached : slot.cached = false → 2 ≤ slot.slOpcnt
  body : slot.cached = true → slot.slStatus = rep.status ∧ slot.slOpcnt = rep.opcnt ∧ slot.slData = rep.body ∧
    slot.slDatalen = 4 * rep.body.length

/-- An answer from the slot that keeps the reply to a request. -/
structure ReplayOf (r : SlotRequest) (rep : SlotReply) (cred : Nat) (res : CompoundRes) (status : Nfsstat) : Prop where
  cred : cred = r.cred
  cached : r.caches rep = true → res.opcnt = rep.opcnt ∧ status = rep.status ∧
    ∃ k, res.dataOffset = 4 * k ∧ k ≤ res.words.length ∧ res.len < 2 ^ 32 ∧ res.words.drop k = rep.body
  uncached : r.caches rep = false → res.opcnt = 2 ∧ status ≠ 0

section

variable {ses : SlotSession} {slot : Nfsd4Slot} {r r₀ : SlotRequest} {rep : SlotReply}

theorem Keeps.sequenceDone {cred : Nat} {res : CompoundRes} {status : Nfsstat} (h : Keeps slot r₀ rep)
    (hreplay : ReplayOf r₀ rep cred res status) :
    Keeps (sequenceDone slot cred res status) r₀ rep ∧ (Nfsd.sequenceDone slot cred res status).slDatalen = slot.slDatalen := by
  cases hcaches : r₀.caches rep with
  | true =>
    obtain ⟨hopcnt, hstatus, k, hoffset, hk, hlen, hbody⟩ := hreplay.cached hcaches
    obtain ⟨hst, hcnt, hdata, hdatalen⟩ := h.body (h.cached.trans hcaches)
    have hthis : cacheThis slot.cachethis res.opcnt = true := by
      rw [h.cachethis, hopcnt]
      exact hcaches
    rw [Nfsd.sequenceDone, storeCacheEntry_cached hthis hoffset hk hlen, hbody, hstatus, hopcnt, hreplay.cred]
    refine ⟨⟨rfl, h.cachethis, rfl, hcaches.symm, hcnt ▸ h.opcnt_le, ?_, ?_, ?_⟩, hdatalen.symm⟩
    · exact fun hzero => hcnt ▸ h.all (hst.trans hzero)
    · exact fun hfalse => absurd hfalse (by simp)
    · exact fun _ => ⟨rfl, rfl, rfl, rfl⟩
  | false =>
    obtain ⟨hopcnt, hstatus⟩ := hreplay.uncached hcaches
    have hthis : r₀.cachethis = false := (or_eq_false_iff.1 hcaches).1
    have hno : ¬ cacheThis slot.cachethis res.opcnt = true := by simp [cacheThis, h.cachethis, hthis, hopcnt]
    have htwo := h.uncached (h.cached.trans hcaches)
    have hle := h.opcnt_le
    unfold Nfsd.sequenceDone storeCacheEntry
    rw [if_neg hno]
    refine ⟨⟨rfl, h.cachethis, hreplay.cred, hcaches.symm, ?_, ?_, ?_, ?_⟩, rfl⟩
    · dsimp only
      omega
    · exact fun hzero => absurd hzero hstatus
    · exact fun _ => Nat.le_of_eq hopcnt.symm
    · exact fun htrue => absurd htrue (by simp)

theorem replayMatchesCache_iff : replayMatchesCache slot r = true ↔
    slot.cachethis = r.cachethis ∧ (slot.slOpcnt < r.opcnt → slot.slStatus ≠ 0) ∧ slot.slOpcnt ≤ r.opcnt ∧
      slot.slCred = r.cred := by
  simp only [replayMatchesCache, and_eq_true, not_eq_true', and_eq_false_iff, decide_eq_false_iff_not,
    beq_iff_eq, beq_eq_false_iff_ne]
  grind

theorem SlotRequest.reply_room (r : SlotRequest) (slack : Bool) :
    r.reply.len + 44 + (if slack then 0 else errSlackSpace) ≤ r.reply.buflen := by
  have hle := r.hdr_le
  have hge := r.buflen_ge
  simp only [reply, len, errSlackSpace]
  split <;> omega

/-- **The answer to a request that matches the slot is the reply it keeps.** -/
theorem Keeps.replayCacheEntry (h : Keeps slot r₀ rep) (hmatch : replayMatchesCache slot r = true)
    (hdatalen : slot.slDatalen ≤ 2048) :
    ReplayOf r₀ rep r.cred (replayCacheEntry ses slot r).1 (replayCacheEntry ses slot r).2 ∧
      (r₀.caches rep = true →
        r.answer (Nfsd.replayCacheEntry ses slot r).1 (Nfsd.replayCacheEntry ses slot r).2 = rep) := by
  obtain ⟨-, -, hopcnt, hcred⟩ := replayMatchesCache_iff.1 hmatch
  have hcred : r.cred = r₀.cred := hcred.symm.trans h.cred
  obtain ⟨hstatus, hres⟩ := @SlotRequest.sequenceOp_eq ses r slot.cachethis r.reply rfl (r.reply_room _)
  have hlen : (r.reply.words ++ opSequence :: 0 :: r.sequenceWords ses).length = r.hdr.length + 11 := by
    simp [SlotRequest.reply, SlotRequest.sequenceWords_length]
  have hhdr := r.hdr_le
  have hbuf := r.buflen_ge
  cases hcaches : r₀.caches rep with
  | true =>
    have hcached := h.cached.trans hcaches
    obtain ⟨hst, hcnt, hdata, hdl⟩ := h.body hcached
    have hfull : slot.slData.take (slot.slDatalen / 4) = rep.body := by
      rw [hdata, hdl, Nat.mul_div_cancel_left _ (by decide), take_length]
    have heq : Nfsd.replayCacheEntry ses slot r =
        ({ words := r.reply.words ++ opSequence :: 0 :: r.sequenceWords ses ++ rep.body, buflen := r.buflen
           opcnt := rep.opcnt, dataOffset := r.reply.len + 44 }, rep.status) := by
      unfold Nfsd.replayCacheEntry encSequenceReplay
      simp only [hcached, if_true, hstatus, hres]
      rw [if_neg (by simp), if_neg, hfull, hcnt, hst]
      · rfl
      · rw [len, hlen, Nat.not_lt]
        exact Nat.le_trans (by omega) hbuf
    have hall : (r.reply.words ++ opSequence :: 0 :: r.sequenceWords ses ++ rep.body).length =
        r.hdr.length + 11 + rep.body.length := by
      rw [length_append, hlen]
    have hdrop : (r.reply.words ++ opSequence :: 0 :: r.sequenceWords ses ++ rep.body).drop (r.hdr.length + 11) = rep.body :=
      drop_left' hlen
    rw [heq]
    refine ⟨⟨hcred, fun _ => ⟨rfl, rfl, r.hdr.length + 11, ?_, ?_, ?_, hdrop⟩, ?_⟩, fun _ => ?_⟩
    · simp only [len, SlotRequest.reply]
      omega
    · exact hall ▸ Nat.le_add_right _ _
    · rw [len, hall]
      omega
    · exact fun hfalse => absurd (hcaches.symm.trans hfalse) (by simp)
    · rw [SlotRequest.answer, hdrop]
  | false =>
    have hcached := h.cached.trans hcaches
    have htwo := h.uncached hcached
    obtain ⟨op, ops, hops⟩ : ∃ op ops, r.ops = op :: ops := by
      apply exists_cons_of_ne_nil
      intro hnil
      rw [SlotRequest.opcnt, hnil] at hopcnt
      simp at hopcnt
      omega
    refine ⟨⟨hcred, fun htrue => absurd (hcaches.symm.trans htrue) (by simp), fun _ => ?_⟩, by simp⟩
    generalize hfront : ({ (r.sequenceOp ses slot.cachethis r.reply).res with
      opcnt := (r.sequenceOp ses slot.cachethis r.reply).res.opcnt + 1 } : CompoundRes) = front
    have hcnt : front.opcnt = 2 := by
      rw [← hfront, hres]
      rfl
    have hfits : front.len + 8 ≤ front.buflen := by
      rw [← hfront, hres]
      simp only [len, SlotRequest.reply, length_append, length_cons, SlotRequest.sequenceWords_length]
      omega
    obtain ⟨data, henc⟩ := @encodeOperation_spec (some slot.cachethis) (r.opcnt = front.opcnt) front
      nfserrRetryUncachedRep op.opnum op.nontrivialError op.encoder op.encoder_fits hfits
      (fun hzero => absurd hzero (by decide))
    have hne : (op.encodeAs (some slot.cachethis) r.opcnt front nfserrRetryUncachedRep).status ≠ 0 :=
      encodeOperation_ne_zero (fun room => op.errors_stay room _ (by decide)) (by decide)
    have heq : Nfsd.replayCacheEntry ses slot r =
        ((op.encodeAs (some slot.cachethis) r.opcnt front nfserrRetryUncachedRep).res,
          (op.encodeAs (some slot.cachethis) r.opcnt front nfserrRetryUncachedRep).status) := by
      unfold Nfsd.replayCacheEntry encSequenceReplay
      simp only [hcached, false_eq_true, if_false, hops, hfront]
      exact if_pos hne
    rw [heq]
    exact ⟨henc.opcnt.trans hcnt, hne⟩

end

/-- **What SEQUENCE can do**: refuse; answer from an idle slot the last request again; or give an idle slot to the next. -/
theorem sequence_cases (ses : SlotSession) (slot : Nfsd4Slot) (r : SlotRequest) :
    (∃ status, nfsd4Sequence ses slot r = .refused status) ∨
    (slot.inuse = false ∧ r.seqid = slot.slSeqid ∧ replayMatchesCache slot r = true ∧ slot.initialized = true ∧
      nfsd4Sequence ses slot r = .replay (replayCacheEntry ses slot r).1 (replayCacheEntry ses slot r).2) ∨
    (slot.inuse = false ∧ r.seqid = slot.slSeqid + 1 ∧ r.Admitted ses ∧
      nfsd4Sequence ses slot r = .accepted { slot with slSeqid := r.seqid, inuse := true, cachethis := r.cachethis }
        { r.reply with buflen := min r.buflen (r.limit ses - r.authSlack) }) := by
  unfold nfsd4Sequence
  split
  · exact .inl ⟨_, rfl⟩
  rename_i hops
  split
  · exact .inl ⟨_, rfl⟩
  rename_i hreq
  split
  · exact .inl ⟨_, rfl⟩
  · exact .inl ⟨_, rfl⟩
  · rename_i hcheck
    have hidle : slot.inuse = false := by
      by_contra hinuse
      rw [not_eq_false] at hinuse
      rw [checkSlotSeqid, if_pos hinuse] at hcheck
      split at hcheck <;> cases hcheck
    rw [hidle] at hcheck
    split
    · exact .inl ⟨_, rfl⟩
    split
    · exact .inl ⟨_, rfl⟩
    · exact .inr (.inl ⟨hidle, eq_of_checkSlotSeqid hcheck, by simp_all, by simp_all, rfl⟩)
  rename_i hcheck
  have hnext : slot.inuse = false ∧ r.seqid = slot.slSeqid + 1 := by
    unfold checkSlotSeqid at hcheck
    split_ifs at hcheck
    exact ⟨by simp_all, by assumption⟩
  split
  · exact .inl ⟨_, rfl⟩
  split
  · exact .inl ⟨_, rfl⟩
  · exact .inr (.inr ⟨hnext.1, hnext.2, ⟨Nat.not_lt.1 hops, Nat.not_lt.1 hreq⟩, rfl⟩)

/-! ## The guarantee over runs -/

def Inflight.isReplay : Inflight → Bool
  | .executing _ _ => false
  | .replaying _ _ _ => true

/-- The condition on a step: a COMPOUND that takes the slot has room for its SEQUENCE result, and no retransmission is
still being answered. -/
def SlotClear (ses : SlotSession) (s : SlotState) : SlotEvent → Prop
  | .arrive r => (nfsd4Sequence ses s.slot r).taken = true → r.Fits ses ∧ ∀ f ∈ s.inflight, f.isReplay = false
  | .finish _ => True

instance (ses : SlotSession) (s : SlotState) : ∀ e, Decidable (SlotClear ses s e)
  | .arrive _ => inferInstanceAs (Decidable (_ → _ ∧ _))
  | .finish _ => isTrue trivial

/-- The numbers 1, 2, 3 and so on, modulo 2^32. -/
def numbered (n : Nat) : List (BitVec 32) := (List.range n).map fun i => BitVec.ofNat 32 (i + 1)

theorem numbered_succ (n : Nat) : numbered (n + 1) = numbered n ++ [BitVec.ofNat 32 (n + 1)] := by
  simp [numbered, range_succ]

theorem length_numbered (n : Nat) : (numbered n).length = n := by simp [numbered]

/-- A slot nothing executes on. -/
structure Idle (ses : SlotSession) (s : SlotState) : Prop where
  inuse : s.slot.inuse = false
  seqid : s.slot.slSeqid = BitVec.ofNat 32 s.log.length
  fresh : s.last = none → s.slot.initialized = false ∧ s.inflight = []
  keeps : ∀ r rep, s.last = some (r, rep) → r.seqid = s.slot.slSeqid ∧ r.Admitted ses ∧ Keeps s.slot r rep ∧
    ∀ f ∈ s.inflight, ∃ cred res status, f = .replaying cred res status ∧ ReplayOf r rep cred res status

/-- A slot a COMPOUND executes on. -/
structure Busy (ses : SlotSession) (s : SlotState) (r : SlotRequest) : Prop where
  inflight : s.inflight = [.executing r { r.reply with buflen := min r.buflen (r.limit ses - r.authSlack) }]
  inuse : s.slot.inuse = true
  seqid : r.seqid = BitVec.ofNat 32 (s.log.length + 1)
  slSeqid : s.slot.slSeqid = r.seqid
  cachethis : s.slot.cachethis = r.cachethis
  admitted : r.Admitted ses
  fits : r.Fits ses

def SlotState.quiet (s : SlotState) : Prop := ∀ f ∈ s.inflight, f.isReplay = true

structure SlotInv (ses : SlotSession) (s : SlotState) : Prop where
  space : s.slot.slDatalen ≤ ses.space
  log : s.log = numbered s.log.length
  phase : Idle ses s ∨ ∃ r, Busy ses s r

section

variable {ses : SlotSession} {s t : SlotState} {r : SlotRequest}

theorem SlotSession.space_le (ses : SlotSession) : ses.space ≤ 2048 := by
  have := ses.clamped.slotBytes_le
  rw [space, show sizeofSlot.toNat = 72 from rfl]
  omega

theorem SlotSession.le_space (ses : SlotSession) {n : Nat} (h : 80 + n ≤ ses.seFchannel.maxrespCached.toNat) :
    n ≤ ses.space := by
  have hge : ¬ ses.seFchannel.maxrespCached < minHdrSeqSz := by
    rw [BitVec.not_lt]
    exact Nat.le_trans (by decide : minHdrSeqSz.toNat ≤ 80) (by omega)
  have hsub : (ses.seFchannel.maxrespCached - minHdrSeqSz).toNat = ses.seFchannel.maxrespCached.toNat - 80 :=
    BitVec.toNat_sub_of_le (BitVec.not_lt.1 hge)
  rw [space, slotBytes, if_neg hge, BitVec.toNat_add, show sizeofSlot.toNat = 72 from rfl]
  omega

/-- **A COMPOUND that was executed leaves its reply in the slot, within its space.** -/
theorem keeps_of_executed (hfits : r.Fits ses) (slot : Nfsd4Slot) (hslot : slot.cachethis = r.cachethis)
    (hspace : slot.slDatalen ≤ ses.space) {out : CompoundRes × Nfsstat}
    (hout : procCompound ses r.cachethis r { r.reply with buflen := min r.buflen (r.limit ses - r.authSlack) } = out) :
    Keeps (sequenceDone slot r.cred out.1 out.2) r (r.answer out.1 out.2) ∧
      (sequenceDone slot r.cred out.1 out.2).slDatalen ≤ ses.space := by
  obtain ⟨body, hloop⟩ := @procCompound_spec ses r r.cachethis
    { r.reply with buflen := min r.buflen (r.limit ses - r.authSlack) } rfl hfits
  rw [hout] at hloop
  have hlen : (r.hdr ++ opSequence :: 0 :: r.sequenceWords ses).length = r.hdr.length + 11 := by
    simp [SlotRequest.sequenceWords_length]
  have hwords : out.1.words = r.hdr ++ opSequence :: 0 :: r.sequenceWords ses ++ body := hloop.words
  have hdrop : out.1.words.drop (r.hdr.length + 11) = body := hwords ▸ drop_left' hlen
  have hoffset : out.1.dataOffset = 4 * (r.hdr.length + 11) := by
    rw [hloop.dataOffset]
    simp only [len, SlotRequest.reply]
    omega
  have houtlen : out.1.len = 4 * (r.hdr.length + 11) + 4 * body.length := by
    rw [len, hwords, length_append]
    omega
  have hwithin : out.1.len ≤ min r.buflen (r.limit ses - r.authSlack) := hloop.within
  have hge := hloop.opcnt_ge
  have hle := hloop.opcnt_le
  have hall := hloop.all
  have hnone := hloop.none_run
  dsimp only [SlotRequest.reply] at hge hle hall hnone
  have hopcnt : out.1.opcnt ≤ r.opcnt := by
    rw [SlotRequest.opcnt]
    omega
  have hevery : out.2 = 0 → out.1.opcnt = r.opcnt := by
    intro hzero
    rw [hall hzero, SlotRequest.opcnt, Nat.add_comm]
  cases hcaches : cacheThis r.cachethis out.1.opcnt with
  | true =>
    have hlimit : r.limit ses < 2 ^ 32 := by
      rw [SlotRequest.limit]
      split <;> exact BitVec.isLt _
    have hk : r.hdr.length + 11 ≤ out.1.words.length := by
      rw [hwords, length_append]
      omega
    have hbody : 4 * body.length ≤ ses.space := by
      cases hthis : r.cachethis with
      | true =>
        have hhdr := r.hdr_ge
        rw [SlotRequest.limit, if_pos hthis] at hwithin
        exact ses.le_space (by omega)
      | false =>
        rw [hthis, cacheThis, Bool.false_or, beq_iff_eq] at hcaches
        rw [hnone hcaches]
        exact Nat.zero_le _
    rw [sequenceDone, storeCacheEntry_cached (hslot ▸ hcaches) hoffset hk (by omega), hdrop]
    refine ⟨⟨rfl, hslot, rfl, hcaches.symm, hopcnt, hevery, fun hfalse => absurd hfalse (by simp), fun _ => ?_⟩, hbody⟩
    exact ⟨rfl, rfl, hdrop.symm, by rw [SlotRequest.answer, hdrop]⟩
  | false =>
    have hno : ¬ cacheThis slot.cachethis out.1.opcnt = true := by simp [hslot, hcaches]
    unfold sequenceDone storeCacheEntry
    rw [if_neg hno]
    refine ⟨⟨rfl, hslot, rfl, hcaches.symm, hopcnt, hevery, fun _ => ?_, fun htrue => absurd htrue (by simp)⟩, hspace⟩
    have hsolo : out.1.opcnt ≠ 1 := by
      simp only [cacheThis, or_eq_false_iff, beq_eq_false_iff_ne] at hcaches
      exact hcaches.2
    dsimp only
    omega

theorem Idle.quiet (h : Idle ses s) : s.quiet := by
  intro f hf
  cases hlast : s.last with
  | none =>
    rw [(h.fresh hlast).2] at hf
    cases hf
  | some p =>
    obtain ⟨cred, res, status, rfl, -⟩ := (h.keeps p.1 p.2 hlast).2.2.2 f hf
    rfl

variable (h : SlotInv ses s)
include h

theorem SlotInv.idle (hidle : s.slot.inuse = false) : Idle ses s := by
  obtain hphase | ⟨r, hbusy⟩ := h.phase
  · exact hphase
  · exact absurd (hbusy.inuse.symm.trans hidle) (by simp)

theorem SlotInv.arrive (hclear : SlotClear ses s (.arrive r))
    (hstep : slotStep ses s (.arrive r) = some t) : SlotInv ses t := by
  rw [slotStep] at hstep
  obtain ⟨status, heq⟩ | ⟨hidle, hseqid, hmatch, hinit, heq⟩ | ⟨hidle, hseqid, hadmitted, heq⟩ :=
    sequence_cases ses s.slot r
  · rw [heq] at hstep
    cases hstep
    exact h
  · rw [heq] at hstep
    cases hstep
    have hphase := h.idle hidle
    refine ⟨h.space, h.log, .inl ⟨hphase.inuse, hphase.seqid, ?_, ?_⟩⟩
    · exact fun hnone => absurd ((hphase.fresh hnone).1.symm.trans hinit) (by simp)
    · intro r₀ rep hlast
      obtain ⟨hr₀, hadm, hkeeps, hall⟩ := hphase.keeps r₀ rep hlast
      refine ⟨hr₀, hadm, hkeeps, fun f hf => ?_⟩
      obtain hf | hf := mem_append.1 hf
      · exact hall f hf
      · rw [mem_singleton] at hf
        exact ⟨_, _, _, hf, (hkeeps.replayCacheEntry hmatch (Nat.le_trans h.space ses.space_le)).1⟩
  obtain ⟨hfits, hnoreplay⟩ := hclear (heq ▸ rfl)
  rw [heq] at hstep
  cases hstep
  have hphase := h.idle hidle
  have hempty : s.inflight = [] := eq_nil_iff_forall_not_mem.2 fun f hf => by
    cases (hphase.quiet f hf).symm.trans (hnoreplay f hf)
  refine ⟨h.space, h.log, .inr ⟨r, ?_, rfl, ?_, rfl, rfl, hadmitted, hfits⟩⟩
  · simp [hempty]
  · rw [hseqid, hphase.seqid]
    exact (BitVec.ofNat_add _ _).symm

theorem SlotInv.finish {i : Nat} (hstep : slotStep ses s (.finish i) = some t) : SlotInv ses t := by
  rw [slotStep] at hstep
  obtain hphase | ⟨r, hbusy⟩ := h.phase
  · cases hlast : s.last with
    | none =>
      rw [(hphase.fresh hlast).2] at hstep
      cases hstep
    | some p =>
      obtain ⟨hr₀, hadm, hkeeps, hall⟩ := hphase.keeps p.1 p.2 hlast
      cases hget : s.inflight[i]? with
      | none =>
        rw [hget] at hstep
        cases hstep
      | some f =>
        obtain ⟨cred, res, status, rfl, hreplay⟩ := hall f (mem_of_getElem? hget)
        rw [hget] at hstep
        cases hstep
        obtain ⟨hkept, hdatalen⟩ := hkeeps.sequenceDone hreplay
        have hseqid := sequenceDone_slSeqid s.slot cred res status
        refine ⟨hdatalen ▸ h.space, h.log, .inl ⟨rfl, hseqid.trans hphase.seqid, ?_, ?_⟩⟩
        · exact fun hnone => absurd (hlast.symm.trans hnone) (by simp)
        · intro r' rep' hlast'
          cases hlast.symm.trans hlast'
          exact ⟨hr₀.trans hseqid.symm, hadm, hkept, fun f hf => hall f (mem_of_mem_eraseIdx hf)⟩
  · rw [hbusy.inflight] at hstep
    obtain hi | hi := Nat.eq_zero_or_pos i
    · subst hi
      cases hstep
      rw [hbusy.cachethis]
      obtain ⟨hkept, hspace⟩ := keeps_of_executed hbusy.fits s.slot hbusy.cachethis h.space rfl
      have hlog : s.log ++ [r.seqid] = numbered (s.log.length + 1) := by
        rw [numbered_succ, hbusy.seqid, ← h.log]
      refine ⟨hspace, ?_, .inl ⟨rfl, ?_, nofun, ?_⟩⟩
      · dsimp only [SlotState.executed]
        rw [hlog, length_numbered]
      · dsimp only [SlotState.executed]
        rw [hlog, length_numbered, sequenceDone_slSeqid, hbusy.slSeqid, hbusy.seqid]
      · intro r' rep' hlast
        cases hlast
        refine ⟨hbusy.slSeqid.symm.trans (sequenceDone_slSeqid _ _ _ _).symm, hbusy.admitted, hkept, ?_⟩
        nofun
    · rw [List.getElem?_eq_none (by exact hi)] at hstep
      cases hstep

theorem SlotInv.step {e : SlotEvent} (hclear : SlotClear ses s e)
    (hstep : slotStep ses s e = some t) : SlotInv ses t := by
  cases e with
  | arrive r => exact h.arrive hclear hstep
  | finish i => exact h.finish hstep

end

end Vastnfs.Nfsd
