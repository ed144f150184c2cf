import Vastnfs.Lib.Keyed
import Vastnfs.Lib.Runs

/-!
# Memory for the slots of sessions

CREATE_SESSION charges `nfsd_drc_mem_used` with the slots it gives a client before it knows whether it will make a
session, and returns the charge on every way out that makes none (`fs/nfsd/nfs4state.c`).

* `nfsd4CreateSession`: the operation with all its ways out, on clients with their CREATE_SESSION slot.
* `createSession_cases`: what it does to the memory and the sessions.
* `drcMem_exact`: the charge is the sum over the live sessions just as long as no retransmission is charged for other
  attributes than those in the slot it is answered from.
-/

namespace Vastnfs.Nfsd

open Runs List BitVec

/-! ## Channel attributes -/

/-- `struct nfsd4_channel_attrs`, without the RDMA attributes. -/
structure ChannelAttrs where
  headerpadsz : BitVec 32 := 0
  (maxreqSz maxrespSz maxrespCached maxops maxreqs : BitVec 32)
deriving DecidableEq

def minHdrSeqSz : BitVec 32 := 80

def slotCacheSize : BitVec 32 := 2048

def maxSlotsPerSession : BitVec 32 := 160

def maxOpsPerCompound : BitVec 32 := 16

def maxMemPerSession : Nat := 32 * 2048

/-- `sizeof(struct nfsd4_slot)` on a 64-bit machine. -/
def sizeofSlot : BitVec 32 := 72

def slotBytes (ca : ChannelAttrs) : BitVec 32 :=
  (if ca.maxrespCached < minHdrSeqSz then 0 else ca.maxrespCached - minHdrSeqSz) + sizeofSlot

def drcCharge (ca : ChannelAttrs) : Nat := (slotBytes ca).toNat * ca.maxreqs.toNat

/-- The number of slots `nfsd4_get_drc_mem` gives. -/
def drcSlots (maxMem used nrthreads : Nat) (ca : ChannelAttrs) : Nat :=
  let slotsize := (slotBytes ca).toNat
  let totalAvail := maxMem - used
  let avail := min maxMemPerSession totalAvail
  let scaleFactor := max 8 nrthreads
  -- `clamp_t`, whose upper bound wins
  let avail := min (max avail slotsize) (totalAvail / scaleFactor)
  max (min ca.maxreqs.toNat (avail / slotsize)) 1

/-- The charge as `nfsd4_get_drc_mem` and `nfsd4_put_drc_mem` compute it. -/
def chargeWord (ca : ChannelAttrs) : BitVec 64 := (slotBytes ca * ca.maxreqs).zeroExtend 64

/-! ## Clients and sessions -/

inductive SessionStatus
  | ok | inval | encrAlgUnsupp | toosmall | jukebox | wrongCred | seqMisordered | clidInuse
  | staleClientid
deriving DecidableEq

/-- `struct nfsd4_create_session`: the call, and the answer in its place. -/
structure CreateSessionArgs where
  (clientid sessionid : Nat := 0)
  (seqid flags : BitVec 32 := 0)
  (foreChannel backChannel : ChannelAttrs)
  cbSecFlavor : BitVec 32 := 0
deriving DecidableEq

def zeroAttrs : ChannelAttrs := { maxreqSz := 0, maxrespSz := 0, maxrespCached := 0, maxops := 0, maxreqs := 0 }

/-- `struct nfsd4_clid_slot`. -/
structure ClidSlot where
  slSeqid : BitVec 32 := 0
  slStatus : SessionStatus := .ok
  slCrSes : CreateSessionArgs := { foreChannel := zeroAttrs, backChannel := zeroAttrs }
deriving DecidableEq

/-- What CREATE_SESSION reads of a `struct nfs4_client`. -/
structure SessionClient where
  (clientid name : Nat)
  confirmed : Bool := false
  csSlot : ClidSlot := {}
deriving DecidableEq

/-- What is charged for in a `struct nfsd4_session`. -/
structure Nfsd4Session where
  (sessionid client : Nat)
  seFchannel : ChannelAttrs
deriving DecidableEq

/-- The clients and the sessions of the server, and `nfsd_drc_mem_used`. -/
structure DrcState where
  maxMem : Nat
  memUsed : BitVec 64 := 0
  clients : List SessionClient := []
  sessions : List Nfsd4Session := []
  (nextClient nextSession : Nat := 0)
deriving DecidableEq

def DrcState.live (s : DrcState) : Nat := (s.sessions.map fun ses => drcCharge ses.seFchannel).sum

/-- What a call meets: the threads and the message size of the server, memory, and the checks of the credentials. -/
structure SessionEnv where
  nrthreads : Nat := 8
  maxMesg : BitVec 32 := 1052672
  (sessionMem connMem machCreds sameCreds : Bool := true)
  oldBusy : Bool := false
deriving DecidableEq

/-! ## CREATE_SESSION -/

/-- `NFSD_MIN_REQ_HDR_SEQ_SZ` and its like: four for the credential, one for the tag, three for version, count and
opcode, four for the session and four for the slot. -/
def minReqHdrSeqSz : BitVec 32 := 64

@[inherit_doc minReqHdrSeqSz]
def minRespHdrSeqSz : BitVec 32 := 64

def minU32 (a b : BitVec 32) : BitVec 32 := if a < b then a else b

theorem minU32_le_right (a b : BitVec 32) : (minU32 a b).toNat ≤ b.toNat := by
  unfold minU32
  split_ifs with hlt
  · exact Nat.le_of_lt (lt_def.1 hlt)
  · exact Nat.le_refl _

/-- The attributes `check_forechannel_attrs` settles on before the memory is charged. -/
def clampAttrs (maxMesg : BitVec 32) (ca : ChannelAttrs) : ChannelAttrs :=
  { headerpadsz := 0
    maxreqSz := minU32 ca.maxreqSz maxMesg
    maxrespSz := minU32 ca.maxrespSz maxMesg
    maxops := minU32 ca.maxops maxOpsPerCompound
    maxrespCached := minU32 ca.maxrespCached (slotCacheSize + minHdrSeqSz)
    maxreqs := minU32 ca.maxreqs maxSlotsPerSession }

def checkForechannelAttrs (s : DrcState) (env : SessionEnv) (ca : ChannelAttrs) : Except SessionStatus ChannelAttrs :=
  if ca.maxreqSz < minReqHdrSeqSz ∨ ca.maxrespSz < minRespHdrSeqSz then .error .toosmall
  else
    let ca := clampAttrs env.maxMesg ca
    .ok { ca with maxreqs := BitVec.ofNat 32 (drcSlots s.maxMem s.memUsed.toNat env.nrthreads ca) }

/-- `NFSD_CB_MAX_REQ_SZ` and `NFSD_CB_MAX_RESP_SZ`: 135 and 28 words. -/
def cbMaxReqSz : BitVec 32 := 540

@[inherit_doc cbMaxReqSz]
def cbMaxRespSz : BitVec 32 := 112

def checkBackchannelAttrs (ca : ChannelAttrs) : Except SessionStatus ChannelAttrs :=
  if ca.maxreqSz < cbMaxReqSz ∨ ca.maxrespSz < cbMaxRespSz then .error .toosmall
  else if ca.maxops < 2 then .error .toosmall
  else .ok { ca with headerpadsz := 0, maxrespCached := 0 }

/-- The answers of `check_slot_seqid`. -/
inductive SlotCheck
  | ok | jukebox | replayCache | seqMisordered
deriving DecidableEq

def checkSlotSeqid (seqid slotSeqid : BitVec 32) (slotInuse : Bool) : SlotCheck :=
  if slotInuse then (if seqid = slotSeqid then .jukebox else .seqMisordered)
  else if seqid = slotSeqid + 1 then .ok
  else if seqid = slotSeqid then .replayCache
  else .seqMisordered

theorem eq_of_checkSlotSeqid {seqid slotSeqid : BitVec 32} (h : checkSlotSeqid seqid slotSeqid false = .replayCache) :
    seqid = slotSeqid := by
  rw [checkSlotSeqid, if_neg Bool.false_ne_true] at h
  split at h
  · cases h
  split at h
  · assumption
  · cases h

namespace DrcState

variable (s : DrcState)

/-- What `nfsd4_get_drc_mem` adds for the slots it gives. -/
def charge (ca : ChannelAttrs) : DrcState := { s with memUsed := s.memUsed + chargeWord ca }

def put (ca : ChannelAttrs) : DrcState := { s with memUsed := s.memUsed - chargeWord ca }

/-- `find_confirmed_client`, `find_unconfirmed_client` and `find_confirmed_client_by_name`. -/
def findConfirmed (clientid : Nat) : Option SessionClient := s.clients.find? fun c => c.clientid = clientid ∧ c.confirmed

@[inherit_doc findConfirmed]
def findUnconfirmed (clientid : Nat) : Option SessionClient := s.clients.find? fun c => c.clientid = clientid ∧ ¬ c.confirmed

@[inherit_doc findConfirmed]
def findConfirmedByName (name : Nat) : Option SessionClient := s.clients.find? fun c => c.name = name ∧ c.confirmed

/-- The sessions of a client are freed one by one, and the client with them. -/
def expireClient (clientid : Nat) : DrcState :=
  { s with
    memUsed := (s.sessions.filter fun ses => ses.client = clientid).foldl (fun used ses => used - chargeWord ses.seFchannel) s.memUsed
    sessions := s.sessions.filter fun ses => ¬ ses.client = clientid
    clients := s.clients.filter fun c => ¬ c.clientid = clientid }

/-- The end of `nfsd4_create_session`: the session is hashed, and the answer goes into the slot of the client. -/
def initSession (conf : SessionClient) (crSes : CreateSessionArgs) : DrcState × CreateSessionArgs :=
  let seqid := conf.csSlot.slSeqid + 1
  -- neither SESSION4_PERSIST nor SESSION4_RDMA is supported
  let crSes := { crSes with flags := crSes.flags &&& ~~~ 5#32, sessionid := s.nextSession, seqid := seqid }
  ({ s with
      sessions := { sessionid := s.nextSession, client := conf.clientid, seFchannel := crSes.foreChannel } :: s.sessions
      clients := Keyed.replace SessionClient.clientid
        { conf with confirmed := true, csSlot := { slSeqid := seqid, slStatus := .ok, slCrSes := crSes } } s.clients
      nextSession := s.nextSession + 1 }, crSes)

end DrcState

/-- The part of `nfsd4_create_session` under the client lock, with everything allocated. -/
def createForClient (s : DrcState) (env : SessionEnv) (crSes : CreateSessionArgs) : DrcState × SessionStatus × CreateSessionArgs :=
  match s.findConfirmed crSes.clientid with
  | some conf =>
    if !env.machCreds then (s.put crSes.foreChannel, .wrongCred, crSes)
    else
      match checkSlotSeqid crSes.seqid conf.csSlot.slSeqid false with
      | .ok =>
        let r := s.initSession conf crSes
        (r.1, .ok, r.2)
      | .replayCache =>
        -- `nfsd4_replay_create_session` has overwritten the call
        let crSes := conf.csSlot.slCrSes
        (s.put crSes.foreChannel, conf.csSlot.slStatus, crSes)
      | _ => (s.put crSes.foreChannel, .seqMisordered, crSes)
  | none =>
    match s.findUnconfirmed crSes.clientid with
    | none => (s.put crSes.foreChannel, .staleClientid, crSes)
    | some unconf =>
      if !env.sameCreds then (s.put crSes.foreChannel, .clidInuse, crSes)
      else if !env.machCreds then (s.put crSes.foreChannel, .wrongCred, crSes)
      else if checkSlotSeqid crSes.seqid unconf.csSlot.slSeqid false ≠ .ok then
        (s.put crSes.foreChannel, .seqMisordered, crSes)
      else
        let r := s.initSession unconf crSes
        match s.findConfirmedByName unconf.name with
        | none => (r.1, .ok, r.2)
        | some old =>
          if env.oldBusy then (s.put crSes.foreChannel, .jukebox, crSes)
          else (r.1.expireClient old.clientid, .ok, r.2)

/-- `alloc_session` and `alloc_conn_from_crses`: the slots are allocated one by one, so there is no session without memory
for all of them. -/
def sessionAllocated (s : DrcState) (env : SessionEnv) (fore : ChannelAttrs) : Prop :=
  env.sessionMem = true ∧ s.live + drcCharge fore < 2 ^ 64 ∧ env.connMem = true
deriving Decidable

/-- The state, the status and what `cr_ses` holds in the end. -/
def nfsd4CreateSession (s : DrcState) (env : SessionEnv) (crSes : CreateSessionArgs) :
    DrcState × SessionStatus × CreateSessionArgs :=
  if crSes.flags &&& ~~~ 7#32 ≠ 0 then (s, .inval, crSes)
  -- RPC_AUTH_NULL and RPC_AUTH_UNIX
  else if ¬ (crSes.cbSecFlavor = 0 ∨ crSes.cbSecFlavor = 1) then (s, .encrAlgUnsupp, crSes)
  else
    match checkForechannelAttrs s env crSes.foreChannel with
    | .error status => (s, status, crSes)
    | .ok fore =>
      let crSes := { crSes with foreChannel := fore }
      match checkBackchannelAttrs crSes.backChannel with
      | .error status => ((s.charge fore).put crSes.foreChannel, status, crSes)
      | .ok back =>
        let crSes := { crSes with backChannel := back }
        if sessionAllocated s env fore then createForClient (s.charge fore) env crSes
        else ((s.charge fore).put crSes.foreChannel, .jukebox, crSes)

/-! ## Runs -/

inductive DrcEvent
  | exchangeId (name : Nat)
  | create (env : SessionEnv) (crSes : CreateSessionArgs)
  | destroySession (sessionid : Nat)
  | expireClient (clientid : Nat)
deriving DecidableEq

def freeSession (s : DrcState) (sessionid : Nat) : DrcState :=
  match s.sessions.find? fun ses => ses.sessionid = sessionid with
  | none => s
  | some ses => { s.put ses.seFchannel with sessions := Keyed.erase Nfsd4Session.sessionid sessionid s.sessions }

def drcStep (s : DrcState) : DrcEvent → DrcState
  | .exchangeId name =>
    { s with clients := { clientid := s.nextClient, name := name } :: s.clients, nextClient := s.nextClient + 1 }
  | .create env crSes => (nfsd4CreateSession s env crSes).1
  | .destroySession sessionid => freeSession s sessionid
  | .expireClient clientid => s.expireClient clientid

/-! ## What CREATE_SESSION does -/

/-- The call is a retransmission, answered from the slot of `conf`; it has been charged for `fore`. -/
structure Replays (s : DrcState) (env : SessionEnv) (crSes : CreateSessionArgs) (conf : SessionClient) (fore : ChannelAttrs) :
    Prop where
  flags : crSes.flags &&& ~~~ 7#32 = 0
  cbSec : crSes.cbSecFlavor = 0 ∨ crSes.cbSecFlavor = 1
  channels : checkForechannelAttrs s env crSes.foreChannel = .ok fore ∧
    ∃ back, checkBackchannelAttrs crSes.backChannel = .ok back
  mem : sessionAllocated s env fore
  found : s.findConfirmed crSes.clientid = some conf
  creds : env.machCreds = true
  seqid : crSes.seqid = conf.csSlot.slSeqid

/-- The attributes a session can have. -/
structure Clamped (ca : ChannelAttrs) : Prop where
  cached : ca.maxrespCached.toNat ≤ 2128
  reqs : ca.maxreqs.toNat ≤ 160

section

variable {ca : ChannelAttrs}

theorem Clamped.slotBytes_le (h : Clamped ca) : (slotBytes ca).toNat ≤ 2120 := by
  have hcached := h.cached
  unfold slotBytes
  split_ifs with hge
  · decide
  have hsub : (ca.maxrespCached - minHdrSeqSz).toNat = ca.maxrespCached.toNat - 80 :=
    BitVec.toNat_sub_of_le (BitVec.not_lt.1 hge)
  rw [toNat_add, hsub, show sizeofSlot.toNat = 72 from rfl]
  omega

theorem Clamped.drcCharge_le (h : Clamped ca) : drcCharge ca ≤ 2120 * 160 := Nat.mul_le_mul h.slotBytes_le h.reqs

theorem Clamped.chargeWord_eq (h : Clamped ca) : chargeWord ca = BitVec.ofNat 64 (drcCharge ca) := by
  have hle := h.drcCharge_le
  apply eq_of_toNat_eq
  simp only [chargeWord, truncate_eq_setWidth, toNat_setWidth, toNat_mul, toNat_ofNat]
  unfold drcCharge at hle ⊢
  omega

theorem checkForechannelAttrs_clamped {s : DrcState} {env : SessionEnv} {fore : ChannelAttrs}
    (h : checkForechannelAttrs s env ca = .ok fore) : Clamped fore := by
  unfold checkForechannelAttrs at h
  split at h
  · cases h
  cases h
  have hreqs : (clampAttrs env.maxMesg ca).maxreqs.toNat ≤ 160 := minU32_le_right _ _
  constructor
  · exact minU32_le_right _ _
  · refine Nat.le_trans (Nat.mod_le _ _) ?_
    dsimp only [drcSlots]
    omega

end

@[simp] theorem charge_put (s : DrcState) (ca : ChannelAttrs) : (s.charge ca).put ca = s := by
  have hused : s.memUsed + chargeWord ca - chargeWord ca = s.memUsed := add_sub_cancel _ _
  simp [DrcState.charge, DrcState.put, hused]

section

variable {s : DrcState} {env : SessionEnv} {crSes : CreateSessionArgs}

/-- What the part under the lock does: the charge is returned; the call is a retransmission; or there is a new session,
perhaps in place of an older client. -/
theorem createForClient_cases (s : DrcState) (env : SessionEnv) (crSes : CreateSessionArgs) :
    (createForClient s env crSes).1 = s.put crSes.foreChannel ∨
      (∃ conf, s.findConfirmed crSes.clientid = some conf ∧ env.machCreds = true ∧ crSes.seqid = conf.csSlot.slSeqid) ∨
      ∃ conf, conf ∈ s.clients ∧ ((createForClient s env crSes).1 = (s.initSession conf crSes).1 ∨
        ∃ old, (createForClient s env crSes).1 = (s.initSession conf crSes).1.expireClient old) := by
  unfold createForClient
  split
  · rename_i conf hfound
    split_ifs with hcreds
    · exact .inl rfl
    split
    · exact .inr (.inr ⟨conf, mem_of_find?_eq_some hfound, .inl rfl⟩)
    · rename_i hseqid
      exact .inr (.inl ⟨conf, hfound, by simpa using hcreds, eq_of_checkSlotSeqid hseqid⟩)
    · exact .inl rfl
  split
  · exact .inl rfl
  rename_i unconf hfound
  have hmem : unconf ∈ s.clients := mem_of_find?_eq_some hfound
  split
  · exact .inl rfl
  split
  · exact .inl rfl
  split
  · exact .inl rfl
  split
  · exact .inr (.inr ⟨unconf, hmem, .inl rfl⟩)
  split
  · exact .inl rfl
  · exact .inr (.inr ⟨unconf, hmem, .inr ⟨_, rfl⟩⟩)

/-- A retransmission is refunded what the slot says, not what it was charged. -/
theorem Replays.result {conf : SessionClient} {fore : ChannelAttrs} (h : Replays s env crSes conf fore) :
    (nfsd4CreateSession s env crSes).1 = (s.charge fore).put conf.csSlot.slCrSes.foreChannel := by
  obtain ⟨hfore, back, hback⟩ := h.channels
  have hfound : (s.charge fore).findConfirmed crSes.clientid = some conf := h.found
  have hne : conf.csSlot.slSeqid ≠ conf.csSlot.slSeqid + 1 := by
    intro heq
    have := congrArg BitVec.toNat heq
    rw [toNat_add, show BitVec.toNat (1 : BitVec 32) = 1 from rfl] at this
    omega
  unfold nfsd4CreateSession
  rw [if_neg (not_not.2 h.flags), if_neg (not_not.2 h.cbSec)]
  simp only [hfore, hback, if_pos h.mem]
  simp [createForClient, hfound, h.creds, h.seqid, checkSlotSeqid]

/-- What a call does: nothing in the end; it replays; or it makes a session, perhaps in place of an older client. -/
theorem createSession_cases (s : DrcState) (env : SessionEnv) (crSes : CreateSessionArgs) :
    (nfsd4CreateSession s env crSes).1 = s ∨ (∃ conf fore, Replays s env crSes conf fore) ∨
      ∃ conf crSes', conf ∈ s.clients ∧ Clamped crSes'.foreChannel ∧ s.live + drcCharge crSes'.foreChannel < 2 ^ 64 ∧
        ((nfsd4CreateSession s env crSes).1 = ((s.charge crSes'.foreChannel).initSession conf crSes').1 ∨
          ∃ old, (nfsd4CreateSession s env crSes).1 = ((s.charge crSes'.foreChannel).initSession conf crSes').1.expireClient old) := by
  unfold nfsd4CreateSession
  split
  · exact .inl rfl
  rename_i hflags
  split
  · exact .inl rfl
  rename_i hsec
  split
  · exact .inl rfl
  rename_i fore hfore
  dsimp only
  split
  · exact .inl (charge_put s fore)
  rename_i back hback
  split_ifs with hmem
  · obtain ⟨crSes', hcr⟩ : ∃ crSes', crSes' = { crSes with foreChannel := fore, backChannel := back } := ⟨_, rfl⟩
    have hfore' : crSes'.foreChannel = fore := by rw [hcr]
    rw [← hcr]
    rcases createForClient_cases (s.charge fore) env crSes' with hput | ⟨conf, hfound, hcreds, hseqid⟩ | ⟨conf, hconf, hmade⟩
    · refine .inl (hput.trans ?_)
      rw [hfore']
      exact charge_put s fore
    · rw [hcr] at hfound hseqid
      exact .inr (.inl ⟨conf, fore, not_not.1 hflags, not_not.1 hsec, ⟨hfore, back, hback⟩, hmem, hfound, hcreds, hseqid⟩)
    refine .inr (.inr ⟨conf, crSes', hconf, ?_⟩)
    rw [hfore']
    exact ⟨checkForechannelAttrs_clamped hfore, hmem.2.1, hmade⟩
  · exact .inl (charge_put s fore)

end

/-! ## The invariant of runs -/

/-- What every run keeps, right or wrong as the charge may be. -/
structure DrcInv (s : DrcState) : Prop where
  ids : (s.sessions.map Nfsd4Session.sessionid).Nodup
  fresh : ∀ ses ∈ s.sessions, ses.sessionid < s.nextSession
  sessions : ∀ ses ∈ s.sessions, Clamped ses.seFchannel
  slots : ∀ c ∈ s.clients, c.confirmed = true → Clamped c.csSlot.slCrSes.foreChannel
  live : s.live < 2 ^ 64

def MemExact (s : DrcState) : Prop := s.memUsed = BitVec.ofNat 64 s.live

theorem DrcInv.memExact_iff {s : DrcState} (h : DrcInv s) : MemExact s ↔ s.memUsed.toNat = s.live := by
  have hlive := h.live
  rw [MemExact, ← toNat_inj, toNat_ofNat, Nat.mod_eq_of_lt hlive]

section

variable {s : DrcState} {crSes : CreateSessionArgs} {conf : SessionClient}

theorem foldl_put_eq (l : List Nfsd4Session) (hl : ∀ ses ∈ l, Clamped ses.seFchannel) (used : BitVec 64) :
    l.foldl (fun used ses => used - chargeWord ses.seFchannel) used =
      used - BitVec.ofNat 64 (l.map fun ses => drcCharge ses.seFchannel).sum := by
  induction l generalizing used with
  | nil => simp
  | cons ses l ih =>
    have hcharge := (hl ses mem_cons_self).chargeWord_eq
    rw [foldl_cons, ih (fun ses hs => hl ses (mem_cons_of_mem _ hs)), hcharge]
    simp only [map_cons, sum_cons, ofNat_add]
    exact BitVec.sub_sub _ _ _

theorem DrcInv.expire (h : DrcInv s) (clientid : Nat) :
    DrcInv (s.expireClient clientid) ∧ (MemExact s → MemExact (s.expireClient clientid)) := by
  have hsum := Keyed.sum_filter_add (l := s.sessions) (fun ses => drcCharge ses.seFchannel) fun ses => ses.client = clientid
  have hlive : (s.expireClient clientid).live + _ = s.live := hsum
  constructor
  · refine ⟨h.ids.sublist (List.Sublist.map _ filter_sublist), fun ses hs => h.fresh ses (mem_of_mem_filter hs),
      fun ses hs => h.sessions ses (mem_of_mem_filter hs), fun c hc => h.slots c (mem_of_mem_filter hc), ?_⟩
    have := h.live
    omega
  · intro hexact
    have hfold := foldl_put_eq (s.sessions.filter fun ses => ses.client = clientid)
      (fun ses hs => h.sessions ses (mem_of_mem_filter hs)) s.memUsed
    show foldl _ s.memUsed _ = BitVec.ofNat 64 (s.expireClient clientid).live
    rw [hfold, hexact, ← hlive, ofNat_add]
    exact add_sub_cancel _ _

theorem DrcInv.init (h : DrcInv s) (hclamped : Clamped crSes.foreChannel)
    (hfits : s.live + drcCharge crSes.foreChannel < 2 ^ 64) :
    DrcInv ((s.charge crSes.foreChannel).initSession conf crSes).1 ∧
      (MemExact s → MemExact ((s.charge crSes.foreChannel).initSession conf crSes).1) := by
  have hlive : ((s.charge crSes.foreChannel).initSession conf crSes).1.live = drcCharge crSes.foreChannel + s.live := by
    simp [DrcState.initSession, DrcState.live, DrcState.charge]
  constructor
  · refine ⟨?_, ?_, ?_, ?_, by omega⟩
    · refine nodup_cons.2 ⟨fun hmem => ?_, h.ids⟩
      obtain ⟨ses, hs, heq⟩ := mem_map.1 hmem
      have hlt := h.fresh ses hs
      simp only [DrcState.charge] at heq
      omega
    · exact forall_mem_cons.2 ⟨Nat.lt_succ_self _, fun ses hs => Nat.lt_succ_of_lt (h.fresh ses hs)⟩
    · exact forall_mem_cons.2 ⟨hclamped, h.sessions⟩
    · intro c hc hconf
      rcases Keyed.mem_replace hc with rfl | ⟨hc, -⟩
      · exact hclamped
      · exact h.slots c hc hconf
  · intro hexact
    show s.memUsed + chargeWord crSes.foreChannel = BitVec.ofNat 64 _
    rw [hlive, hexact, hclamped.chargeWord_eq, ofNat_add]
    exact BitVec.add_comm _ _

theorem DrcInv.free (h : DrcInv s) (sessionid : Nat) :
    DrcInv (freeSession s sessionid) ∧ (MemExact s → MemExact (freeSession s sessionid)) := by
  unfold freeSession
  split
  · exact ⟨h, id⟩
  rename_i ses hfound
  have hmem : ses ∈ s.sessions := mem_of_find?_eq_some hfound
  have hid : ses.sessionid = sessionid := by simpa using find?_some hfound
  have hsum := Keyed.sum_erase (fun ses => drcCharge ses.seFchannel) h.ids hmem
  rw [hid] at hsum
  constructor
  · refine ⟨h.ids.sublist (List.Sublist.map _ filter_sublist), fun x hx => h.fresh x (Keyed.mem_erase.1 hx).1,
      fun x hx => h.sessions x (Keyed.mem_erase.1 hx).1, h.slots, ?_⟩
    exact Nat.lt_of_le_of_lt (Nat.le.intro hsum) h.live
  · intro hexact
    show s.memUsed - chargeWord ses.seFchannel = BitVec.ofNat 64 (map _ _).sum
    rw [hexact, DrcState.live, ← hsum, (h.sessions ses hmem).chargeWord_eq, ofNat_add]
    exact add_sub_cancel _ _

theorem Replays.inv {env : SessionEnv} {fore : ChannelAttrs} (hr : Replays s env crSes conf fore) (h : DrcInv s) :
    DrcInv (nfsd4CreateSession s env crSes).1 ∧
      (MemExact s → (MemExact (nfsd4CreateSession s env crSes).1 ↔ drcCharge conf.csSlot.slCrSes.foreChannel = drcCharge fore)) := by
  have hfore := checkForechannelAttrs_clamped hr.channels.1
  have hconf : conf.clientid = crSes.clientid ∧ conf.confirmed = true := by simpa using find?_some hr.found
  have hslot := h.slots conf (mem_of_find?_eq_some hr.found) hconf.2
  rw [hr.result]
  refine ⟨{ h with }, fun hexact => ?_⟩
  show s.memUsed + chargeWord fore - chargeWord conf.csSlot.slCrSes.foreChannel = BitVec.ofNat 64 s.live ↔ _
  rw [hexact, hfore.chargeWord_eq, hslot.chargeWord_eq]
  have hle := hfore.drcCharge_le
  have hle' := hslot.drcCharge_le
  constructor
  · intro heq
    have hnat := congrArg BitVec.toNat heq
    simp only [toNat_sub, toNat_add, toNat_ofNat] at hnat
    omega
  · intro heq
    rw [heq]
    exact add_sub_cancel _ _

end

/-- What a step must not be for the charge to stay right: a retransmission charged for something else than what the slot
it is answered from was charged for. -/
def RefundsCharge (s : DrcState) : DrcEvent → Prop
  | .create env crSes => ∀ conf fore, Replays s env crSes conf fore →
      drcCharge conf.csSlot.slCrSes.foreChannel = drcCharge fore
  | _ => True

/-- Every event keeps the invariant; the charge stays right just when the event refunds what it charged. -/
theorem DrcInv.step {s : DrcState} (h : DrcInv s) (e : DrcEvent) :
    DrcInv (drcStep s e) ∧ (MemExact s → (MemExact (drcStep s e) ↔ RefundsCharge s e)) := by
  cases e with
  | exchangeId name =>
    exact ⟨{ h with slots := forall_mem_cons.2 ⟨nofun, h.slots⟩ }, fun hexact => iff_of_true hexact trivial⟩
  | destroySession sessionid => exact (h.free sessionid).imp_right fun hfree hexact => iff_of_true (hfree hexact) trivial
  | expireClient clientid => exact (h.expire clientid).imp_right fun hexp hexact => iff_of_true (hexp hexact) trivial
  | create env crSes =>
    by_cases hreplays : ∃ conf fore, Replays s env crSes conf fore
    · obtain ⟨conf, fore, hr⟩ := hreplays
      obtain ⟨hinv, hiff⟩ := hr.inv h
      refine ⟨hinv, fun hexact => (hiff hexact).trans ⟨fun heq conf' fore' hr' => ?_, fun hall => hall conf fore hr⟩⟩
      -- a call replays one slot only, and is charged once
      cases hr.found.symm.trans hr'.found
      cases hr.channels.1.symm.trans hr'.channels.1
      exact heq
    have hrefunds : RefundsCharge s (.create env crSes) := fun conf fore hr => absurd ⟨conf, fore, hr⟩ hreplays
    have hkept : DrcInv (nfsd4CreateSession s env crSes).1 ∧ (MemExact s → MemExact (nfsd4CreateSession s env crSes).1) := by
      rcases createSession_cases s env crSes with hsame | hr | ⟨conf, crSes', hconf, hclamped, hfits, hmade | ⟨old, hmade⟩⟩
      · rw [hsame]
        exact ⟨h, id⟩
      · exact absurd hr hreplays
      · rw [hmade]
        exact h.init hclamped hfits
      obtain ⟨hinv, hexact⟩ := @DrcInv.init s crSes' conf h hclamped hfits
      rw [hmade]
      exact ⟨(hinv.expire old).1, fun hs => (hinv.expire old).2 (hexact hs)⟩
    exact hkept.imp_right fun hmem hexact => iff_of_true (hmem hexact) hrefunds

theorem drcInv_init (maxMem : Nat) : DrcInv { maxMem := maxMem } where
  ids := nodup_nil
  fresh _ hs := by cases hs
  sessions _ hs := by cases hs
  slots _ hc := by cases hc
  live := Nat.two_pow_pos 64

/-- **The memory of sessions**: `nfsd_drc_mem_used` is the sum over the live sessions in every state of a run just when no
step of the run refunds something else than it charged. -/
theorem drcMem_exact (maxMem : Nat) (events : List DrcEvent) :
    Always (fun s e => some (drcStep s e)) (fun s => s.memUsed.toNat = s.live) { maxMem := maxMem } events ↔
      EachStep (fun s e => some (drcStep s e)) RefundsCharge { maxMem := maxMem } events := by
  refine always_iff_eachStep (J := DrcInv) ?_ ?_ ?_ (drcInv_init maxMem) rfl
  · rintro s e t h ⟨⟩
    exact (h.step e).1
  · rintro s e t h hexact hrefunds ⟨⟩
    obtain ⟨hinv, hiff⟩ := h.step e
    exact hinv.memExact_iff.1 ((hiff (h.memExact_iff.2 hexact)).2 hrefunds)
  · rintro s e t h hexact hrefunds ⟨⟩ hstill
    obtain ⟨hinv, hiff⟩ := h.step e
    exact hrefunds ((hiff (h.memExact_iff.2 hexact)).1 (hinv.memExact_iff.2 hstill))

def sessionCall (seqid cached slots : BitVec 32) : CreateSessionArgs :=
  { clientid := 0
    seqid := seqid
    foreChannel := { maxreqSz := 4096, maxrespSz := 4096, maxrespCached := cached, maxops := 16, maxreqs := slots }
    backChannel := { maxreqSz := 4096, maxrespSz := 4096, maxrespCached := 0, maxops := 16, maxreqs := 1 } }

/-- A client makes a session of one slot without a cache, and sends the call again for a slot that caches 2048 bytes: it
is refunded 72 of 2120 bytes. The other way round it is refunded more than it was charged, and once the session is
destroyed the account is below zero. -/
theorem drcMem_wrong :
    (run (fun s e => some (drcStep s e)) { maxMem := 1048576 }
      [.exchangeId 1, .create {} (sessionCall 1 0 1), .create {} (sessionCall 1 2128 1)]).map
        (fun s => (s.memUsed.toNat, s.live)) = some (2120, 72) ∧
    (run (fun s e => some (drcStep s e)) { maxMem := 1048576 }
      [.exchangeId 1, .create {} (sessionCall 1 2128 1), .create {} (sessionCall 1 0 1), .destroySession 0]).map
        (fun s => (s.memUsed.toNat, s.live)) = some (2 ^ 64 - 2048, 0) := by
  decide

end Vastnfs.Nfsd
