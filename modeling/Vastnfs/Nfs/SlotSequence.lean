import Mathlib.Algebra.Order.Ring.Int
import Vastnfs.Lib.Runs

/-!
# Sequence numbers of a session slot

One slot of the fore channel of an NFSv4.1 session and the slot of the server behind it. Calls take the slot in turn;
a request or its reply can be lost. The client counts what it sent, what was acknowledged and what it sends next
(`nfs41_sequence_process`, `nfs41_release_slot`, `nfs4_probe_sequence` in `fs/nfs/nfs4proc.c`).

* `slotStep_inv`: the three counters stay in order with the counter of the server.
* `lossFree_retries`: how often a call is refused once nothing is lost any more.
* `slot_resynchronises`: no call takes the answer of another one, and every call is executed.
-/

namespace Vastnfs.Nfs

open Runs List Option BitVec

/-! ## The slot of the client -/

/-- `struct nfs4_slot`: what the sequence numbers need of it. -/
structure Nfs4SeqSlot where
  (seqNr seqNrHighestSent seqNrLastAcked : BitVec 32)
  seqDone : Bool := false
  deriving DecidableEq

/-- A call that uses the slot: an operation, or a lone SEQUENCE. -/
inductive SlotCall where
  | op (id : Nat)
  | sequence
  deriving DecidableEq

/-- `sr_status`: the answer of the server, or 1 when there was none. -/
inductive SeqStatus where
  | ok | lost | misordered
  deriving DecidableEq

section

variable (slot : Nfs4SeqSlot)

def nfs4NewSlot (seqInit : BitVec 32) : Nfs4SeqSlot where
  seqNr := seqInit
  seqNrHighestSent := seqInit
  seqNrLastAcked := seqInit - 1

def nfs41ReleaseSlot : Nfs4SeqSlot :=
  { slot with seqNr := if slot.seqDone then slot.seqNr + 1 else slot.seqNr, seqDone := false }

def nfs4SlotSequenceRecordSent (seqnr : BitVec 32) : Nfs4SeqSlot :=
  if 0 < (seqnr - slot.seqNrHighestSent).toInt then { slot with seqNrHighestSent := seqnr } else slot

def nfs4SlotSequenceAcked (seqnr : BitVec 32) : Nfs4SeqSlot :=
  { nfs4SlotSequenceRecordSent slot seqnr with seqNrLastAcked := seqnr }

/-- `nfs41_sequence_done` after a call `c` that was sent: the slot, and who has it then. `probe` says whether
`nfs4_probe_sequence` can start its task, `restart` whether the call can be restarted. -/
def nfs41SequenceDone (c : SlotCall) (probe restart : Bool) : SeqStatus → Nfs4SeqSlot × Option SlotCall
  | .ok => (nfs41ReleaseSlot { nfs4SlotSequenceAcked slot slot.seqNr with seqDone := true }, none)
  | .lost => (nfs41ReleaseSlot { nfs4SlotSequenceRecordSent slot slot.seqNr with seqDone := true }, none)
  | .misordered =>
    let sent := nfs4SlotSequenceRecordSent slot slot.seqNr
    if 1 < (sent.seqNr - sent.seqNrLastAcked).toInt then
      let back := { sent with seqNr := sent.seqNr - 1 }
      match c with
      -- The slot goes to the probe, or is released when there is none.
      | .op _ => if probe then (back, some .sequence) else (nfs41ReleaseSlot back, none)
      | .sequence => (nfs41ReleaseSlot back, none)
    else
      let again := { sent with seqNr := sent.seqNrHighestSent }
      if restart then (again, some c) else (nfs41ReleaseSlot again, none)

end

/-! ## The slot of the server -/

/-- The last request executed, and the call whose answer is kept. -/
structure ServerSlot where
  last : BitVec 32 := 0
  cache : Option SlotCall := none
  deriving DecidableEq

inductive ServerReply where
  | executed
  | cached (d : SlotCall)
  | misordered
  deriving DecidableEq

/-- SEQUENCE: the next number is executed, the last one is answered from the cache. -/
def ServerSlot.serve (srv : ServerSlot) (seqid : BitVec 32) (c : SlotCall) : ServerSlot × ServerReply :=
  if seqid = srv.last + 1 then ({ last := seqid, cache := some c }, .executed)
  else if seqid = srv.last then
    match srv.cache with
    | some d => (srv, .cached d)
    | none => (srv, .misordered)
  else (srv, .misordered)

def ServerReply.status : ServerReply → SeqStatus
  | .executed | .cached _ => .ok
  | .misordered => .misordered

/-! ## The system -/

/-- Both slots, who has the one of the client, and the answers the calls got, the last one first. -/
structure SlotSystem where
  slot : Nfs4SeqSlot
  holder : Option SlotCall := none
  server : ServerSlot := {}
  log : List (SlotCall × ServerReply) := []
  deriving DecidableEq

inductive SlotFate where
  | unsent | requestLost | replyLost | answered
  deriving DecidableEq

inductive SlotEvent where
  | take (c : SlotCall)
  | exchange (fate : SlotFate) (probe restart : Bool)
  deriving DecidableEq

/-- One call takes the free slot, or the call that has it is through with an attempt. -/
def slotStep (s : SlotSystem) : SlotEvent → Option SlotSystem
  | .take c => if s.holder = none then some { s with holder := some c } else none
  | .exchange fate probe restart =>
    match s.holder with
    | none => none
    | some c =>
      let done := nfs41SequenceDone s.slot c probe restart
      let served := s.server.serve s.slot.seqNr c
      match fate with
      | .unsent => some { s with slot := nfs41ReleaseSlot s.slot, holder := none }
      | .requestLost => some { s with slot := (done .lost).1, holder := (done .lost).2 }
      | .replyLost => some { s with slot := (done .lost).1, holder := (done .lost).2, server := served.1 }
      | .answered => some
          { slot := (done served.2.status).1, holder := (done served.2.status).2, server := served.1, log := (c, served.2) :: s.log }

def slotInit : SlotSystem := { slot := nfs4NewSlot 1 }

/-- No call but a lone SEQUENCE got the answer of another call. -/
def SlotSystem.NoMix (s : SlotSystem) : Prop :=
  ∀ c d, (c, ServerReply.cached d) ∈ s.log → c = .sequence ∨ d = c

def SlotEvent.LossFree : SlotEvent → Prop
  | .take _ => True
  | .exchange fate _ _ => fate = .answered ∨ fate = .unsent

/-- How many numbers the client is ahead of the server. -/
def SlotSystem.ahead (s : SlotSystem) : Nat := (s.slot.seqNr - s.server.last - 1).toNat

/-- Fewer than `2 ^ 31 - 1` numbers were used since the last acknowledged one. -/
def SlotSystem.Recent (s : SlotSystem) : Prop := (s.slot.seqNr - s.slot.seqNrLastAcked).toNat < 2 ^ 31 - 1
deriving Decidable

/-! ## The counters -/

/-- The counters as numbers that do not wrap: last acknowledged, last executed, next to send. -/
structure SeqInv (s : SlotSystem) (acked last next : Nat) : Prop where
  acked_le : acked ≤ last
  last_lt : last < next
  near : next < acked + 2 ^ 31
  ackedEq : s.slot.seqNrLastAcked = BitVec.ofNat 32 acked
  lastEq : s.server.last = BitVec.ofNat 32 last
  nextEq : s.slot.seqNr = BitVec.ofNat 32 next
  notDone : s.slot.seqDone = false
  noMix : s.NoMix

section

variable {s t : SlotSystem} {acked last next a b : Nat} {c : SlotCall} {slot : Nfs4SeqSlot} {n : BitVec 32}
  {probe restart : Bool}

theorem toNat_ofNat_sub (h : a ≤ b) (hb : b < a + 2 ^ 32) : (BitVec.ofNat 32 b - BitVec.ofNat 32 a).toNat = b - a := by
  simp only [toNat_sub, toNat_ofNat]
  omega

theorem toInt_ofNat_sub (h : a ≤ b) (hb : b < a + 2 ^ 31) :
    (BitVec.ofNat 32 b - BitVec.ofNat 32 a).toInt = ((b - a : Nat) : Int) := by
  rw [toInt_eq_toNat_of_lt, toNat_ofNat_sub h (by omega)]
  rw [toNat_ofNat_sub h (by omega)]
  omega

theorem ofNat_eq_iff (h : a ≤ b) (hb : b < a + 2 ^ 31) : BitVec.ofNat 32 b = BitVec.ofNat 32 a ↔ b = a := by
  rw [← toNat_inj, toNat_ofNat, toNat_ofNat]
  omega

@[simp] theorem recordSent_seqNr : (nfs4SlotSequenceRecordSent slot n).seqNr = slot.seqNr := by
  unfold nfs4SlotSequenceRecordSent
  split <;> rfl

@[simp] theorem recordSent_lastAcked : (nfs4SlotSequenceRecordSent slot n).seqNrLastAcked = slot.seqNrLastAcked := by
  unfold nfs4SlotSequenceRecordSent
  split <;> rfl

@[simp] theorem recordSent_seqDone : (nfs4SlotSequenceRecordSent slot n).seqDone = slot.seqDone := by
  unfold nfs4SlotSequenceRecordSent
  split <;> rfl

section

variable (h : SeqInv s acked last next)
include h

theorem SeqInv.serve : s.server.serve s.slot.seqNr c =
    if next = last + 1 then ({ last := BitVec.ofNat 32 next, cache := some c }, .executed) else (s.server, .misordered) := by
  have hlast := h.last_lt
  have hnear := h.near
  have hacked := h.acked_le
  rw [ServerSlot.serve, h.nextEq, h.lastEq, show (1 : BitVec 32) = BitVec.ofNat 32 1 from rfl, ← ofNat_add]
  simp only [ofNat_eq_iff (show last + 1 ≤ next by omega) (by omega)]
  split
  · rfl
  rw [if_neg]
  rw [ofNat_eq_iff (Nat.le_of_lt hlast) (by omega)]
  omega

theorem SeqInv.lost (hrecent : s.Recent) {server : ServerSlot} {last' : Nat}
    (hle : acked ≤ last') (hlt : last' ≤ next) (hserver : server.last = BitVec.ofNat 32 last') :
    SeqInv { s with
      slot := (nfs41SequenceDone s.slot c probe restart .lost).1
      holder := (nfs41SequenceDone s.slot c probe restart .lost).2
      server := server } acked last' (next + 1) := by
  have hgap : next + 1 < acked + 2 ^ 31 := by
    rw [SlotSystem.Recent, h.nextEq, h.ackedEq, toNat_ofNat_sub (by have := h.acked_le; have := h.last_lt; omega)
      (by have := h.near; omega)] at hrecent
    omega
  refine ⟨hle, by omega, hgap, ?_, hserver, ?_, rfl, h.noMix⟩
  · simp [nfs41SequenceDone, nfs41ReleaseSlot, h.ackedEq]
  · simp [nfs41SequenceDone, nfs41ReleaseSlot, h.nextEq, ofNat_add]

theorem SeqInv.ahead_eq : s.ahead = next - last - 1 := by
  have hlast := h.last_lt
  have hnear := h.near
  have hacked := h.acked_le
  rw [SlotSystem.ahead, h.nextEq, h.lastEq, sub_sub, show (1 : BitVec 32) = BitVec.ofNat 32 1 from rfl,
    ← ofNat_add, toNat_ofNat_sub (by omega) (by omega)]
  omega

end

theorem noMix_cons {r : ServerReply} (h : s.NoMix) (hr : ∀ d, r ≠ .cached d) : SlotSystem.NoMix { s with log := (c, r) :: s.log } := by
  intro c' d hmem
  rcases mem_cons.1 hmem with heq | hmem
  · exact absurd (Prod.ext_iff.1 heq).2.symm (hr d)
  · exact h c' d hmem

/-- What the client makes of an answer. -/
def SlotSystem.answered (s : SlotSystem) (c : SlotCall) (probe restart : Bool) (server : ServerSlot) (r : ServerReply) :
    SlotSystem where
  slot := (nfs41SequenceDone s.slot c probe restart r.status).1
  holder := (nfs41SequenceDone s.slot c probe restart r.status).2
  server := server
  log := (c, r) :: s.log

variable (h : SeqInv s acked last next)
include h

theorem SeqInv.step_answered (hholder : s.holder = some c) :
    slotStep s (.exchange .answered probe restart) = some (if next = last + 1 then
      s.answered c probe restart { last := BitVec.ofNat 32 next, cache := some c } .executed
    else s.answered c probe restart s.server .misordered) := by
  rw [slotStep, hholder]
  dsimp only
  rw [h.serve]
  split <;> rfl

theorem SeqInv.executed :
    SeqInv (s.answered c probe restart { last := BitVec.ofNat 32 next, cache := some c } .executed) next next (next + 1) := by
  refine ⟨Nat.le_refl _, Nat.lt_succ_self _, by omega, ?_, rfl, ?_, rfl, noMix_cons (s := s) h.noMix nofun⟩
  · simp [SlotSystem.answered, ServerReply.status, nfs41SequenceDone, nfs41ReleaseSlot, nfs4SlotSequenceAcked, h.nextEq]
  · simp [SlotSystem.answered, ServerReply.status, nfs41SequenceDone, nfs41ReleaseSlot, nfs4SlotSequenceAcked, h.nextEq,
      ofNat_add]

theorem SeqInv.misordered (hnext : next ≠ last + 1) :
    SeqInv (s.answered c probe restart s.server .misordered) acked last (next - 1) := by
  have hlast := h.last_lt
  have hnear := h.near
  have hacked := h.acked_le
  have hback : 1 < (s.slot.seqNr - s.slot.seqNrLastAcked).toInt := by
    rw [h.nextEq, h.ackedEq, toInt_ofNat_sub (by omega) hnear]
    omega
  have hprev : s.slot.seqNr - 1#32 = BitVec.ofNat 32 (next - 1) := by
    have hsum : BitVec.ofNat 32 (next - 1) + 1#32 = s.slot.seqNr := by
      rw [h.nextEq, ← ofNat_add, Nat.sub_add_cancel (by omega)]
    rw [← hsum, add_sub_cancel]
  -- Whoever has the slot next, its counters are the same.
  have hslot : (nfs41SequenceDone s.slot c probe restart .misordered).1.seqNr = BitVec.ofNat 32 (next - 1) ∧
      (nfs41SequenceDone s.slot c probe restart .misordered).1.seqNrLastAcked = BitVec.ofNat 32 acked ∧
      (nfs41SequenceDone s.slot c probe restart .misordered).1.seqDone = false := by
    simp only [nfs41SequenceDone, recordSent_seqNr, recordSent_lastAcked, if_pos hback]
    cases c with
    | op id => cases probe <;> simp [nfs41ReleaseSlot, h.notDone, h.ackedEq, hprev]
    | sequence => simp [nfs41ReleaseSlot, h.notDone, h.ackedEq, hprev]
  exact ⟨hacked, by omega, by omega, hslot.2.1, h.lastEq, hslot.1, hslot.2.2, noMix_cons (s := s) h.noMix nofun⟩

end

/-! ## Runs -/

section

variable {s t : SlotSystem} {acked last next : Nat} {e : SlotEvent}

/-- A step that loses nothing answers at most one call, and each refusal brings the client nearer to the server. -/
theorem lossFree_step (h : SeqInv s acked last next) (he : e.LossFree) (hstep : slotStep s e = some t) :
    ∃ acked' last' next' new, SeqInv t acked' last' next' ∧ t.log = new ++ s.log ∧
      (∀ x ∈ new, x.2 = .executed ∨ x.2 = .misordered) ∧
      new.countP (·.2 = .misordered) + (next' - last' - 1) ≤ next - last - 1 := by
  cases e with
  | take c =>
    obtain ⟨-, rfl⟩ := of_guarded hstep
    exact ⟨acked, last, next, [], { h with }, rfl, nofun, by simp⟩
  | exchange fate probe restart =>
    dsimp only [slotStep] at hstep
    split at hstep
    · cases hstep
    rename_i c _
    rcases he with rfl | rfl
    · obtain rfl := Option.some.inj hstep
      rw [h.serve]
      split
      · exact ⟨next, next, next + 1, [_], h.executed, rfl, forall_mem_singleton.2 (.inl rfl), by simp⟩
      rename_i hnext
      refine ⟨acked, last, next - 1, [_], h.misordered hnext, rfl, forall_mem_singleton.2 (.inr rfl), ?_⟩
      have := h.last_lt
      simp
      omega
    obtain rfl := Option.some.inj hstep
    refine ⟨acked, last, next, [], ?_, rfl, nofun, by simp⟩
    refine { h with ackedEq := h.ackedEq, nextEq := ?_, notDone := rfl }
    simp [nfs41ReleaseSlot, h.notDone, h.nextEq]

/-- **Every step** keeps the counters in order, as long as the last acknowledged number is recent. -/
theorem slotStep_inv (h : SeqInv s acked last next) (hrecent : s.Recent) (hstep : slotStep s e = some t) :
    ∃ acked' last' next', SeqInv t acked' last' next' := by
  by_cases he : e.LossFree
  · obtain ⟨acked', last', next', new, hinv, -⟩ := lossFree_step h he hstep
    exact ⟨acked', last', next', hinv⟩
  cases e with
  | take c => exact absurd trivial he
  | exchange fate probe restart =>
    have hacked := h.acked_le
    have hlast := h.last_lt
    dsimp only [slotStep] at hstep
    split at hstep
    · cases hstep
    rename_i c _
    cases fate with
    | unsent => exact absurd (.inr rfl) he
    | answered => exact absurd (.inl rfl) he
    | requestLost =>
      obtain rfl := Option.some.inj hstep
      exact ⟨acked, last, next + 1, h.lost hrecent hacked (by omega) h.lastEq⟩
    | replyLost =>
      obtain rfl := Option.some.inj hstep
      rw [h.serve]
      split
      · exact ⟨acked, next, next + 1, h.lost hrecent (by omega) (Nat.le_refl _) rfl⟩
      · exact ⟨acked, last, next + 1, h.lost hrecent hacked (by omega) h.lastEq⟩

theorem slotInit_inv : SeqInv slotInit 0 0 1 :=
  ⟨Nat.le_refl _, Nat.zero_lt_one, by decide, rfl, rfl, rfl, rfl, nofun⟩

/-- **Refusals** in a run that loses nothing: at most as many as the client is ahead. -/
theorem lossFree_retries : ∀ {es : List SlotEvent} {s t : SlotSystem} {acked last next : Nat}, SeqInv s acked last next →
    (∀ e ∈ es, e.LossFree) → run slotStep s es = some t → ∃ new, t.log = new ++ s.log ∧
      (∀ x ∈ new, x.2 = .executed ∨ x.2 = .misordered) ∧ new.countP (·.2 = .misordered) ≤ next - last - 1 := by
  intro es
  induction es with
  | nil =>
    intro s t acked last next _ _ hrun
    cases hrun
    exact ⟨[], rfl, nofun, by simp⟩
  | cons e es ih =>
    intro s t acked last next h hes hrun
    obtain ⟨u, hu, hrest⟩ := bind_eq_some_iff.1 hrun
    obtain ⟨acked', last', next', new, hinv, hlog, hnew, hcount⟩ := lossFree_step h (hes e mem_cons_self) hu
    obtain ⟨new', hlog', hnew', hcount'⟩ := ih hinv (fun e he => hes e (mem_cons_of_mem _ he)) hrest
    refine ⟨new' ++ new, by rw [hlog', hlog, List.append_assoc], List.forall_mem_append.2 ⟨hnew', hnew⟩, ?_⟩
    rw [countP_append]
    omega

/-- Waiting for the slot, then for another call to be done with it. -/
def SlotSystem.turn (s : SlotSystem) (c : SlotCall) : Nat :=
  match s.holder with
  | none => 1
  | some d => if d = c then 0 else 2

/-- Once nothing is lost any more, a call can take the slot again and again until it is executed. -/
theorem executed_reachable (c : SlotCall) (h : ∃ acked last next, SeqInv s acked last next) :
    CanReach slotStep (fun _ e => e.LossFree) (fun t => ∃ rest, t.log = (c, .executed) :: rest) s := by
  refine canReach_of_rank (I := fun s => ∃ acked last next, SeqInv s acked last next)
    (fun s => 3 * s.ahead + s.turn c) ?_ h
  rintro s ⟨acked, last, next, hs⟩ -
  cases hholder : s.holder with
  | none =>
    refine ⟨.take c, { s with holder := some c }, trivial, ?_, .inr ⟨⟨acked, last, next, { hs with }⟩, ?_⟩⟩
    · rw [slotStep, if_pos hholder]
    · simp [SlotSystem.turn, SlotSystem.ahead, hholder]
  | some d =>
    have hahead := hs.ahead_eq
    have hlast := hs.last_lt
    by_cases hnext : next = last + 1
    · have hinv := @SeqInv.executed _ _ _ _ d true true hs
      refine ⟨.exchange .answered true true, _, .inl rfl, (hs.step_answered hholder).trans (by rw [if_pos hnext]), ?_⟩
      by_cases hd : d = c
      · exact .inl ⟨s.log, by rw [hd]; rfl⟩
      refine .inr ⟨⟨_, _, _, hinv⟩, ?_⟩
      rw [hinv.ahead_eq, hahead]
      simp [SlotSystem.turn, SlotSystem.answered, ServerReply.status, hholder, hd, nfs41SequenceDone]
    have hinv := @SeqInv.misordered _ _ _ _ d true true hs hnext
    refine ⟨.exchange .answered true true, _, .inl rfl, (hs.step_answered hholder).trans (by rw [if_neg hnext]),
      .inr ⟨⟨_, _, _, hinv⟩, ?_⟩⟩
    rw [hinv.ahead_eq, hahead]
    have hturn : ∀ t : SlotSystem, t.turn c ≤ 2 := by
      intro t
      rw [SlotSystem.turn]
      split
      · decide
      · split <;> decide
    have hlater := hturn (s.answered d true true s.server .misordered)
    omega

end

/-- **The slot finds its number again.**  As long as the last acknowledged number is recent, no call gets the answer of another
one. Once nothing is lost, calls are executed or refused, they are refused at most as often as the client is ahead, a call sent
more often than that was executed, and any call can get there. -/
theorem slot_resynchronises (es : List SlotEvent) (hes : EachStep slotStep (fun s _ => s.Recent) slotInit es) :
    Always slotStep SlotSystem.NoMix slotInit es ∧ ∀ s, run slotStep slotInit es = some s →
      (∀ es' t, (∀ e ∈ es', e.LossFree) → run slotStep s es' = some t → ∃ new, t.log = new ++ s.log ∧
        (∀ x ∈ new, x.2 = .executed ∨ x.2 = .misordered) ∧ new.countP (·.2 = .misordered) ≤ s.ahead ∧
        ∀ c, s.ahead < new.countP (·.1 = c) → (c, .executed) ∈ new) ∧
      ∀ c, CanReach slotStep (fun _ e => e.LossFree) (fun t => ∃ rest, t.log = (c, .executed) :: rest) s := by
  have halways : Always slotStep (fun s => ∃ acked last next, SeqInv s acked last next) slotInit es :=
    always_of_eachStep (fun ⟨_, _, _, h⟩ hrecent hstep => slotStep_inv h hrecent hstep) id ⟨0, 0, 1, slotInit_inv⟩ hes
  refine ⟨always_imp (fun s ⟨_, _, _, h⟩ => h.noMix) halways, fun s hs => ?_⟩
  obtain ⟨acked, last, next, h⟩ := run_of_always halways hs
  refine ⟨fun es' t hfree hrun => ?_, fun c => executed_reachable c ⟨acked, last, next, h⟩⟩
  obtain ⟨new, hlog, hnew, hcount⟩ := lossFree_retries h hfree hrun
  rw [← h.ahead_eq] at hcount
  refine ⟨new, hlog, hnew, hcount, fun c hc => ?_⟩
  by_contra hnot
  -- Otherwise all attempts of the call were refused.
  have hall : new.countP (·.1 = c) ≤ new.countP (·.2 = .misordered) := by
    apply countP_mono_left
    intro x hx hxc
    have hxc : x.1 = c := by simpa using hxc
    rcases hnew x hx with hexec | hmis
    · exact absurd (show (c, ServerReply.executed) ∈ new by rw [← hxc, ← hexec]; exact hx) hnot
    · simpa using hmis
  omega

theorem slot_resynchronises_lost : Always slotStep SlotSystem.NoMix slotInit
    [.take (.op 1), .exchange .requestLost true true, .take (.op 2), .exchange .answered true true] :=
  (slot_resynchronises _ (by decide)).1

/-! ## Slots that do not find their number -/

def lostCalls : Nat → List SlotEvent
  | 0 => []
  | n + 1 => .take (.op 0) :: .exchange .requestLost true true :: lostCalls n

variable {s t : SlotSystem} {c : SlotCall}

/-- A free slot that sent all numbers up to the next one. -/
structure Fresh (s : SlotSystem) : Prop where
  holder : s.holder = none
  notDone : s.slot.seqDone = false
  sent : s.slot.seqNrHighestSent = s.slot.seqNr ∨ s.slot.seqNrHighestSent = s.slot.seqNr - 1

theorem recordSent_highest {slot : Nfs4SeqSlot} (h : slot.seqNrHighestSent = slot.seqNr ∨ slot.seqNrHighestSent = slot.seqNr - 1) :
    (nfs4SlotSequenceRecordSent slot slot.seqNr).seqNrHighestSent = slot.seqNr := by
  rw [nfs4SlotSequenceRecordSent]
  rcases h with h | h
  · rw [h, BitVec.sub_self, if_neg (by decide), h]
  · rw [h, show slot.seqNr - (slot.seqNr - 1) = 1 by bv_omega, if_pos (by decide)]

theorem lostCalls_run : ∀ (n : Nat) (s : SlotSystem), Fresh s → ∃ t, run slotStep s (lostCalls n) = some t ∧ Fresh t ∧
    t.slot.seqNr = s.slot.seqNr + BitVec.ofNat 32 n ∧ t.slot.seqNrLastAcked = s.slot.seqNrLastAcked ∧ t.server = s.server ∧
      t.log = s.log := by
  intro n
  induction n with
  | zero =>
    intro s hs
    exact ⟨s, rfl, hs, by simp, rfl, rfl, rfl⟩
  | succ n ih =>
    intro s hs
    have hfresh : Fresh { s with
        slot := (nfs41SequenceDone s.slot (.op 0) true true .lost).1
        holder := (nfs41SequenceDone s.slot (.op 0) true true .lost).2 } := by
      refine ⟨rfl, rfl, .inr ?_⟩
      simp only [nfs41SequenceDone, nfs41ReleaseSlot, recordSent_highest hs.sent, recordSent_seqNr, if_true]
      bv_omega
    obtain ⟨t, hrun, ht, hseq, hacked, hframe⟩ := ih _ hfresh
    refine ⟨t, ?_, ht, ?_, ?_, hframe⟩
    · rw [lostCalls, run, slotStep, if_pos hs.holder]
      exact hrun
    · rw [hseq]
      simp only [nfs41SequenceDone, nfs41ReleaseSlot, recordSent_seqNr, if_true, ofNat_add]
      bv_omega
    · rw [hacked]
      simp [nfs41SequenceDone, nfs41ReleaseSlot]

/-- A call that is refused for a number the client does not step back from. -/
structure Stuck (s : SlotSystem) (c : SlotCall) : Prop where
  holder : s.holder = some c
  refused : s.server.serve s.slot.seqNr c = (s.server, .misordered)
  stays : ¬ 1 < (s.slot.seqNr - s.slot.seqNrLastAcked).toInt
  sent : s.slot.seqNrHighestSent = s.slot.seqNr ∨ s.slot.seqNrHighestSent = s.slot.seqNr - 1

theorem Stuck.run (h : Stuck s c) (hlog : (c, .executed) ∉ s.log) : ∀ k, ∃ t,
    run slotStep s (replicate k (.exchange .answered true true)) = some t ∧ (c, .executed) ∉ t.log := by
  intro k
  induction k generalizing s with
  | zero => exact ⟨s, rfl, hlog⟩
  | succ k ih =>
    have hsent := recordSent_highest h.sent
    have hdone : nfs41SequenceDone s.slot c true true .misordered =
        ({ nfs4SlotSequenceRecordSent s.slot s.slot.seqNr with seqNr := s.slot.seqNr }, some c) := by
      simp only [nfs41SequenceDone, recordSent_seqNr, recordSent_lastAcked, if_neg h.stays, if_true, hsent]
    have hstep : slotStep s (.exchange .answered true true) = some
        { slot := { nfs4SlotSequenceRecordSent s.slot s.slot.seqNr with seqNr := s.slot.seqNr }
          holder := some c
          server := s.server
          log := (c, .misordered) :: s.log } := by
      rw [slotStep, h.holder]
      dsimp only
      rw [h.refused]
      simp only [ServerReply.status, hdone]
    rw [List.replicate_succ, Runs.run, hstep]
    apply ih
    · exact ⟨rfl, h.refused, by simpa using h.stays, .inl hsent⟩
    exact not_mem_cons_of_ne_of_not_mem (by simp) hlog

/-- After `2 ^ 32 - 1` lost calls in a row a call gets the answer of another one; after `2 ^ 31` of them no call is ever executed;
neither is one on a slot that begins with number 0, as `nfs4_lookup_slot` makes them. -/
theorem slot_confused :
    (∃ s, run slotStep slotInit ([.take (.op 1), .exchange .answered true true] ++ lostCalls (2 ^ 32 - 1) ++
      [.take (.op 2), .exchange .answered true true]) = some s ∧ (.op 2, .cached (.op 1)) ∈ s.log) ∧
    (∃ s, run slotStep slotInit (lostCalls (2 ^ 31)) = some s ∧ ∀ k, ∃ t,
      run slotStep s (.take (.op 1) :: List.replicate k (.exchange .answered true true)) = some t ∧ (.op 1, .executed) ∉ t.log) ∧
    (∀ k, ∃ t, run slotStep { slot := nfs4NewSlot 0 } (.take (.op 1) :: List.replicate k (.exchange .answered true true)) = some t ∧
      (.op 1, .executed) ∉ t.log) := by
  refine ⟨?_, ?_, ?_⟩
  · obtain ⟨s, hs⟩ : ∃ s : SlotSystem, s = ⟨⟨2, 1, 1, false⟩, none, ⟨1, some (.op 1)⟩, [(.op 1, .executed)]⟩ := ⟨_, rfl⟩
    have hfirst : run slotStep slotInit [.take (.op 1), .exchange .answered true true] = some s := by
      rw [hs]
      decide
    obtain ⟨t, hrun, ht, hseq, -, hserver, -⟩ := lostCalls_run (2 ^ 32 - 1) s (by rw [hs]; exact ⟨rfl, rfl, .inr (by decide)⟩)
    have hserve : t.server.serve t.slot.seqNr (.op 2) = (t.server, .cached (.op 1)) := by
      rw [hserver, hseq, hs]
      decide
    rw [run_append, run_append, hfirst, bind_some, hrun, bind_some]
    refine ⟨{ slot := (nfs41SequenceDone t.slot (.op 2) true true .ok).1
              holder := none
              server := t.server
              log := (.op 2, .cached (.op 1)) :: t.log }, ?_, mem_cons_self⟩
    rw [run, slotStep, if_pos ht.holder, bind_some, run, slotStep]
    dsimp only
    rw [hserve]
    rfl
  · obtain ⟨t, hrun, ht, hseq, hacked, hserver, hlog⟩ := lostCalls_run (2 ^ 31) slotInit ⟨rfl, rfl, .inl rfl⟩
    refine ⟨t, hrun, fun k => ?_⟩
    rw [run, slotStep, if_pos ht.holder, bind_some]
    refine Stuck.run (s := { t with holder := some (.op 1) }) ⟨rfl, ?_, ?_, ht.sent⟩ ?_ k
    · rw [hserver, hseq]
      decide
    · rw [hseq, hacked]
      decide
    · intro hmem
      rw [show t.log = [] from hlog] at hmem
      cases hmem
  · intro k
    exact Stuck.run (s := { slot := nfs4NewSlot 0, holder := some (.op 1) }) ⟨rfl, by decide, by decide, .inl rfl⟩
      (by simp) k

end Vastnfs.Nfs
