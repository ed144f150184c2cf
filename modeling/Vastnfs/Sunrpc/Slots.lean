import Vastnfs.Sunrpc.Create
import Vastnfs.Lib.Runs
import Mathlib.Data.List.Nodup

/-!
# Request slots

`xprt_alloc_slot`, `xprt_free_slot` and the backlog queue of `net/sunrpc/xprt.c`. A transport has a
list of free slots and makes more of them, up to `max_reqs`; `xprt_dynamic_alloc_slot` gives up the
lock while it asks for memory.

* `slotStep_inv`: what every step keeps.
* `slots_conserved_iff`: slots are conserved, and their number stays between `min_reqs` and `max_reqs`,
  just when no request for memory fails while `num_reqs` is `min_reqs`.
* `slots_below_min`: a slot is freed while another one is asked for, which then fails.
-/

namespace Vastnfs.Sunrpc

open Runs List

/-! ## The functions -/

/-- A transport, as far as its slots go, and the tasks that use it. -/
structure SlotXprt where
  free : List Nat := []
  (numReqs maxReqs minReqs : Nat := 0)
  congested : Bool := false
  /-- The tasks that sleep on `backlog`. -/
  backlog : List Nat := []
  /-- `stat.max_slots`. -/
  maxSlots : Nat := 0
  /-- The tasks that have a `tk_rqstp`, with it. -/
  held : List (Nat × Nat) := []
  /-- The tasks that wait for memory in `xprt_dynamic_alloc_slot`, without the lock. -/
  allocating : List Nat := []
  /-- `tk_status`, where no error is 0. -/
  tkStatus : Nat → Option Errno := fun _ => none

/-- The slots are numbered. -/
def xprtAlloc (numPrealloc maxAlloc : Nat) : SlotXprt where
  free := (List.range numPrealloc).reverse
  maxReqs := if numPrealloc < maxAlloc then maxAlloc else numPrealloc
  minReqs := numPrealloc
  numReqs := numPrealloc

def SlotXprt.Idle (s : SlotXprt) (t : Nat) : Prop := t ∉ s.held.map Prod.fst ++ s.allocating ++ s.backlog
deriving Decidable

def SlotXprt.setStatus (s : SlotXprt) (t : Nat) (status : Option Errno) : Nat → Option Errno :=
  fun t' => if t' = t then status else s.tkStatus t'

def xprtAddBacklog (s : SlotXprt) (t : Nat) : SlotXprt := { s with congested := true, backlog := s.backlog ++ [t] }

/-- `out_init_req` of `xprt_alloc_slot`. -/
def initReq (s : SlotXprt) (t req : Nat) : SlotXprt :=
  { s with
    maxSlots := max s.maxSlots s.numReqs
    held := (t, req) :: s.held
    tkStatus := s.setStatus t none }

/-- `xprt_alloc_slot`, up to the point where `xprt_dynamic_alloc_slot` gives up the lock. -/
def xprtAllocSlot (s : SlotXprt) (t : Nat) : SlotXprt :=
  match s.free with
  | req :: free => initReq { s with free := free } t req
  | [] =>
    if s.maxReqs ≤ s.numReqs then { xprtAddBacklog s t with tkStatus := s.setStatus t (some .eagain) }
    else { s with numReqs := s.numReqs + 1, allocating := t :: s.allocating }

/-- The rest of `xprt_alloc_slot` when there is memory at `req`. -/
def allocGranted (s : SlotXprt) (t req : Nat) : SlotXprt := initReq { s with allocating := s.allocating.erase t } t req

/-- The rest of `xprt_alloc_slot` when there is no memory. -/
def allocFailed (s : SlotXprt) (t : Nat) : SlotXprt :=
  { s with
    numReqs := s.numReqs - 1
    allocating := s.allocating.erase t
    tkStatus := s.setStatus t (some .enomem) }

/-- `next` is the task on `backlog` that `rpc_wake_up_first` would choose. -/
def xprtFreeSlot (s : SlotXprt) (req next : Nat) : SlotXprt :=
  if s.backlog = [] then
    -- `xprt_dynamic_free_slot` gives the memory back
    if s.minReqs < s.numReqs then { s with congested := false, numReqs := s.numReqs - 1 }
    else { s with congested := false, free := req :: s.free }
  else { s with backlog := s.backlog.erase next, held := (next, req) :: s.held }

inductive SlotEvent where
  /-- A task calls `xprt_alloc_slot`. -/
  | alloc (t : Nat)
  /-- The memory a task waits for is there, or is not. -/
  | granted (t req : Nat)
  | failed (t : Nat)
  /-- A task gives back its slot. -/
  | release (t next : Nat)
  /-- A task is turned away by `xprt_throttle_congested`. -/
  | throttle (t : Nat)
  /-- A task is woken up without a slot, by a signal. -/
  | wake (t : Nat)
  deriving DecidableEq

/-- One step. A task that has or waits for a slot does not ask for another one, and memory that is in use
is not handed out. -/
def slotStep (s : SlotXprt) : SlotEvent → Option SlotXprt
  | .alloc t => if s.Idle t then some (xprtAllocSlot s t) else none
  | .granted t req =>
    if t ∈ s.allocating ∧ req ∉ s.free ++ s.held.map Prod.snd then some (allocGranted s t req) else none
  | .failed t => if t ∈ s.allocating then some (allocFailed s t) else none
  | .release t next =>
    match s.held.find? fun p => p.1 == t with
    | none => none
    | some p =>
      if s.backlog = [] ∨ next ∈ s.backlog then some (xprtFreeSlot { s with held := s.held.erase p } p.2 next) else none
  | .throttle t => if s.Idle t then some (if s.congested then xprtAddBacklog s t else s) else none
  | .wake t => if t ∈ s.backlog then some { s with backlog := s.backlog.erase t } else none

/-! ## What every step keeps -/

/-- **Conservation** but for the lower bound: every slot is free, held by one task or being asked for. -/
structure SlotInv (s : SlotXprt) : Prop where
  counted : s.numReqs = s.free.length + s.held.length + s.allocating.length
  slots : (s.free ++ s.held.map Prod.snd).Nodup
  tasks : (s.held.map Prod.fst ++ s.allocating ++ s.backlog).Nodup
  below : s.numReqs ≤ s.maxReqs
  scarce : s.congested = true → s.free = []
  waiting : s.backlog ≠ [] → s.congested = true

/-- **Conservation of slots.** -/
structure SlotsConserved (s : SlotXprt) : Prop where
  bounds : s.minReqs ≤ s.numReqs ∧ s.numReqs ≤ s.maxReqs
  counted : s.numReqs = s.free.length + s.held.length + s.allocating.length
  slots : (s.free ++ s.held.map Prod.snd).Nodup
  waiting : s.backlog ≠ [] → s.free = [] ∧ s.congested = true

section

variable {s s' : SlotXprt} {t req next : Nat} {e : SlotEvent}

theorem SlotInv.conserved_iff (hs : SlotInv s) : SlotsConserved s ↔ s.minReqs ≤ s.numReqs := by
  constructor
  · intro h
    exact h.bounds.1
  · intro h
    exact ⟨⟨h, hs.below⟩, hs.counted, hs.slots, fun hb => ⟨hs.scarce (hs.waiting hb), hs.waiting hb⟩⟩

theorem slotInv_alloc (numPrealloc maxAlloc : Nat) : SlotInv (xprtAlloc numPrealloc maxAlloc) := by
  refine ⟨by simp [xprtAlloc], by simpa [xprtAlloc] using nodup_reverse.2 nodup_range, nodup_nil, ?_, ?_, ?_⟩
  · simp only [xprtAlloc]
    split <;> omega
  · nofun
  · intro h
    exact absurd rfl h

theorem nodup_insert {α : Type*} {a : α} {xs ys : List α} (hnew : a ∉ xs ++ ys) (h : (xs ++ ys).Nodup) : (xs ++ a :: ys).Nodup :=
  perm_middle.nodup_iff.2 (nodup_cons.2 ⟨hnew, h⟩)

section

variable (hs : SlotInv s)
include hs

theorem allocSlot_inv (ht : s.Idle t) : SlotInv (xprtAllocSlot s t) := by
  unfold xprtAllocSlot
  obtain ⟨hcounted, hslots, htasks, hbelow, hscarce, hwaiting⟩ := hs
  cases hfree : s.free with
  | cons req free =>
    rw [hfree] at hcounted hslots hscarce
    refine ⟨?_, ?_, nodup_cons.2 ⟨ht, htasks⟩, hbelow, fun hc => absurd (hscarce hc) (by simp), hwaiting⟩
    · simp only [initReq, length_cons] at hcounted ⊢
      omega
    · exact perm_middle.nodup_iff.2 hslots
  | nil =>
    rw [hfree] at hcounted hslots
    dsimp only
    split
    · refine ⟨?_, ?_, ?_, hbelow, fun _ => hfree, fun _ => rfl⟩
      · simpa only [xprtAddBacklog, hfree] using hcounted
      · simpa only [xprtAddBacklog, hfree] using hslots
      · show (s.held.map Prod.fst ++ s.allocating ++ (s.backlog ++ [t])).Nodup
        rw [← append_assoc, ← concat_eq_append]
        exact List.Nodup.concat ht htasks
    refine ⟨?_, hslots, ?_, ?_, fun _ => rfl, hwaiting⟩
    · simp only [length_cons, length_nil] at hcounted ⊢
      omega
    · show (s.held.map Prod.fst ++ t :: s.allocating ++ s.backlog).Nodup
      unfold SlotXprt.Idle at ht
      rw [append_assoc] at ht htasks ⊢
      exact nodup_insert ht htasks
    · dsimp only
      omega

section

variable (ht : t ∈ s.allocating)
include ht

theorem tasks_allocating :
    t ∉ s.held.map Prod.fst ++ s.allocating.erase t ++ s.backlog ∧
      (s.held.map Prod.fst ++ s.allocating.erase t ++ s.backlog).Nodup := by
  have htasks := hs.tasks
  have hperm : (s.held.map Prod.fst ++ s.allocating).Perm (t :: (s.held.map Prod.fst ++ s.allocating.erase t)) :=
    ((perm_cons_erase ht).append_left _).trans perm_middle
  exact nodup_cons.1 ((hperm.append_right s.backlog).nodup_iff.1 htasks)

theorem allocGranted_inv (hreq : req ∉ s.free ++ s.held.map Prod.snd) :
    SlotInv (allocGranted s t req) := by
  have hlen := length_erase_of_mem ht
  have hpos := length_pos_of_mem ht
  have hcounted := hs.counted
  refine ⟨?_, nodup_insert hreq hs.slots, nodup_cons.2 (tasks_allocating hs ht), hs.below, hs.scarce, hs.waiting⟩
  simp only [allocGranted, initReq, length_cons, hlen]
  omega

theorem allocFailed_inv : SlotInv (allocFailed s t) := by
  have hlen := length_erase_of_mem ht
  have hpos := length_pos_of_mem ht
  have hcounted := hs.counted
  have hbelow := hs.below
  refine ⟨?_, hs.slots, (tasks_allocating hs ht).2, ?_, hs.scarce, hs.waiting⟩
  · simp only [allocFailed, hlen]
    omega
  · simp only [allocFailed]
    omega

end

theorem freeSlot_inv {p : Nat × Nat} (hp : p ∈ s.held) (hnext : s.backlog = [] ∨ next ∈ s.backlog) :
    SlotInv (xprtFreeSlot { s with held := s.held.erase p } p.2 next) := by
  obtain ⟨hcounted, hslots, htasks, hbelow, hscarce, hwaiting⟩ := hs
  have hlen := length_erase_of_mem hp
  have hpos := length_pos_of_mem hp
  have hperm := perm_cons_erase hp
  set slots := s.free ++ (s.held.erase p).map Prod.snd
  have hslots' : p.2 ∉ slots ∧ slots.Nodup := by
    have hmid : (s.free ++ s.held.map Prod.snd).Perm (p.2 :: slots) :=
      ((hperm.map Prod.snd).append_left s.free).trans perm_middle
    exact nodup_cons.1 (hmid.nodup_iff.1 hslots)
  set owners := (s.held.erase p).map Prod.fst ++ s.allocating
  have htasks' : (owners ++ s.backlog).Nodup := by
    have hmid : (s.held.map Prod.fst ++ s.allocating ++ s.backlog).Perm
        (p.1 :: (owners ++ s.backlog)) :=
      ((hperm.map Prod.fst).append_right s.allocating).append_right s.backlog
    exact (nodup_cons.1 (hmid.nodup_iff.1 htasks)).2
  unfold xprtFreeSlot
  split
  · have hnil : s.backlog = [] := ‹_›
    split
    · refine ⟨?_, hslots'.2, htasks', ?_, nofun, fun hb => absurd hnil hb⟩
      · simp only [hlen]
        omega
      · dsimp only
        omega
    · refine ⟨?_, nodup_cons.2 hslots', htasks', hbelow, nofun, fun hb => absurd hnil hb⟩
      simp only [length_cons, hlen]
      omega
  have hne : s.backlog ≠ [] := ‹_›
  have hmem := hnext.resolve_left hne
  refine ⟨?_, nodup_insert hslots'.1 hslots'.2, ?_, hbelow, hscarce, fun _ => hwaiting hne⟩
  · simp only [length_cons, hlen]
    omega
  · have hmid : (owners ++ s.backlog).Perm
        (next :: (owners ++ s.backlog.erase next)) :=
      ((perm_cons_erase hmem).append_left _).trans perm_middle
    exact hmid.nodup_iff.1 htasks'

theorem addBacklog_inv (ht : s.Idle t) (hc : s.congested = true) : SlotInv (xprtAddBacklog s t) := by
  refine ⟨hs.counted, hs.slots, ?_, hs.below, fun _ => hs.scarce hc, fun _ => rfl⟩
  show (s.held.map Prod.fst ++ s.allocating ++ (s.backlog ++ [t])).Nodup
  rw [← append_assoc, ← concat_eq_append]
  exact List.Nodup.concat ht hs.tasks

theorem slotStep_inv (h : slotStep s e = some s') : SlotInv s' := by
  cases e with
  | alloc t =>
    obtain ⟨ht, rfl⟩ := of_guarded h
    exact allocSlot_inv hs ht
  | granted t req =>
    obtain ⟨⟨ht, hreq⟩, rfl⟩ := of_guarded h
    exact allocGranted_inv hs ht hreq
  | failed t =>
    obtain ⟨ht, rfl⟩ := of_guarded h
    exact allocFailed_inv hs ht
  | release t next =>
    simp only [slotStep] at h
    split at h
    · cases h
    rename_i p hp
    obtain ⟨hnext, rfl⟩ := of_guarded h
    exact freeSlot_inv hs (mem_of_find?_eq_some hp) hnext
  | throttle t =>
    obtain ⟨ht, rfl⟩ := of_guarded h
    split
    · exact addBacklog_inv hs ht ‹_›
    · exact hs
  | wake t =>
    obtain ⟨ht, rfl⟩ := of_guarded h
    refine ⟨hs.counted, hs.slots, ?_, hs.below, hs.scarce, fun hb => hs.waiting fun hnil => hb (by simp [hnil])⟩
    exact hs.tasks.sublist ((erase_sublist).append_left _)

end

end

/-! ## Runs -/

/-- No request for memory fails while `num_reqs` is `min_reqs`. -/
def KeepsMinReqs (s : SlotXprt) : SlotEvent → Prop
  | .failed _ => s.minReqs < s.numReqs
  | _ => True

instance (s : SlotXprt) (e : SlotEvent) : Decidable (KeepsMinReqs s e) := by
  cases e <;> dsimp only [KeepsMinReqs] <;> infer_instance

section

variable {s s' : SlotXprt} {e : SlotEvent}

theorem slotStep_min (hmin : s.minReqs ≤ s.numReqs) (hkeep : KeepsMinReqs s e) (h : slotStep s e = some s') :
    s'.minReqs ≤ s'.numReqs := by
  cases e with
  | alloc t =>
    obtain ⟨-, rfl⟩ := of_guarded h
    unfold xprtAllocSlot
    split
    · exact hmin
    split
    · exact hmin
    · exact Nat.le_succ_of_le hmin
  | granted t req =>
    obtain ⟨-, rfl⟩ := of_guarded h
    exact hmin
  | failed t =>
    obtain ⟨-, rfl⟩ := of_guarded h
    exact Nat.le_sub_one_of_lt hkeep
  | release t next =>
    simp only [slotStep] at h
    split at h
    · cases h
    obtain ⟨-, rfl⟩ := of_guarded h
    unfold xprtFreeSlot
    split
    · split
      · exact Nat.le_sub_one_of_lt ‹_›
      · exact hmin
    · exact hmin
  | throttle t =>
    obtain ⟨-, rfl⟩ := of_guarded h
    split <;> exact hmin
  | wake t =>
    obtain ⟨-, rfl⟩ := of_guarded h
    exact hmin

theorem slotStep_below_min (hs : SlotInv s) (hmin : s.minReqs ≤ s.numReqs) (hmiss : ¬ KeepsMinReqs s e)
    (h : slotStep s e = some s') : s'.numReqs < s'.minReqs := by
  cases e with
  | failed t =>
    obtain ⟨ht, rfl⟩ := of_guarded h
    have hcounted := hs.counted
    have hpos := length_pos_of_mem ht
    simp only [KeepsMinReqs, allocFailed] at hmiss ⊢
    omega
  | alloc _ | granted _ _ | release _ _ | throttle _ | wake _ => exact absurd trivial hmiss

/-- **Slots are conserved** in every state of a run of a new transport, just when no request for memory fails
while `num_reqs` is `min_reqs`. -/
theorem slots_conserved_iff (numPrealloc maxAlloc : Nat) (es : List SlotEvent) :
    Always slotStep SlotsConserved (xprtAlloc numPrealloc maxAlloc) es ↔
      EachStep slotStep KeepsMinReqs (xprtAlloc numPrealloc maxAlloc) es := by
  have hinit := slotInv_alloc numPrealloc maxAlloc
  refine always_iff_eachStep (J := SlotInv) (fun s e t hs h => slotStep_inv hs h) ?_ ?_ hinit (hinit.conserved_iff.2 le_rfl)
  · intro s e t hs hP hC h
    exact (slotStep_inv hs h).conserved_iff.2 (slotStep_min hP.bounds.1 hC h)
  · intro s e t hs hP hC h hP'
    have hlt := slotStep_below_min hs hP.bounds.1 hC h
    have hle := hP'.bounds.1
    omega

end

/-- **No slot has two owners**, and nobody waits while a slot is free: in every run, whatever memory there is. -/
theorem slots_exclusive (numPrealloc maxAlloc : Nat) (es : List SlotEvent) :
    Always slotStep SlotInv (xprtAlloc numPrealloc maxAlloc) es :=
  always_of_invariant (fun _ _ _ hs h => slotStep_inv hs h) (slotInv_alloc ..)

/-- One slot, up to two: task 0 takes it, task 1 asks for another one and meanwhile task 0 gives its slot
back, which is destroyed because there are two. -/
def crossedRun : List SlotEvent := [.alloc 0, .alloc 1, .release 0 0, .failed 1]

/-- Then the request of task 1 fails, and no slot is left. -/
theorem slots_below_min :
    ¬ Always slotStep SlotsConserved (xprtAlloc 1 2) crossedRun ∧
      ∃ s, run slotStep (xprtAlloc 1 2) crossedRun = some s ∧ s.minReqs = 1 ∧ s.numReqs = 0 ∧ s.free = [] := by
  refine ⟨?_, _, rfl, rfl, rfl, rfl⟩
  intro h
  have hend := run_of_always h (rfl : run slotStep (xprtAlloc 1 2) crossedRun = some _)
  exact absurd hend.bounds.1 (by decide)

end Vastnfs.Sunrpc
