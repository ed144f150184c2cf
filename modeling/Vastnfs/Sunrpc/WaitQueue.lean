import Mathlib.Data.List.Nodup
import Mathlib.Tactic.IntervalCases
import Vastnfs.Lib.Runs

/-!
# Tasks waiting on a priority queue

A priority wait queue of `net/sunrpc/sched.c` has a list of tasks for each priority, at most one of an owner; further tasks
of the owner wait behind it, on a ring. Priorities take turns, the higher ones with longer turns.

* `rpcAddWaitQueue`, `rpcRemoveWaitQueue`, `rpcFindNextQueuedPriority`: the functions.
* `WaitRings`: the ring of an owner is what waits of the owner, in the order of arrival.
* `waitQueue_serves`: every task is found once, owners and priorities take turns.
-/

namespace Vastnfs.Sunrpc

open Runs Function List Option

/-! ## The functions -/

def rpcPriorityPrivileged : Nat := 2

/-- `RPC_NR_PRIORITY`; a task list is found by its priority less `RPC_PRIORITY_LOW`, so the privileged one is the last. -/
def rpcNrPriority : Nat := 4

/-- `struct rpc_wait_queue` and the `u.tk_wait` of its tasks: `tasks p` are those linked by their `list` at priority `p`, and
`links t` those behind `t` on the ring through its `links`. The `list.prev` of a task that waits behind another one is
`NULL`; its `list.next` is then the priority of its list. -/
structure RpcWaitQueue where
  (tasks links : Nat → List Nat := fun _ => [])
  prevNull : Nat → Bool := fun _ => false
  next : Nat → Nat := fun _ => 0
  (maxpriority priority nr : Nat)
  qlen : UInt16 := 0

namespace RpcWaitQueue

def rpcSetWaitqueuePriority (q : RpcWaitQueue) (priority : Nat) : RpcWaitQueue :=
  if q.priority ≠ priority then { q with priority := priority, nr := 2 ^ priority } else q

def rpcResetWaitqueuePriority (q : RpcWaitQueue) : RpcWaitQueue := q.rpcSetWaitqueuePriority q.maxpriority

def rpcListEnqueueTask (owner : Nat → Nat) (q : RpcWaitQueue) (p task : Nat) : RpcWaitQueue :=
  match (q.tasks p).find? (owner · = owner task) with
  | some t =>
    { q with
      links := update q.links t (q.links t ++ [task])
      prevNull := update q.prevNull task true
      next := update q.next task p }
  | none =>
    { q with
      links := update q.links task []
      tasks := update q.tasks p (q.tasks p ++ [task])
      prevNull := update q.prevNull task false }

def rpcListDequeueTask (q : RpcWaitQueue) (task : Nat) : RpcWaitQueue :=
  if q.prevNull task then { q with links := fun h => (q.links h).erase task }
  else match q.links task with
    | [] => { q with tasks := fun p => (q.tasks p).erase task }
    | t :: ts =>
      { q with
        tasks := fun p => (update q.tasks (q.next t) (q.tasks (q.next t) ++ [t]) p).erase task
        links := update q.links t ts
        prevNull := update q.prevNull t false }

def rpcAddWaitQueue (owner : Nat → Nat) (q : RpcWaitQueue) (task priority : Nat) : RpcWaitQueue :=
  { rpcListEnqueueTask owner q (min priority q.maxpriority) task with qlen := q.qlen + 1 }

def rpcRemoveWaitQueue (q : RpcWaitQueue) (task : Nat) : RpcWaitQueue :=
  { q.rpcListDequeueTask task with qlen := q.qlen - 1 }

/-- The loop of `__rpc_find_next_queued_priority` over the next queues. -/
def nextQueue (q : RpcWaitQueue) : Nat → Nat → Option Nat
  | 0, _ => none
  | n + 1, p =>
    let p := if p = 0 then q.maxpriority else p - 1
    if q.tasks p ≠ [] then some p else if p = q.priority then none else q.nextQueue n p

/-- `__rpc_find_next_queued_priority`: the task, and the queue it leaves. -/
def rpcFindNextQueuedPriority (q : RpcWaitQueue) : Option Nat × RpcWaitQueue :=
  if q.maxpriority > rpcPriorityPrivileged ∧ q.tasks (rpcNrPriority - 1) ≠ [] then
    ((q.tasks (rpcNrPriority - 1)).head?, q)
  else if q.tasks q.priority ≠ [] ∧ q.nr ≠ 0 then ((q.tasks q.priority).head?, { q with nr := q.nr - 1 })
  else match q.nextQueue (q.maxpriority + 1) q.priority with
    | some p => ((q.tasks p).head?, q.rpcSetWaitqueuePriority p)
    | none => (none, q.rpcResetWaitqueuePriority)

def reached (q : RpcWaitQueue) : List Nat :=
  (List.range rpcNrPriority).flatMap fun p => (q.tasks p).flatMap fun h => h :: q.links h

end RpcWaitQueue

open RpcWaitQueue

/-- What happens to a queue: a task is added, one is removed by itself (its timeout, a signal), or the next one is looked for
and, if the caller accepts it, woken. -/
inductive WaitEvent where
  | add (task priority : Nat)
  | remove (task : Nat)
  | wake (accept : Bool)
deriving DecidableEq

/-- A queue, with the tasks that wait and their priorities in the order of arrival. -/
structure WaitState where
  queue : RpcWaitQueue
  waiting : List (Nat × Nat) := []

namespace WaitState

variable (s : WaitState)

def next : Option Nat := s.queue.rpcFindNextQueuedPriority.1

/-- The queue once the next task has been looked for. -/
def looked : WaitState := { s with queue := s.queue.rpcFindNextQueuedPriority.2 }

def remove (task : Nat) : WaitState := ⟨s.queue.rpcRemoveWaitQueue task, s.waiting.filter (·.1 != task)⟩

def init : WaitState where
  queue := { maxpriority := rpcNrPriority - 1, priority := rpcNrPriority - 1, nr := 2 ^ (rpcNrPriority - 1) }

end WaitState

section

variable (owner : Nat → Nat)

def waitStep (s : WaitState) : WaitEvent → Option WaitState
  | .add task priority =>
    if task ∈ s.waiting.map Prod.fst then none
    else some ⟨rpcAddWaitQueue owner s.queue task priority, s.waiting ++ [(task, min priority s.queue.maxpriority)]⟩
  | .remove task => if task ∈ s.waiting.map Prod.fst then some (s.remove task) else none
  | .wake accept =>
    match s.next, accept with
    | some task, true => some (s.looked.remove task)
    | _, _ => some s.looked

/-- What waits of an owner at a priority, first come first. -/
def waitsOf (waiting : List (Nat × Nat)) (p o : Nat) : List Nat :=
  (waiting.filter fun w => w.2 = p ∧ owner w.1 = o).map Prod.fst

/-- A task on a list and those behind it are all that wait of their owner, and the others are marked. -/
structure WaitRings (tasks links : Nat → List Nat) (prevNull : Nat → Bool) (next : Nat → Nat) (waiting : List (Nat × Nat)) :
    Prop where
  once : (waiting.map Prod.fst).Nodup
  ring : ∀ p, ∀ h ∈ tasks p, h :: links h = waitsOf owner waiting p (owner h)
  heads : ∀ p, ((tasks p).map owner).Nodup
  found : ∀ w ∈ waiting, ∃ h ∈ tasks w.2, owner h = owner w.1
  behind : ∀ w ∈ waiting, w.1 ∉ tasks w.2 → prevNull w.1 = true ∧ next w.1 = w.2
  linked : ∀ p, ∀ h ∈ tasks p, prevNull h = false

structure WaitInv (s : WaitState) : Prop where
  rings : WaitRings owner s.queue.tasks s.queue.links s.queue.prevNull s.queue.next s.waiting
  qlen : s.queue.qlen = UInt16.ofNat s.waiting.length
  turn : s.queue.maxpriority + 1 = rpcNrPriority ∧ s.queue.priority < rpcNrPriority ∧ s.queue.nr ≤ 2 ^ s.queue.priority
  priorities : ∀ w ∈ s.waiting, w.2 < rpcNrPriority

end

/-! ## Lists and rings -/

section

variable {owner : Nat → Nat} {tasks links : Nat → List Nat} {prevNull : Nat → Bool} {next : Nat → Nat}
  {waiting : List (Nat × Nat)} {t t' p o : Nat}

theorem mem_waitsOf : t ∈ waitsOf owner waiting p o ↔ (t, p) ∈ waiting ∧ owner t = o := by
  simp only [waitsOf, List.mem_map, List.mem_filter, decide_eq_true_eq]
  grind

theorem waitsOf_add (t p p' o : Nat) : waitsOf owner (waiting ++ [(t, p)]) p' o =
    waitsOf owner waiting p' o ++ if p = p' ∧ owner t = o then [t] else [] := by
  simp only [waitsOf, filter_append, map_append]
  congr 1
  split <;> simp_all

theorem waitsOf_remove (t p o : Nat) :
    waitsOf owner (waiting.filter (·.1 != t)) p o = (waitsOf owner waiting p o).filter (· != t) := by
  simp only [waitsOf, List.filter_map, List.filter_filter]
  congr 2
  grind

namespace WaitRings

variable (h : WaitRings owner tasks links prevNull next waiting)
include h

theorem priority_eq {p' : Nat} (ht : (t, p) ∈ waiting) (ht' : (t, p') ∈ waiting) : p = p' :=
  congrArg Prod.snd (inj_on_of_nodup_map h.once ht ht' rfl)

theorem waits (ht : t ∈ tasks p) : (t, p) ∈ waiting :=
  (mem_waitsOf.1 (h.ring p t ht ▸ mem_cons_self)).1

theorem owner_inj (ht : t ∈ tasks p) (ht' : t' ∈ tasks p) (ho : owner t = owner t') : t = t' :=
  inj_on_of_nodup_map (h.heads p) ht ht' ho

theorem waitsOf_nodup : (waitsOf owner waiting p o).Nodup :=
  h.once.sublist (filter_sublist.map _)

theorem head_mem (ht : (waitsOf owner waiting p o).head? = some t) : t ∈ tasks p ∧ owner t = o := by
  obtain ⟨hmem, ho⟩ := mem_waitsOf.1 (mem_of_head? ht)
  obtain ⟨t', ht', howner⟩ := h.found _ hmem
  have hring := h.ring p t' ht'
  rw [howner, ho] at hring
  rw [← hring] at ht
  cases ht
  exact ⟨ht', ho⟩

theorem tasks_eq_nil_iff : tasks p = [] ↔ ∀ t, (t, p) ∉ waiting := by
  refine ⟨fun hnil t ht => ?_, fun hnone => eq_nil_iff_forall_not_mem.2 fun t ht => hnone t (h.waits ht)⟩
  obtain ⟨x, hx, -⟩ := h.found _ ht
  rw [hnil] at hx
  cases hx

section

variable (hnew : t ∉ waiting.map Prod.fst)
include hnew

omit h in
theorem ne_of_waits (ht' : (t', p) ∈ waiting) : t' ≠ t := fun heq => hnew (heq ▸ mem_map_of_mem ht')

omit h in
theorem once_add (honce : (waiting.map Prod.fst).Nodup) : ((waiting ++ [(t, p)]).map Prod.fst).Nodup := by
  rw [map_append]
  exact honce.append (nodup_singleton t) (disjoint_singleton.2 hnew)

theorem join (ht' : t' ∈ tasks p) (ho : owner t' = owner t) : WaitRings owner tasks (update links t' (links t' ++ [t]))
    (update prevNull t true) (update next t p) (waiting ++ [(t, p)]) where
  once := once_add hnew h.once
  ring p' x hx := by
    rw [waitsOf_add, ← h.ring p' x hx]
    by_cases heq : x = t'
    · subst heq
      rw [update_self, if_pos ⟨h.priority_eq (h.waits ht') (h.waits hx), ho.symm⟩]
      rfl
    rw [update_of_ne heq, if_neg, append_nil]
    rintro ⟨rfl, hox⟩
    exact heq (h.owner_inj hx ht' (hox.symm.trans ho.symm))
  heads := h.heads
  found := forall_mem_append.2 ⟨h.found, forall_mem_singleton.2 ⟨t', ht', ho⟩⟩
  behind := by
    refine forall_mem_append.2 ⟨fun w hw hout => ?_, forall_mem_singleton.2 fun _ => ⟨update_self .., update_self ..⟩⟩
    rw [update_of_ne (ne_of_waits hnew hw), update_of_ne (ne_of_waits hnew hw)]
    exact h.behind w hw hout
  linked p' x hx := by
    rw [update_of_ne (ne_of_waits hnew (h.waits hx))]
    exact h.linked p' x hx

theorem link (hnone : ∀ t' ∈ tasks p, owner t' ≠ owner t) : WaitRings owner (update tasks p (tasks p ++ [t]))
    (update links t []) (update prevNull t false) next (waiting ++ [(t, p)]) := by
  have hold {p' x : Nat} (hx : x ∈ tasks p') : x ≠ t := ne_of_waits hnew (h.waits hx)
  have htasks {p' x : Nat} : x ∈ update tasks p (tasks p ++ [t]) p' ↔ x ∈ tasks p' ∨ x = t ∧ p' = p := by
    by_cases hp : p' = p
    · subst hp
      simp
    · simp [hp]
  have hempty : waitsOf owner waiting p (owner t) = [] := by
    refine eq_nil_iff_forall_not_mem.2 fun x hx => ?_
    obtain ⟨hmem, ho⟩ := mem_waitsOf.1 hx
    obtain ⟨t', ht', howner⟩ := h.found _ hmem
    exact hnone t' ht' (howner.trans ho)
  refine ⟨once_add hnew h.once, fun p' x hx => ?_, fun p' => ?_, forall_mem_append.2 ⟨fun w hw => ?_, ?_⟩,
    forall_mem_append.2 ⟨fun w hw hout => ?_, ?_⟩, fun p' x hx => ?_⟩
  · rw [waitsOf_add]
    rcases htasks.1 hx with hx | ⟨rfl, rfl⟩
    · rw [update_of_ne (hold hx), ← h.ring p' x hx, if_neg, append_nil]
      rintro ⟨rfl, ho⟩
      exact hnone x hx ho.symm
    · rw [update_self, hempty, if_pos ⟨rfl, rfl⟩]
      rfl
  · by_cases hp : p' = p
    · subst hp
      rw [update_self, map_append]
      refine (h.heads p').append (nodup_singleton _) (disjoint_singleton.2 fun hmem => ?_)
      obtain ⟨t', ht', ho⟩ := mem_map.1 hmem
      exact hnone t' ht' ho
    · rw [update_of_ne hp]
      exact h.heads p'
  · obtain ⟨x, hx, ho⟩ := h.found w hw
    exact ⟨x, htasks.2 (.inl hx), ho⟩
  · exact forall_mem_singleton.2 ⟨t, htasks.2 (.inr ⟨rfl, rfl⟩), rfl⟩
  · rw [update_of_ne (ne_of_waits hnew hw)]
    exact h.behind w hw fun hx => hout (htasks.2 (.inl hx))
  · exact forall_mem_singleton.2 fun hout => absurd (htasks.2 (.inr ⟨rfl, rfl⟩)) hout
  · rcases htasks.1 hx with hx | ⟨rfl, -⟩
    · rw [update_of_ne (hold hx)]
      exact h.linked p' x hx
    · exact update_self ..

end

theorem once_remove : ((waiting.filter (·.1 != t)).map Prod.fst).Nodup :=
  h.once.sublist (filter_sublist.map _)

theorem leave (hnull : prevNull t = true) :
    WaitRings owner tasks (fun x => (links x).erase t) prevNull next (waiting.filter (·.1 != t)) where
  __ := h
  once := h.once_remove
  ring p' x hx := by
    have hne : x ≠ t := by
      rintro rfl
      exact absurd (hnull.symm.trans (h.linked p' x hx)) (by simp)
    rw [waitsOf_remove, ← h.ring p' x hx, ← List.Nodup.erase_eq_filter (h.ring p' x hx ▸ h.waitsOf_nodup),
      erase_cons_tail (by simpa using hne)]
  found w hw := h.found w (mem_filter.1 hw).1
  behind w hw := h.behind w (mem_filter.1 hw).1

theorem first (ht : t ∈ tasks p) (ht' : (links t).head? = some t') :
    (t', p) ∈ waiting ∧ owner t' = owner t ∧ t' ≠ t ∧ ∀ p', t' ∉ tasks p' := by
  have hring := h.ring p t ht
  have hmem : t' ∈ links t := mem_of_head? ht'
  have hnodup : (t :: links t).Nodup := hring ▸ h.waitsOf_nodup
  obtain ⟨hw, ho⟩ := mem_waitsOf.1 (hring ▸ mem_cons_of_mem t hmem)
  have hne : t' ≠ t := fun heq => (nodup_cons.1 hnodup).1 (heq ▸ hmem)
  refine ⟨hw, ho, hne, fun p' hp' => hne ?_⟩
  cases h.priority_eq hw (h.waits hp')
  exact h.owner_inj hp' ht ho

theorem unlink (ht : t ∈ tasks p) {tasks' links' : Nat → List Nat} {prevNull' : Nat → Bool}
    (htasks : tasks' = update tasks p ((tasks p).erase t ++ (links t).head?.toList))
    (hlinks : ∀ x, links' x = if (links t).head? = some x then (links t).tail else links x)
    (hprev : ∀ x, prevNull' x = if (links t).head? = some x then false else prevNull x) :
    WaitRings owner tasks' links' prevNull' next (waiting.filter (·.1 != t)) := by
  have hring := h.ring p t ht
  have hnodup : (t :: links t).Nodup := hring ▸ h.waitsOf_nodup
  have hmem {p' x : Nat} : x ∈ tasks' p' ↔ x ∈ tasks p' ∧ x ≠ t ∨ p' = p ∧ (links t).head? = some x := by
    rw [htasks]
    by_cases hp : p' = p
    · subst hp
      simp [(h.heads p').of_map.mem_erase_iff, and_comm]
    have hne (hx : x ∈ tasks p') : x ≠ t := fun heq => hp (h.priority_eq (h.waits hx) (heq ▸ h.waits ht))
    simp only [update_of_ne hp, hp, false_and, or_false]
    exact ⟨fun hx => ⟨hx, hne hx⟩, And.left⟩
  refine ⟨h.once_remove, fun p' x hx => ?_, fun p' => ?_, fun w hw => ?_, fun w hw hout => ?_, fun p' x hx => ?_⟩
  · rw [waitsOf_remove, hlinks]
    rcases hmem.1 hx with ⟨hx, hne⟩ | ⟨rfl, hx⟩
    · rw [if_neg fun hx' => (h.first ht hx').2.2.2 p' hx, ← h.ring p' x hx, filter_eq_self.2 fun y hy => ?_]
      rw [bne_iff_ne]
      rintro rfl
      obtain ⟨hw, ho⟩ := mem_waitsOf.1 (h.ring p' x hx ▸ hy)
      cases h.priority_eq hw (h.waits ht)
      exact hne (h.owner_inj ht hx ho).symm
    rw [if_pos hx, (h.first ht hx).2.1, ← hring, filter_cons_of_neg (by simp), cons_head?_tail hx,
      filter_eq_self.2 fun y hy => ?_]
    rw [bne_iff_ne]
    exact fun heq => (nodup_cons.1 hnodup).1 (heq ▸ hy)
  · rw [htasks]
    by_cases hp : p' = p
    · subst hp
      rw [update_self, map_append]
      refine ((h.heads p').sublist (erase_sublist.map _)).append ?_ ?_
      · cases (links t).head? <;> simp
      · intro o ho hx
        obtain ⟨y, hy, rfl⟩ := mem_map.1 ho
        obtain ⟨x, hx, heq⟩ := mem_map.1 hx
        obtain ⟨hne, hy⟩ := (h.heads p').of_map.mem_erase_iff.1 hy
        exact hne (h.owner_inj hy ht (heq ▸ (h.first ht (mem_toList.1 hx)).2.1))
    · rw [update_of_ne hp]
      exact h.heads p'
  · obtain ⟨hmemw, hne⟩ := mem_filter.1 hw
    obtain ⟨x, hx, ho⟩ := h.found w hmemw
    by_cases heq : x = t
    · subst heq
      have hp : p = w.2 := h.priority_eq (h.waits ht) (h.waits hx)
      have hin : w.1 ∈ x :: links x := by
        rw [hring, hp]
        exact mem_waitsOf.2 ⟨hmemw, ho.symm⟩
      have hin : w.1 ∈ links x := (mem_cons.1 hin).resolve_left (by simpa using hne)
      obtain ⟨y, hy⟩ := isSome_iff_exists.1 (isSome_head?.2 (ne_nil_of_mem hin))
      exact ⟨y, hmem.2 (.inr ⟨hp.symm, hy⟩), (h.first ht hy).2.1.trans ho⟩
    · exact ⟨x, hmem.2 (.inl ⟨hx, heq⟩), ho⟩
  · obtain ⟨hw, hne⟩ := mem_filter.1 hw
    have hne : w.1 ≠ t := by simpa using hne
    rw [hprev, if_neg]
    · exact h.behind w hw fun hx => hout (hmem.2 (.inl ⟨hx, hne⟩))
    · exact fun hx => hout (hmem.2 (.inr ⟨h.priority_eq hw (h.first ht hx).1, hx⟩))
  · rw [hprev]
    rcases hmem.1 hx with ⟨hx, -⟩ | ⟨-, hx⟩
    · rw [if_neg fun hx' => (h.first ht hx').2.2.2 p' hx]
      exact h.linked p' x hx
    · rw [if_pos hx]

end WaitRings

end

/-! ## The steps -/

section

variable {owner : Nat → Nat} {s s' : WaitState} {q : RpcWaitQueue} {t p : Nat}

/-- **A task is taken out.**  Only its owner gets another place. -/
theorem WaitInv.remove (h : WaitInv owner s) (ht : t ∈ s.waiting.map Prod.fst) :
    WaitInv owner (s.remove t) ∧
      ∀ p, ∃ l, (s.remove t).queue.tasks p = (s.queue.tasks p).erase t ++ l ∧ ∀ x ∈ l, owner x = owner t := by
  obtain ⟨⟨t, p⟩, hw, rfl⟩ := mem_map.1 ht
  have hlen : s.waiting.length = (s.waiting.filter (·.1 != t)).length + 1 := by
    have hmap : (s.waiting.filter (·.1 != t)).map Prod.fst = (s.waiting.map Prod.fst).erase t := by
      rw [h.rings.once.erase_eq_filter, List.filter_map]
      rfl
    have := congrArg length hmap
    rw [length_map, length_erase_of_mem ht, length_map] at this
    have := length_pos_of_mem hw
    omega
  have hqlen : s.queue.qlen - 1 = UInt16.ofNat (s.waiting.filter (·.1 != t)).length := by
    rw [h.qlen, hlen]
    simp
  have hpriorities : ∀ w ∈ s.waiting.filter (·.1 != t), w.2 < rpcNrPriority :=
    fun w hw => h.priorities w (mem_filter.1 hw).1
  unfold WaitState.remove rpcRemoveWaitQueue rpcListDequeueTask
  cases hnull : s.queue.prevNull t with
  | true =>
    have hout (p' : Nat) : t ∉ s.queue.tasks p' := fun hx => by
      rw [h.rings.linked p' t hx] at hnull
      cases hnull
    exact ⟨⟨h.rings.leave hnull, hqlen, h.turn, hpriorities⟩, fun p' => ⟨[], by simp [erase_of_not_mem (hout p')], by simp⟩⟩
  | false =>
    have hin : t ∈ s.queue.tasks p := by
      by_contra hout
      rw [(h.rings.behind _ hw hout).1] at hnull
      cases hnull
    have hother {p' : Nat} (hp : p' ≠ p) : (s.queue.tasks p').erase t = s.queue.tasks p' :=
      erase_of_not_mem fun hx => hp (h.rings.priority_eq (h.rings.waits hx) hw)
    cases hlinks : s.queue.links t with
    | nil =>
      refine ⟨⟨h.rings.unlink hin ?_ (by simp [hlinks]) (by simp [hlinks]), hqlen, h.turn, hpriorities⟩,
        fun p' => ⟨[], by simp, by simp⟩⟩
      funext p'
      by_cases hp : p' = p
      · simp [hp, hlinks]
      · simp [hp, hother hp]
    | cons x ts =>
      obtain ⟨hx, ho, -, hout⟩ := h.rings.first hin (congrArg head? hlinks)
      have hnext : s.queue.next x = p := (h.rings.behind _ hx (hout p)).2
      simp only [hnext, Bool.false_eq_true, if_false]
      refine ⟨⟨h.rings.unlink hin ?_ (fun y => ?_) (fun y => ?_), hqlen, h.turn, hpriorities⟩, fun p' => ?_⟩
      · funext p'
        by_cases hp : p' = p
        · subst hp
          simp [hlinks, erase_append_left _ hin]
        · simp [hp, hother hp]
      · simp [hlinks, update_apply, eq_comm]
      · simp [hlinks, update_apply, eq_comm]
      · by_cases hp : p' = p
        · subst hp
          exact ⟨[x], by simp [erase_append_left _ hin], by simpa using ho⟩
        · exact ⟨[], by simp [hp], by simp⟩

/-- The order in which the lists get their turns after `p`. -/
def turnsFrom (p : Nat) : List Nat := (List.range rpcNrPriority).map fun i => (p + (rpcNrPriority - 1) - i) % rpcNrPriority

/-- How many wake-ups can pass before the turn of `l` comes. -/
def turnsBefore (p nr l : Nat) : Nat := nr + (((turnsFrom p).takeWhile (· ≠ l)).map fun p' => 1 + 2 ^ p').sum

theorem turnsBefore_next : ∀ p < rpcNrPriority, ∀ l < rpcNrPriority, ∀ p' ∈ (turnsFrom p).takeWhile (· ≠ l),
    turnsBefore p' (2 ^ p') l < turnsBefore p 0 l := by decide

theorem turnsBefore_le : ∀ p < rpcNrPriority, ∀ l < rpcNrPriority, turnsBefore p (2 ^ p) l ≤ 18 := by decide

theorem mem_turnsFrom : ∀ p < rpcNrPriority, ∀ l < rpcNrPriority, l ∈ turnsFrom p := by decide

theorem mem_takeWhile_of_find? {P : Nat → Bool} {x y : Nat} {l : List Nat} (hx : l.find? P = some x) (hy : y ∈ l)
    (hPy : P y = true) (hne : x ≠ y) : x ∈ l.takeWhile (· ≠ y) := by
  induction l with
  | nil => cases hy
  | cons a l ih => grind [takeWhile_cons]

theorem nextQueue_eq (hmax : q.maxpriority + 1 = rpcNrPriority) (hp : q.priority < rpcNrPriority) :
    q.nextQueue (q.maxpriority + 1) q.priority = (turnsFrom q.priority).find? (q.tasks · ≠ []) := by
  have hmax' : q.maxpriority = 3 := Nat.succ_injective hmax
  generalize hpr : q.priority = p at *
  rw [rpcNrPriority] at hp
  interval_cases p <;> simp [nextQueue, turnsFrom, rpcNrPriority, hmax', hpr, range_succ, find?] <;> grind

theorem setWaitqueuePriority_eq (hnr : q.nr ≤ 2 ^ q.priority) (p : Nat) :
    ∃ nr, q.rpcSetWaitqueuePriority p = { q with priority := p, nr := nr } ∧ nr ≤ 2 ^ p := by
  unfold rpcSetWaitqueuePriority
  split
  · exact ⟨_, rfl, le_rfl⟩
  · next heq => exact ⟨q.nr, by rw [← not_not.1 heq], not_not.1 heq ▸ hnr⟩

/-- **The next task** is the first of a list, and the turns of the other lists come nearer. -/
theorem WaitInv.look (h : WaitInv owner s) : WaitInv owner s.looked ∧ s.looked.queue.tasks = s.queue.tasks ∧
    (s.next = none ∧ s.waiting = [] ∨ ∃ t p, s.next = some t ∧ (s.queue.tasks p).head? = some t ∧
      ∀ l, l ≠ p → (∀ t, (t, rpcNrPriority - 1) ∉ s.waiting) → (∃ x, (x, l) ∈ s.waiting) →
        turnsBefore s.looked.queue.priority s.looked.queue.nr l < turnsBefore s.queue.priority s.queue.nr l) := by
  obtain ⟨hrings, hqlen, ⟨hmax, hp, hnr⟩, hpriorities⟩ := h
  have hhead {p : Nat} (hne : s.queue.tasks p ≠ []) : ∃ t, (s.queue.tasks p).head? = some t :=
    isSome_iff_exists.1 (isSome_head?.2 hne)
  unfold WaitState.next WaitState.looked rpcFindNextQueuedPriority
  split
  · next hpriv =>
    obtain ⟨t, ht⟩ := hhead hpriv.2
    exact ⟨⟨hrings, hqlen, ⟨hmax, hp, hnr⟩, hpriorities⟩, rfl, .inr ⟨t, _, ht, ht, fun l _ hnone _ =>
      absurd (hrings.tasks_eq_nil_iff.2 hnone) hpriv.2⟩⟩
  split
  · next hturn =>
    obtain ⟨t, ht⟩ := hhead hturn.1
    refine ⟨⟨hrings, hqlen, ⟨hmax, hp, by dsimp only; omega⟩, hpriorities⟩, rfl, .inr ⟨t, _, ht, ht, fun l _ _ _ => ?_⟩⟩
    unfold turnsBefore
    dsimp only
    omega
  rw [nextQueue_eq hmax hp]
  cases hfind : (turnsFrom s.queue.priority).find? (s.queue.tasks · ≠ []) with
  | none =>
    obtain ⟨nr, hq, hnr⟩ := setWaitqueuePriority_eq hnr s.queue.maxpriority
    dsimp only [rpcResetWaitqueuePriority]
    rw [hq]
    refine ⟨⟨hrings, hqlen, ⟨hmax, hmax.le, hnr⟩, hpriorities⟩, rfl, .inl ⟨rfl, ?_⟩⟩
    refine eq_nil_iff_forall_not_mem.2 fun w hw => ?_
    have hnil := find?_eq_none.1 hfind w.2 (mem_turnsFrom _ hp _ (hpriorities w hw))
    exact hrings.tasks_eq_nil_iff.1 (by simpa using hnil) w.1 hw
  | some p =>
    obtain ⟨t, ht⟩ := hhead (p := p) (by simpa using find?_some hfind)
    obtain ⟨nr, hq, hnr⟩ := setWaitqueuePriority_eq hnr p
    dsimp only
    rw [hq]
    have hp' := hpriorities _ (hrings.waits (mem_of_head? ht))
    refine ⟨⟨hrings, hqlen, ⟨hmax, hp', hnr⟩, hpriorities⟩, rfl, .inr ⟨t, p, ht, ht, fun l hl _ ⟨x, hx⟩ => ?_⟩⟩
    have hne : s.queue.tasks l ≠ [] := fun hnil => hrings.tasks_eq_nil_iff.1 hnil x hx
    have hlt := turnsBefore_next _ hp l (hpriorities _ hx) p
      (mem_takeWhile_of_find? hfind (mem_turnsFrom _ hp l (hpriorities _ hx)) (by simpa using hne) hl.symm)
    unfold turnsBefore at hlt ⊢
    dsimp only
    omega

theorem WaitInv.of_next (h : WaitInv owner s) (ht : s.next = some t) :
    ∃ p, (t, p) ∈ s.waiting ∧ (s.queue.tasks p).head? = some t := by
  obtain ⟨-, -, ⟨hnone, -⟩ | ⟨t', p, ht', hhead, -⟩⟩ := h.look
  · cases ht.symm.trans hnone
  · cases ht.symm.trans ht'
    exact ⟨p, h.rings.waits (mem_of_head? hhead), hhead⟩

theorem WaitInv.head_eq (h : WaitInv owner s) (ht : s.next = some t) (hw : (t, p) ∈ s.waiting) :
    (s.queue.tasks p).head? = some t := by
  obtain ⟨p', hw', hhead⟩ := h.of_next ht
  cases h.rings.priority_eq hw hw'
  exact hhead

theorem waitStep_wake (ht : s.next = some t) : waitStep owner s (.wake true) = some (s.looked.remove t) := by
  simp [waitStep, ht]

theorem WaitInv.add (h : WaitInv owner s) (hnew : t ∉ s.waiting.map Prod.fst) (priority : Nat) :
    WaitInv owner ⟨rpcAddWaitQueue owner s.queue t priority, s.waiting ++ [(t, min priority s.queue.maxpriority)]⟩ ∧
      ∀ p, ∃ l, (rpcAddWaitQueue owner s.queue t priority).tasks p = s.queue.tasks p ++ l := by
  have hp : min priority s.queue.maxpriority < rpcNrPriority := by
    have := h.turn.1
    omega
  unfold rpcAddWaitQueue rpcListEnqueueTask
  generalize min priority s.queue.maxpriority = p at *
  have hqlen : s.queue.qlen + 1 = UInt16.ofNat (s.waiting ++ [(t, p)]).length := by
    rw [h.qlen, length_append, UInt16.ofNat_add]
    rfl
  have hpriorities : ∀ w ∈ s.waiting ++ [(t, p)], w.2 < rpcNrPriority :=
    forall_mem_append.2 ⟨h.priorities, forall_mem_singleton.2 hp⟩
  split
  · next t' hfind =>
    have ho : owner t' = owner t := by simpa using find?_some hfind
    exact ⟨⟨h.rings.join hnew (mem_of_find?_eq_some hfind) ho, hqlen, h.turn, hpriorities⟩, fun p' => ⟨[], by simp⟩⟩
  next hfind =>
  refine ⟨⟨h.rings.link hnew (by simpa using hfind), hqlen, h.turn, hpriorities⟩, fun p' => ?_⟩
  by_cases hp' : p' = p
  · exact ⟨[t], by simp [hp']⟩
  · exact ⟨[], by simp [hp']⟩

def TakesOut (t : Nat) (s : WaitState) (e : WaitEvent) : Prop :=
  e = .remove t ∨ e = .wake true ∧ s.next = some t

theorem turn_add : (rpcAddWaitQueue owner q t p).priority = q.priority ∧ (rpcAddWaitQueue owner q t p).nr = q.nr := by
  unfold rpcAddWaitQueue rpcListEnqueueTask
  split <;> exact ⟨rfl, rfl⟩

theorem turn_remove : (q.rpcRemoveWaitQueue t).priority = q.priority ∧ (q.rpcRemoveWaitQueue t).nr = q.nr := by
  unfold rpcRemoveWaitQueue rpcListDequeueTask
  split
  · exact ⟨rfl, rfl⟩
  · split <;> exact ⟨rfl, rfl⟩

theorem WaitInv.step (h : WaitInv owner s) {e : WaitEvent} (hs : waitStep owner s e = some s') :
    WaitInv owner s' ∧ ∀ p, (∃ l, s'.queue.tasks p = s.queue.tasks p ++ l) ∨
      ∃ t l, TakesOut t s e ∧ s'.queue.tasks p = (s.queue.tasks p).erase t ++ l := by
  cases e with
  | add task priority =>
    obtain ⟨hnew, ⟨⟩⟩ := ite_none_left_eq_some.1 hs
    obtain ⟨hinv, htasks⟩ := h.add hnew priority
    exact ⟨hinv, fun p => .inl (htasks p)⟩
  | remove task =>
    obtain ⟨hmem, rfl⟩ := of_guarded hs
    obtain ⟨hinv, htasks⟩ := h.remove hmem
    refine ⟨hinv, fun p => .inr ?_⟩
    obtain ⟨l, hl, -⟩ := htasks p
    exact ⟨task, l, .inl rfl, hl⟩
  | wake accept =>
    obtain ⟨hinv, htasks, -⟩ := h.look
    dsimp only [waitStep] at hs
    split at hs
    · next task ht =>
      cases hs
      obtain ⟨_, hw, -⟩ := h.of_next ht
      obtain ⟨hinv', hlists⟩ := hinv.remove (mem_map_of_mem hw)
      refine ⟨hinv', fun p => .inr ?_⟩
      obtain ⟨l, hl, -⟩ := hlists p
      exact ⟨task, l, .inr ⟨rfl, ht⟩, by rw [hl, htasks]⟩
    · cases hs
      exact ⟨hinv, fun p => .inl ⟨[], by rw [htasks, append_nil]⟩⟩

end

/-! ## What the queue promises -/

variable (owner : Nat → Nat) {p : Nat} {s' : WaitState} {e : WaitEvent}

/-- After a task of one owner has been woken, none of its tasks at this priority is woken before the first task of any other
owner there has left the queue. -/
def OwnersTakeTurns (s : WaitState) : Prop :=
  ∀ t p, s.next = some t → (t, p) ∈ s.waiting → ∀ s₁, waitStep owner s (.wake true) = some s₁ →
    ∀ o x, o ≠ owner t → (waitsOf owner s₁.waiting p o).head? = some x →
      ∀ es s₂, EachStep (waitStep owner) (fun s e => ¬ TakesOut x s e) s₁ es → run (waitStep owner) s₁ es = some s₂ →
        ∀ t₂, s₂.next = some t₂ → (t₂, p) ∈ s₂.waiting → owner t₂ ≠ owner t

/-- A priority is passed over: it has a task, no privileged task waits, and a wake-up is for another priority. -/
def PassesOver (p : Nat) (s : WaitState) (e : WaitEvent) : Prop :=
  (∃ t, (t, p) ∈ s.waiting) ∧ (∀ t, (t, rpcNrPriority - 1) ∉ s.waiting) ∧
    ∀ accept t, e = .wake accept → s.next = some t → (t, p) ∉ s.waiting

def WaitEvent.wakes : WaitEvent → Bool
  | .wake _ => true
  | _ => false

structure WaitServes (s : WaitState) : Prop where
  reached : s.queue.reached.Perm (s.waiting.map Prod.fst) ∧ (s.waiting.map Prod.fst).Nodup
  qlen : s.queue.qlen = UInt16.ofNat s.waiting.length
  none_iff : s.next = none ↔ s.waiting = []
  first : ∀ t, s.next = some t → ∃ p, (t, p) ∈ s.waiting ∧ (waitsOf owner s.waiting p (owner t)).head? = some t
  owners : OwnersTakeTurns owner s
  priorities : ∀ p < rpcNrPriority, ∀ es, EachStep (waitStep owner) (PassesOver p) s es →
    (run (waitStep owner) s es).isSome → es.countP WaitEvent.wakes ≤ 18

variable {owner} {s : WaitState}

theorem WaitInv.reached_perm (h : WaitInv owner s) : s.queue.reached.Perm (s.waiting.map Prod.fst) := by
  have hmem {p x t : Nat} (hx : x ∈ s.queue.tasks p) : t ∈ x :: s.queue.links x ↔ (t, p) ∈ s.waiting ∧ owner t = owner x := by
    rw [h.rings.ring p x hx, mem_waitsOf]
  refine (List.perm_ext_iff_of_nodup (List.nodup_flatMap.2 ⟨fun p _ => List.nodup_flatMap.2 ⟨fun x hx => ?_, ?_⟩, ?_⟩)
    h.rings.once).2 fun t => ?_
  · rw [h.rings.ring p x hx]
    exact h.rings.waitsOf_nodup
  · refine (List.pairwise_map.1 (h.rings.heads p)).imp_of_mem fun hx hy hne t ht ht' => hne ?_
    exact ((hmem hx).1 ht).2.symm.trans ((hmem hy).1 ht').2
  · refine List.nodup_range.imp fun hne t ht ht' => hne ?_
    obtain ⟨x, hx, ht⟩ := List.mem_flatMap.1 ht
    obtain ⟨y, hy, ht'⟩ := List.mem_flatMap.1 ht'
    exact h.rings.priority_eq ((hmem hx).1 ht).1 ((hmem hy).1 ht').1
  · simp only [List.mem_flatMap, List.mem_range, List.mem_map]
    constructor
    · rintro ⟨p, -, x, hx, ht⟩
      exact ⟨_, ((hmem hx).1 ht).1, rfl⟩
    · rintro ⟨⟨t, p⟩, hw, rfl⟩
      obtain ⟨x, hx, ho⟩ := h.rings.found _ hw
      exact ⟨p, h.priorities _ hw, x, hx, (hmem hx).2 ⟨hw, ho.symm⟩⟩

variable (owner) in
/-- A task stands on a list with nobody of the owner in front of it. -/
def InFront (p x o : Nat) (s : WaitState) : Prop :=
  ∃ xs ys, s.queue.tasks p = xs ++ x :: ys ∧ ∀ y ∈ xs, owner y ≠ o

section

variable (h : WaitInv owner s)
include h

theorem InFront.step {x o : Nat} (hf : InFront owner p x o s) (hkeep : ¬ TakesOut x s e)
    (hs : waitStep owner s e = some s') : InFront owner p x o s' := by
  obtain ⟨xs, ys, hxs, hfront⟩ := hf
  rcases (h.step hs).2 p with ⟨l, hl⟩ | ⟨t, l, ht, hl⟩
  · exact ⟨xs, ys ++ l, by simp [hl, hxs], hfront⟩
  have hne : x ≠ t := fun heq => hkeep (heq ▸ ht)
  rw [hxs, erase_append] at hl
  split at hl
  · exact ⟨xs.erase t, ys ++ l, by simp [hl], fun y hy => hfront y (mem_of_mem_erase hy)⟩
  · rw [erase_cons_tail (by simpa using hne)] at hl
    exact ⟨xs, ys.erase t ++ l, by simp [hl], hfront⟩

theorem WaitInv.ownersTakeTurns : OwnersTakeTurns owner s := by
  intro t p ht hw s₁ hs o x ho hx es s₂ hkeep hrun t₂ ht₂ hw₂
  obtain ⟨hinv, htasks, -⟩ := h.look
  obtain ⟨hinv₁, hlists⟩ := hinv.remove (mem_map_of_mem hw)
  cases (waitStep_wake ht).symm.trans hs
  obtain ⟨rest, hrest⟩ := head?_eq_some_iff.1 (h.head_eq ht hw)
  have hothers : ∀ y ∈ rest, owner y ≠ owner t := by
    have := h.rings.heads p
    rw [hrest, map_cons, nodup_cons] at this
    exact fun y hy heq => this.1 (heq ▸ mem_map_of_mem hy)
  obtain ⟨l, hl, hlo⟩ := hlists p
  rw [htasks, hrest, erase_cons_head] at hl
  obtain ⟨hxin, rfl⟩ := hinv₁.rings.head_mem hx
  rw [hl] at hxin
  obtain ⟨xs, ys, rfl⟩ := append_of_mem ((mem_append.1 hxin).resolve_right fun hxl => ho (hlo x hxl))
  have hfront : InFront owner p x (owner t) (s.looked.remove t) :=
    ⟨xs, ys ++ l, by simp [hl], fun y hy => hothers y (mem_append_left _ hy)⟩
  -- nobody of the owner gets in front of `x` before it leaves
  obtain ⟨hinv₂, xs, ys, htasks₂, hfront⟩ := run_of_always (always_of_eachStep
    (J := fun s => WaitInv owner s ∧ InFront owner p x (owner t) s) (fun h hk hs => ⟨(h.1.step hs).1, h.2.step h.1 hk hs⟩) id
    ⟨hinv₁, hfront⟩ hkeep) hrun
  have hhead := hinv₂.head_eq ht₂ hw₂
  rw [htasks₂] at hhead
  cases xs with
  | nil =>
    cases hhead
    exact ho
  | cons y xs =>
    cases hhead
    exact hfront _ mem_cons_self

theorem WaitInv.turn_step (hpass : PassesOver p s e) (hs : waitStep owner s e = some s') :
    turnsBefore s'.queue.priority s'.queue.nr p + (if e.wakes then 1 else 0) ≤
      turnsBefore s.queue.priority s.queue.nr p := by
  obtain ⟨⟨x, hx⟩, hpriv, hother⟩ := hpass
  cases e with
  | add task priority =>
    obtain ⟨-, ⟨⟩⟩ := ite_none_left_eq_some.1 hs
    rw [turn_add.1, turn_add.2]
    exact le_rfl
  | remove task =>
    obtain ⟨-, rfl⟩ := of_guarded hs
    rw [WaitState.remove, turn_remove.1, turn_remove.2]
    exact le_rfl
  | wake accept =>
    obtain ⟨-, -, ⟨-, hnil⟩ | ⟨t, p', ht, hhead, hturn⟩⟩ := h.look
    · rw [hnil] at hx
      cases hx
    have hne : p ≠ p' := fun heq => hother accept t rfl ht (heq ▸ h.rings.waits (mem_of_head? hhead))
    have hlt := hturn p hne hpriv ⟨x, hx⟩
    simp only [waitStep, ht] at hs
    cases accept with
    | false =>
      cases hs
      exact hlt
    | true =>
      cases hs
      rwa [WaitState.remove, turn_remove.1, turn_remove.2]

theorem WaitInv.turns {es : List WaitEvent} (hpass : EachStep (waitStep owner) (PassesOver p) s es)
    (hrun : (run (waitStep owner) s es).isSome) :
    es.countP WaitEvent.wakes ≤ turnsBefore s.queue.priority s.queue.nr p := by
  induction es generalizing s with
  | nil => exact Nat.zero_le _
  | cons e es ih =>
    obtain ⟨t, ht⟩ := isSome_iff_exists.1 hrun
    obtain ⟨s', hs, hrest⟩ := bind_eq_some_iff.1 ht
    have hle := h.turn_step (hpass s' hs).1 hs
    have := ih (h.step hs).1 (hpass s' hs).2 (by rw [hrest]; rfl)
    rw [countP_cons]
    omega

theorem WaitInv.serves : WaitServes owner s where
  reached := ⟨h.reached_perm, h.rings.once⟩
  qlen := h.qlen
  none_iff := by
    obtain ⟨-, -, ⟨hnone, hnil⟩ | ⟨t, p, ht, hhead, -⟩⟩ := h.look
    · simp [hnone, hnil]
    · simp [ht, ne_nil_of_mem (h.rings.waits (mem_of_head? hhead))]
  first t ht := by
    obtain ⟨p, hw, hhead⟩ := h.of_next ht
    exact ⟨p, hw, by rw [← h.rings.ring p t (mem_of_head? hhead)]; rfl⟩
  owners := h.ownersTakeTurns
  priorities p hp es hpass hrun := by
    refine (h.turns hpass hrun).trans (le_trans ?_ (turnsBefore_le _ h.turn.2.1 p hp))
    have := h.turn.2.2
    unfold turnsBefore
    omega

end

theorem waitInv_init : WaitInv owner WaitState.init where
  rings := by constructor <;> simp [WaitState.init]
  qlen := rfl
  turn := by decide
  priorities := by simp [WaitState.init]

/-- **A priority queue** leads to each waiting task once and counts them modulo 2 ^ 16; it has a next task unless it is empty,
the first of its owner at its priority; owners take turns, and so do priorities. -/
theorem waitQueue_serves (owner : Nat → Nat) (es : List WaitEvent) :
    Always (waitStep owner) (WaitServes owner) WaitState.init es :=
  always_imp (fun _ => WaitInv.serves) (always_of_invariant (fun _ _ _ h hs => (WaitInv.step h hs).1) waitInv_init)

theorem run_adds (owner : Nat → Nat) (n : Nat) : ∃ s,
    run (waitStep owner) .init ((range n).map (.add · 1)) = some s ∧ s.waiting.map Prod.fst = range n := by
  induction n with
  | zero => exact ⟨_, rfl, rfl⟩
  | succ n ih =>
    obtain ⟨s, hrun, hwaiting⟩ := ih
    have hfree : n ∉ s.waiting.map Prod.fst := by simp [hwaiting]
    refine ⟨⟨rpcAddWaitQueue owner s.queue n 1, s.waiting ++ [(n, min 1 s.queue.maxpriority)]⟩, ?_, ?_⟩
    · rw [range_succ, map_append, run_append, hrun, bind_some]
      exact bind_eq_some_iff.2 ⟨_, if_neg hfree, rfl⟩
    · rw [map_append, hwaiting, range_succ]
      rfl

/-- Two tasks of owner 1 are woken one after the other, with none of owner 0 between them: its first task timed out. And with
65536 tasks `qlen` is zero. -/
theorem owner_passed_over :
    (let es : List WaitEvent := [.add 0 1, .add 1 1, .add 2 1, .add 3 1, .add 4 1, .remove 0]
    let next (es : List WaitEvent) := (run (waitStep (· % 2)) .init es).map fun s =>
      (s.next, waitsOf (· % 2) s.waiting 1 0)
    next es = some (some 1, [2, 4]) ∧ next (es ++ [.wake true]) = some (some 2, [2, 4]) ∧
      next (es ++ [.wake true, .remove 2]) = some (some 3, [4])) ∧
    ∃ s, run (waitStep (· % 2)) .init ((range 65536).map (.add · 1)) = some s ∧ s.waiting.length = 65536 ∧ s.queue.qlen = 0 := by
  refine ⟨by decide, ?_⟩
  obtain ⟨s, hrun, hwaiting⟩ := run_adds (· % 2) 65536
  have hinv := run_invariant (fun _ _ _ h hs => (WaitInv.step h hs).1) waitInv_init hrun
  have hlength : s.waiting.length = 65536 := by
    rw [← length_map (f := Prod.fst), hwaiting, length_range]
  exact ⟨s, hrun, hlength, by rw [hinv.qlen, hlength]; rfl⟩

end Vastnfs.Sunrpc
