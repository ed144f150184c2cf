import Vastnfs.Lib.Rings
import Vastnfs.Lib.Runs

/-!
# The transmit queue

`xprt_request_enqueue_transmit` and `xprt_request_dequeue_transmit_locked` of
`net/sunrpc/xprt.c`. A transport has a list of requests that are to be sent, linked by their
`rq_xmit`; further requests of the same owner wait behind one of them, linked by their `rq_xmit2`.

* `Holds`: the queue as a list of groups, each a head and those that wait behind it.
* `enqueue_holds`, `dequeue_holds`: what the operations do to the groups.
* `Holds.groupsOf_eq`: the groups are what the pointers lead to.
-/

namespace Vastnfs.Sunrpc

open Rings Runs List Option

/-! ## The functions -/

/-- The `struct list_head`s of the queue. -/
inductive XmitNode where
  | xmitQueue
  | xmit (req : Nat)
  | xmit2 (req : Nat)
  deriving DecidableEq

def XmitNode.req : XmitNode → Nat
  | .xmitQueue => 0
  | .xmit req => req
  | .xmit2 req => req

/-- `struct rpc_rqst` and its task. -/
structure XmitRqst where
  rqCong : Bool := false
  (rqSeqno tkOwner : Nat := 0)
  needXmit : Bool := false
  deriving DecidableEq

structure XmitQueue where
  links : Links XmitNode
  rqst : Nat → XmitRqst
  xmitQueuelen : Int := 0
  /-- The requests on the queue that came without a credit and a sequence number, in the order in
  which they came. Nothing depends on it. -/
  arrivals : List Nat := []

/-- The request carries neither a congestion credit nor a sequence number. -/
def XmitRqst.plain (rqst : XmitRqst) : Bool := !rqst.rqCong && rqst.rqSeqno == 0

/-- `list_for_each_entry` over `xmit_queue`, up to the first request that satisfies `P`. The loop
ends within `xmit_queuelen` turns. -/
def findHead (s : XmitQueue) (P : Nat → Bool) : Option (Option XmitNode) :=
  (s.links.next .xmitQueue).bind fun a =>
    find s.links (fun node => match node with
      | .xmit pos => P pos
      | _ => false) .xmitQueue (s.xmitQueuelen.toNat + 1) a

def linkXmit (L : Links XmitNode) (req : Nat) (node : XmitNode) : Option (Links XmitNode) :=
  (addTail L (.xmit req) node).map fun L => init L (.xmit2 req)

/-- The request waits behind `pos`. -/
def linkXmit2 (L : Links XmitNode) (req pos : Nat) : Option (Links XmitNode) :=
  (addTail L (.xmit2 req) (.xmit2 pos)).map fun L => init L (.xmit req)

def enqueueLinks (s : XmitQueue) (req : Nat) : Option (Links XmitNode) :=
  if (s.rqst req).rqCong then
    match findHead s fun pos => !(s.rqst pos).rqCong with
    | some (some node) => linkXmit s.links req node
    | some none => linkXmit s.links req .xmitQueue
    | none => none
  else if (s.rqst req).rqSeqno = 0 then
    match findHead s fun pos => (s.rqst pos).tkOwner == (s.rqst req).tkOwner with
    | some (some (.xmit pos)) => linkXmit2 s.links req pos
    | some none => linkXmit s.links req .xmitQueue
    | _ => none
  else linkXmit s.links req .xmitQueue

def setRqst (rqst : Nat → XmitRqst) (req : Nat) (new : XmitRqst) : Nat → XmitRqst :=
  fun r => if r = req then new else rqst r

def XmitQueue.setNeedXmit (s : XmitQueue) (req : Nat) (b : Bool) : Nat → XmitRqst :=
  setRqst s.rqst req { s.rqst req with needXmit := b }

/-- `none` when a pointer is followed that must not be. -/
def xprtRequestEnqueueTransmit (s : XmitQueue) (req : Nat) : Option XmitQueue :=
  if (s.rqst req).needXmit then some s
  else (enqueueLinks s req).map fun links =>
    { links := links
      rqst := s.setNeedXmit req true
      xmitQueuelen := s.xmitQueuelen + 1
      arrivals := if (s.rqst req).plain then s.arrivals ++ [req] else s.arrivals }

def dequeueLinks (L : Links XmitNode) (req : Nat) : Option (Links XmitNode) :=
  if isEmpty L (.xmit req) then del L (.xmit2 req)
  else (del L (.xmit req)).bind fun L =>
    if isEmpty L (.xmit2 req) then some L
    else match L.next (.xmit2 req) with
      | some (.xmit2 next) => (del L (.xmit2 req)).bind fun L => addTail L (.xmit next) .xmitQueue
      | _ => none

/-- `none` when a pointer is followed that must not be. -/
def xprtRequestDequeueTransmitLocked (s : XmitQueue) (req : Nat) : Option XmitQueue :=
  if (s.rqst req).needXmit then
    (dequeueLinks s.links req).map fun links =>
      { links := links
        rqst := s.setNeedXmit req false
        xmitQueuelen := s.xmitQueuelen - 1
        arrivals := s.arrivals.erase req }
  else some s

/-- What can happen to the queue and to its requests. -/
inductive XmitEvent where
  | enqueue (req : Nat)
  | dequeue (req : Nat)
  /-- The request gets or loses its credit, or is given a sequence number. -/
  | mark (req : Nat) (rqCong : Bool) (rqSeqno : Nat)
  /-- The request is taken by a task of `owner`. -/
  | assign (req : Nat) (owner : Nat)
  deriving DecidableEq

/-- One step. The task of a request that is enqueued stays the same. -/
def xmitStep (s : XmitQueue) : XmitEvent → Option XmitQueue
  | .enqueue req => xprtRequestEnqueueTransmit s req
  | .dequeue req => xprtRequestDequeueTransmitLocked s req
  | .mark req rqCong rqSeqno =>
      let new := { s.rqst req with rqCong := rqCong, rqSeqno := rqSeqno }
      some { s with rqst := setRqst s.rqst req new }
  | .assign req owner =>
      let new := { s.rqst req with tkOwner := owner }
      some (if (s.rqst req).needXmit then s else { s with rqst := setRqst s.rqst req new })

def emptyQueue : XmitQueue where
  links := init { next := fun _ => none, prev := fun _ => none } .xmitQueue
  rqst := fun _ => {}

/-! ## The queue as groups -/

def requests (groups : List (Nat × List Nat)) : List Nat := groups.flatMap fun g => g.1 :: g.2

def headsOf (groups : List (Nat × List Nat)) : List Nat := groups.map Prod.fst

/-- The links of one group: the others are in the ring of the head, and not on `xmit_queue`. -/
structure GroupOf (L : Links XmitNode) (g : Nat × List Nat) : Prop where
  behind : IsRing L (.xmit2 g.1) (g.2.map .xmit2)
  alone : ∀ m ∈ g.2, IsRing L (.xmit m) []

/-- The links are those of the groups: the heads are on `xmit_queue`, and no request is there twice. -/
structure RingsOf (L : Links XmitNode) (groups : List (Nat × List Nat)) : Prop where
  heads : IsRing L .xmitQueue ((headsOf groups).map .xmit)
  group : ∀ g ∈ groups, GroupOf L g
  once : (requests groups).Nodup

section

variable {L L' : Links XmitNode} {groups xs ys : List (Nat × List Nat)} {g g' : Nat × List Nat} {r m h : Nat}
  {ms ms' nodes : List Nat}

theorem mem_requests : r ∈ requests groups ↔ ∃ g ∈ groups, r = g.1 ∨ r ∈ g.2 := by
  simp [requests, mem_flatMap]

theorem head_mem_requests (hg : g ∈ groups) : g.1 ∈ requests groups := mem_requests.2 ⟨g, hg, .inl rfl⟩

theorem not_head (hr : r ∉ requests groups) : r ∉ headsOf groups := by
  intro hmem
  obtain ⟨g, hg, rfl⟩ := mem_map.1 hmem
  exact hr (head_mem_requests hg)

theorem member_mem_requests (hg : g ∈ groups) (hm : m ∈ g.2) : m ∈ requests groups := mem_requests.2 ⟨g, hg, .inr hm⟩

theorem requests_split (xs ys : List (Nat × List Nat)) (g : Nat × List Nat) :
    (requests (xs ++ g :: ys)).Perm ((g.1 :: g.2) ++ requests (xs ++ ys)) := by
  simp only [requests, flatMap_append, flatMap_cons]
  exact perm_append_comm_assoc _ _ _

theorem mem_split : g ∈ xs ++ g' :: ys ↔ g = g' ∨ g ∈ xs ++ ys := by
  simp [or_left_comm]

theorem once_apart (honce : (requests (xs ++ g :: ys)).Nodup) (hr : r = g.1 ∨ r ∈ g.2) (hg' : g' ∈ xs ++ ys) :
    ¬ (r = g'.1 ∨ r ∈ g'.2) := by
  have hsplit := (requests_split xs ys g).nodup_iff.1 honce
  exact fun hmem => (nodup_append.1 hsplit).2.2 r (mem_cons.2 hr) r (mem_requests.2 ⟨g', hg', hmem⟩) rfl

theorem once_group (honce : (requests (xs ++ g :: ys)).Nodup) : (g.1 :: g.2).Nodup :=
  (nodup_append.1 ((requests_split xs ys g).nodup_iff.1 honce)).1

theorem once_not_head (honce : (requests groups).Nodup) (hg : g ∈ groups) (hm : m ∈ g.2) : m ∉ headsOf groups := by
  obtain ⟨xs, ys, rfl⟩ := append_of_mem hg
  intro hhead
  obtain ⟨g', hg', rfl⟩ := mem_map.1 hhead
  rcases mem_split.1 hg' with rfl | hmem
  · exact (nodup_cons.1 (once_group honce)).1 hm
  · exact once_apart honce (.inr hm) hmem (.inl rfl)

theorem requests_join (xs ys : List (Nat × List Nat)) (h r : Nat) (ms ms' : List Nat) :
    (requests (xs ++ (h, ms ++ r :: ms') :: ys)).Perm (r :: requests (xs ++ (h, ms ++ ms') :: ys)) := by
  have hgroup : (h :: (ms ++ r :: ms')).Perm (r :: h :: (ms ++ ms')) :=
    (perm_middle.cons h).trans (List.Perm.swap r h _)
  have hsplit := (requests_split xs ys (h, ms ++ ms')).symm.cons r
  exact (requests_split xs ys _).trans ((hgroup.append_right _).trans hsplit)

/-! ## Changes of the links -/

/-- Only pointers of `xmit_queue` and of the `rq_xmit` of `nodes` changed. -/
def QueueChange (L L' : Links XmitNode) (nodes : List Nat) : Prop :=
  ∀ x, x ∉ XmitNode.xmitQueue :: nodes.map .xmit → Same L L' x

/-- Only pointers of the `rq_xmit2` of `nodes` changed. -/
def RingChange (L L' : Links XmitNode) (nodes : List Nat) : Prop := ∀ x, x ∉ nodes.map XmitNode.xmit2 → Same L L' x

theorem queueChange_init (L : Links XmitNode) (r : Nat) : QueueChange L (init L (.xmit r)) [r] := by
  intro x hx
  refine same_init ?_
  rintro rfl
  simp at hx

theorem ringChange_init (L : Links XmitNode) (r : Nat) : RingChange L (init L (.xmit2 r)) [r] := by
  intro x hx
  refine same_init ?_
  rintro rfl
  simp at hx

theorem RingChange.queue {heads : List Nat} (hc : RingChange L L' nodes) (hring : IsRing L .xmitQueue (heads.map .xmit)) :
    IsRing L' .xmitQueue (heads.map .xmit) := by
  refine hring.congr fun x hx => hc x ?_
  rcases mem_cons.1 hx with rfl | hx
  · simp
  · obtain ⟨q, -, rfl⟩ := mem_map.1 hx
    simp

theorem RingChange.alone (hc : RingChange L L' nodes) (hring : IsRing L (.xmit m) []) : IsRing L' (.xmit m) [] :=
  hring.congr fun x hx => hc x (by simp [mem_singleton.1 hx])

section

variable (hc : QueueChange L L' nodes)
include hc

theorem QueueChange.ring (hring : IsRing L (.xmit2 h) (ms.map .xmit2)) :
    IsRing L' (.xmit2 h) (ms.map .xmit2) := by
  refine hring.congr fun x hx => hc x ?_
  rcases mem_cons.1 hx with rfl | hx
  · simp
  · obtain ⟨q, -, rfl⟩ := mem_map.1 hx
    simp

theorem QueueChange.alone (hm : m ∉ nodes) (hring : IsRing L (.xmit m) []) :
    IsRing L' (.xmit m) [] :=
  hring.congr fun x hx => hc x (by simpa [mem_singleton.1 hx] using hm)

theorem QueueChange.group (hne : ∀ m ∈ g.2, m ∉ nodes) (hg : GroupOf L g) :
    GroupOf L' g :=
  ⟨hc.ring hg.behind, fun m hm => hc.alone (hne m hm) (hg.alone m hm)⟩

end

theorem RingChange.group (hc : RingChange L L' nodes) (hne : ∀ r, r = g.1 ∨ r ∈ g.2 → r ∉ nodes) (hg : GroupOf L g) :
    GroupOf L' g := by
  refine ⟨hg.behind.congr fun x hx => hc x ?_, fun m hm => hc.alone (hg.alone m hm)⟩
  simp only [mem_cons, List.mem_map] at hx
  rcases hx with rfl | ⟨m, hm, rfl⟩
  · simpa using hne g.1 (.inl rfl)
  · simpa using hne m (.inr hm)

/-- The node a request is linked before so that it comes before `ys`. -/
def nodeBefore : List (Nat × List Nat) → XmitNode
  | [] => .xmitQueue
  | g :: _ => .xmit g.1

theorem addTail_nodeBefore (hring : IsRing L .xmitQueue ((headsOf (xs ++ ys)).map .xmit)) (hr : r ∉ headsOf (xs ++ ys))
    (ms : List Nat) :
    ∃ L', addTail L (.xmit r) (nodeBefore ys) = some L' ∧
      IsRing L' .xmitQueue ((headsOf (xs ++ (r, ms) :: ys)).map .xmit) ∧ QueueChange L L' (r :: headsOf (xs ++ ys)) := by
  have hnew : XmitNode.xmit r ∉ XmitNode.xmitQueue :: (headsOf (xs ++ ys)).map .xmit := by simpa using hr
  cases ys with
  | nil =>
    obtain ⟨L', hadd, hring', hsame⟩ := hring.addTail hnew
    exact ⟨L', hadd, by simpa [headsOf] using hring', hsame⟩
  | cons y ys =>
    simp only [headsOf, map_append, map_cons] at hring hnew
    obtain ⟨L', hadd, hring', hsame⟩ := hring.addBefore hnew
    exact ⟨L', hadd, by simpa [headsOf] using hring', fun x hx => hsame x (by simpa [headsOf] using hx)⟩

theorem RingsOf.linkXmit (hL : RingsOf L (xs ++ ys)) (hr : r ∉ requests (xs ++ ys)) :
    ∃ L', linkXmit L r (nodeBefore ys) = some L' ∧ RingsOf L' (xs ++ (r, []) :: ys) := by
  obtain ⟨L₁, hadd, hring, hchange⟩ := addTail_nodeBefore hL.heads (not_head hr) []
  have hinit := ringChange_init L₁ r
  refine ⟨init L₁ (.xmit2 r), by simp only [Sunrpc.linkXmit, hadd, map_some], hinit.queue hring, fun g hg => ?_, ?_⟩
  · rcases mem_split.1 hg with rfl | hmem
    · exact ⟨isRing_init L₁ _, by simp⟩
    have hout : ∀ q, q = g.1 ∨ q ∈ g.2 → q ≠ r := fun q hq heq => hr (heq ▸ mem_requests.2 ⟨g, hmem, hq⟩)
    refine hinit.group (fun q hq => by simpa using hout q hq) (hchange.group (fun m hm => ?_) (hL.group g hmem))
    exact not_mem_cons_of_ne_of_not_mem (hout m (.inr hm)) (once_not_head hL.once hmem hm)
  · rw [(requests_split xs ys (r, [])).nodup_iff]
    exact nodup_cons.2 ⟨hr, hL.once⟩

theorem RingsOf.linkXmit2 (hL : RingsOf L (xs ++ (h, ms) :: ys)) (hr : r ∉ requests (xs ++ (h, ms) :: ys)) :
    ∃ L', linkXmit2 L r h = some L' ∧ RingsOf L' (xs ++ (h, ms ++ [r]) :: ys) := by
  have hmem : (h, ms) ∈ xs ++ (h, ms) :: ys := mem_split.2 (.inl rfl)
  have hgroup := hL.group _ hmem
  have hrh : r ≠ h := fun heq => hr (heq ▸ head_mem_requests hmem)
  have hrms : r ∉ ms := fun hm => hr (member_mem_requests hmem hm)
  have hheads : headsOf (xs ++ (h, ms ++ [r]) :: ys) = headsOf (xs ++ (h, ms) :: ys) := by simp [headsOf]
  obtain ⟨L₁, hadd, hring, hsame⟩ := hgroup.behind.addTail (by simpa using ⟨hrh, hrms⟩ : XmitNode.xmit2 r ∉ _)
  have hchange : RingChange L L₁ (h :: r :: ms) := hsame
  have hinit := queueChange_init L₁ r
  refine ⟨init L₁ (.xmit r), by simp only [Sunrpc.linkXmit2, hadd, map_some], ?_, fun g hg => ?_, ?_⟩
  · rw [hheads]
    refine (hchange.queue hL.heads).congr fun x hx => same_init ?_
    rintro rfl
    exact not_head hr (by simpa using hx)
  · rcases mem_split.1 hg with rfl | hout
    · refine ⟨hinit.ring (by simpa using hring), fun m hm => ?_⟩
      rcases mem_append.1 hm with hms | hmr
      · exact hinit.alone (by simpa using fun heq : m = r => hrms (heq ▸ hms)) (hchange.alone (hgroup.alone m hms))
      · rw [mem_singleton.1 hmr]
        exact isRing_init L₁ _
    have hin := mem_split.2 (.inr hout : g = (h, ms) ∨ g ∈ xs ++ ys)
    have hne : ∀ q, q = g.1 ∨ q ∈ g.2 → q ≠ r := fun q hq heq => hr (heq ▸ mem_requests.2 ⟨g, hin, hq⟩)
    refine hinit.group (fun m hm => by simpa using hne m (.inr hm)) (hchange.group (fun q hq => ?_) (hL.group g hin))
    have hapart : ∀ q', q' = h ∨ q' ∈ ms → q ≠ q' := by
      rintro q' hq' rfl
      exact once_apart hL.once hq' hout hq
    simp only [mem_cons, not_or]
    exact ⟨hapart h (.inl rfl), hne q hq, fun hq' => hapart q (.inr hq') rfl⟩
  · rw [(requests_join xs ys h r ms []).nodup_iff, append_nil]
    exact nodup_cons.2 ⟨hr, hL.once⟩

theorem RingsOf.del_xmit (hL : RingsOf L (xs ++ (r, ms) :: ys)) :
    ∃ L', del L (.xmit r) = some L' ∧ IsRing L' .xmitQueue ((headsOf (xs ++ ys)).map .xmit) ∧
      ∀ g ∈ xs ++ (r, ms) :: ys, GroupOf L' g := by
  have hheads := hL.heads
  simp only [headsOf, map_append, map_cons] at hheads
  obtain ⟨L', hdel, hring, hsame⟩ := hheads.del
  have hchange : QueueChange L L' (headsOf (xs ++ (r, ms) :: ys)) := fun x hx => hsame x (by simpa [headsOf] using hx)
  refine ⟨L', hdel, by simpa [headsOf] using hring, fun g hg => ?_⟩
  exact hchange.group (fun m hm => once_not_head hL.once hg hm) (hL.group g hg)

theorem RingsOf.isEmpty_head (hL : RingsOf L (xs ++ (r, ms) :: ys)) : isEmpty L (.xmit r) = false := by
  have hheads := hL.heads
  simp only [headsOf, map_append, map_cons] at hheads
  have hne : ¬ isEmpty L (.xmit r) = true := by
    rw [hheads.rotate.isEmpty_iff]
    simp
  simpa using hne

theorem once_rest (honce : (requests (xs ++ g :: ys)).Nodup) : (requests (xs ++ ys)).Nodup :=
  (nodup_append.1 ((requests_split xs ys g).nodup_iff.1 honce)).2.1

/-- **A head that nobody waits behind.** -/
theorem RingsOf.dequeue_last (hL : RingsOf L (xs ++ (r, []) :: ys)) :
    ∃ L', dequeueLinks L r = some L' ∧ RingsOf L' (xs ++ ys) := by
  obtain ⟨L', hdel, hring, hgroups⟩ := hL.del_xmit
  have hempty : isEmpty L' (.xmit2 r) = true := (hgroups (r, []) (mem_split.2 (.inl rfl))).behind.isEmpty_iff.2 rfl
  refine ⟨L', ?_, hring, fun g hg => hgroups g (mem_split.2 (.inr hg)), once_rest hL.once⟩
  simp [dequeueLinks, hL.isEmpty_head, hdel, hempty]

/-- **A head that others wait behind**: the first of them goes to the tail of `xmit_queue`. -/
theorem RingsOf.dequeue_head (hL : RingsOf L (xs ++ (r, m :: ms) :: ys)) :
    ∃ L', dequeueLinks L r = some L' ∧ RingsOf L' (xs ++ ys ++ [(m, ms)]) := by
  obtain ⟨L₁, hdel₁, hring₁, hgroups₁⟩ := hL.del_xmit
  have hmem : (r, m :: ms) ∈ xs ++ (r, m :: ms) :: ys := mem_split.2 (.inl rfl)
  have hbehind := (hgroups₁ _ hmem).behind
  have hnext : L₁.next (.xmit2 r) = some (.xmit2 m) := hbehind.linked.1
  have hempty : isEmpty L₁ (.xmit2 r) = false := by
    have hne : ¬ isEmpty L₁ (.xmit2 r) = true := by
      rw [hbehind.isEmpty_iff]
      simp
    simpa using hne
  obtain ⟨L₂, hdel₂, hring₂, hsame₂⟩ := hbehind.delHead
  have hchange₂ : RingChange L₁ L₂ (r :: m :: ms) := hsame₂
  -- the first one that waited is linked to the tail
  have hnot : ∀ m' ∈ m :: ms, m' ∉ headsOf (xs ++ ys) := fun m' hm' hhead => by
    obtain ⟨g, hg, rfl⟩ := mem_map.1 hhead
    exact once_apart hL.once (.inr hm') hg (.inl rfl)
  have hqueue₂ : IsRing L₂ .xmitQueue ((headsOf (xs ++ ys ++ [])).map .xmit) := by
    rw [append_nil]
    exact hchange₂.queue hring₁
  obtain ⟨L₃, hadd, hring₃, hchange₃⟩ := addTail_nodeBefore hqueue₂ (by simpa using hnot m mem_cons_self) ms
  rw [append_nil] at hchange₃
  refine ⟨L₃, ?_, hring₃, fun g hg => ?_, ?_⟩
  · simp only [dequeueLinks, hL.isEmpty_head, hdel₁, hempty, hnext, hdel₂, Bool.false_eq_true, if_false, bind_some]
    exact hadd
  · have hgroup := once_group hL.once
    rcases mem_append.1 hg with hrest | hnew
    · have hapart : ∀ q, q = r ∨ q ∈ m :: ms → ¬ (q = g.1 ∨ q ∈ g.2) := fun q hq => once_apart hL.once hq hrest
      have hin := mem_split.2 (.inr hrest : g = (r, m :: ms) ∨ g ∈ xs ++ ys)
      refine hchange₃.group (fun m' hm' => ?_) (hchange₂.group (fun q hq hmem => ?_) (hgroups₁ g hin))
      · have hne : m' ≠ m := fun heq => hapart m (.inr mem_cons_self) (.inr (heq ▸ hm'))
        exact not_mem_cons_of_ne_of_not_mem hne (once_not_head (once_rest hL.once) hrest hm')
      · exact hapart q (mem_cons.1 hmem) hq
    rw [mem_singleton.1 hnew]
    refine ⟨hchange₃.ring hring₂, fun m' hm' => ?_⟩
    have hne : m' ≠ m := fun heq => (nodup_cons.1 (nodup_cons.1 hgroup).2).1 (heq ▸ hm')
    have hm := mem_cons_of_mem m hm'
    exact hchange₃.alone (not_mem_cons_of_ne_of_not_mem hne (hnot m' hm)) (hchange₂.alone ((hgroups₁ _ hmem).alone m' hm))
  · have hperm := requests_split (xs ++ ys) [] (m, ms)
    rw [append_nil] at hperm
    rw [hperm.nodup_iff]
    exact (nodup_cons.1 ((requests_split xs ys (r, m :: ms)).nodup_iff.1 hL.once)).2

/-- **A request that waits behind a head.** -/
theorem RingsOf.dequeue_member (hL : RingsOf L (xs ++ (h, ms ++ r :: ms') :: ys)) :
    ∃ L', dequeueLinks L r = some L' ∧ RingsOf L' (xs ++ (h, ms ++ ms') :: ys) := by
  have hmem : (h, ms ++ r :: ms') ∈ xs ++ (h, ms ++ r :: ms') :: ys := mem_split.2 (.inl rfl)
  have hgroup := hL.group _ hmem
  have hempty : isEmpty L (.xmit r) = true := (hgroup.alone r (by simp)).isEmpty_iff.2 rfl
  have hbehind := hgroup.behind
  simp only [map_append, map_cons] at hbehind
  obtain ⟨L', hdel, hring, hsame⟩ := hbehind.del
  have hchange : RingChange L L' (h :: (ms ++ r :: ms')) := fun x hx => hsame x (by simpa using hx)
  have hheads : headsOf (xs ++ (h, ms ++ r :: ms') :: ys) = headsOf (xs ++ (h, ms ++ ms') :: ys) := by simp [headsOf]
  refine ⟨L', by simp only [dequeueLinks, hempty, hdel, if_true], ?_, fun g hg => ?_, ?_⟩
  · rw [← hheads]
    exact hchange.queue hL.heads
  · rcases mem_split.1 hg with rfl | hout
    · refine ⟨by simpa using hring, fun m hm => hchange.alone (hgroup.alone m ?_)⟩
      simp only [mem_append, mem_cons] at hm ⊢
      exact hm.imp_right .inr
    · have hin := mem_split.2 (.inr hout : g = (h, ms ++ r :: ms') ∨ g ∈ xs ++ ys)
      exact hchange.group (fun q hq hmem' => once_apart hL.once (mem_cons.1 hmem') hout hq) (hL.group g hin)
  · exact (nodup_cons.1 ((requests_join xs ys h r ms ms').nodup_iff.1 hL.once)).2

end

/-! ## The operations -/

/-- The queue consists of `groups`: these are the requests that are to be sent, each of them once, and
`xmit_queuelen` is their number. -/
structure Holds (s : XmitQueue) (groups : List (Nat × List Nat)) : Prop where
  rings : RingsOf s.links groups
  flagged : ∀ r, r ∈ requests groups ↔ (s.rqst r).needXmit = true
  counted : s.xmitQueuelen = (requests groups).length

inductive Enqueued (rqst : Nat → XmitRqst) (r : Nat) : List (Nat × List Nat) → List (Nat × List Nat) → Prop where
  | special (xs ys : List (Nat × List Nat)) (hplain : (rqst r).plain = false) :
      Enqueued rqst r (xs ++ ys) (xs ++ (r, []) :: ys)
  | join (xs ys : List (Nat × List Nat)) (h : Nat) (ms : List Nat) (hplain : (rqst r).plain = true)
      (howner : (rqst h).tkOwner = (rqst r).tkOwner) (hfirst : ∀ g ∈ xs, (rqst g.1).tkOwner ≠ (rqst r).tkOwner) :
      Enqueued rqst r (xs ++ (h, ms) :: ys) (xs ++ (h, ms ++ [r]) :: ys)
  | first (groups : List (Nat × List Nat)) (hplain : (rqst r).plain = true)
      (hfirst : ∀ g ∈ groups, (rqst g.1).tkOwner ≠ (rqst r).tkOwner) : Enqueued rqst r groups (groups ++ [(r, [])])

inductive Dequeued (r : Nat) : List (Nat × List Nat) → List (Nat × List Nat) → Prop where
  | last (xs ys : List (Nat × List Nat)) : Dequeued r (xs ++ (r, []) :: ys) (xs ++ ys)
  | head (xs ys : List (Nat × List Nat)) (m : Nat) (ms : List Nat) :
      Dequeued r (xs ++ (r, m :: ms) :: ys) (xs ++ ys ++ [(m, ms)])
  | member (xs ys : List (Nat × List Nat)) (h : Nat) (ms ms' : List Nat) :
      Dequeued r (xs ++ (h, ms ++ r :: ms') :: ys) (xs ++ (h, ms ++ ms') :: ys)

variable {s : XmitQueue} {groups groups' : List (Nat × List Nat)} {r : Nat} {L : Links XmitNode}

theorem length_group_le {g : Nat × List Nat} (hg : g ∈ groups) : g.2.length ≤ (requests groups).length := by
  obtain ⟨xs, ys, rfl⟩ := append_of_mem hg
  rw [(requests_split xs ys g).length_eq, length_append, length_cons]
  omega

theorem length_headsOf_le (groups : List (Nat × List Nat)) : (headsOf groups).length ≤ (requests groups).length := by
  induction groups with
  | nil => simp [headsOf]
  | cons g gs ih =>
    simp only [headsOf, requests, map_cons, flatMap_cons, length_cons, length_append] at ih ⊢
    omega

theorem RingsOf.linkXmit_tail (hL : RingsOf L groups) (hr : r ∉ requests groups) :
    ∃ L', Sunrpc.linkXmit L r .xmitQueue = some L' ∧ RingsOf L' (groups ++ [(r, [])]) := by
  rw [← append_nil groups] at hL hr
  exact hL.linkXmit hr

theorem RingsOf.dequeueLinks_eq (hL : RingsOf L groups) (hr : r ∈ requests groups) :
    ∃ L' groups', dequeueLinks L r = some L' ∧ RingsOf L' groups' ∧ Dequeued r groups groups' := by
  obtain ⟨⟨h, ms⟩, hg, hmem⟩ := mem_requests.1 hr
  obtain ⟨xs, ys, rfl⟩ := append_of_mem hg
  rcases hmem with rfl | hmem
  · cases ms with
    | nil =>
      obtain ⟨L', hdel, hrings⟩ := hL.dequeue_last
      exact ⟨L', _, hdel, hrings, .last xs ys⟩
    | cons m ms =>
      obtain ⟨L', hdel, hrings⟩ := hL.dequeue_head
      exact ⟨L', _, hdel, hrings, .head xs ys m ms⟩
  · obtain ⟨ms, ms', rfl⟩ := append_of_mem hmem
    obtain ⟨L', hdel, hrings⟩ := hL.dequeue_member
    exact ⟨L', _, hdel, hrings, .member xs ys h ms ms'⟩

theorem Enqueued.perm {rqst : Nat → XmitRqst} (he : Enqueued rqst r groups groups') :
    (requests groups').Perm (r :: requests groups) := by
  cases he with
  | special xs ys => exact requests_split xs ys (r, [])
  | join xs ys h ms => simpa using requests_join xs ys h r ms []
  | first =>
    have hsplit := requests_split groups [] (r, [])
    rwa [append_nil] at hsplit

theorem Dequeued.perm (hd : Dequeued r groups groups') : (requests groups).Perm (r :: requests groups') := by
  cases hd with
  | last xs ys => exact requests_split xs ys (r, [])
  | head xs ys m ms =>
    have hsplit := requests_split (xs ++ ys) [] (m, ms)
    rw [append_nil] at hsplit
    exact (requests_split xs ys (r, m :: ms)).trans (hsplit.symm.cons r)
  | member xs ys h ms ms' => exact requests_join xs ys h r ms ms'

def groupsOf (s : XmitQueue) : List (Nat × List Nat) :=
  (walk s.links .xmitQueue s.xmitQueuelen.toNat .xmitQueue).map fun node =>
    (node.req, (walk s.links (.xmit2 node.req) s.xmitQueuelen.toNat (.xmit2 node.req)).map XmitNode.req)

/-- **The queue is sound**: the pointers lead to the requests that are to be sent and to no others, to
each of them once, and `xmit_queuelen` is their number. -/
def XmitSound (s : XmitQueue) : Prop := Holds s (groupsOf s)

section

variable (hs : Holds s groups)
include hs

theorem Holds.findHead_eq (P : Nat → Bool) :
    findHead s P = some ((groups.find? fun g => P g.1).map fun g => .xmit g.1) := by
  have hlen := length_headsOf_le groups
  have hcount := hs.counted
  have hfuel : ((headsOf groups).map XmitNode.xmit).length + 1 ≤ s.xmitQueuelen.toNat + 1 := by
    rw [List.length_map]
    omega
  rw [findHead, hs.rings.heads.find hfuel, headsOf, List.map_map, List.find?_map]
  rfl

section

variable (hr : (s.rqst r).needXmit = false)
include hr

theorem Holds.not_mem : r ∉ requests groups := fun hmem => by
  have hflag := (hs.flagged r).1 hmem
  rw [hr] at hflag
  cases hflag

theorem Holds.enqueueLinks_eq :
    ∃ L' groups', enqueueLinks s r = some L' ∧ RingsOf L' groups' ∧ Enqueued s.rqst r groups groups' := by
  have hnot := hs.not_mem hr
  obtain ⟨Ltail, htail, hgroups⟩ := hs.rings.linkXmit_tail hnot
  have hspecial : (s.rqst r).plain = false → Enqueued s.rqst r groups (groups ++ [(r, [])]) := fun hplain => by
    simpa using Enqueued.special groups [] hplain
  by_cases hcong : (s.rqst r).rqCong = true
  · have hplain : (s.rqst r).plain = false := by simp [XmitRqst.plain, hcong]
    rcases hfind : groups.find? (fun g => !(s.rqst g.1).rqCong) with _ | g
    · refine ⟨Ltail, _, ?_, hgroups, hspecial hplain⟩
      simp [enqueueLinks, hcong, hs.findHead_eq, hfind, htail]
    obtain ⟨-, xs, ys, rfl, -⟩ := find?_eq_some_iff_append.1 hfind
    obtain ⟨L', hlink, hrings⟩ := hs.rings.linkXmit hnot
    refine ⟨L', _, ?_, hrings, .special xs (g :: ys) hplain⟩
    simp only [enqueueLinks, hcong, hs.findHead_eq, hfind, if_true, map_some]
    exact hlink
  by_cases hseq : (s.rqst r).rqSeqno = 0
  · have hplain : (s.rqst r).plain = true := by simp [XmitRqst.plain, hcong, hseq]
    rcases hfind : groups.find? (fun g => (s.rqst g.1).tkOwner == (s.rqst r).tkOwner) with _ | ⟨h, ms⟩
    · refine ⟨Ltail, _, ?_, hgroups, .first groups hplain fun g hg => ?_⟩
      · simp [enqueueLinks, hcong, hseq, hs.findHead_eq, hfind, htail]
      · simpa using find?_eq_none.1 hfind g hg
    obtain ⟨howner, xs, ys, rfl, hxs⟩ := find?_eq_some_iff_append.1 hfind
    obtain ⟨L', hlink, hrings⟩ := hs.rings.linkXmit2 hnot
    refine ⟨L', _, ?_, hrings, .join xs ys h ms hplain (by simpa using howner) fun g hg => by simpa using hxs g hg⟩
    simp only [enqueueLinks, hcong, hseq, hs.findHead_eq, hfind, if_true, if_false, map_some, Bool.false_eq_true]
    exact hlink
  · have hplain : (s.rqst r).plain = false := by simp [XmitRqst.plain, hseq]
    refine ⟨Ltail, _, ?_, hgroups, hspecial hplain⟩
    simp [enqueueLinks, hcong, hseq, htail]

/-- **The enqueue of a request that is not on the queue.** -/
theorem enqueue_holds :
    ∃ s' groups', xprtRequestEnqueueTransmit s r = some s' ∧ Holds s' groups' ∧ Enqueued s.rqst r groups groups' ∧
      s'.rqst = s.setNeedXmit r true ∧
      s'.arrivals = if (s.rqst r).plain then s.arrivals ++ [r] else s.arrivals := by
  obtain ⟨L', groups', hlinks, hrings, henq⟩ := hs.enqueueLinks_eq hr
  have hnew : xprtRequestEnqueueTransmit s r = some
      { links := L'
        rqst := s.setNeedXmit r true
        xmitQueuelen := s.xmitQueuelen + 1
        arrivals := if (s.rqst r).plain then s.arrivals ++ [r] else s.arrivals } := by
    simp [xprtRequestEnqueueTransmit, hr, hlinks]
  refine ⟨_, groups', hnew, ⟨hrings, fun q => ?_, ?_⟩, henq, rfl, rfl⟩
  · rw [henq.perm.mem_iff, mem_cons, hs.flagged q]
    by_cases hq : q = r <;> simp [XmitQueue.setNeedXmit, setRqst, hq]
  · have hlen := henq.perm.length_eq
    have hcount := hs.counted
    simp only [length_cons] at hlen
    show s.xmitQueuelen + 1 = _
    omega

end

theorem Holds.dequeue_of {L' : Links XmitNode} (hr : (s.rqst r).needXmit = true)
    (hlinks : dequeueLinks s.links r = some L') (hrings : RingsOf L' groups') (hdeq : Dequeued r groups groups') :
    ∃ s', xprtRequestDequeueTransmitLocked s r = some s' ∧ Holds s' groups' ∧ s'.rqst = s.setNeedXmit r false ∧
      s'.arrivals = s.arrivals.erase r := by
  have hnew : xprtRequestDequeueTransmitLocked s r = some
      { links := L'
        rqst := s.setNeedXmit r false
        xmitQueuelen := s.xmitQueuelen - 1
        arrivals := s.arrivals.erase r } := by
    simp [xprtRequestDequeueTransmitLocked, hr, hlinks]
  have hnot : r ∉ requests groups' := (nodup_cons.1 (hdeq.perm.nodup_iff.1 hs.rings.once)).1
  refine ⟨_, hnew, ⟨hrings, fun q => ?_, ?_⟩, rfl, rfl⟩
  · by_cases hq : q = r
    · simp [XmitQueue.setNeedXmit, setRqst, hq, hnot]
    have hmem : q ∈ requests groups' ↔ q ∈ requests groups := by
      rw [hdeq.perm.mem_iff]
      simp [hq]
    rw [hmem, hs.flagged q]
    simp [XmitQueue.setNeedXmit, setRqst, hq]
  · have hlen := hdeq.perm.length_eq
    have hcount := hs.counted
    simp only [length_cons] at hlen
    show s.xmitQueuelen - 1 = _
    omega

/-- **The dequeue of a request that is on the queue.** -/
theorem dequeue_holds (hr : (s.rqst r).needXmit = true) :
    ∃ s' groups', xprtRequestDequeueTransmitLocked s r = some s' ∧ Holds s' groups' ∧ Dequeued r groups groups' ∧
      s'.rqst = s.setNeedXmit r false ∧ s'.arrivals = s.arrivals.erase r := by
  obtain ⟨L', groups', hlinks, hrings, hdeq⟩ := hs.rings.dequeueLinks_eq ((hs.flagged r).2 hr)
  obtain ⟨s', hstep, hholds, hrest⟩ := hs.dequeue_of hr hlinks hrings hdeq
  exact ⟨s', groups', hstep, hholds, hdeq, hrest⟩

/-! ## Runs -/

theorem Holds.groupsOf_eq : groupsOf s = groups := by
  have hcount := hs.counted
  have hlen := length_headsOf_le groups
  have hheads := hs.rings.heads.walk (by rw [List.length_map]; omega : _ ≤ s.xmitQueuelen.toNat)
  have hgroup : ∀ g ∈ groups,
      (g.1, (walk s.links (.xmit2 g.1) s.xmitQueuelen.toNat (.xmit2 g.1)).map XmitNode.req) = g := fun g hg => by
    have hlen := length_group_le hg
    rw [(hs.rings.group g hg).behind.walk (by rw [List.length_map]; omega), List.map_map]
    exact Prod.ext rfl (List.map_id g.2)
  rw [groupsOf, hheads, headsOf, List.map_map, List.map_map]
  exact (List.map_congr_left hgroup).trans (List.map_id groups)

theorem Holds.xmitSound : XmitSound s := by
  rw [XmitSound, hs.groupsOf_eq]
  exact hs

end

theorem holds_emptyQueue : Holds emptyQueue [] :=
  ⟨⟨isRing_init _ _, by simp, nodup_nil⟩, fun _ => by simp [requests, emptyQueue], rfl⟩

end Vastnfs.Sunrpc
