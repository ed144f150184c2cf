import Vastnfs.Sunrpc.Transmit

/-!
# The order of the transmit queue

Requests of one owner that carry neither a congestion credit nor a sequence number wait behind a head
of that owner. They become heads in the order in which they came, unless one of them is enqueued while
others wait behind a head that is not the owner's first.

* `KeepsOrder`: the condition on an enqueue.
* `transmit_queue`: the queue is sound in every run, the order is kept in every run whose steps meet the
  condition, and a step that misses it can be continued to a state that breaks the order.
* `overtaken_not_in_order`: a request with a credit lets another one be overtaken.
-/

namespace Vastnfs.Sunrpc

open Rings Runs List

/-! ## The order -/

/-- The heads of owner `o` that came without a credit and a sequence number. -/
def plainHeads (owner : Nat → Nat) (o : Nat) (arrivals : List Nat) (groups : List (Nat × List Nat)) : List Nat :=
  (headsOf groups).filter fun r => r ∈ arrivals ∧ owner r = o

/-- Those that wait behind a head of owner `o`. -/
def waitingOf (owner : Nat → Nat) (o : Nat) (groups : List (Nat × List Nat)) : List Nat :=
  groups.flatMap fun g => if owner g.1 = o then g.2 else []

/-- The number of heads of owner `o` that others wait behind. -/
def busy (owner : Nat → Nat) (o : Nat) (groups : List (Nat × List Nat)) : Nat :=
  groups.countP fun g => owner g.1 = o ∧ g.2 ≠ []

/-- Requests of owner `o` are heads, or wait behind one head, in the order in which they came. -/
structure Lined (owner : Nat → Nat) (o : Nat) (arrivals : List Nat) (groups : List (Nat × List Nat)) : Prop where
  order : (arrivals.filter fun r => owner r = o) = plainHeads owner o arrivals groups ++ waitingOf owner o groups
  one : busy owner o groups ≤ 1

section

variable {owner : Nat → Nat} {o : Nat} {arrivals ms : List Nat} {xs ys groups : List (Nat × List Nat)} {g : Nat × List Nat} {r h m : Nat}

@[simp] theorem waitingOf_nil : waitingOf owner o [] = [] := rfl

@[simp] theorem plainHeads_nil : plainHeads owner o arrivals [] = [] := rfl

@[simp] theorem busy_nil : busy owner o [] = 0 := rfl

@[simp] theorem waitingOf_append : waitingOf owner o (xs ++ ys) = waitingOf owner o xs ++ waitingOf owner o ys :=
  flatMap_append

@[simp] theorem waitingOf_cons : waitingOf owner o (g :: ys) = (if owner g.1 = o then g.2 else []) ++ waitingOf owner o ys :=
  flatMap_cons

@[simp] theorem plainHeads_append :
    plainHeads owner o arrivals (xs ++ ys) = plainHeads owner o arrivals xs ++ plainHeads owner o arrivals ys := by
  simp [plainHeads, headsOf, filter_append]

@[simp] theorem plainHeads_cons : plainHeads owner o arrivals (g :: ys) =
    (if g.1 ∈ arrivals ∧ owner g.1 = o then [g.1] else []) ++ plainHeads owner o arrivals ys := by
  simp only [plainHeads, headsOf, map_cons, filter_cons, decide_eq_true_eq]
  split <;> rfl

@[simp] theorem busy_append : busy owner o (xs ++ ys) = busy owner o xs + busy owner o ys := countP_append

@[simp] theorem busy_cons : busy owner o (g :: ys) = busy owner o ys + if owner g.1 = o ∧ g.2 ≠ [] then 1 else 0 := by
  simp [busy, countP_cons, decide_eq_true_eq]

theorem waitingOf_of_not_busy (hbusy : busy owner o groups = 0) : waitingOf owner o groups = [] := by
  refine flatMap_eq_nil_iff.2 fun g hg => ?_
  have hg' := countP_eq_zero.1 hbusy g hg
  simp only [decide_eq_true_eq, not_and, not_not] at hg'
  split
  · exact hg' ‹_›
  · rfl

theorem plainHeads_congr {arrivals' : List Nat} (h : ∀ g ∈ groups, g.1 ∈ arrivals ↔ g.1 ∈ arrivals') :
    plainHeads owner o arrivals groups = plainHeads owner o arrivals' groups := by
  refine filter_congr fun q hq => ?_
  obtain ⟨g, hg, rfl⟩ := mem_map.1 hq
  simp [h g hg]

theorem plainHeads_subset (h : r ∈ plainHeads owner o arrivals groups) : r ∈ requests groups := by
  obtain ⟨g, hg, rfl⟩ := mem_map.1 (mem_of_mem_filter h)
  exact head_mem_requests hg

theorem waitingOf_subset (h : r ∈ waitingOf owner o groups) : r ∈ requests groups := by
  obtain ⟨g, hg, hr⟩ := mem_flatMap.1 h
  split at hr
  · exact member_mem_requests hg hr
  · simp at hr

theorem plainHeads_eq_nil (h : ∀ g ∈ groups, owner g.1 ≠ o) : plainHeads owner o arrivals groups = [] := by
  refine filter_eq_nil_iff.2 fun q hq => ?_
  obtain ⟨g, hg, rfl⟩ := mem_map.1 hq
  simp [h g hg]

theorem waitingOf_eq_nil (h : ∀ g ∈ groups, owner g.1 ≠ o) : waitingOf owner o groups = [] :=
  flatMap_eq_nil_iff.2 fun g hg => by simp [h g hg]

theorem busy_eq_zero (h : ∀ g ∈ groups, owner g.1 ≠ o) : busy owner o groups = 0 :=
  countP_eq_zero.2 fun g hg => by simp [h g hg]

end

/-! ## What the operations keep -/

/-- What is known of the requests that came: they are on the queue, and who waits behind a head is one of
them and has its owner. -/
structure Arrived (owner : Nat → Nat) (arrivals : List Nat) (groups : List (Nat × List Nat)) : Prop where
  queued : ∀ r ∈ arrivals, r ∈ requests groups
  fresh : arrivals.Nodup
  waiting : ∀ g ∈ groups, ∀ m ∈ g.2, m ∈ arrivals ∧ owner m = owner g.1

section

variable {rqst : Nat → XmitRqst} {o r : Nat} {arrivals : List Nat} {groups groups' : List (Nat × List Nat)}
  {owner : Nat → Nat}

/-- The requests that came once `r` is enqueued. -/
def arrivalsWith (rqst : Nat → XmitRqst) (r : Nat) (arrivals : List Nat) : List Nat :=
  if (rqst r).plain then arrivals ++ [r] else arrivals

def ownerOf (rqst : Nat → XmitRqst) (r : Nat) : Nat := (rqst r).tkOwner

theorem Arrived.enqueue (ha : Arrived (ownerOf rqst) arrivals groups) (hr : r ∉ requests groups)
    (he : Enqueued rqst r groups groups') : Arrived (ownerOf rqst) (arrivalsWith rqst r arrivals) groups' := by
  have hmem : ∀ q, q ∈ requests groups' ↔ q = r ∨ q ∈ requests groups := fun q => by
    rw [he.perm.mem_iff, mem_cons]
  have hnew : ∀ q ∈ arrivalsWith rqst r arrivals, q ∈ arrivals ∨ q = r := fun q hq => by
    unfold arrivalsWith at hq
    split at hq
    · simpa using hq
    · exact .inl hq
  have hold : ∀ q ∈ arrivals, q ∈ arrivalsWith rqst r arrivals := fun q hq => by
    unfold arrivalsWith
    split
    · exact mem_append_left _ hq
    · exact hq
  refine ⟨fun q hq => (hmem q).2 ((hnew q hq).symm.imp_right (ha.queued q)), ?_, ?_⟩
  · unfold arrivalsWith
    split
    · rw [← concat_eq_append]
      exact List.Nodup.concat (fun hq => hr (ha.queued r hq)) ha.fresh
    · exact ha.fresh
  · cases he with
    | special xs ys hplain =>
      intro g hg m hm
      rcases mem_split.1 hg with rfl | hin
      · simp at hm
      · exact (ha.waiting g hin m hm).imp_left (hold m)
    | join xs ys h ms hplain howner hfirst =>
      intro g hg m hm
      rcases mem_split.1 hg with rfl | hin
      · rcases mem_append.1 hm with hms | hmr
        · exact (ha.waiting _ (mem_split.2 (.inl rfl)) m hms).imp_left (hold m)
        · rw [mem_singleton.1 hmr]
          exact ⟨by simp [arrivalsWith, hplain], howner.symm⟩
      · exact (ha.waiting g (mem_split.2 (.inr hin)) m hm).imp_left (hold m)
    | first _ hplain hfirst =>
      exact forall_mem_append.2 ⟨fun g hg m hm => (ha.waiting g hg m hm).imp_left (hold m), forall_mem_singleton.2 nofun⟩

theorem Arrived.dequeue (ha : Arrived owner arrivals groups) (honce : (requests groups).Nodup)
    (hd : Dequeued r groups groups') : Arrived owner (arrivals.erase r) groups' := by
  have hmem : ∀ q, q ∈ requests groups ↔ q = r ∨ q ∈ requests groups' := fun q => by
    rw [hd.perm.mem_iff, mem_cons]
  have hnot : r ∉ requests groups' := (nodup_cons.1 (hd.perm.nodup_iff.1 honce)).1
  refine ⟨fun q hq => ?_, ha.fresh.erase r, fun g hg m hm => ?_⟩
  · obtain ⟨hne, hq⟩ := (ha.fresh.mem_erase_iff).1 hq
    exact ((hmem q).1 (ha.queued q hq)).resolve_left hne
  · have hne : m ≠ r := fun heq => hnot (heq ▸ member_mem_requests hg hm)
    rw [ha.fresh.mem_erase_iff]
    suffices hwait : m ∈ arrivals ∧ owner m = owner g.1 from ⟨⟨hne, hwait.1⟩, hwait.2⟩
    cases hd with
    | last xs ys => exact ha.waiting g (mem_split.2 (.inr hg)) m hm
    | head xs ys m₀ ms =>
      rcases mem_append.1 hg with hin | hlast
      · exact ha.waiting g (mem_split.2 (.inr hin)) m hm
      have hgroup := ha.waiting (r, m₀ :: ms) (mem_split.2 (.inl rfl))
      rw [mem_singleton.1 hlast] at hm ⊢
      obtain ⟨hin, howner⟩ := hgroup m (mem_cons_of_mem m₀ hm)
      exact ⟨hin, howner.trans (hgroup m₀ mem_cons_self).2.symm⟩
    | member xs ys h ms ms' =>
      rcases mem_split.1 hg with rfl | hin
      · refine ha.waiting (h, ms ++ r :: ms') (mem_split.2 (.inl rfl)) m ?_
        simp only [mem_append, mem_cons] at hm ⊢
        exact hm.imp_right .inr
      · exact ha.waiting g (mem_split.2 (.inr hin)) m hm

/-- Of the heads of owner `o` only the first has others behind it. -/
def OneRing (owner : Nat → Nat) (o : Nat) (groups : List (Nat × List Nat)) : Prop :=
  ∀ g ∈ (groups.filter fun g => owner g.1 = o).tail, g.2 = []
deriving Decidable

theorem OneRing.not_busy {xs ys : List (Nat × List Nat)} {g : Nat × List Nat} (h : OneRing owner o (xs ++ g :: ys))
    (hxs : ∀ g ∈ xs, owner g.1 ≠ o) (hg : owner g.1 = o) : busy owner o xs = 0 ∧ busy owner o ys = 0 := by
  refine ⟨busy_eq_zero hxs, countP_eq_zero.2 fun g' hg' => ?_⟩
  have hnil : (xs.filter fun g => owner g.1 = o) = [] := filter_eq_nil_iff.2 fun g hg => by simpa using hxs g hg
  have htail := h g'
  rw [filter_append, hnil, filter_cons_of_pos (by simpa using hg)] at htail
  simp only [decide_eq_true_eq, not_and, not_not]
  exact fun howner => htail (mem_filter.2 ⟨hg', by simpa using howner⟩)

/-- **An enqueue keeps the order** if the request joins those that wait. -/
theorem Lined.enqueue (hl : Lined (ownerOf rqst) o arrivals groups) (ha : Arrived (ownerOf rqst) arrivals groups)
    (hr : r ∉ requests groups) (he : Enqueued rqst r groups groups')
    (hone : (rqst r).plain = true → (rqst r).tkOwner = o → OneRing (ownerOf rqst) o groups) :
    Lined (ownerOf rqst) o (arrivalsWith rqst r arrivals) groups' := by
  set owner := ownerOf rqst
  have hnot : r ∉ arrivals := fun hmem => hr (ha.queued r hmem)
  have hheads : ∀ g ∈ groups, g.1 ∈ arrivals ↔ g.1 ∈ arrivals ++ [r] := fun g hg => by
    have hne : g.1 ≠ r := fun heq => hr (heq ▸ head_mem_requests hg)
    simp [hne]
  obtain ⟨horder, hbusy⟩ := hl
  cases he with
  | special xs ys hplain =>
    simp only [arrivalsWith, hplain, Bool.false_eq_true, if_false]
    refine ⟨?_, ?_⟩
    · rw [horder]
      simp [hnot]
    · simpa using hbusy
  | join xs ys h ms hplain howner hfirst =>
    have hown : owner h = owner r := howner
    simp only [arrivalsWith, hplain, if_true]
    have hplainHeads : plainHeads owner o (arrivals ++ [r]) (xs ++ (h, ms ++ [r]) :: ys) =
        plainHeads owner o arrivals (xs ++ (h, ms) :: ys) := by
      rw [plainHeads_congr hheads]
      simp
    by_cases ho : owner r = o
    · obtain ⟨hxs, hys⟩ := (hone hplain ho).not_busy (fun g hg => ho ▸ hfirst g hg) (hown.trans ho)
      refine ⟨?_, ?_⟩
      · rw [hplainHeads, filter_append, horder]
        simp [waitingOf_of_not_busy hxs, waitingOf_of_not_busy hys, hown, ho]
      · simp [hxs, hys, hown, ho]
    refine ⟨?_, ?_⟩
    · rw [hplainHeads, filter_append, horder]
      simp [hown, ho]
    · simpa [hown, ho] using hbusy
  | first _ hplain hfirst =>
    simp only [arrivalsWith, hplain, if_true]
    by_cases ho : owner r = o
    · have hnone : ∀ g ∈ groups, owner g.1 ≠ o := fun g hg => ho ▸ hfirst g hg
      refine ⟨?_, ?_⟩
      · simp [horder, plainHeads_eq_nil hnone, waitingOf_eq_nil hnone, ho]
      · simp [busy_eq_zero hnone]
    refine ⟨?_, ?_⟩
    · rw [filter_append, horder, plainHeads_append, ← plainHeads_congr hheads]
      simp [ho]
    · simpa using hbusy

theorem Lined.dequeue (hl : Lined owner o arrivals groups) (ha : Arrived owner arrivals groups)
    (honce : (requests groups).Nodup) (hd : Dequeued r groups groups') : Lined owner o (arrivals.erase r) groups' := by
  have hnot : r ∉ requests groups' := (nodup_cons.1 (hd.perm.nodup_iff.1 honce)).1
  have hheads : ∀ g ∈ groups', g.1 ∈ arrivals ↔ g.1 ∈ arrivals.erase r := fun g hg => by
    have hne : g.1 ≠ r := fun heq => hnot (heq ▸ head_mem_requests hg)
    simp [ha.fresh.mem_erase_iff, hne]
  obtain ⟨horder, hbusy⟩ := hl
  -- both sides without `r`: nothing else of the new groups is lost by that
  have hkeep : ((plainHeads owner o arrivals groups' ++ waitingOf owner o groups').filter fun q => q != r) =
      plainHeads owner o arrivals groups' ++ waitingOf owner o groups' := by
    refine filter_eq_self.2 fun q hq => ?_
    have hin : q ∈ requests groups' := (mem_append.1 hq).elim plainHeads_subset waitingOf_subset
    simpa using fun heq : q = r => hnot (heq ▸ hin)
  have hfilter : ((arrivals.erase r).filter fun q => owner q = o) =
      (plainHeads owner o arrivals groups ++ waitingOf owner o groups).filter fun q => q != r := by
    rw [ha.fresh.erase_eq_filter, ← horder, filter_filter, filter_filter]
    simp [Bool.and_comm]
  have hgone : ∀ p : Prop, ∀ [Decidable p], ((if p then [r] else []).filter fun q => q != r) = [] := fun p _ => by
    split <;> simp
  refine ⟨?_, ?_⟩
  · rw [hfilter, ← plainHeads_congr hheads, ← hkeep]
    cases hd with
    | last xs ys => simp [hgone]
    | head xs ys m ms =>
      obtain ⟨hm, howner⟩ := ha.waiting (r, m :: ms) (mem_split.2 (.inl rfl)) m mem_cons_self
      by_cases ho : owner r = o
      · have hzero : busy owner o xs = 0 ∧ busy owner o ys = 0 := by
          simp [ho] at hbusy
          omega
        simp [waitingOf_of_not_busy hzero.1, waitingOf_of_not_busy hzero.2, hgone, hm, howner, ho]
      · simp [howner, ho]
    | member xs ys h ms ms' =>
      by_cases ho : owner h = o <;> simp [ho]
  · cases hd with
    | last xs ys => simpa using hbusy
    | head xs ys m ms =>
      obtain ⟨-, howner⟩ := ha.waiting (r, m :: ms) (mem_split.2 (.inl rfl)) m mem_cons_self
      by_cases ho : owner r = o
      · simp [ho, howner] at hbusy ⊢
        split <;> omega
      · simpa [ho, howner] using hbusy
    | member xs ys h ms ms' =>
      by_cases ho : owner h = o
      · simp [ho] at hbusy ⊢
        split <;> omega
      · simpa [ho] using hbusy

end

/-! ## Runs -/

/-- **In order**: the heads of owner `o` that came without a credit and a sequence number are the first of
those that came, in the same order. -/
def InOrder (o : Nat) (s : XmitQueue) : Prop :=
  plainHeads (ownerOf s.rqst) o s.arrivals (groupsOf s) <+: s.arrivals.filter fun r => ownerOf s.rqst r = o

/-- A request of owner `o` without a credit and a sequence number is enqueued only while of the heads of
`o` at most the first has others behind it. -/
def KeepsOrder (o : Nat) (s : XmitQueue) : XmitEvent → Prop
  | .enqueue r => (s.rqst r).needXmit = false → (s.rqst r).plain = true → (s.rqst r).tkOwner = o →
      OneRing (ownerOf s.rqst) o (groupsOf s)
  | _ => True

instance (o : Nat) (s : XmitQueue) (e : XmitEvent) : Decidable (KeepsOrder o s e) := by
  cases e <;> dsimp only [KeepsOrder] <;> infer_instance

/-- The queue holds `groups`, and those of them that came are known. -/
structure Tracked (s : XmitQueue) (groups : List (Nat × List Nat)) : Prop where
  holds : Holds s groups
  arrived : Arrived (ownerOf s.rqst) s.arrivals groups

section

variable {s s' : XmitQueue} {groups : List (Nat × List Nat)} {o r : Nat} {e : XmitEvent} {owner' owner : Nat → Nat}
  {arrivals : List Nat}

theorem ownerOf_setNeedXmit (b : Bool) : ownerOf (s.setNeedXmit r b) = ownerOf s.rqst := by
  funext q
  by_cases hq : q = r <;> simp [ownerOf, XmitQueue.setNeedXmit, setRqst, hq]

theorem Arrived.congr (ha : Arrived owner arrivals groups) (h : ∀ q ∈ requests groups, owner' q = owner q) :
    Arrived owner' arrivals groups := by
  refine ⟨ha.queued, ha.fresh, fun g hg m hm => ?_⟩
  rw [h m (member_mem_requests hg hm), h g.1 (head_mem_requests hg)]
  exact ha.waiting g hg m hm

theorem Lined.congr (hl : Lined owner o arrivals groups) (ha : Arrived owner arrivals groups)
    (h : ∀ q ∈ requests groups, owner' q = owner q) : Lined owner' o arrivals groups := by
  have hheads : ∀ g ∈ groups, owner' g.1 = owner g.1 := fun g hg => h g.1 (head_mem_requests hg)
  have hfilter : (arrivals.filter fun q => owner' q = o) = arrivals.filter fun q => owner q = o :=
    filter_congr fun q hq => by rw [h q (ha.queued q hq)]
  have hplain : plainHeads owner' o arrivals groups = plainHeads owner o arrivals groups :=
    filter_congr fun q hq => by
      obtain ⟨g, hg, rfl⟩ := mem_map.1 hq
      rw [hheads g hg]
  have hwaiting : waitingOf owner' o groups = waitingOf owner o groups :=
    flatMap_congr fun g hg => by rw [hheads g hg]
  have hbusy : busy owner' o groups = busy owner o groups :=
    countP_congr fun g hg => by rw [hheads g hg]
  exact ⟨by rw [hfilter, hplain, hwaiting]; exact hl.order, by rw [hbusy]; exact hl.one⟩

theorem Lined.inOrder (hs : Holds s groups) (hl : Lined (ownerOf s.rqst) o s.arrivals groups) : InOrder o s := by
  rw [InOrder, hs.groupsOf_eq, hl.order]
  exact prefix_append _ _

theorem Tracked.congr {rqst : Nat → XmitRqst} (ht : Tracked s groups) (hflag : ∀ q, (rqst q).needXmit = (s.rqst q).needXmit)
    (howner : ∀ q ∈ requests groups, ownerOf rqst q = ownerOf s.rqst q) : Tracked { s with rqst := rqst } groups := by
  refine ⟨⟨ht.holds.rings, fun q => ?_, ht.holds.counted⟩, ht.arrived.congr howner⟩
  rw [ht.holds.flagged q, hflag q]

/-- **One step** succeeds, keeps the queue sound and, under the condition, the order. -/
theorem xmitStep_tracked (ht : Tracked s groups) (e : XmitEvent) :
    ∃ s' groups', xmitStep s e = some s' ∧ Tracked s' groups' ∧
      ∀ o, KeepsOrder o s e → Lined (ownerOf s.rqst) o s.arrivals groups → Lined (ownerOf s'.rqst) o s'.arrivals groups' := by
  cases e with
  | enqueue r =>
    cases hr : (s.rqst r).needXmit with
    | true => exact ⟨s, groups, by simp [xmitStep, xprtRequestEnqueueTransmit, hr], ht, fun _ _ hl => hl⟩
    | false =>
      obtain ⟨s', groups', hstep, hholds, henq, hrqst, harr⟩ := enqueue_holds ht.holds hr
      have hnot := ht.holds.not_mem hr
      have howner : ownerOf s'.rqst = ownerOf s.rqst := by rw [hrqst, ownerOf_setNeedXmit]
      refine ⟨s', groups', hstep, ⟨hholds, ?_⟩, fun o hkeep hl => ?_⟩
      · rw [howner, harr]
        exact ht.arrived.enqueue hnot henq
      · rw [howner, harr]
        refine hl.enqueue ht.arrived hnot henq fun hplain ho => ?_
        have hone := hkeep hr hplain ho
        rwa [ht.holds.groupsOf_eq] at hone
  | dequeue r =>
    cases hr : (s.rqst r).needXmit with
    | false => exact ⟨s, groups, by simp [xmitStep, xprtRequestDequeueTransmitLocked, hr], ht, fun _ _ hl => hl⟩
    | true =>
      obtain ⟨s', groups', hstep, hholds, hdeq, hrqst, harr⟩ := dequeue_holds ht.holds hr
      have howner : ownerOf s'.rqst = ownerOf s.rqst := by rw [hrqst, ownerOf_setNeedXmit]
      refine ⟨s', groups', hstep, ⟨hholds, ?_⟩, fun o _ hl => ?_⟩
      · rw [howner, harr]
        exact ht.arrived.dequeue ht.holds.rings.once hdeq
      · rw [howner, harr]
        exact hl.dequeue ht.arrived ht.holds.rings.once hdeq
  | mark r rqCong rqSeqno =>
    have howner : ∀ q ∈ requests groups,
        ownerOf (setRqst s.rqst r { s.rqst r with rqCong := rqCong, rqSeqno := rqSeqno }) q = ownerOf s.rqst q := by
      intro q _
      by_cases hq : q = r <;> simp [ownerOf, setRqst, hq]
    refine ⟨_, groups, rfl, ht.congr (fun q => ?_) howner, fun o _ hl => hl.congr ht.arrived howner⟩
    by_cases hq : q = r <;> simp [setRqst, hq]
  | assign r owner =>
    cases hr : (s.rqst r).needXmit with
    | true => exact ⟨s, groups, by simp [xmitStep, hr], ht, fun _ _ hl => hl⟩
    | false =>
      have hnew : xmitStep s (.assign r owner) = some { s with rqst := setRqst s.rqst r { s.rqst r with tkOwner := owner } } := by
        simp [xmitStep, hr]
      -- the request is not on the queue
      have howner : ∀ q ∈ requests groups, ownerOf (setRqst s.rqst r { s.rqst r with tkOwner := owner }) q = ownerOf s.rqst q := by
        intro q hq
        have hne : q ≠ r := fun heq => ht.holds.not_mem hr (heq ▸ hq)
        simp [ownerOf, setRqst, hne]
      refine ⟨_, groups, hnew, ht.congr (fun q => ?_) howner, fun o _ hl => hl.congr ht.arrived howner⟩
      by_cases hq : q = r <;> simp [setRqst, hq]

end

/-! ## Overtaking -/

section

variable {s : XmitQueue} {groups xs ys : List (Nat × List Nat)} {g : Nat × List Nat} {o r h m w : Nat} {ms : List Nat}

theorem Tracked.dequeue_head (ht : Tracked s (xs ++ (h, m :: ms) :: ys)) :
    ∃ s', xmitStep s (.dequeue h) = some s' ∧ Tracked s' (xs ++ ys ++ [(m, ms)]) ∧ ownerOf s'.rqst = ownerOf s.rqst ∧
      s'.arrivals = s.arrivals.erase h := by
  have hr : (s.rqst h).needXmit = true := (ht.holds.flagged h).1 (head_mem_requests (mem_split.2 (.inl rfl)))
  have hdeq := Dequeued.head (r := h) xs ys m ms
  obtain ⟨L', hlinks, hrings⟩ := ht.holds.rings.dequeue_head
  obtain ⟨s', hstep, hholds, hrqst, harr⟩ := ht.holds.dequeue_of hr hlinks hrings hdeq
  have howner : ownerOf s'.rqst = ownerOf s.rqst := by rw [hrqst, ownerOf_setNeedXmit]
  refine ⟨s', hstep, ⟨hholds, ?_⟩, howner, harr⟩
  rw [howner, harr]
  exact ht.arrived.dequeue ht.holds.rings.once hdeq

theorem erase_concat (hne : h ≠ r) (l : List Nat) : ∃ l', (l ++ [r]).erase h = l' ++ [r] := by
  by_cases hmem : h ∈ l
  · exact ⟨l.erase h, erase_append_left [r] hmem⟩
  · refine ⟨l, ?_⟩
    rw [erase_append_right [r] hmem, erase_of_not_mem (by simpa using hne)]

theorem Tracked.promote (ht : Tracked s (xs ++ (h, ms ++ [r]) :: ys)) (hlast : ∃ l, s.arrivals = l ++ [r]) (hg : g ∈ xs ++ ys) :
    ∃ es t groups, run xmitStep s es = some t ∧ Tracked t groups ∧ r ∈ headsOf groups ∧ g ∈ groups ∧
      (∃ l, t.arrivals = l ++ [r]) ∧ ownerOf t.rqst = ownerOf s.rqst := by
  have hne : h ≠ r := by
    rintro rfl
    exact (nodup_cons.1 (once_group ht.holds.rings.once)).1 (by simp)
  obtain ⟨l, hl⟩ := hlast
  obtain ⟨l', hl'⟩ := erase_concat hne l
  -- by induction on those before it: the first of them is the next head
  induction ms generalizing s h xs ys l l' with
  | nil =>
    obtain ⟨s', hstep, ht', howner, harr⟩ := ht.dequeue_head
    refine ⟨[.dequeue h], s', _, ?_, ht', by simp [headsOf], mem_append_left _ hg, ⟨l', ?_⟩, howner⟩
    · rw [run, hstep]
      rfl
    · rw [harr, hl, hl']
  | cons m ms ih =>
    obtain ⟨s', hstep, ht', howner, harr⟩ := ht.dequeue_head
    have hne' : m ≠ r := by
      rintro rfl
      have hgroup := once_group ht.holds.rings.once
      exact (nodup_cons.1 (nodup_cons.1 hgroup).2).1 (by simp)
    obtain ⟨l'', hl''⟩ := erase_concat hne' l'
    obtain ⟨es, t, groups, hrun, hrest⟩ := ih ht' (by simpa using hg) hne' l' (by rw [harr, hl, hl']) l'' hl''
    rw [howner] at hrest
    refine ⟨.dequeue h :: es, t, groups, ?_, hrest⟩
    rw [run, hstep]
    exact hrun

theorem Tracked.not_inOrder (ht : Tracked s groups) (hr : r ∈ headsOf groups) (hlast : ∃ l, s.arrivals = l ++ [r])
    (hg : g ∈ groups) (hw : w ∈ g.2) (hgo : ownerOf s.rqst g.1 = o) (hro : ownerOf s.rqst r = o) : ¬ InOrder o s := by
  obtain ⟨l, hl⟩ := hlast
  obtain ⟨hwin, hwo⟩ := ht.arrived.waiting g hg w hw
  have hwhead : w ∉ headsOf groups := once_not_head ht.holds.rings.once hg hw
  have hrl : r ∉ l := fun hmem => by
    have hfresh := ht.arrived.fresh
    rw [hl] at hfresh
    exact (nodup_append.1 hfresh).2.2 r hmem r (by simp) rfl
  intro horder
  rw [InOrder, ht.holds.groupsOf_eq] at horder
  have hrmem : r ∈ plainHeads (ownerOf s.rqst) o s.arrivals groups :=
    mem_filter.2 ⟨hr, by simp [hl, hro]⟩
  have hwmem : w ∈ s.arrivals.filter fun q => ownerOf s.rqst q = o := mem_filter.2 ⟨hwin, by simp [hwo, hgo]⟩
  have hsplit : (s.arrivals.filter fun q => ownerOf s.rqst q = o) = (l.filter fun q => ownerOf s.rqst q = o) ++ [r] := by
    simp [hl, hro]
  rw [hsplit] at horder
  rcases prefix_concat_iff.1 horder with hall | hsome
  · rw [hsplit, ← hall] at hwmem
    exact hwhead (mem_of_mem_filter hwmem)
  · exact hrl (mem_of_mem_filter (hsome.subset hrmem))

/-- **A step that misses the condition** can be continued to a state that breaks the order. -/
theorem Tracked.overtakes {e : XmitEvent} (ht : Tracked s groups) (hkeep : ¬ KeepsOrder o s e) :
    ∃ es t, run xmitStep s (e :: es) = some t ∧ ¬ InOrder o t := by
  cases e with
  | enqueue r =>
    simp only [KeepsOrder, ht.holds.groupsOf_eq, OneRing, not_forall] at hkeep
    obtain ⟨hr, hplain, hro, g, hg, hms⟩ := hkeep
    obtain ⟨s', groups', hstep, hholds, henq, hrqst, harr⟩ := enqueue_holds ht.holds hr
    set owner := ownerOf s.rqst
    have howner : ownerOf s'.rqst = owner := by rw [hrqst, ownerOf_setNeedXmit]
    have harrived : Arrived (ownerOf s'.rqst) s'.arrivals groups' := by
      rw [howner, harr]
      exact ht.arrived.enqueue (ht.holds.not_mem hr) henq
    have hlast : ∃ l, s'.arrivals = l ++ [r] := ⟨s.arrivals, by rw [harr, if_pos hplain]⟩
    cases henq with
    | special _ _ hspecial =>
      rw [hplain] at hspecial
      cases hspecial
    | first _ _ hfirst =>
      have hnil : (groups.filter fun g => owner g.1 = o) = [] :=
        filter_eq_nil_iff.2 fun g hg => by
          simpa using fun heq : owner g.1 = o => hfirst g hg (heq.trans hro.symm)
      rw [hnil] at hg
      cases hg
    | join xs ys h ms _ hho hfirst =>
      have hnil : (xs.filter fun g => owner g.1 = o) = [] :=
        filter_eq_nil_iff.2 fun g hg => by
          simpa using fun heq : owner g.1 = o => hfirst g hg (heq.trans hro.symm)
      have hho' : owner h = o := hho.trans hro
      rw [filter_append, hnil, nil_append, filter_cons_of_pos (by simpa using hho'), tail_cons,
        mem_filter, decide_eq_true_eq] at hg
      obtain ⟨w, ws, hws⟩ := exists_cons_of_ne_nil hms
      obtain ⟨es, t, groups, hrun, ht', hhead, hin, hlast', howner'⟩ :=
        Tracked.promote ⟨hholds, harrived⟩ hlast (mem_append_right xs hg.1)
      rw [howner] at howner'
      refine ⟨es, t, ?_, ht'.not_inOrder hhead hlast' hin (by rw [hws]; exact mem_cons_self) ?_ ?_⟩
      · rw [run]
        simp only [xmitStep, hstep]
        exact hrun
      · rw [howner']
        exact hg.2
      · rw [howner']
        exact hro
  | dequeue | mark | assign => exact absurd trivial hkeep

end

/-! ## The transmit queue -/

section

variable {o : Nat} {es : List XmitEvent}

theorem tracked_emptyQueue : Tracked emptyQueue [] := ⟨holds_emptyQueue, ⟨by simp [emptyQueue], nodup_nil, by simp⟩⟩

theorem xmitStep_total (s : XmitQueue) (e : XmitEvent) (h : ∃ groups, Tracked s groups) :
    ∃ t, xmitStep s e = some t ∧ ∃ groups, Tracked t groups := by
  obtain ⟨groups, ht⟩ := h
  obtain ⟨s', groups', hstep, ht', -⟩ := xmitStep_tracked ht e
  exact ⟨s', hstep, groups', ht'⟩

theorem always_xmitSound : Always xmitStep XmitSound emptyQueue es := by
  refine always_imp (P := fun s => ∃ groups, Tracked s groups) ?_ (always_of_invariant ?_ ⟨[], tracked_emptyQueue⟩)
  · rintro s ⟨groups, ht⟩
    exact ht.holds.xmitSound
  · intro s e t h hstep
    obtain ⟨t', hstep', ht'⟩ := xmitStep_total s e h
    cases hstep.symm.trans hstep'
    exact ht'

theorem always_inOrder (hkeep : EachStep xmitStep (KeepsOrder o) emptyQueue es) :
    Always xmitStep (InOrder o) emptyQueue es := by
  refine always_of_eachStep (J := fun s => ∃ groups, Tracked s groups ∧ Lined (ownerOf s.rqst) o s.arrivals groups) ?_
    (fun ⟨_, ht, hl⟩ => hl.inOrder ht.holds) ⟨[], tracked_emptyQueue, rfl, Nat.zero_le 1⟩ hkeep
  · rintro s e t ⟨groups, ht, hl⟩ hC hstep
    obtain ⟨t', groups', hstep', ht', hlined⟩ := xmitStep_tracked ht e
    cases hstep.symm.trans hstep'
    exact ⟨groups', ht', hlined o hC hl⟩

/-- **The transmit queue.**  Every run of enqueues and dequeues can be made and keeps the queue sound: the
requests that are to be sent are on it once, no others are, and `xmit_queuelen` is their number. Requests of
one owner without a credit and a sequence number become heads in the order in which they came in every run
whose steps meet the condition, and a step that misses it can be continued to a state that breaks the order. -/
theorem transmit_queue (es : List XmitEvent) :
    (∃ s, run xmitStep emptyQueue es = some s) ∧ Always xmitStep XmitSound emptyQueue es ∧
      ∀ o, (EachStep xmitStep (KeepsOrder o) emptyQueue es → Always xmitStep (InOrder o) emptyQueue es) ∧
        ∀ s e, run xmitStep emptyQueue es = some s → ¬ KeepsOrder o s e →
          ∃ es' t, run xmitStep s (e :: es') = some t ∧ ¬ InOrder o t := by
  obtain ⟨s', hrun, groups, ht⟩ := run_total xmitStep_total ⟨[], tracked_emptyQueue⟩ es
  refine ⟨⟨s', hrun⟩, always_xmitSound, fun o => ⟨always_inOrder, ?_⟩⟩
  intro s e hs hkeep
  cases hrun.symm.trans hs
  exact ht.overtakes hkeep

end

/-- The third request waits behind the second one, which follows the first. -/
theorem transmit_queue_one_owner :
    let es : List XmitEvent := [.enqueue 1, .enqueue 2, .dequeue 1, .enqueue 3, .dequeue 2]
    EachStep xmitStep (KeepsOrder 0) emptyQueue es ∧ Always xmitStep (InOrder 0) emptyQueue es := by
  have hkeep : EachStep xmitStep (KeepsOrder 0) emptyQueue
      [.enqueue 1, .enqueue 2, .dequeue 1, .enqueue 3, .dequeue 2] := by decide
  exact ⟨hkeep, ((transmit_queue _).2.2 0).1 hkeep⟩

/-- Requests 1, 2 and 3 of one owner come without a credit, and request 4 comes with one before 3 does. -/
def overtakenRun : List XmitEvent := [.mark 4 true 0, .enqueue 1, .enqueue 2, .enqueue 4, .enqueue 3, .dequeue 4]

/-- Request 3 waits behind 4 and is a head before 2, which waits behind 1. -/
theorem overtaken_not_in_order :
    ∃ s, run xmitStep emptyQueue overtakenRun = some s ∧ s.arrivals = [1, 2, 3] ∧ groupsOf s = [(1, [2]), (3, [])] ∧
      ¬ InOrder 0 s := by
  refine ⟨_, rfl, by decide, by decide, ?_⟩
  show ¬ _ <+: _
  decide

end Vastnfs.Sunrpc
