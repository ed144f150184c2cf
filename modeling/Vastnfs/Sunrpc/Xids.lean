import Vastnfs.Lib.Runs
import Vastnfs.Lib.SearchTrees
import Mathlib.Data.Nat.Basic

/-!
# XIDs and replies

A reply is matched to its request by the XID. XIDs are drawn from a counter (`struct rpc_xids`): a
transport has one of its own until `xprt_switch_add_xprt_locked` gives it that of the switch. Requests
that expect a reply are in the tree `recv_queue` of their transport (`net/sunrpc/xprt.c`).

* `XidInv`: what every step keeps as long as no XID is drawn that is in use.
* `replies_unambiguous`: then replies are matched to the right requests; a draw that misses the
  condition can be continued to two requests with one XID.
* `joined_with_same_xid`: a transport joins with a request outstanding, and the counter of the switch
  gives out its XID again.
-/

namespace Vastnfs.Sunrpc

open Runs Option SearchTrees
open SearchTrees (toList Sorted)

/-! ## The functions -/

/-- `rb_insert_color` and `rb_erase`: they keep the order of the nodes. -/
structure RbOps where
  insertColor : BinaryTree Nat → BinaryTree Nat
  erase : BinaryTree Nat → Nat → BinaryTree Nat
  toList_insertColor : ∀ t, SearchTrees.toList (insertColor t) = SearchTrees.toList t
  toList_erase : ∀ t r, r ∈ SearchTrees.toList t → SearchTrees.toList (erase t r) = (SearchTrees.toList t).erase r

/-- `struct rpc_rqst` of a request that is outstanding. -/
structure XidRqst where
  (rqXprt rqXid : Nat)
  /-- The XID space and the number of the draw. Nothing depends on it. -/
  draw : Nat × Nat
  needRecv : Bool := false
  rqReplyBytesRecvd : Nat := 0
  deriving DecidableEq

structure XidWorld where
  /-- `next` of each XID space, as a number that does not wrap around; space 0 is that of the switch. -/
  next : Nat → Nat
  /-- `xid_space` of each transport. -/
  xidSpace : Nat → Nat
  rqst : Nat → Option XidRqst
  /-- `recv_queue` of each transport. -/
  recvQueue : Nat → BinaryTree Nat

/-- Transports that have not joined yet, with XID spaces of their own. The counters start anywhere. -/
def newSwitch (seed : Nat → Nat) : XidWorld where
  next := seed
  xidSpace := fun x => x + 1
  rqst := fun _ => none
  recvQueue := fun _ => .nil

def XidWorld.xidOf (w : XidWorld) (r : Nat) : Nat := ((w.rqst r).map XidRqst.rqXid).getD 0

def XidWorld.setRqst (w : XidWorld) (r : Nat) (q : Option XidRqst) : Nat → Option XidRqst :=
  fun r' => if r' = r then q else w.rqst r'

def XidWorld.setQueue (w : XidWorld) (x : Nat) (t : BinaryTree Nat) : Nat → BinaryTree Nat :=
  fun x' => if x' = x then t else w.recvQueue x'

/-- `xprt_switch_add_xprt_locked` gives the transport the XID space of the switch. -/
def xchgXidSpace (w : XidWorld) (x : Nat) : XidWorld :=
  { w with xidSpace := fun x' => if x' = x then 0 else w.xidSpace x' }

/-- `xid_space_new_xid` draws number `next + 1`. -/
def xidSpaceNewXid (n : Nat) : Nat := (n + 1) % 2 ^ 32

def newRqst (w : XidWorld) (x : Nat) : XidRqst where
  rqXprt := x
  rqXid := xidSpaceNewXid (w.next (w.xidSpace x))
  draw := (w.xidSpace x, w.next (w.xidSpace x) + 1)

def xprtRequestInit (w : XidWorld) (r x : Nat) : XidWorld :=
  { w with
    next := fun sp => if sp = w.xidSpace x then w.next (w.xidSpace x) + 1 else w.next sp
    rqst := w.setRqst r (some (newRqst w x)) }

/-- A request whose XID is there is not linked. -/
def xprtRequestRbInsert (rb : RbOps) (w : XidWorld) (t : BinaryTree Nat) (new : Nat) : BinaryTree Nat :=
  match SearchTrees.insert w.xidOf new t with
  | none => t
  | some t => rb.insertColor t

def xprtRequestEnqueueReceive (rb : RbOps) (w : XidWorld) (r : Nat) (q : XidRqst) : XidWorld :=
  if q.needRecv || q.rqReplyBytesRecvd != 0 then w
  else
    { w with
      recvQueue := w.setQueue q.rqXprt (xprtRequestRbInsert rb w (w.recvQueue q.rqXprt) r)
      rqst := w.setRqst r (some { q with needRecv := true }) }

/-- `xprt_request_dequeue_receive_locked`, with what becomes of the request. -/
def xprtRequestDequeueReceiveLocked (rb : RbOps) (w : XidWorld) (r : Nat) (q : XidRqst) (q' : Option XidRqst) : XidWorld :=
  { w with
    recvQueue := if q.needRecv then w.setQueue q.rqXprt (rb.erase (w.recvQueue q.rqXprt) r) else w.recvQueue
    rqst := w.setRqst r q' }

def xprtCompleteRqst (rb : RbOps) (w : XidWorld) (r : Nat) (q : XidRqst) (copied : Nat) : XidWorld :=
  xprtRequestDequeueReceiveLocked rb w r q (some { q with needRecv := false, rqReplyBytesRecvd := copied })

def callEncode (rb : RbOps) (w : XidWorld) (r : Nat) (q : XidRqst) : XidWorld :=
  xprtRequestDequeueReceiveLocked rb w r q (some { q with needRecv := false, rqReplyBytesRecvd := 0 })

def xprtReleaseRqst (rb : RbOps) (w : XidWorld) (r : Nat) (q : XidRqst) : XidWorld :=
  xprtRequestDequeueReceiveLocked rb w r q none

def xprtLookupRqst (w : XidWorld) (x xid : Nat) : Option Nat := SearchTrees.find w.xidOf xid (w.recvQueue x)

inductive XidEvent where
  | join (x : Nat)
  | init (r x : Nat)
  | enqueueReceive (r : Nat)
  | complete (r copied : Nat)
  | encode (r : Nat)
  | release (r : Nat)
  deriving DecidableEq

/-- One step. A slot that is in use is not initialised. -/
def xidStep (rb : RbOps) (w : XidWorld) : XidEvent → Option XidWorld
  | .join x => some (xchgXidSpace w x)
  | .init r x => if w.rqst r = none then some (xprtRequestInit w r x) else none
  | .enqueueReceive r => (w.rqst r).map fun q => xprtRequestEnqueueReceive rb w r q
  | .complete r copied => (w.rqst r).map fun q => xprtCompleteRqst rb w r q copied
  | .encode r => (w.rqst r).map fun q => callEncode rb w r q
  | .release r => (w.rqst r).map fun q => xprtReleaseRqst rb w r q

/-! ## What is asked for -/

/-- **Replies are matched unambiguously**: the requests of a transport that expect a reply are in its tree,
no two of them have one XID, and a search for an XID finds exactly the request that has it. -/
structure Unambiguous (w : XidWorld) : Prop where
  linked : ∀ x r, r ∈ SearchTrees.toList (w.recvQueue x) ↔ ∃ q, w.rqst r = some q ∧ q.rqXprt = x ∧ q.needRecv = true
  distinct : ∀ r r' q q', w.rqst r = some q → w.rqst r' = some q' → q.needRecv = true → q'.needRecv = true →
    q.rqXprt = q'.rqXprt → q.rqXid = q'.rqXid → r = r'
  found : ∀ x xid r, xprtLookupRqst w x xid = some r ↔
    ∃ q, w.rqst r = some q ∧ q.rqXprt = x ∧ q.needRecv = true ∧ q.rqXid = xid

/-- Fewer than `2 ^ 32` XIDs are drawn from a space while a request that drew one of them is outstanding. -/
def FewDraws (w : XidWorld) : XidEvent → Prop
  | .init _ x => ∀ r q, w.rqst r = some q → q.draw.1 = w.xidSpace x → w.next (w.xidSpace x) + 1 < q.draw.2 + 2 ^ 32
  | _ => True

/-- The XID that is drawn is not that of an outstanding request of the transport which came from another
space. -/
def DrawsApart (w : XidWorld) : XidEvent → Prop
  | .init _ x => ∀ r q, w.rqst r = some q → q.rqXprt = x → q.draw.1 ≠ w.xidSpace x →
      q.rqXid ≠ xidSpaceNewXid (w.next (w.xidSpace x))
  | _ => True

/-! ## What every step keeps -/

/-- The invariant: the trees, and where the XIDs of the outstanding requests come from. -/
structure XidInv (w : XidWorld) : Prop where
  linked : ∀ x r, r ∈ SearchTrees.toList (w.recvQueue x) ↔ ∃ q, w.rqst r = some q ∧ q.rqXprt = x ∧ q.needRecv = true
  sorted : ∀ x, SearchTrees.Sorted w.xidOf (w.recvQueue x)
  distinct : ∀ r r' q q', w.rqst r = some q → w.rqst r' = some q' → q.rqXprt = q'.rqXprt → q.rqXid = q'.rqXid → r = r'
  drawn : ∀ r q, w.rqst r = some q → q.rqXid = q.draw.2 % 2 ^ 32 ∧ q.draw.2 ≤ w.next q.draw.1

section

variable {rb : RbOps} {w w' : XidWorld} {r r' x : Nat} {q : XidRqst} {e : XidEvent} {q' : Option XidRqst}

theorem xidOf_eq (h : w.rqst r = some q) : w.xidOf r = q.rqXid := by simp [XidWorld.xidOf, h]

theorem setRqst_self (q : Option XidRqst) : w.setRqst r q r = q := if_pos rfl

theorem setRqst_of_ne (h : r' ≠ r) (q : Option XidRqst) : w.setRqst r q r' = w.rqst r' := if_neg h

theorem setRqst_cases (h : w.setRqst r q' r' = some q) : r' = r ∧ q' = some q ∨ w.rqst r' = some q := by
  by_cases hr : r' = r
  · exact .inl ⟨hr, by rwa [hr, setRqst_self] at h⟩
  · exact .inr (by rwa [setRqst_of_ne hr] at h)

theorem xidInv_newSwitch (seed : Nat → Nat) : XidInv (newSwitch seed) := by
  refine ⟨fun x r => ?_, fun x => List.Pairwise.nil, ?_, ?_⟩
  · simp [newSwitch, SearchTrees.toList]
  · nofun
  · nofun

theorem setQueue_self (t : BinaryTree Nat) : w.setQueue x t x = t := if_pos rfl

theorem setQueue_of_ne {x' : Nat} (h : x' ≠ x) (t : BinaryTree Nat) : w.setQueue x t x' = w.recvQueue x' := if_neg h

theorem setQueue_same (w : XidWorld) (x : Nat) : w.setQueue x (w.recvQueue x) = w.recvQueue := by
  funext x'
  by_cases hx : x' = x
  · rw [hx, setQueue_self]
  · rw [setQueue_of_ne hx]

/-- The request can stand as `r`: its XID was drawn, and no other request of its transport has it. -/
structure XidRqst.Fits (p : XidRqst) (w : XidWorld) (next : Nat → Nat) (r : Nat) : Prop where
  drawn : p.rqXid = p.draw.2 % 2 ^ 32 ∧ p.draw.2 ≤ next p.draw.1
  alone : ∀ r₁ q₁, w.rqst r₁ = some q₁ → q₁.rqXprt = p.rqXprt → q₁.rqXid = p.rqXid → r₁ = r

variable (hw : XidInv w)
include hw

theorem XidInv.unambiguous : Unambiguous w := by
  refine ⟨hw.linked, fun r r' q q' hq hq' _ _ => hw.distinct r r' q q' hq hq', fun x xid r => ?_⟩
  constructor
  · intro h
    obtain ⟨hmem, hkey⟩ := mem_of_find h
    obtain ⟨q, hq, hx, hneed⟩ := (hw.linked x r).1 hmem
    exact ⟨q, hq, hx, hneed, (xidOf_eq hq).symm.trans hkey⟩
  · rintro ⟨q, hq, hx, hneed, rfl⟩
    rw [← xidOf_eq hq]
    exact find_of_mem (hw.sorted x) ((hw.linked x r).2 ⟨q, hq, hx, hneed⟩)

theorem xidInv_join : XidInv (xchgXidSpace w x) :=
  ⟨hw.linked, hw.sorted, hw.distinct, hw.drawn⟩

theorem XidInv.change {t : BinaryTree Nat} {next : Nat → Nat} (hnext : ∀ sp, w.next sp ≤ next sp)
    (hnot : ∀ x', x' ≠ x → r ∉ toList (w.recvQueue x'))
    (hq' : ∀ p, q' = some p → p.rqXprt = x ∧ p.Fits w next r ∧ (r ∈ toList t → p.rqXid = w.xidOf r))
    (hsorted : Sorted w.xidOf t) (hself : r ∈ toList t ↔ ∃ p, q' = some p ∧ p.needRecv = true)
    (hmem : ∀ a, a ≠ r → (a ∈ toList t ↔ a ∈ toList (w.recvQueue x))) :
    XidInv { w with next := next, recvQueue := w.setQueue x t, rqst := w.setRqst r q' } := by
  have hkey : ∀ x' a, a ∈ toList (w.setQueue x t x') →
      XidWorld.xidOf { w with next := next, recvQueue := w.setQueue x t, rqst := w.setRqst r q' } a = w.xidOf a := by
    intro x' a ha
    by_cases har : a = r
    · subst har
      by_cases hx : x' = x
      · rw [hx, setQueue_self] at ha
        obtain ⟨p, hp, -⟩ := hself.1 ha
        rw [← (hq' p hp).2.2 ha]
        exact xidOf_eq ((setRqst_self q').trans hp)
      · rw [setQueue_of_ne hx] at ha
        exact absurd ha (hnot x' hx)
    · simp [XidWorld.xidOf, setRqst_of_ne har]
  refine ⟨fun x' a => ?_, fun x' => ?_, fun r₁ r₂ q₁ q₂ h₁ h₂ hx hxid => ?_, fun r₁ q₁ h₁ => ?_⟩
  · show a ∈ toList (w.setQueue x t x') ↔ ∃ p, w.setRqst r q' a = some p ∧ p.rqXprt = x' ∧ p.needRecv = true
    by_cases hx : x' = x
    · rw [hx, setQueue_self]
      by_cases har : a = r
      · rw [har, hself, setRqst_self]
        exact exists_congr fun p => ⟨fun h => ⟨h.1, (hq' p h.1).1, h.2⟩, fun h => ⟨h.1, h.2.2⟩⟩
      · rw [hmem a har, hw.linked, setRqst_of_ne har]
    rw [setQueue_of_ne hx]
    by_cases har : a = r
    · rw [har, setRqst_self]
      refine ⟨fun h => absurd h (hnot x' hx), ?_⟩
      rintro ⟨p, hp, hpx, -⟩
      exact absurd (hpx.symm.trans (hq' p hp).1) hx
    · rw [hw.linked, setRqst_of_ne har]
  · refine SearchTrees.Sorted.congr ?_ (hkey x')
    show Sorted w.xidOf (w.setQueue x t x')
    by_cases hx : x' = x
    · rwa [hx, setQueue_self]
    · rw [setQueue_of_ne hx]
      exact hw.sorted x'
  · rcases setRqst_cases h₁ with ⟨hr₁, h₁⟩ | h₁ <;> rcases setRqst_cases h₂ with ⟨hr₂, h₂⟩ | h₂
    · rw [hr₁, hr₂]
    · rw [hr₁, (hq' q₁ h₁).2.1.alone r₂ q₂ h₂ hx.symm hxid.symm]
    · rw [hr₂, (hq' q₂ h₂).2.1.alone r₁ q₁ h₁ hx hxid]
    · exact hw.distinct r₁ r₂ q₁ q₂ h₁ h₂ hx hxid
  · rcases setRqst_cases h₁ with ⟨-, h₁⟩ | h₁
    · exact (hq' q₁ h₁).2.1.drawn
    · exact (hw.drawn r₁ q₁ h₁).imp_right fun hle => hle.trans (hnext _)

theorem xidInv_init (hr : w.rqst r = none) (hfew : FewDraws w (.init r x))
    (hapart : DrawsApart w (.init r x)) : XidInv (xprtRequestInit w r x) := by
  have hnot : ∀ x', r ∉ toList (w.recvQueue x') := by
    intro x' hmem
    obtain ⟨q, hq, -⟩ := (hw.linked x' r).1 hmem
    rw [hr] at hq
    cases hq
  unfold xprtRequestInit
  rw [← setQueue_same w x]
  refine hw.change (fun sp => ?_) (fun x' _ => hnot x') ?_ (hw.sorted x) ?_ fun a _ => Iff.rfl
  · split_ifs with hsp
    · rw [hsp]
      omega
    · exact le_rfl
  · rintro p ⟨⟩
    refine ⟨rfl, ⟨⟨rfl, by simp [newRqst]⟩, fun r₁ q₁ h₁ hx hxid => ?_⟩, fun h => absurd h (hnot x)⟩
    -- an outstanding request of the transport has another XID
    by_cases hsp : q₁.draw.1 = w.xidSpace x
    · obtain ⟨hdraw, hle⟩ := hw.drawn r₁ q₁ h₁
      have hlt := hfew r₁ q₁ h₁ hsp
      have hxid : q₁.rqXid = (w.next (w.xidSpace x) + 1) % 2 ^ 32 := hxid
      rw [hsp] at hle
      omega
    · exact absurd hxid (hapart r₁ q₁ h₁ hx hsp)
  · refine ⟨fun h => absurd h (hnot x), ?_⟩
    rintro ⟨q, ⟨⟩, hneed⟩
    cases hneed

theorem XidInv.replace {t : BinaryTree Nat} (hq : w.rqst r = some q)
    (hq' : ∀ p, q' = some p → p.rqXprt = q.rqXprt ∧ p.rqXid = q.rqXid ∧ p.draw = q.draw)
    (hsorted : Sorted w.xidOf t) (hself : r ∈ toList t ↔ ∃ p, q' = some p ∧ p.needRecv = true)
    (hmem : ∀ a, a ≠ r → (a ∈ toList t ↔ a ∈ toList (w.recvQueue q.rqXprt))) :
    XidInv { w with recvQueue := w.setQueue q.rqXprt t, rqst := w.setRqst r q' } := by
  refine hw.change (fun _ => le_rfl) (fun x' hne hr => ?_) (fun p hp => ?_) hsorted hself hmem
  · obtain ⟨p, hp, hx, -⟩ := (hw.linked x' r).1 hr
    cases hq.symm.trans hp
    exact hne hx.symm
  · obtain ⟨hx, hxid, hdraw⟩ := hq' p hp
    refine ⟨hx, ⟨?_, fun r₁ q₁ h₁ hx₁ hxid₁ => ?_⟩, fun _ => hxid.trans (xidOf_eq hq).symm⟩
    · rw [hxid, hdraw]
      exact hw.drawn r q hq
    · exact hw.distinct r₁ r q₁ q h₁ hq (hx₁.trans hx) (hxid₁.trans hxid)

/-- **A request that expects a reply** is linked. -/
theorem xidInv_enqueueReceive (hq : w.rqst r = some q) : XidInv (xprtRequestEnqueueReceive rb w r q) := by
  unfold xprtRequestEnqueueReceive
  split_ifs with hneed
  · exact hw
  have hno : q.needRecv = false := by
    simp only [Bool.or_eq_true, not_or, Bool.not_eq_true] at hneed
    exact hneed.1
  have hnot : r ∉ toList (w.recvQueue q.rqXprt) := by
    intro hmem
    obtain ⟨p, hp, -, hpneed⟩ := (hw.linked _ r).1 hmem
    cases hq.symm.trans hp
    rw [hno] at hpneed
    cases hpneed
  -- no other request of the tree has the XID
  obtain ⟨t, ht⟩ : ∃ t, insert w.xidOf r (w.recvQueue q.rqXprt) = some t := by
    rcases hins : insert w.xidOf r (w.recvQueue q.rqXprt) with _ | t
    · obtain ⟨a, ha, hkey⟩ := exists_of_insert_eq_none hins
      obtain ⟨p, hp, hx, -⟩ := (hw.linked _ a).1 ha
      rw [xidOf_eq hp, xidOf_eq hq] at hkey
      exact absurd (hw.distinct a r p q hp hq hx hkey ▸ ha) hnot
    · exact ⟨t, rfl⟩
  obtain ⟨hsorted, hmem⟩ := insert_eq_some (hw.sorted q.rqXprt) ht
  have htree : xprtRequestRbInsert rb w (w.recvQueue q.rqXprt) r = rb.insertColor t := by
    rw [xprtRequestRbInsert, ht]
  rw [htree]
  have hlist := rb.toList_insertColor t
  refine hw.replace hq (fun p hp => by cases hp; exact ⟨rfl, rfl, rfl⟩) ?_ ?_ fun a ha => ?_
  · rwa [Sorted, hlist]
  · rw [hlist, hmem]
    simp
  · rw [hlist, hmem]
    simp [ha]

/-- **A request that expects no reply any more** is taken out of the tree. -/
theorem xidInv_dequeueReceive (hq : w.rqst r = some q)
    (hq' : ∀ p, q' = some p → p.rqXprt = q.rqXprt ∧ p.rqXid = q.rqXid ∧ p.draw = q.draw ∧ p.needRecv = false) :
    XidInv (xprtRequestDequeueReceiveLocked rb w r q q') := by
  have hnone : ¬ ∃ p, q' = some p ∧ p.needRecv = true := by
    rintro ⟨p, hp, hneed⟩
    rw [(hq' p hp).2.2.2] at hneed
    cases hneed
  have hkeep : ∀ p, q' = some p → p.rqXprt = q.rqXprt ∧ p.rqXid = q.rqXid ∧ p.draw = q.draw :=
    fun p hp => ⟨(hq' p hp).1, (hq' p hp).2.1, (hq' p hp).2.2.1⟩
  have hsort := hw.sorted q.rqXprt
  unfold xprtRequestDequeueReceiveLocked
  cases hneed : q.needRecv with
  | true =>
    have hin := (hw.linked q.rqXprt r).2 ⟨q, hq, rfl, hneed⟩
    have hlist := rb.toList_erase (w.recvQueue q.rqXprt) r hin
    have hnodup : (toList (w.recvQueue q.rqXprt)).Nodup := hsort.imp fun hlt heq => absurd (heq ▸ hlt) (lt_irrefl _)
    refine hw.replace hq hkeep ?_ ?_ fun a ha => ?_
    · rw [Sorted, hlist]
      exact hsort.sublist List.erase_sublist
    · rw [hlist]
      exact ⟨fun h => absurd h hnodup.not_mem_erase, fun h => absurd h hnone⟩
    · rw [hlist, List.mem_erase_of_ne ha]
  | false =>
    have hchange := hw.replace (t := w.recvQueue q.rqXprt) hq hkeep hsort ?_ fun a _ => Iff.rfl
    · rw [setQueue_same] at hchange
      simpa using hchange
    · refine ⟨fun hmem => ?_, fun h => absurd h hnone⟩
      obtain ⟨p, hp, -, hpneed⟩ := (hw.linked _ r).1 hmem
      cases hq.symm.trans hp
      rw [hneed] at hpneed
      cases hpneed

theorem xidStep_inv (hfew : FewDraws w e) (hapart : DrawsApart w e) (h : xidStep rb w e = some w') :
    XidInv w' := by
  cases e with
  | join x =>
    cases h
    exact xidInv_join hw
  | init r x =>
    obtain ⟨hr, rfl⟩ := of_guarded h
    exact xidInv_init hw hr hfew hapart
  | enqueueReceive r =>
    obtain ⟨q, hq, rfl⟩ := map_eq_some_iff.1 h
    exact xidInv_enqueueReceive hw hq
  | complete r _ | encode r =>
    obtain ⟨q, hq, rfl⟩ := map_eq_some_iff.1 h
    exact xidInv_dequeueReceive hw hq fun p hp => by cases hp; exact ⟨rfl, rfl, rfl, rfl⟩
  | release r =>
    obtain ⟨q, hq, rfl⟩ := map_eq_some_iff.1 h
    exact xidInv_dequeueReceive hw hq nofun

end

/-! ## Runs -/

section

variable {rb : RbOps} {w w' : XidWorld} {e : XidEvent}

theorem enqueueReceive_rqst {r : Nat} {q : XidRqst} (hneed : q.needRecv = false) (hbytes : q.rqReplyBytesRecvd = 0) :
    (xprtRequestEnqueueReceive rb w r q).rqst = w.setRqst r (some { q with needRecv := true }) := by
  simp [xprtRequestEnqueueReceive, hneed, hbytes]

/-- **A draw that misses the condition** can be continued to two requests with one XID in a tree. -/
theorem not_unambiguous_of_draw (hstep : xidStep rb w e = some w') (hmiss : ¬ DrawsApart w e) :
    ∃ es t, run (xidStep rb) w (e :: es) = some t ∧ ¬ Unambiguous t := by
  cases e with
  | init r x =>
    obtain ⟨hr, rfl⟩ := of_guarded hstep
    simp only [DrawsApart, not_forall, not_not] at hmiss
    obtain ⟨r', q', hq', hx, -, hxid⟩ := hmiss
    have hne : r' ≠ r := by
      rintro rfl
      rw [hr] at hq'
      cases hq'
    -- the older request is sent again, then the new one
    let p' : XidRqst := { q' with needRecv := false, rqReplyBytesRecvd := 0 }
    have h₁ : (xprtRequestInit w r x).rqst r' = some q' := (setRqst_of_ne hne _).trans hq'
    generalize hw₂ : callEncode rb (xprtRequestInit w r x) r' q' = w₂
    have h₂' : w₂.rqst r' = some p' := hw₂ ▸ setRqst_self _
    have h₂ : w₂.rqst r = some (newRqst w x) := hw₂ ▸ (setRqst_of_ne hne.symm _).trans (setRqst_self _)
    generalize hw₃ : xprtRequestEnqueueReceive rb w₂ r' p' = w₃
    have hrqst₃ : w₃.rqst = w₂.setRqst r' (some { p' with needRecv := true }) := hw₃ ▸ enqueueReceive_rqst rfl rfl
    have h₃ : w₃.rqst r = some (newRqst w x) := (congrFun hrqst₃ r).trans ((setRqst_of_ne hne.symm _).trans h₂)
    have h₃' : w₃.rqst r' = some { p' with needRecv := true } := (congrFun hrqst₃ r').trans (setRqst_self _)
    generalize hw₄ : xprtRequestEnqueueReceive rb w₃ r (newRqst w x) = w₄
    have hrqst₄ : w₄.rqst = w₃.setRqst r (some { newRqst w x with needRecv := true }) := hw₄ ▸ enqueueReceive_rqst rfl rfl
    have h₄ : w₄.rqst r = some { newRqst w x with needRecv := true } := (congrFun hrqst₄ r).trans (setRqst_self _)
    have h₄' : w₄.rqst r' = some { p' with needRecv := true } := (congrFun hrqst₄ r').trans ((setRqst_of_ne hne _).trans h₃')
    refine ⟨[.encode r', .enqueueReceive r', .enqueueReceive r], w₄, ?_, fun hun => ?_⟩
    · simp [run, xidStep, hr, h₁, hw₂, h₂', hw₃, h₃, hw₄]
    · exact hne (hun.distinct r' r _ _ h₄' h₄ rfl rfl hx hxid)
  | _ => exact absurd trivial hmiss

/-- **Replies are matched unambiguously** in every run in which no XID is drawn that an outstanding request of
the transport has from another space, as long as fewer than `2 ^ 32` XIDs are drawn while a request is
outstanding. A draw that misses this can be continued to two requests with one XID. -/
theorem replies_unambiguous (rb : RbOps) (seed : Nat → Nat) (es : List XidEvent)
    (hfew : EachStep (xidStep rb) FewDraws (newSwitch seed) es) :
    (EachStep (xidStep rb) DrawsApart (newSwitch seed) es → Always (xidStep rb) Unambiguous (newSwitch seed) es) ∧
      ∀ w e w', run (xidStep rb) (newSwitch seed) es = some w → xidStep rb w e = some w' → ¬ DrawsApart w e →
        ∃ es' t, run (xidStep rb) w (e :: es') = some t ∧ ¬ Unambiguous t := by
  refine ⟨fun hapart => ?_, fun w e w' _ hstep hmiss => not_unambiguous_of_draw hstep hmiss⟩
  exact always_of_eachStep (fun hw hC => xidStep_inv hw hC.1 hC.2) XidInv.unambiguous (xidInv_newSwitch seed) (hfew.and hapart)

end

/-! ## A transport that joins -/

def treeOf : List Nat → BinaryTree Nat
  | [] => .nil
  | a :: l => .node a .nil (treeOf l)

theorem toList_treeOf (l : List Nat) : toList (treeOf l) = l := by
  induction l with
  | nil => rfl
  | cons a l ih => simp [treeOf, SearchTrees.toList, ih]

def plainRb : RbOps where
  insertColor t := t
  erase t r := treeOf ((SearchTrees.toList t).erase r)
  toList_insertColor _ := rfl
  toList_erase _ _ _ := toList_treeOf _

/-- Transport 0 has a request outstanding when it joins, and sends another one. -/
def joinRun : List XidEvent := [.init 0 0, .enqueueReceive 0, .join 0, .init 1 0, .enqueueReceive 1]

def joinedWorld (seed : Nat → Nat) : XidWorld :=
  let w := newSwitch seed
  xchgXidSpace (xprtRequestEnqueueReceive plainRb (xprtRequestInit w 0 0) 0 (newRqst w 0)) 0

section

variable {seed : Nat → Nat} {r : Nat} {q : XidRqst}

theorem joinedWorld_rqst (h : (joinedWorld seed).rqst r = some q) : q = { newRqst (newSwitch seed) 0 with needRecv := true } := by
  by_cases hr : r = 0
  · subst hr
    cases h
    rfl
  · simp [joinedWorld, XidWorld.setRqst, xchgXidSpace, xprtRequestEnqueueReceive, xprtRequestInit, newSwitch, newRqst, hr] at h

theorem joinRun_eachStep {C : XidWorld → XidEvent → Prop} (hother : ∀ w e, (∀ r x, e ≠ .init r x) → C w e)
    (hfirst : C (newSwitch seed) (.init 0 0)) (hsecond : C (joinedWorld seed) (.init 1 0)) :
    EachStep (xidStep plainRb) C (newSwitch seed) joinRun := by
  intro t₁ h₁
  refine ⟨hfirst, fun t₂ h₂ => ⟨hother _ _ (by simp), fun t₃ h₃ => ⟨hother _ _ (by simp), fun t₄ h₄ => ⟨?_, fun t₅ h₅ => ?_⟩⟩⟩⟩
  · cases h₁
    cases h₂
    cases h₃
    exact hsecond
  · exact ⟨hother _ _ (by simp), trivial⟩

theorem joinRun_fewDraws (seed : Nat → Nat) : EachStep (xidStep plainRb) FewDraws (newSwitch seed) joinRun := by
  refine joinRun_eachStep (fun w e he => ?_) nofun fun r q hq hspace => ?_
  · cases e with
    | init r x => exact absurd rfl (he r x)
    | _ => trivial
  · rw [joinedWorld_rqst hq] at hspace
    cases hspace

end

/-- With other counters the two requests have XIDs 6 and 101. -/
theorem replies_unambiguous_join :
    EachStep (xidStep plainRb) FewDraws (newSwitch fun sp => if sp = 0 then 100 else 5) joinRun ∧
      EachStep (xidStep plainRb) DrawsApart (newSwitch fun sp => if sp = 0 then 100 else 5) joinRun ∧
      Always (xidStep plainRb) Unambiguous (newSwitch fun sp => if sp = 0 then 100 else 5) joinRun := by
  have hfew := joinRun_fewDraws fun sp => if sp = 0 then 100 else 5
  have hapart : EachStep (xidStep plainRb) DrawsApart (newSwitch fun sp => if sp = 0 then 100 else 5) joinRun := by
    refine joinRun_eachStep (fun w e he => ?_) nofun fun r q hq _ _ => ?_
    · cases e with
      | init r x => exact absurd rfl (he r x)
      | _ => trivial
    · rw [joinedWorld_rqst hq]
      decide
  exact ⟨hfew, hapart, (replies_unambiguous plainRb _ joinRun hfew).1 hapart⟩

/-- **The XID is drawn again**: both counters stand at 5. The request that is sent after the join has the XID
of the one that was outstanding, is not linked and still expects a reply. -/
theorem joined_with_same_xid :
    EachStep (xidStep plainRb) FewDraws (newSwitch fun _ => 5) joinRun ∧
      ∃ w, run (xidStep plainRb) (newSwitch fun _ => 5) joinRun = some w ∧ w.xidOf 0 = 6 ∧ w.xidOf 1 = 6 ∧
        (w.rqst 1).map XidRqst.needRecv = some true ∧ xprtLookupRqst w 0 6 = some 0 ∧ ¬ Unambiguous w := by
  refine ⟨joinRun_fewDraws _, _, rfl, by decide, by decide, by decide, by decide, fun h => ?_⟩
  exact absurd (h.distinct 0 1 _ _ rfl rfl rfl rfl rfl rfl) (by decide)

end Vastnfs.Sunrpc
