import Vastnfs.Nfs.AtomicOpen

/-!
# Files are opened with their own server

An open of a name starts with the server the dentry hashes to and goes on to the server of the
file. In between the dentry may have got its inode, and the inode a delegation of the first server.

* `doOpen_negative`: an open through a negative dentry.
* `doOpen_served`, `doOpen_sent`: an open through a positive one.
* `opensAtHome_iff`: when an open takes at most two OPENs and leaves everything with the server of
  the file.
-/

namespace Vastnfs.Nfs

open Sunrpc Option Bool

/-! ## What is promised -/

/-- The server of the file: the one it is bound to, or for a file that is not in memory the one the
open will bind it to. -/
def homeServer (sb : NfsServer) (w : OpenWorld) : Option NfsServer :=
  match w.child.bind w.cache.hashed with
  | some inode => nfsServerOf sb (w.cache.inodes inode)
  | none => nfsMultipathGetClientByDentry sb w.cache w.dentry

/-- What an open may leave behind: at most two OPENs, a state and a delegation of the server of the
file, and no further open state. -/
structure OpenedAtHome (sb : NfsServer) (flags : OpenFlags) (w w' : OpenWorld) (ctx : OpenContext) (server : NfsServer) :
    Prop where
  bound : nfsServerOf sb (w'.cache.inodes ctx.inode) = some server
  sent : w'.sent.length ≤ w.sent.length + 2
  owner : ctx.server = server.idx
  stateid : ctx.stateid = server.idx
  delegation : ∀ d ∈ w'.delegation, d.server = server.idx
  opens : w'.opens = { server := server.idx, fmode := flags.openMode } :: w.opens

section

variable (sb : NfsServer) (env : OpenEnv) (flags : OpenFlags) (fuel : Nat) (w : OpenWorld)

/-- The open would succeed if it were sent to the server of the file first. -/
def OpensFirstAtHome : Prop :=
  ∃ w' ctx, nfsAtomicOpenAt sb env flags (homeServer sb) fuel w = some (w', .opened ctx)

/-- The open succeeds if it would have succeeded at the server of the file, and is then at home. -/
def OpensAtHome : Prop :=
  OpensFirstAtHome sb env flags fuel w →
    ∃ w' ctx server, nfsAtomicOpen sb env flags fuel w = some (w', .opened ctx) ∧ OpenedAtHome sb flags w w' ctx server

/-- The names and files the client and the servers agree on. -/
structure OpenWorld.Consistent : Prop where
  negative : w.dentry.dInode = none
  /-- A file that is yet to be created is not in memory. -/
  fresh : w.child = none → w.cache.hashed env.newChild = none
  /-- A file that is not in memory has no delegation. -/
  undelegated : w.child.bind w.cache.hashed = none → w.delegation = none

/-- The delegation on the inode once the first server has been asked and its state closed. -/
def delegationAtRetry (first : Nat) : Option Delegation :=
  if env.returnOnClose && w.opens.isEmpty then none
  else nfs4OpendataCheckDeleg first w.delegation
    (nfs4OpenDelegation env.toNfsd first (w.atomicOpenV1 first && flags.direct))

/-- The open goes from `first` to another server, `home`, and is at home there. -/
structure MovesHome (first home : Nat) : Prop where
  /-- The first server does not have to recall a delegation. -/
  notRecalled : nfsdOpenBreakLease env.toNfsd first w.delegation flags.openMode = false
  /-- The delegation found there is its own, or has to be returned. -/
  delegation : ∀ d ∈ delegationAtRetry env flags w first,
    d.server = home ∨ (w.exactAlias = false ∧ d.type.covers flags.openMode = false)
  /-- An open that the delegation allows is allowed by the rights as well. -/
  served : w.exactAlias = false → canOpenDelegated (delegationAtRetry env flags w first) flags.openMode = true →
    nfsMayOpen env flags = true
  /-- An OPEN by file handle does not come with `O_CREAT`. -/
  claim : w.exactAlias = false → canOpenDelegated (delegationAtRetry env flags w first) flags.openMode = false →
    flags.creat = true → w.atomicOpenV1 home = false

/-- The open stays with the server of the file, or goes there without trouble. -/
def GoesHomeFrom (first home : Nat) : Prop :=
  if first = home then
    ∀ d ∈ w.delegation, d.server = home ∨ nfsdOpenBreakLease env.toNfsd home w.delegation flags.openMode = true
  else MovesHome env flags w first home

def GoesHome : Prop :=
  ∀ v first home, openPrepare env flags w = .ok v → nfsMultipathGetClientByDentry sb v.cache v.dentry = some first →
    homeServer sb v = some home → GoesHomeFrom env flags v first.idx home.idx

end

/-! ## Delegations -/

/-- An OPEN makes the server `idx` recall the delegation. -/
abbrev OpenWorld.recalls (w : OpenWorld) (env : OpenEnv) (flags : OpenFlags) (idx : Nat) : Bool :=
  nfsdOpenBreakLease env.toNfsd idx w.delegation flags.openMode

section

variable {env : OpenEnv} {flags : OpenFlags} {idx : Nat} {base : Option Delegation} {want : Bool} {d : Delegation}
  {fmode : Fmode}

theorem checkDeleg_some : nfs4OpendataCheckDeleg idx (some d) (nfs4OpenDelegation env.toNfsd idx want) = some d := by
  unfold nfs4OpenDelegation
  split
  · rfl
  · simp [nfs4OpendataCheckDeleg, nfsInodeSetDelegation]

theorem mem_checkDeleg_none {type : Option Fmode} (h : d ∈ nfs4OpendataCheckDeleg idx none type) : d.server = idx := by
  cases type with
  | none => cases h
  | some type =>
    cases h
    rfl

theorem forall_checkDeleg_iff :
    (∀ d ∈ nfs4OpendataCheckDeleg idx base (nfs4OpenDelegation env.toNfsd idx want), d.server = idx) ↔
      ∀ d ∈ base, d.server = idx := by
  cases base with
  | none =>
    refine ⟨fun _ d hd => ?_, fun _ d hd => mem_checkDeleg_none hd⟩
    cases hd
  | some d => rw [checkDeleg_some]

theorem updateOpenStateid_eq (h : ∀ d ∈ base, d.server = idx) : updateOpenStateid idx base fmode = idx := by
  cases base with
  | none => rfl
  | some d =>
    show (if d.type.covers fmode then d.server else idx) = idx
    split
    · exact h d rfl
    · rfl

theorem recalls_own {w : OpenWorld} (h : ∀ d ∈ w.delegation, d.server = idx) : w.recalls env flags idx = false := by
  cases hd : w.delegation with
  | none => simp [nfsdOpenBreakLease, hd]
  | some d => simp [nfsdOpenBreakLease, hd, h d hd]

theorem return_eq_none (h : canOpenDelegated base fmode = false) :
    nfs4ReturnIncompatibleDelegation base fmode = none := by
  cases base with
  | none => rfl
  | some d =>
    have hc : d.type.covers fmode = false := h
    simp [nfs4ReturnIncompatibleDelegation, hc]

theorem return_eq_self (h : canOpenDelegated base fmode = true) :
    nfs4ReturnIncompatibleDelegation base fmode = base := by
  cases base with
  | none => rfl
  | some d =>
    have hc : d.type.covers fmode = true := h
    simp [nfs4ReturnIncompatibleDelegation, hc]

theorem mapAtomicOpenClaim_null (v1 : Bool) : nfs4MapAtomicOpenClaim v1 .null = .null := by
  cases v1 <;> rfl

end

/-! ## One OPEN -/

section

variable {nfsd : Nfsd} {child : Option FileHandle} {flags : OpenFlags} {fmode : Fmode} {fh : FileHandle} {created : Bool}

section

variable (h : doOpenLookup nfsd child flags fmode = .ok (fh, created))
include h

theorem doOpenLookup_ok :
    (child = some fh ∧ created = false ∧ nfsd.permission fmode = none) ∨
      (child = none ∧ flags.creat = true ∧ nfsd.create = none ∧ fh = nfsd.newChild ∧ created = true) := by
  unfold doOpenLookup at h
  split at h
  · cases h
  rename_i found fresh truncate hfound
  split at h
  · cases h
  split at h
  · cases h
  rename_i hpermission
  cases h
  cases child with
  | none =>
    cases hcreat : flags.creat with
    | false => simp [hcreat, nfsdLookup] at hfound
    | true =>
      cases hcreate : nfsd.create with
      | some e => simp [hcreat, doNfsdCreate, hcreate] at hfound
      | none =>
        simp only [hcreat, doNfsdCreate, hcreate, if_true, Except.ok.injEq, Prod.mk.injEq] at hfound
        exact .inr ⟨rfl, rfl, rfl, hfound.1.symm, hfound.2.1.symm⟩
  | some fh' =>
    have hold : fh' = fh ∧ created = false := by
      cases hcreat : flags.creat <;> cases hexcl : flags.excl <;>
        simp [hcreat, hexcl, doNfsdCreate, nfsdLookup] at hfound <;> exact ⟨hfound.1, hfound.2.1⟩
    obtain ⟨rfl, rfl⟩ := hold
    unfold doOpenPermission at hpermission
    split at hpermission
    · cases hpermission
    · exact .inl ⟨rfl, rfl, hpermission⟩

theorem doOpenLookup_regular : nfsd.typeOf created = .regular := by
  unfold doOpenLookup at h
  split at h
  · cases h
  rename_i found fresh truncate _
  cases htype : nfsd.typeOf fresh with
  | regular =>
    simp only [htype, nfsdCheckObjIsreg] at h
    split at h
    · cases h
    · cases h
      exact htype
  | directory | symlink | special =>
    simp only [htype, nfsdCheckObjIsreg] at h
    cases h

theorem childAfterLookup_of_ok : childAfterLookup nfsd child flags = some fh := by
  rcases doOpenLookup_ok h with ⟨rfl, -, -⟩ | ⟨rfl, hcreat, hcreate, rfl, -⟩
  · simp [childAfterLookup]
  · simp [childAfterLookup, hcreat, hcreate]

end

theorem childAfterLookup_of_error {e : Errno} (h : doOpenLookup nfsd child flags fmode = .error e) :
    childAfterLookup nfsd child flags = child := by
  unfold childAfterLookup
  split_ifs with hnew
  · simp only [and_eq_true, isNone_iff_eq_none] at hnew
    obtain ⟨⟨hcreat, rfl⟩, hcreate⟩ := hnew
    -- a file that is created can be opened
    simp [doOpenLookup, hcreat, doNfsdCreate, hcreate, Nfsd.typeOf, nfsdCheckObjIsreg, doOpenPermission] at h
  · rfl

end

section

variable {sb server : NfsServer} {env : OpenEnv} {flags : OpenFlags} {w w' : OpenWorld} {ctx : OpenContext}
  {cache' : InodeCache} {fh : FileHandle} {created : Bool} {inode : InodePtr} {claim : OpenClaim} {n : Nat}

/-- The name leads to a file that may be opened; the server is the one a new inode is bound to. -/
structure Openable (sb : NfsServer) (env : OpenEnv) (flags : OpenFlags) (server : NfsServer) (child : Option FileHandle)
    (cache cache' : InodeCache) (fh : FileHandle) (created : Bool) (inode : InodePtr) : Prop where
  lookup : doOpenLookup env.toNfsd child flags flags.openMode = .ok (fh, created)
  fhget : nfsFhgetServer sb cache fh { fileType := env.typeOf created } (some server) none env.fhget = (cache', .ok inode)
  access : nfs4OpendataAccess env flags created = none

/-- The world and the context after an open with server `idx`, which found the delegation `base`
and was given one of type `type`. -/
structure Opened (flags : OpenFlags) (idx : Nat) (inode : InodePtr) (base : Option Delegation) (type : Option Fmode)
    (count : Nat) (w w' : OpenWorld) (ctx : OpenContext) : Prop where
  sent : w'.sent.length = w.sent.length + count
  delegation : w'.delegation = nfs4OpendataCheckDeleg idx base type
  opens : w'.opens = { server := idx, fmode := flags.openMode } :: w.opens
  ctx : ctx =
    { inode := inode, server := idx, stateid := updateOpenStateid idx w'.delegation flags.openMode, fmode := flags.openMode }

theorem Opened.since {idx count count' : Nat} {base : Option Delegation} {type : Option Fmode} {v : OpenWorld}
    (h : Opened flags idx inode base type count v w' ctx) (hopens : v.opens = w.opens)
    (hsent : v.sent.length + count = w.sent.length + count') : Opened flags idx inode base type count' w w' ctx :=
  ⟨h.sent.trans hsent, h.delegation, hopens ▸ h.opens, h.ctx⟩

structure Instantiated (fh : FileHandle) (inode : InodePtr) (w w' : OpenWorld) : Prop where
  child : w'.child = some fh
  dInode : w'.dentry.dInode = if w.exactAlias then none else some inode
  exactAlias : w'.exactAlias = false
  atomicOpenV1 : w'.atomicOpenV1 = w.atomicOpenV1

theorem opened_toState (env : OpenEnv) (type : Option Fmode) (claim : OpenClaim) :
    Opened flags server.idx inode w.delegation type 1 w
      (nfs4OpendataToNfs4State flags server cache' inode type (w.send env flags server.idx claim)).1
      (nfs4OpendataToNfs4State flags server cache' inode type (w.send env flags server.idx claim)).2 where
  sent := by simp [nfs4OpendataToNfs4State, OpenWorld.instantiate, OpenWorld.send]
  delegation := rfl
  opens := rfl
  ctx := rfl

theorem instantiated_toState (type : Option Fmode) (hneg : w.dentry.dInode = none)
    (hchild : childAfterLookup env.toNfsd w.child flags = some fh) :
    Instantiated fh inode w
      (nfs4OpendataToNfs4State flags server cache' inode type (w.send env flags server.idx .null)).1 where
  child := hchild
  dInode := by cases h : w.exactAlias <;> simp [nfs4OpendataToNfs4State, OpenWorld.instantiate, OpenWorld.send, hneg, h]
  exactAlias := by simp [nfs4OpendataToNfs4State, OpenWorld.instantiate, OpenWorld.send, hneg]
  atomicOpenV1 := rfl

theorem openAndGetState_null (h : Openable sb env flags server w.child w.cache cache' fh created inode)
    (hclaim : nfs4MapAtomicOpenClaim (w.atomicOpenV1 server.idx) claim = .null)
    (hlease : w.recalls env flags server.idx = false) :
    ∃ w' ctx, nfs4OpenAndGetState sb env flags server claim w = (w', .ok ctx) ∧
      Opened flags server.idx inode w.delegation
        (nfs4OpenDelegation env.toNfsd server.idx (w.atomicOpenV1 server.idx && flags.direct)) 1 w w' ctx ∧
      w'.cache = cache' ∧ (w.dentry.dInode = none → Instantiated fh inode w w') := by
  have hget : nfsFhgetServer sb (w.send env flags server.idx .null).cache fh { fileType := env.typeOf created }
      (some server) none env.fhget = (cache', .ok inode) := h.fhget
  refine ⟨_, _, ?_, opened_toState env _ .null, rfl, fun hneg => instantiated_toState _ hneg (childAfterLookup_of_ok h.lookup)⟩
  simp [nfs4OpenAndGetState, nfs4OpendataAlloc, hclaim, nfsd4Open, h.lookup, nfsd4ProcessOpen2, hlease,
    nfs4OpendataGetInode, hget, h.access]

theorem openAndGetState_delay (hlookup : doOpenLookup env.toNfsd w.child flags flags.openMode = .ok (fh, created))
    (hlease : w.recalls env flags server.idx = true) :
    nfs4OpenAndGetState sb env flags server .null w = (w.send env flags server.idx .null, .error .nfs4errDelay) := by
  simp [nfs4OpenAndGetState, nfs4OpendataAlloc, mapAtomicOpenClaim_null, nfsd4Open, hlookup, nfsd4ProcessOpen2, hlease]

theorem openAndGetState_fh (hpermission : env.permission flags.openMode = none)
    (haccess : nfs4OpendataAccess env flags false = none) (hv1 : w.atomicOpenV1 server.idx = true)
    (hcreat : flags.creat = false) (hdelegation : w.delegation = none) (hinode : w.dentry.dInode = some inode) :
    ∃ w' ctx, nfs4OpenAndGetState sb env flags server .fh w = (w', .ok ctx) ∧
      Opened flags server.idx inode w.delegation (nfs4OpenDelegation env.toNfsd server.idx flags.direct) 1 w w' ctx ∧
      w'.cache = w.cache := by
  have hsent : (w.send env flags server.idx .fh).dentry.dInode = some inode := hinode
  have hlease : w.recalls env flags server.idx = false := recalls_own (by rw [hdelegation]; nofun)
  refine ⟨_, _, ?_, opened_toState env _ .fh, rfl⟩
  simp only [nfs4OpenAndGetState, nfs4OpendataAlloc, nfs4MapAtomicOpenClaim, hv1, nfsd4Open, hcreat, doOpenPermission,
    hpermission, nfsd4ProcessOpen2, hlease, nfs4OpendataGetInode, hsent, haccess, Bool.false_eq_true, if_false, if_true,
    Bool.false_and, Bool.true_and]
  rfl

theorem openAndGetState_inval (hv1 : w.atomicOpenV1 server.idx = true) (hcreat : flags.creat = true) :
    nfs4OpenAndGetState sb env flags server .fh w = (w.send env flags server.idx .fh, .error .einval) := by
  simp [nfs4OpenAndGetState, nfs4OpendataAlloc, nfs4MapAtomicOpenClaim, hv1, nfsd4Open, hcreat]

end

/-! ## The open with one server -/

section

variable {sb server : NfsServer} {env : OpenEnv} {flags : OpenFlags} {w w' : OpenWorld} {ctx : OpenContext}
  {cache' : InodeCache} {fh : FileHandle} {created : Bool} {inode : InodePtr} {n : Nat}

theorem doOpen_ok (h : nfs4DoOpenOnce sb env flags server w = (w', .ok ctx)) :
    nfs4DoOpen sb env flags server (n + 1) w = some (w', .ok ctx) := by
  rw [nfs4DoOpen, h]

theorem doOpen_delay (h : nfs4DoOpenOnce sb env flags server w = (w', .error .nfs4errDelay)) :
    nfs4DoOpen sb env flags server (n + 1) w = nfs4DoOpen sb env flags server n { w' with delegation := none } := by
  rw [nfs4DoOpen, h]
  simp

theorem doOpen_inval (h : nfs4DoOpenOnce sb env flags server w = (w', .error .einval))
    (hv1 : w'.atomicOpenV1 server.idx = true) :
    nfs4DoOpen sb env flags server (n + 1) w =
      nfs4DoOpen sb env flags server n (nfs4ClearCapAtomicOpenV1 server.idx w') := by
  rw [nfs4DoOpen, h]
  simp [hv1]

theorem doOpenOnce_negative (hneg : w.dentry.dInode = none) :
    nfs4DoOpenOnce sb env flags server w = nfs4OpenAndGetState sb env flags server .null w := by
  rw [nfs4DoOpenOnce, hneg]

theorem doOpenOnce_sent (hinode : w.dentry.dInode = some inode)
    (hcan : canOpenDelegated w.delegation flags.openMode = false) :
    nfs4DoOpenOnce sb env flags server w =
      nfs4OpenAndGetState sb env flags server .fh { w with delegation := none } := by
  rw [nfs4DoOpenOnce, hinode]
  simp only [return_eq_none hcan]
  rfl

section

variable (hneg : w.dentry.dInode = none) (h : Openable sb env flags server w.child w.cache cache' fh created inode)
include hneg h

theorem doOpen_unbroken (hlease : w.recalls env flags server.idx = false)
    (n : Nat) :
    ∃ w' ctx, nfs4DoOpen sb env flags server (n + 1) w = some (w', .ok ctx) ∧
      Opened flags server.idx inode w.delegation
        (nfs4OpenDelegation env.toNfsd server.idx (w.atomicOpenV1 server.idx && flags.direct)) 1 w w' ctx ∧
      w'.cache = cache' ∧ Instantiated fh inode w w' := by
  obtain ⟨w', ctx, honce, hopened, hcache, hinst⟩ := openAndGetState_null h (mapAtomicOpenClaim_null _) hlease
  exact ⟨w', ctx, doOpen_ok ((doOpenOnce_negative hneg).trans honce), hopened, hcache, hinst hneg⟩

/-- **An open through a negative dentry.**  If a delegation has to be recalled, the OPEN is sent twice. -/
theorem doOpen_negative
    (hrecall : w.recalls env flags server.idx = true → w.child = some fh)
    (n : Nat) :
    ∃ w' ctx, nfs4DoOpen sb env flags server (n + 2) w = some (w', .ok ctx) ∧
      Opened flags server.idx inode
        (if w.recalls env flags server.idx then none else w.delegation)
        (nfs4OpenDelegation env.toNfsd server.idx (w.atomicOpenV1 server.idx && flags.direct))
        (if w.recalls env flags server.idx then 2 else 1) w w' ctx ∧
      w'.cache = cache' ∧ Instantiated fh inode w w' := by
  cases hlease : w.recalls env flags server.idx with
  | false => exact doOpen_unbroken hneg h hlease (n + 1)
  | true =>
    have hdelay : nfs4DoOpenOnce sb env flags server w = (w.send env flags server.idx .null, .error .nfs4errDelay) :=
      (doOpenOnce_negative hneg).trans (openAndGetState_delay h.lookup hlease)
    -- the OPEN is repeated once the delegation is gone
    let v : OpenWorld := { w.send env flags server.idx .null with delegation := none }
    have hv : Openable sb env flags server v.child v.cache cache' fh created inode := by
      refine ⟨?_, h.fhget, h.access⟩
      show doOpenLookup env.toNfsd (childAfterLookup env.toNfsd w.child flags) flags flags.openMode = _
      rw [childAfterLookup_of_ok h.lookup, ← hrecall hlease]
      exact h.lookup
    obtain ⟨w', ctx, hopen, hopened, hcache, hinst⟩ :=
      doOpen_unbroken (show v.dentry.dInode = none from hneg) hv (recalls_own nofun) n
    refine ⟨w', ctx, (doOpen_delay hdelay).trans hopen, hopened.since rfl ?_, hcache,
      ⟨hinst.child, hinst.dInode, hinst.exactAlias, hinst.atomicOpenV1⟩⟩
    simp [v, OpenWorld.send]

end

/-- **An open that a delegation allows** is done without an OPEN, if the rights allow it. -/
theorem doOpen_served (sb : NfsServer) (env : OpenEnv) (server : NfsServer) (hinode : w.dentry.dInode = some inode)
    (hcan : canOpenDelegated w.delegation flags.openMode = true) (n : Nat) :
    if nfsMayOpen env flags then
      ∃ w' ctx, nfs4DoOpen sb env flags server (n + 1) w = some (w', .ok ctx) ∧
        Opened flags server.idx inode w.delegation none 0 w w' ctx ∧ w'.cache = w.cache
    else ∃ w', nfs4DoOpen sb env flags server (n + 1) w = some (w', .error .eacces) := by
  have honce : nfs4DoOpenOnce sb env flags server w = nfs4TryOpenCached env flags server inode w := by
    rw [nfs4DoOpenOnce, hinode]
    simp [return_eq_self hcan, hcan]
  split_ifs with hmay
  · rw [nfs4TryOpenCached, if_pos hmay] at honce
    exact ⟨_, _, doOpen_ok honce, ⟨rfl, rfl, rfl, rfl⟩, rfl⟩
  rw [nfs4TryOpenCached, if_neg hmay] at honce
  refine ⟨w, ?_⟩
  rw [nfs4DoOpen, honce]
  simp

section

variable (hinode : w.dentry.dInode = some inode) (hcan : canOpenDelegated w.delegation flags.openMode = false)
  (h : Openable sb env flags server w.child w.cache w.cache fh false inode)
include hinode hcan h

theorem doOpen_mapped (hv1 : w.atomicOpenV1 server.idx = false) (n : Nat) :
    ∃ w' ctx want, nfs4DoOpen sb env flags server (n + 1) w = some (w', .ok ctx) ∧
      Opened flags server.idx inode none (nfs4OpenDelegation env.toNfsd server.idx want) 1 w w' ctx ∧
      w'.cache = w.cache := by
  let v : OpenWorld := { w with delegation := none }
  have hv : Openable sb env flags server v.child v.cache w.cache fh false inode := h
  have hmap : nfs4MapAtomicOpenClaim (v.atomicOpenV1 server.idx) .fh = .null := by
    rw [hv1]
    rfl
  obtain ⟨w', ctx, honce, hopened, hcache, -⟩ := openAndGetState_null hv hmap (recalls_own nofun)
  exact ⟨w', ctx, _, doOpen_ok ((doOpenOnce_sent hinode hcan).trans honce), hopened.since rfl rfl, hcache⟩

/-- **An open through a positive dentry.**  With `O_CREAT` the OPEN by file handle is refused, and
an OPEN by name follows. -/
theorem doOpen_sent (hpermission : env.permission flags.openMode = none) (n : Nat) :
    ∃ w' ctx want, nfs4DoOpen sb env flags server (n + 2) w = some (w', .ok ctx) ∧
      Opened flags server.idx inode none (nfs4OpenDelegation env.toNfsd server.idx want)
        (if flags.creat && w.atomicOpenV1 server.idx then 2 else 1) w w' ctx ∧
      w'.cache = w.cache := by
  let v : OpenWorld := { w with delegation := none }
  cases hv1 : w.atomicOpenV1 server.idx with
  | false =>
    rw [Bool.and_false]
    exact doOpen_mapped hinode hcan h hv1 (n + 1)
  | true =>
    cases hcreat : flags.creat with
    | false =>
      obtain ⟨w', ctx, honce, hopened, hcache⟩ :
          ∃ w' ctx, nfs4OpenAndGetState sb env flags server .fh v = (w', .ok ctx) ∧ _ :=
        openAndGetState_fh hpermission h.access hv1 hcreat rfl hinode
      exact ⟨w', ctx, _, doOpen_ok ((doOpenOnce_sent hinode hcan).trans honce), hopened.since rfl rfl, hcache⟩
    | true =>
      have honce : nfs4DoOpenOnce sb env flags server w = (v.send env flags server.idx .fh, .error .einval) :=
        (doOpenOnce_sent hinode hcan).trans (openAndGetState_inval hv1 hcreat)
      let u : OpenWorld := nfs4ClearCapAtomicOpenV1 server.idx (v.send env flags server.idx .fh)
      have hlost : u.atomicOpenV1 server.idx = false := if_pos rfl
      obtain ⟨w', ctx, want, hopen, hopened, hcache⟩ :=
        doOpen_mapped (show u.dentry.dInode = some inode from hinode) rfl h hlost n
      refine ⟨w', ctx, want, (doOpen_inval honce hv1).trans hopen, hopened.since rfl ?_, hcache⟩
      simp [u, v, nfs4ClearCapAtomicOpenV1, OpenWorld.send]

end

/-! ### Opens that end well -/

/-- What a world with a negative dentry must keep for an OPEN to be repeated. -/
structure Repeatable (env : OpenEnv) (w : OpenWorld) : Prop where
  negative : w.dentry.dInode = none
  fresh : w.child = none → w.cache.hashed env.newChild = none
  undelegated : w.child = none → w.delegation = none

theorem Repeatable.of_same {v : OpenWorld} (hw : Repeatable env w) (hdentry : v.dentry = w.dentry)
    (hchild : v.child = w.child) (hcache : v.cache = w.cache) (hdelegation : v.delegation = w.delegation ∨ v.delegation = none) :
    Repeatable env v := by
  refine ⟨?_, ?_, ?_⟩
  · rw [hdentry]
    exact hw.negative
  · rw [hchild, hcache]
    exact hw.fresh
  · intro hnone
    rcases hdelegation with hsame | hgone
    · rw [hsame]
      exact hw.undelegated (hchild.symm.trans hnone)
    · exact hgone

theorem fhgetServer_error {cache : InodeCache} {fattr : NfsFattr} {sv : Option NfsServer} {dentry : Option Dentry}
    {fenv : FhgetEnv} {e : Errno} (h : nfsFhgetServer sb cache fh fattr sv dentry fenv = (cache', .error e)) :
    cache' = cache ∧ (fattr.fileidValid = true → fattr.typeValid = true → cache.hashed fh = none → e = .enomem) := by
  unfold nfsFhgetServer at h
  split at h
  · rename_i hinvalid
    cases h
    refine ⟨rfl, fun hfileid htype _ => ?_⟩
    simp [hfileid, htype] at hinvalid
  split at h
  · rename_i hhashed
    split at h
    · cases h
      refine ⟨rfl, fun _ _ hnone => ?_⟩
      rw [hnone] at hhashed
      cases hhashed
    · cases h
  split at h
  · cases h
    exact ⟨rfl, fun _ _ _ => rfl⟩
  · cases h

/-- An OPEN of a name ends well only for a file that may be opened; where it is repeated, the name
is as it was. -/
theorem openAndGetState_cases (hw : Repeatable env w) {r : Except Errno OpenContext}
    (h : nfs4OpenAndGetState sb env flags server .null w = (w', r)) :
    (∃ cache' fh created inode, Openable sb env flags server w.child w.cache cache' fh created inode) ∨
      ∃ e, r = .error e ∧ (e = .einval ∨ e = .nfs4errDelay →
        w'.dentry = w.dentry ∧ w'.child = w.child ∧ w'.cache = w.cache ∧ w'.delegation = w.delegation) := by
  simp only [nfs4OpenAndGetState, nfs4OpendataAlloc, mapAtomicOpenClaim_null, nfsd4Open] at h
  cases hlookup : doOpenLookup env.toNfsd w.child flags flags.openMode with
  | error e =>
    simp only [hlookup] at h
    cases h
    exact .inr ⟨e, rfl, fun _ => ⟨rfl, childAfterLookup_of_error hlookup, rfl, rfl⟩⟩
  | ok found =>
    obtain ⟨fh, created⟩ := found
    simp only [hlookup, nfsd4ProcessOpen2] at h
    have hafter := childAfterLookup_of_ok hlookup
    have hold : w.child ≠ none → childAfterLookup env.toNfsd w.child flags = w.child := fun hsome => by
      rcases doOpenLookup_ok hlookup with ⟨hchild, -, -⟩ | ⟨hchild, -⟩
      · rw [hafter, hchild]
      · exact absurd hchild hsome
    split at h
    · rename_i hdelay
      split at hdelay
      · -- a delegation is recalled, so the file was there before
        cases hdelay
        cases h
        rename_i hlease
        refine .inr ⟨_, rfl, fun _ => ⟨rfl, hold fun hnone => ?_, rfl, rfl⟩⟩
        rw [hw.undelegated hnone] at hlease
        simp [nfsdOpenBreakLease] at hlease
      · cases hdelay
    rename_i res hanswer
    split at hanswer
    · cases hanswer
    cases hanswer
    split at h
    · rename_i cache' e hget
      cases h
      obtain ⟨hcache, hnew⟩ := fhgetServer_error hget
      refine .inr ⟨e, rfl, fun he => ⟨rfl, hold fun hnone => ?_, hcache, rfl⟩⟩
      rcases doOpenLookup_ok hlookup with ⟨hchild, -, -⟩ | ⟨-, -, -, rfl, -⟩
      · rw [hnone] at hchild
        cases hchild
      · rw [hnew rfl rfl (hw.fresh hnone)] at he
        rcases he with he | he <;> cases he
    rename_i cache' inode hget
    cases haccess : nfs4OpendataAccess env flags created with
    | none => exact .inl ⟨cache', fh, created, inode, hlookup, hget, haccess⟩
    | some e =>
      simp only [haccess] at h
      cases h
      refine .inr ⟨e, rfl, fun he => ?_⟩
      unfold nfs4OpendataAccess at haccess
      split at haccess
      · cases haccess
      split at haccess
      · split at haccess
        · cases haccess
        · cases haccess
          rcases he with he | he <;> cases he
      split at haccess
      · cases haccess
        rcases he with he | he <;> cases he
      · cases haccess

/-- **Only files that may be opened are opened.** -/
theorem openable_of_doOpen : ∀ {fuel : Nat} {w : OpenWorld}, Repeatable env w →
    nfs4DoOpen sb env flags server fuel w = some (w', .ok ctx) →
    ∃ cache' fh created inode, Openable sb env flags server w.child w.cache cache' fh created inode
  | 0, _, _, h => by cases h
  | fuel + 1, w, hw, h => by
    cases honce : nfs4OpenAndGetState sb env flags server .null w with
    | mk v r =>
      rcases openAndGetState_cases hw honce with hopenable | ⟨e, rfl, hsame⟩
      · exact hopenable
      rw [nfs4DoOpen, doOpenOnce_negative hw.negative, honce] at h
      dsimp only at h
      split at h
      · rename_i hinval
        obtain ⟨hdentry, hchild, hcache, hdelegation⟩ := hsame (.inl hinval.1)
        have hrepeat : Repeatable env (nfs4ClearCapAtomicOpenV1 server.idx v) :=
          hw.of_same hdentry hchild hcache (.inl hdelegation)
        have hopenable := openable_of_doOpen hrepeat h
        rw [← hchild, ← hcache]
        exact hopenable
      split_ifs at h with hdelay
      · obtain ⟨hdentry, hchild, hcache, -⟩ := hsame (.inr hdelay)
        have hrepeat : Repeatable env { v with delegation := none } :=
          hw.of_same hdentry hchild hcache (.inr rfl)
        have hopenable := openable_of_doOpen hrepeat h
        rw [← hchild, ← hcache]
        exact hopenable
      · cases h

end

/-! ## From the first server to the server of the file -/

section

variable {sb server first home bound : NfsServer} {env : OpenEnv} {flags : OpenFlags} {v w w' : OpenWorld}
  {ctx : OpenContext} {cache cache' : InodeCache} {child : Option FileHandle} {fh : FileHandle} {created : Bool}
  {inode i : InodePtr} {n : Nat} {type : Option Fmode}

theorem openFailed_ne_opened (e : Errno) : openFailed flags e ≠ .opened ctx := by
  unfold openFailed
  split
  · exact nofun
  · exact nofun
  · split <;> exact nofun
  · exact nofun

section

variable (hopen : nfs4DoOpen sb env flags server (n + 1) w = some (w', .ok ctx))
  (hbound : nfsServerOf sb (w'.cache.inodes ctx.inode) = some bound)
include hopen hbound

theorem retryOpen_stays (hidx : bound.idx = server.idx) :
    retryOpen sb env flags (n + 1) server w =
      match env.finishOpen with
      | some e => some (putNfsOpenContextSync env ctx w', .error e)
      | none => some (w', .opened ctx) := by
  rw [retryOpen, hopen]
  dsimp only
  rw [hbound]
  dsimp only
  rewrite [if_neg (not_not.2 hidx)]
  rfl

theorem retryOpen_moves (hidx : bound.idx ≠ server.idx) :
    retryOpen sb env flags (n + 1) server w = retryOpen sb env flags n bound (putNfsOpenContextSync env ctx w') := by
  rw [retryOpen, hopen]
  dsimp only
  rw [hbound]
  dsimp only
  rw [if_pos hidx]

end

theorem doOpen_of_retryOpen (h : retryOpen sb env flags (n + 1) server w = some (w', .opened ctx)) :
    ∃ w₁ ctx₁, nfs4DoOpen sb env flags server (n + 1) w = some (w₁, .ok ctx₁) := by
  rw [retryOpen] at h
  split at h
  · cases h
  · rename_i e _
    have hfailed := congrArg Prod.snd (Option.some.inj h)
    exact absurd hfailed (openFailed_ne_opened e)
  · rename_i w₁ ctx₁ hopen
    exact ⟨w₁, ctx₁, hopen⟩

section

variable (h : Openable sb env flags server child cache cache' fh created inode)
include h

theorem Openable.of_hashed
    (hhashed : cache.hashed fh = some i) (server' : NfsServer) :
    cache' = cache ∧ inode = i ∧ Openable sb env flags server' child cache cache fh created i := by
  have hget := h.fhget
  unfold nfsFhgetServer at hget
  split at hget
  · cases hget
  rename_i hvalid
  rw [hhashed] at hget
  dsimp only at hget
  split at hget
  · cases hget
  rename_i hrefresh
  cases hget
  refine ⟨rfl, rfl, h.lookup, ?_, h.access⟩
  unfold nfsFhgetServer
  rw [if_neg hvalid, hhashed]
  rw [hrefresh]

theorem Openable.bound_of_new
    (hnum : Numbered sb) (hserver : server ∈ sb.servers) (hnew : cache.hashed fh = none) :
    nfsServerOf sb (cache'.inodes inode) = some server :=
  hnum.serverOf_instantiates hserver ⟨fh, _, env.fhget, hnew, doOpenLookup_regular h.lookup, h.fhget⟩

end

theorem Opened.atHome_iff {idx count : Nat} {base : Option Delegation}
    (h : Opened flags idx inode base type count w w' ctx)
    (hkeeps : (∀ d ∈ nfs4OpendataCheckDeleg idx base type, d.server = idx) ↔ ∀ d ∈ base, d.server = idx)
    (hbound : nfsServerOf sb (w'.cache.inodes inode) = some server) (hidx : idx = server.idx) :
    (∃ s, OpenedAtHome sb flags w w' ctx s) ↔ count ≤ 2 ∧ ∀ d ∈ base, d.server = server.idx := by
  subst hidx
  obtain ⟨hsent, hdelegation, hopens, rfl⟩ := h
  rw [← hkeeps, ← hdelegation]
  constructor
  · rintro ⟨s, hhome⟩
    have hs : s = server := Option.some.inj (hhome.bound.symm.trans hbound)
    subst hs
    have hfew := hhome.sent
    exact ⟨by omega, hhome.delegation⟩
  · rintro ⟨hfew, hown⟩
    exact ⟨server, hbound, by omega, rfl, updateOpenStateid_eq hown, hown, hopens⟩

/-- The world in which the open goes on to the server of the file. -/
structure AtRetry (env : OpenEnv) (flags : OpenFlags) (first : Nat) (fh : FileHandle) (inode : InodePtr) (v x : OpenWorld) :
    Prop where
  cache : x.cache = v.cache
  child : x.child = some fh
  dInode : x.dentry.dInode = if v.exactAlias then none else some inode
  atomicOpenV1 : x.atomicOpenV1 = v.atomicOpenV1
  opens : x.opens = v.opens
  sent : x.sent.length =
    v.sent.length + if nfsdOpenBreakLease env.toNfsd first v.delegation flags.openMode then 2 else 1
  /-- If nothing had to be recalled. -/
  delegation : nfsdOpenBreakLease env.toNfsd first v.delegation flags.openMode = false →
    x.delegation = delegationAtRetry env flags v first
  /-- If the delegation had to be recalled, another one can only be of the first server. -/
  recalled : nfsdOpenBreakLease env.toNfsd first v.delegation flags.openMode = true →
    ∀ d ∈ x.delegation, d.server = first

theorem atRetry_put (htype : type = nfs4OpenDelegation env.toNfsd first.idx (v.atomicOpenV1 first.idx && flags.direct))
    (hopened : Opened flags first.idx inode
      (if v.recalls env flags first.idx then none else v.delegation) type
      (if v.recalls env flags first.idx then 2 else 1) v w' ctx)
    (hcache : w'.cache = v.cache) (hinst : Instantiated fh inode v w') :
    AtRetry env flags first.idx fh inode v (putNfsOpenContextSync env ctx w') := by
  obtain ⟨hsent, hdelegation, hopens, rfl⟩ := hopened
  have hclosed : w'.opens.erase { server := first.idx, fmode := flags.openMode } = v.opens := by
    rw [hopens, List.erase_cons_head]
  refine ⟨hcache, hinst.child, hinst.dInode, hinst.atomicOpenV1, hclosed, hsent, fun hlease => ?_, fun hlease d hd => ?_⟩
  · simp [putNfsOpenContextSync, hclosed, hdelegation, hlease, delegationAtRetry, htype]
  · simp only [putNfsOpenContextSync, hclosed, hdelegation, hlease, if_true] at hd
    split at hd
    · cases hd
    · exact mem_checkDeleg_none hd

/-- An open that is sent to `server` in the world `x`, and was begun in `v`, ends at home. -/
def EndsAtHome (sb : NfsServer) (env : OpenEnv) (flags : OpenFlags) (fuel : Nat) (server : NfsServer) (v x : OpenWorld) :
    Prop :=
  ∃ w' ctx s, retryOpen sb env flags fuel server x = some (w', .opened ctx) ∧ OpenedAtHome sb flags v w' ctx s

theorem endsAtHome_iff {x : OpenWorld} {count total : Nat} {base : Option Delegation}
    (hopen : nfs4DoOpen sb env flags server (n + 1) x = some (w', .ok ctx))
    (hopened : Opened flags server.idx inode base type count x w' ctx)
    (hkeeps : (∀ d ∈ nfs4OpendataCheckDeleg server.idx base type, d.server = server.idx) ↔
      ∀ d ∈ base, d.server = server.idx)
    (hbound : nfsServerOf sb (w'.cache.inodes inode) = some home) (hidx : server.idx = home.idx)
    (hfinish : env.finishOpen = none) (hopens : x.opens = v.opens)
    (hsent : x.sent.length + count = v.sent.length + total) :
    EndsAtHome sb env flags (n + 1) server v x ↔ total ≤ 2 ∧ ∀ d ∈ base, d.server = home.idx := by
  have hret := retryOpen_stays hopen (by rw [hopened.ctx]; exact hbound) hidx.symm
  rw [hfinish] at hret
  rw [← (hopened.since hopens hsent).atHome_iff hkeeps hbound hidx]
  constructor
  · rintro ⟨u, c, s, hu, hhome⟩
    rw [hret] at hu
    cases hu
    exact ⟨s, hhome⟩
  · rintro ⟨s, hhome⟩
    exact ⟨w', ctx, s, hret, hhome⟩

/-- Two OPENs in all: no server was sent a second one. -/
theorem few_opens : ∀ {a b : Bool}, (if a then 2 else 1) + (if b then 2 else 1) ≤ 2 → a = false ∧ b = false := by
  decide

section

variable {idx : Nat} {x : OpenWorld} (hx : AtRetry env flags idx fh inode v x)
  (hopenable : Openable sb env flags home v.child v.cache v.cache fh false inode) (hchild : v.child = some fh)
  (hbound : nfsServerOf sb (v.cache.inodes inode) = some home) (hfinish : env.finishOpen = none)
include hx hopenable hchild hbound hfinish

/-- If an alias was hashed in place of the dentry, the open starts anew with the server of the file. -/
theorem retry_alias (halias : v.exactAlias = true) :
    EndsAtHome sb env flags (n + 2) home v x ↔ MovesHome env flags v idx home.idx := by
  have hneg : x.dentry.dInode = none := by rw [hx.dInode, if_pos halias]
  have hopenable' : Openable sb env flags home x.child x.cache v.cache fh false inode := by
    rw [hx.child, hx.cache, ← hchild]
    exact hopenable
  obtain ⟨w', ctx, hopen, hopened, hcache, -⟩ := doOpen_negative hneg hopenable' (fun _ => hx.child) n
  rw [endsAtHome_iff hopen hopened forall_checkDeleg_iff (by rw [hcache, hbound]) rfl hfinish hx.opens
    (by rw [hx.sent, add_assoc])]
  constructor
  · rintro ⟨hfew, hown⟩
    obtain ⟨hfirst, hsecond⟩ := few_opens hfew
    rw [if_neg (by rw [hsecond]; exact false_ne_true), hx.delegation hfirst] at hown
    refine ⟨hfirst, fun d hd => .inl (hown d hd), fun hno => ?_, fun hno => ?_⟩
    · rw [halias] at hno
      cases hno
    · rw [halias] at hno
      cases hno
  · intro hmoves
    have hown : ∀ d ∈ x.delegation, d.server = home.idx := by
      rw [hx.delegation hmoves.notRecalled]
      intro d hd
      rcases hmoves.delegation d hd with hd | ⟨hno, -⟩
      · exact hd
      · rw [halias] at hno
        cases hno
    rw [recalls_own hown, hmoves.notRecalled]
    exact ⟨by decide, hown⟩

omit hopenable hchild in
theorem retry_served (halias : v.exactAlias = false) (hcan : canOpenDelegated x.delegation flags.openMode = true)
    (hidx : home.idx ≠ idx) :
    EndsAtHome sb env flags (n + 2) home v x ↔ MovesHome env flags v idx home.idx := by
  have hinode : x.dentry.dInode = some inode := by
    rw [hx.dInode, halias]
    rfl
  have hserved := doOpen_served sb env home hinode hcan (n + 1)
  cases hmay : nfsMayOpen env flags with
  | false =>
    rw [hmay] at hserved
    obtain ⟨w', hopen⟩ := hserved
    constructor
    · rintro ⟨u, c, s, hu, -⟩
      rw [retryOpen, hopen] at hu
      cases hu
    · intro hmoves
      rw [hx.delegation hmoves.notRecalled] at hcan
      have hyes := hmoves.served halias hcan
      rw [hmay] at hyes
      cases hyes
  | true =>
    rw [hmay] at hserved
    obtain ⟨w', ctx, hopen, hopened, hcache⟩ := hserved
    rw [endsAtHome_iff hopen hopened Iff.rfl (by rw [hcache, hx.cache, hbound]) rfl hfinish hx.opens
      (by rw [hx.sent, add_assoc])]
    -- the delegation that allows the open
    obtain ⟨d, hd, hcovers⟩ : ∃ d, x.delegation = some d ∧ d.type.covers flags.openMode = true := by
      cases hdeleg : x.delegation with
      | none =>
        rw [hdeleg] at hcan
        cases hcan
      | some d =>
        rw [hdeleg] at hcan
        exact ⟨d, rfl, hcan⟩
    constructor
    · rintro ⟨-, hown⟩
      have hfirst : v.recalls env flags idx = false := by
        by_contra hlease
        rw [not_eq_false] at hlease
        exact hidx ((hown d hd).symm.trans (hx.recalled hlease d hd))
      rw [hx.delegation hfirst] at hown hcan
      refine ⟨hfirst, fun e he => .inl (hown e he), fun _ _ => hmay, fun _ hno => ?_⟩
      rw [hcan] at hno
      cases hno
    · intro hmoves
      refine ⟨?_, fun e he => ?_⟩
      · rw [hmoves.notRecalled]
        decide
      · rw [hd] at he
        cases he
        rw [hx.delegation hmoves.notRecalled] at hd
        rcases hmoves.delegation d hd with hd | ⟨-, hno⟩
        · exact hd
        · rw [hcovers] at hno
          cases hno

theorem retry_sent (halias : v.exactAlias = false) (hcan : canOpenDelegated x.delegation flags.openMode = false)
    (hpermission : env.permission flags.openMode = none) :
    EndsAtHome sb env flags (n + 2) home v x ↔ MovesHome env flags v idx home.idx := by
  have hinode : x.dentry.dInode = some inode := by
    rw [hx.dInode, halias]
    rfl
  have hopenable' : Openable sb env flags home x.child x.cache x.cache fh false inode := by
    rw [hx.child, hx.cache, ← hchild]
    exact hopenable
  obtain ⟨w', ctx, want, hopen, hopened, hcache⟩ := doOpen_sent hinode hcan hopenable' hpermission n
  rw [endsAtHome_iff hopen hopened forall_checkDeleg_iff (by rw [hcache, hx.cache, hbound]) rfl hfinish hx.opens
    (by rw [hx.sent, add_assoc]), hx.atomicOpenV1]
  constructor
  · rintro ⟨hfew, -⟩
    obtain ⟨hfirst, hclaim⟩ := few_opens hfew
    rw [hx.delegation hfirst] at hcan
    refine ⟨hfirst, fun d hd => .inr ⟨halias, ?_⟩, fun _ hyes => ?_, fun _ _ hcreat => ?_⟩
    · rw [hd] at hcan
      exact hcan
    · rw [hcan] at hyes
      cases hyes
    · rwa [hcreat, Bool.true_and] at hclaim
  · intro hmoves
    rw [hx.delegation hmoves.notRecalled] at hcan
    refine ⟨?_, nofun⟩
    rw [hmoves.notRecalled]
    cases hcreat : flags.creat with
    | false => exact le_refl 2
    | true =>
      rw [hmoves.claim halias hcan hcreat]
      exact le_refl 2

end

theorem retryOpen_elsewhere (hneg : v.dentry.dInode = none) (hchild : v.child = some fh)
    (hhashed : v.cache.hashed fh = some inode) (hbound : nfsServerOf sb (v.cache.inodes inode) = some home)
    (hopenable : Openable sb env flags home v.child v.cache cache' fh created i) (hfinish : env.finishOpen = none)
    (hidx : first.idx ≠ home.idx) :
    EndsAtHome sb env flags (n + 3) first v v ↔ MovesHome env flags v first.idx home.idx := by
  obtain ⟨hcreated, hpermission⟩ : created = false ∧ env.permission flags.openMode = none := by
    rcases doOpenLookup_ok hopenable.lookup with ⟨-, hold, hpermission⟩ | ⟨hnone, -⟩
    · exact ⟨hold, hpermission⟩
    · rw [hchild] at hnone
      cases hnone
  subst hcreated
  obtain ⟨-, -, hathome⟩ := hopenable.of_hashed hhashed home
  obtain ⟨-, -, hatfirst⟩ := hopenable.of_hashed hhashed first
  obtain ⟨w₁, ctx₁, hopen, hopened, hcache, hinst⟩ := doOpen_negative hneg hatfirst (fun _ => hchild) (n + 1)
  have hfirst : nfsServerOf sb (w₁.cache.inodes ctx₁.inode) = some home := by
    rw [hcache, hopened.ctx]
    exact hbound
  have hx := atRetry_put rfl hopened hcache hinst
  rw [EndsAtHome, retryOpen_moves hopen hfirst hidx.symm]
  cases halias : v.exactAlias with
  | true => exact retry_alias hx hathome hchild hbound hfinish halias
  | false =>
    cases hcan : canOpenDelegated (putNfsOpenContextSync env ctx₁ w₁).delegation flags.openMode with
    | true => exact retry_served hx hbound hfinish halias hcan hidx.symm
    | false => exact retry_sent hx hathome hchild hbound hfinish halias hcan hpermission

theorem retryOpen_athome (hneg : v.dentry.dInode = none)
    (hopenable : Openable sb env flags first v.child v.cache cache' fh created inode)
    (hrecall : v.recalls env flags first.idx = true → v.child = some fh)
    (hbound : nfsServerOf sb (cache'.inodes inode) = some home) (hfinish : env.finishOpen = none)
    (hidx : first.idx = home.idx) :
    EndsAtHome sb env flags (n + 3) first v v ↔ ∀ d ∈ v.delegation,
      d.server = home.idx ∨ v.recalls env flags home.idx = true := by
  obtain ⟨w', ctx, hopen, hopened, hcache, -⟩ := doOpen_negative hneg hopenable hrecall (n + 1)
  rw [endsAtHome_iff hopen hopened forall_checkDeleg_iff (by rw [hcache, hbound]) hidx hfinish rfl rfl, hidx]
  cases hlease : v.recalls env flags home.idx with
  | true => exact ⟨fun _ _ _ => .inr rfl, fun _ => ⟨le_refl 2, nofun⟩⟩
  | false =>
    constructor
    · rintro ⟨-, hown⟩ d hd
      exact .inl (hown d hd)
    · intro hown
      refine ⟨by decide, fun d hd => ?_⟩
      rcases hown d hd with hd | hno
      · exact hd
      · cases hno

end

/-! ## The result -/

section

variable {sb first home : NfsServer} {env : OpenEnv} {flags : OpenFlags} {v w : OpenWorld} {n : Nat}

theorem openPrepare_ok (h : openPrepare env flags w = .ok v) :
    (v.dentry.dInode = none ∨ v.dentry = w.dentry) ∧ v.child = w.child ∧ v.cache = w.cache ∧
      v.delegation = w.delegation ∧ v.opens = w.opens ∧ v.sent = w.sent := by
  unfold openPrepare at h
  split_ifs at h
  · split at h <;> cases h
    exact ⟨.inl rfl, rfl, rfl, rfl, rfl, rfl⟩
  · cases h
    exact ⟨.inr rfl, rfl, rfl, rfl, rfl, rfl⟩

theorem openPrepare_error {outcome : OpenOutcome} (h : openPrepare env flags w = .error outcome) (ctx : OpenContext) :
    outcome ≠ .opened ctx := by
  unfold openPrepare at h
  split_ifs at h
  iterate 4
    · cases h
      exact nofun
  · split at h <;> cases h <;> exact nofun

theorem OpenWorld.Consistent.prepare (hw : w.Consistent env) (h : openPrepare env flags w = .ok v) : v.Consistent env := by
  obtain ⟨hdentry, hchild, hcache, hdelegation, -, -⟩ := openPrepare_ok h
  refine ⟨?_, ?_, ?_⟩
  · rcases hdentry with hneg | hsame
    · exact hneg
    · rw [hsame]
      exact hw.negative
  · rw [hchild, hcache]
    exact hw.fresh
  · rw [hchild, hcache, hdelegation]
    exact hw.undelegated

theorem OpenWorld.Consistent.repeatable (hw : w.Consistent env) : Repeatable env w := by
  refine ⟨hw.negative, hw.fresh, fun hnone => hw.undelegated ?_⟩
  rw [hnone]
  rfl

theorem homeServer_cases (hv : v.Consistent env) {fh : FileHandle} {created : Bool}
    (hfirst : nfsMultipathGetClientByDentry sb v.cache v.dentry = some first) (hhome : homeServer sb v = some home)
    (hlookup : doOpenLookup env.toNfsd v.child flags flags.openMode = .ok (fh, created)) :
    (∃ inode, v.child = some fh ∧ v.cache.hashed fh = some inode ∧ nfsServerOf sb (v.cache.inodes inode) = some home) ∨
      (v.cache.hashed fh = none ∧ first = home) := by
  unfold homeServer at hhome
  rcases doOpenLookup_ok hlookup with ⟨hchild, -, -⟩ | ⟨hnone, -, -, rfl, -⟩
  · rw [hchild, bind_some] at hhome
    cases hhashed : v.cache.hashed fh with
    | some inode =>
      rw [hhashed] at hhome
      exact .inl ⟨inode, hchild, rfl, hhome⟩
    | none =>
      rw [hhashed] at hhome
      exact .inr ⟨rfl, Option.some.inj (hfirst.symm.trans hhome)⟩
  · rw [hnone] at hhome
    exact .inr ⟨hv.fresh hnone, Option.some.inj (hfirst.symm.trans hhome)⟩

theorem endsAtHome_iff_goesHome (hnum : Numbered sb) (hv : v.Consistent env)
    (hfirst : nfsMultipathGetClientByDentry sb v.cache v.dentry = some first) (hhome : homeServer sb v = some home)
    {w₁ : OpenWorld} {ctx₁ : OpenContext} (hopens : retryOpen sb env flags (n + 3) home v = some (w₁, .opened ctx₁)) :
    EndsAtHome sb env flags (n + 3) first v v ↔ GoesHomeFrom env flags v first.idx home.idx := by
  unfold GoesHomeFrom
  obtain ⟨w₂, ctx₂, hdo⟩ := doOpen_of_retryOpen hopens
  obtain ⟨cache', fh, created, inode, hopenable⟩ := openable_of_doOpen hv.repeatable hdo
  have hrecall : ∀ idx, v.recalls env flags idx = true → v.child = some fh := by
    intro idx hlease
    rcases doOpenLookup_ok hopenable.lookup with ⟨hchild, -, -⟩ | ⟨hnone, -⟩
    · exact hchild
    · rw [recalls_own (by rw [hv.repeatable.undelegated hnone]; nofun)] at hlease
      cases hlease
  have hcases := homeServer_cases hv hfirst hhome hopenable.lookup
  -- the server the file is bound to once it is in memory
  have hbound : nfsServerOf sb (cache'.inodes inode) = some home := by
    rcases hcases with ⟨i, -, hhashed, hbound⟩ | ⟨hnew, rfl⟩
    · obtain ⟨rfl, rfl, -⟩ := hopenable.of_hashed hhashed home
      exact hbound
    · exact hopenable.bound_of_new hnum (getClientByDentry_mem hv.negative hfirst) hnew
  have hfinish : env.finishOpen = none := by
    obtain ⟨w₃, ctx₃, hopen, hopened, hcache, -⟩ :=
      doOpen_negative hv.negative hopenable (hrecall home.idx) (n + 1)
    rw [retryOpen_stays hopen (by rw [hcache, hopened.ctx]; exact hbound) rfl] at hopens
    cases hfinish : env.finishOpen with
    | none => rfl
    | some e =>
      rw [hfinish] at hopens
      cases hopens
  rcases hcases with ⟨i, hchild, hhashed, hcached⟩ | ⟨hnew, rfl⟩
  · split_ifs with hidx
    · obtain ⟨-, -, hatfirst⟩ := hopenable.of_hashed hhashed first
      exact retryOpen_athome hv.negative hatfirst (hrecall first.idx) hcached hfinish hidx
    · exact retryOpen_elsewhere hv.negative hchild hhashed hcached hopenable hfinish hidx
  · rw [if_pos rfl]
    exact retryOpen_athome hv.negative hopenable (hrecall first.idx) hbound hfinish rfl

theorem homeServer_isSome (sb : NfsServer) (w : OpenWorld) : (homeServer sb w).isSome = true := by
  unfold homeServer
  split
  · exact serverOf_isSome
  · exact getClientByDentry_isSome

end

/-- **Files are opened with their own server.**  An open that would succeed at the server of the
file succeeds from any first server, with at most two OPENs and with a state and a delegation of the
server of the file only, just when it goes home: no delegation of another server is found on the
inode or handed out on the way, none has to be recalled, and an OPEN by file handle does not come
with `O_CREAT`. -/
theorem opensAtHome_iff (sb : NfsServer) (h : Mounted sb) (env : OpenEnv) (flags : OpenFlags) (w : OpenWorld)
    (hw : w.Consistent env) (fuel : Nat) (hfuel : 3 ≤ fuel) :
    OpensAtHome sb env flags fuel w ↔ (OpensFirstAtHome sb env flags fuel w → GoesHome sb env flags w) := by
  obtain ⟨n, rfl⟩ : ∃ n, fuel = n + 3 := ⟨fuel - 3, by omega⟩
  have hneg : w.dentry.dInode.isSome = false := by rw [hw.negative]; rfl
  cases hprepare : openPrepare env flags w with
  | error outcome =>
    have hnot : ¬ OpensFirstAtHome sb env flags (n + 3) w := by
      rintro ⟨w', ctx, hopens⟩
      simp only [nfsAtomicOpenAt, hneg, hprepare, false_eq_true, if_false, Option.some.injEq, Prod.mk.injEq] at hopens
      exact openPrepare_error hprepare ctx hopens.2
    exact ⟨fun _ hopens => absurd hopens hnot, fun _ hopens => absurd hopens hnot⟩
  | ok v =>
    obtain ⟨-, -, -, -, hsameOpens, hsameSent⟩ := openPrepare_ok hprepare
    have hv := hw.prepare hprepare
    have hnamed : (nfsMultipathGetClientByDentry sb v.cache v.dentry).isSome = true := getClientByDentry_isSome
    obtain ⟨first, hfirst⟩ := isSome_iff_exists.1 hnamed
    obtain ⟨home, hhome⟩ := isSome_iff_exists.1 (homeServer_isSome sb v)
    have hopens : nfsAtomicOpenAt sb env flags (homeServer sb) (n + 3) w = retryOpen sb env flags (n + 3) home v := by
      simp [nfsAtomicOpenAt, hneg, hprepare, hhome]
    have hatomic : nfsAtomicOpen sb env flags (n + 3) w = retryOpen sb env flags (n + 3) first v := by
      simp [nfsAtomicOpen, nfsAtomicOpenAt, hneg, hprepare, hfirst]
    have hgoes : GoesHome sb env flags w ↔ GoesHomeFrom env flags v first.idx home.idx := by
      refine ⟨fun hall => hall v first home hprepare hfirst hhome, fun hone v' first' home' hv' hfirst' hhome' => ?_⟩
      cases hprepare.symm.trans hv'
      cases hfirst.symm.trans hfirst'
      cases hhome.symm.trans hhome'
      exact hone
    have hends : ∀ w' ctx s, OpenedAtHome sb flags w w' ctx s ↔ OpenedAtHome sb flags v w' ctx s := by
      intro w' ctx s
      constructor <;>
      · rintro ⟨hbound, hsent, howner, hstateid, hdelegation, hopened⟩
        exact ⟨hbound, hsameSent ▸ hsent, howner, hstateid, hdelegation, hsameOpens ▸ hopened⟩
    unfold OpensAtHome OpensFirstAtHome
    rw [hopens, hatomic, hgoes]
    refine forall_congr' fun hfirstHome => ?_
    obtain ⟨w₁, ctx₁, hw₁⟩ := hfirstHome
    rw [← endsAtHome_iff_goesHome (mounted_numbered h) hv hfirst hhome hw₁]
    simp [hends, EndsAtHome]

def twoServers : NfsServer := primaryAt (fun _ => none) (manyAddresses 2) (manyPorts 2) 0 2

theorem twoServers_mounted : Mounted twoServers :=
  .create (by decide) (manyAddresses_created _ (by decide) (by decide) rfl)

/-- A file of the first server, opened by a name whose dentry hashes to the second. -/
def secondName : OpenWorld where
  cache :=
    { inodes := fun _ => { serverIdx1 := 1 }
      live := {7}
      hashed := fun fh => if fh = 5 then some 7 else none }
  dentry := { hash := 1 }
  child := some 5

theorem secondName_consistent (env : OpenEnv) : secondName.Consistent env :=
  ⟨rfl, nofun, nofun⟩

/-- Read through its second name, the file is opened with its own server by the second OPEN. -/
theorem opensAtHome_iff_secondName :
    OpensFirstAtHome twoServers { newChild := 9 } {} 3 secondName ∧
      OpensAtHome twoServers { newChild := 9 } {} 3 secondName := by
  refine ⟨⟨_, _, rfl⟩, (opensAtHome_iff twoServers twoServers_mounted { newChild := 9 } {} secondName
    (secondName_consistent _) 3 (le_refl 3)).2 fun _ v first home hprepare hfirst hhome => ?_⟩
  cases hprepare
  cases hfirst
  cases hhome
  exact (if_neg (by decide)).mpr ⟨rfl, nofun, nofun, nofun⟩

/-- With `O_CREAT` it takes three OPENs: the second server is asked by name, the server of the file
by file handle, which it refuses, and then by name. Read with a delegation of the second server, the
file is left with that delegation. -/
theorem secondName_not_at_home :
    Mounted twoServers ∧ secondName.Consistent { newChild := 9 } ∧
      OpensFirstAtHome twoServers { newChild := 9 } { creat := true } 3 secondName ∧
      (∃ w' ctx, nfsAtomicOpen twoServers { newChild := 9 } { creat := true } 3 secondName = some (w', .opened ctx) ∧
        w'.sent = [(1, .null), (0, .fh), (0, .null)]) ∧
      ¬ OpensAtHome twoServers { newChild := 9 } { creat := true } 3 secondName ∧
      ¬ OpensAtHome twoServers { newChild := 9, delegates := fun _ => true } {} 3 secondName := by
  have hopens : OpensFirstAtHome twoServers { newChild := 9 } { creat := true } 3 secondName := ⟨_, _, rfl⟩
  refine ⟨twoServers_mounted, secondName_consistent _, hopens, ⟨_, _, rfl, rfl⟩, fun h => ?_, fun h => ?_⟩
  · obtain ⟨w', ctx, server, hopen, hhome⟩ := h hopens
    cases hopen
    exact absurd hhome.sent (by decide)
  · obtain ⟨w', ctx, server, hopen, hhome⟩ := h ⟨_, _, rfl⟩
    cases hopen
    -- the state is the first server's, its `stateid` the second server's
    have hsame : (0 : Nat) = 1 := hhome.owner.trans hhome.stateid.symm
    cases hsame

end Vastnfs.Nfs
