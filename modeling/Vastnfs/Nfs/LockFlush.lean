import Vastnfs.Lib.Runs

/-!
# Locks as coherency points with `optlockflush`

A file with a lock table on the server, one client that caches its pages and its attributes, and others that modify it
under locks of their own. `do_setlk` keeps the cache when the mtime sampled by `do_unlk` is still the one of the inode,
before and after a GETATTR (`fs/nfs/file.c`); what attributes do to the cache is `nfs_update_inode` and its callers
(`fs/nfs/inode.c`). Replies that carry attributes can be applied late and out of order.

* `Applied`, `Noticed`: what the attributes of a reply can do to an inode.
* `setlk_coherent`: in which runs no lock leaves a stale page in the cache that is not flagged.
* `setlk_stale`: runs in which one does.
-/

namespace Vastnfs.Nfs

open Runs List Option Bool

/-! ## The inode of the client -/

structure FilePage where
  (index data : Nat)
  dirty : Bool
  deriving DecidableEq

/-- What `change_attr_type` says about the change attribute. -/
inductive ChangeAttrType where
  | undefined | timeMetadata | monotonic
  deriving DecidableEq

structure LockMount where
  (optLockFlush softReval : Bool)
  changeAttrType : ChangeAttrType := .undefined
  deriving DecidableEq

/-- Attributes in a reply: `gencount` was drawn when the call was made, `preChange` is weak cache consistency data. -/
structure AttrReply where
  (gencount change : Nat)
  mtime : Option Nat
  preChange : Option Nat := none
  deriving DecidableEq

/-- The inode: cached attributes, `cache_validity`, page cache, open files (those for writing are `true`). -/
structure LockInode where
  (mtime iversion unlockMtime : Nat)
  (invalidChange invalidMtime invalidData dataInvalDefer : Bool := false)
  attrGencount : Nat := 0
  /-- `nfs_attr_generation_counter` -/
  counter : Nat := 0
  delegated : Bool := false
  openFiles : List Bool := []
  cache : List FilePage := []
  deriving DecidableEq

/-- The flags of a call of `nfs_set_cache_invalid`. -/
structure CacheFlags where
  (change mtime data revalPagecache : Bool := false)
  deriving DecidableEq

section

variable (c : LockInode)

def LockInode.haveWriters : Bool := c.openFiles.any id

/-- No page is dirty: `nfs_sync_mapping` and `nfs_wb_all` wait for this. -/
def LockInode.clean : Bool := c.cache.all fun p => !p.dirty

def nfsSetCacheInvalid (flags : CacheFlags) : LockInode :=
  let c' := { c with
    invalidChange := c.invalidChange || (!c.delegated && (flags.change || flags.revalPagecache))
    invalidMtime := c.invalidMtime || flags.mtime
    invalidData := c.invalidData || flags.data }
  if c'.cache = [] then { c' with invalidData := false, dataInvalDefer := false }
  else if c'.invalidData then { c' with dataInvalDefer := false }
  else c'

def nfsZapCaches : LockInode :=
  nfsSetCacheInvalid c { change := true, mtime := true, data := true, revalPagecache := true }

/-- What is left of it for a file, as its mtime is replaced in any case. -/
def nfsWccUpdateInode (fattr : AttrReply) : LockInode :=
  { c with iversion := if fattr.preChange = some c.iversion then fattr.change else c.iversion }

/-- The change attribute of the reply is a new one, and the client does not put it down to its own writes. -/
def attrChanged (fattr : AttrReply) : Bool :=
  (nfsWccUpdateInode c fattr).iversion != fattr.change && !(c.haveWriters || c.delegated)

/-- The attributes that `nfs_update_inode` takes from a reply. -/
def updatedAttrs (fattr : AttrReply) : LockInode :=
  let changed := (nfsWccUpdateInode c fattr).iversion != fattr.change
  { c with
    invalidChange := false
    -- with a changed attribute, everything that the reply does not have is to be fetched
    invalidMtime := fattr.mtime.isNone && (c.invalidMtime || attrChanged c fattr)
    dataInvalDefer := c.dataInvalDefer || (changed && c.haveWriters && !c.delegated)
    iversion := fattr.change
    mtime := fattr.mtime.getD c.mtime
    attrGencount := if attrChanged c fattr then c.counter + 1 else max c.attrGencount fattr.gencount
    counter := if attrChanged c fattr then c.counter + 1 else c.counter }

def nfsUpdateInode (fattr : AttrReply) : LockInode :=
  nfsSetCacheInvalid (updatedAttrs c fattr) { data := attrChanged c fattr }

/-- The flags that `nfs_check_inode_attributes` sets. -/
def checkedFlags (fattr : AttrReply) : CacheFlags where
  change := !c.haveWriters && c.iversion != fattr.change
  mtime := !c.haveWriters && fattr.mtime.any (· != c.mtime)

def nfsCheckInodeAttributes (fattr : AttrReply) : LockInode :=
  if c.delegated ∨ checkedFlags c fattr = {} then c else nfsSetCacheInvalid c (checkedFlags c fattr)

/-- `.gt` for a reply that is newer than the inode. -/
def nfsInodeAttrsCmp (type : ChangeAttrType) (fattr : AttrReply) : Ordering :=
  if c.attrGencount < fattr.gencount ∨ c.counter < c.attrGencount then .gt
  else
    match type with
    | .undefined => .eq
    | .timeMetadata => compare fattr.change c.iversion
    | .monotonic => if c.iversion < fattr.change then .gt else .lt

/-- `others` says whether an attribute not modelled here is invalid. -/
def nfsInodeFinishPartialAttrUpdate (type : ChangeAttrType) (others : Bool) (fattr : AttrReply) : Bool :=
  type != .undefined && !c.invalidChange && (c.invalidMtime || others) && fattr.change == c.iversion

def nfsRefreshInodeLocked (type : ChangeAttrType) (others : Bool) (fattr : AttrReply) : LockInode :=
  if nfsInodeAttrsCmp c type fattr = .gt ∨ nfsInodeFinishPartialAttrUpdate c type others fattr = true then
    nfsUpdateInode c fattr
  else if nfsInodeAttrsCmp c type fattr = .eq then nfsCheckInodeAttributes c fattr
  else c

/-- `nfs_post_op_update_inode_force_wcc_locked`, for the reply to a WRITE call with or without attributes. -/
def nfsPostOpUpdateInodeForceWcc (type : ChangeAttrType) (others : Bool) : Option AttrReply → LockInode
  | none => nfsSetCacheInvalid c { change := true, mtime := true }
  | some fattr =>
    let flagged := nfsSetCacheInvalid c { change := true, mtime := true }
    match nfsInodeAttrsCmp c type fattr with
    | .lt => c
    | .eq => nfsRefreshInodeLocked flagged type others { fattr with preChange := none }
    | .gt => nfsRefreshInodeLocked flagged type others { fattr with preChange := some (fattr.preChange.getD c.iversion) }

/-- `nfs_clear_invalid_mapping`, which waits for the writeback of dirty pages. -/
def nfsClearInvalidMapping : Option LockInode :=
  if c.invalidData then
    if c.clean then some { c with invalidData := false, dataInvalDefer := false, cache := [] } else none
  else some c

def nfsInodeAttachOpenContext (write : Bool) : LockInode :=
  let c' := if c.openFiles = [] ∧ c.dataInvalDefer = true then nfsSetCacheInvalid c { data := true } else c
  { c' with openFiles := write :: c'.openFiles }

end

/-! ## The server, the locks and the calls of the client -/

inductive GetattrOutcome where
  | ok | timedOut | failed
  deriving DecidableEq

inductive LockMode where
  | read | write
  deriving DecidableEq

/-- Who can hold a lock: an owner at this client, or another client. -/
inductive Party where
  | own (o : Nat)
  | other (c : Nat)
  deriving DecidableEq

def Party.isOwn : Party → Bool
  | .own _ => true
  | .other _ => false

/-- The file and the locks at the server, the replies that are on their way, and the inode of the client. -/
structure LockState where
  file : Nat → Nat
  (mtime change : Nat)
  locks : List (Party × LockMode) := []
  replies : List AttrReply := []
  inode : LockInode

/-- An inode that was just read in. Nothing initialises `unlock_mtime`: it has the value that was in the memory. -/
def LockState.start (file : Nat → Nat) (mtime change unlockMtime : Nat) : LockState where
  file := file
  mtime := mtime
  change := change
  inode := { mtime := mtime, iversion := change, unlockMtime := unlockMtime }

inductive LockEvent where
  | openFile (write : Bool)
  | closeFile (write : Bool)
  /-- `do_setlk` by an owner, with the server's word on its GETATTR calls. -/
  | setlk (o : Nat) (m : LockMode) (getattr : GetattrOutcome) (mapped : Bool) (reval : GetattrOutcome)
  /-- `do_unlk` by an owner, whether or not there is a lock. -/
  | unlk (o : Nat) (released : Bool)
  /-- A page is read under a lock; `expired` says that the attributes have timed out. -/
  | read (o i : Nat) (expired : Bool) (reval : GetattrOutcome)
  /-- A page is written under a lock; a write on the internal path does not clear the mapping first. -/
  | write (o i data : Nat) (internal : Bool)
  /-- A WRITE call of a dirty page, called when the counter was `g`. -/
  | writeback (i mtime change g : Nat) (attrs mtimeToo wcc others : Bool)
  | evict (i : Nat)
  /-- A call that returns attributes is made, the server answers one, the client gets an answer. -/
  | ask
  | serve (g : Nat) (mtimeToo : Bool)
  | reply (k : Nat) (others : Bool)
  /-- A delegation is granted with the attributes of an OPEN, or returned. -/
  | delegate | undelegate
  | otherLock (c : Nat) (m : LockMode)
  | otherUnlock (c : Nat)
  /-- Another client modifies a page under its lock. -/
  | modify (c i data mtime change : Nat)
  deriving DecidableEq

section

variable (mount : LockMount) (s : LockState)

def LockState.attrsNow : AttrReply where
  gencount := s.inode.counter + 1
  change := s.change
  mtime := some s.mtime

/-- `nfs_fattr_init`: the call that is made now draws the next number. -/
def LockState.asked : LockInode := { s.inode with counter := s.inode.counter + 1 }

def nfsRevalidateInode (reply : GetattrOutcome) : Bool × LockInode :=
  match reply with
  | .ok => (true, nfsRefreshInodeLocked s.asked mount.changeAttrType false s.attrsNow)
  | .timedOut => (mount.softReval, s.asked)
  | .failed => (false, s.asked)

def nfsRevalidateMapping (expired : Bool) (reply : GetattrOutcome) : Option (Bool × LockInode) :=
  if s.inode.invalidChange || expired then
    let r := nfsRevalidateInode mount s reply
    if r.1 then (nfsClearInvalidMapping r.2).map fun c => (true, c) else some (false, r.2)
  else (nfsClearInvalidMapping s.inode).map fun c => (true, c)

/-- The comparison of `do_setlk`: whether to zap the caches, and the inode after it. -/
def lockCompare (getattr : GetattrOutcome) : Bool × LockInode :=
  if mount.optLockFlush ∧ s.inode.unlockMtime = s.inode.mtime then
    let r := nfsRevalidateInode mount s getattr
    (!(r.1 && r.2.unlockMtime == r.2.mtime), r.2)
  else (true, s.inode)

def doSetlk (getattr : GetattrOutcome) (mapped : Bool) (reval : GetattrOutcome) : Option LockInode :=
  let r := lockCompare mount s getattr
  if r.1 && !r.2.delegated then
    if mapped then (nfsRevalidateMapping mount { s with inode := nfsZapCaches r.2 } false reval).map (·.2)
    else some (nfsZapCaches r.2)
  else some r.2

def doUnlk : LockInode :=
  if mount.optLockFlush && !s.inode.invalidMtime then { s.inode with unlockMtime := s.inode.mtime } else s.inode

def Grantable (p : Party) (m : LockMode) : Prop := ∀ l ∈ s.locks, l.1 = p ∨ l.2 = .read ∧ m = .read
deriving Decidable

def granted (p : Party) (m : LockMode) : List (Party × LockMode) := (p, m) :: s.locks.filter (·.1 ≠ p)

def dropped (p : Party) : List (Party × LockMode) := s.locks.filter (·.1 ≠ p)

def putPage (cache : List FilePage) (p : FilePage) : List FilePage := p :: cache.filter (·.index ≠ p.index)

def readPage (c : LockInode) (i : Nat) : LockInode :=
  if ∃ p ∈ c.cache, p.index = i then c
  else { c with cache := { index := i, data := s.file i, dirty := false } :: c.cache }

def setFile (i data : Nat) (j : Nat) : Nat := if j = i then data else s.file j

def writeReply (mtime change g : Nat) (attrs mtimeToo wcc : Bool) : Option AttrReply :=
  if attrs then
    some { gencount := g, change := change, mtime := if mtimeToo then some mtime else none
           preChange := if wcc then some s.change else none }
  else none

def pageWritten (i data mtime change g : Nat) (attrs mtimeToo wcc others : Bool) : LockState :=
  { s with
    file := setFile s i data
    mtime := mtime
    change := change
    inode := nfsPostOpUpdateInodeForceWcc
      { s.inode with cache := putPage s.inode.cache { index := i, data := data, dirty := false } }
      mount.changeAttrType others (writeReply s mtime change g attrs mtimeToo wcc) }

/-- The inode when a delegation is granted: the attributes of the OPEN, then `nfs_inode_set_delegation`. -/
def delegatedInode : LockInode :=
  let c := nfsRefreshInodeLocked s.asked mount.changeAttrType false s.attrsNow
  { (if c.invalidChange then nfsSetCacheInvalid c { mtime := true, data := true } else c) with delegated := true }

def lockStep : LockEvent → Option LockState
  | .openFile write => some { s with inode := nfsInodeAttachOpenContext s.inode write }
  | .closeFile write =>
    if write ∈ s.inode.openFiles ∧ s.inode.clean then
      some { s with inode := { s.inode with openFiles := s.inode.openFiles.erase write } }
    else none
  | .setlk o m getattr mapped reval =>
    if s.inode.openFiles ≠ [] ∧ s.inode.clean ∧ Grantable s (.own o) m then
      (doSetlk mount s getattr mapped reval).map fun c => { s with locks := granted s (.own o) m, inode := c }
    else none
  | .unlk o released =>
    if s.inode.openFiles ≠ [] ∧ s.inode.clean then
      some { s with locks := if released then dropped s (.own o) else s.locks, inode := doUnlk mount s }
    else none
  | .read o i expired reval =>
    if ∃ l ∈ s.locks, l.1 = .own o then
      (nfsRevalidateMapping mount s expired reval).map fun r =>
        { s with inode := if r.1 then readPage s r.2 i else r.2 }
    else none
  | .write o i data internal =>
    if (.own o, .write) ∈ s.locks ∧ s.inode.haveWriters then
      (if internal then some s.inode else nfsClearInvalidMapping s.inode).map fun c =>
        { s with inode := { c with cache := putPage c.cache { index := i, data := data, dirty := true } } }
    else none
  | .writeback i mtime change g attrs mtimeToo wcc others =>
    match s.inode.cache.find? fun p => p.index = i ∧ p.dirty = true with
    | none => none
    | some p =>
      if s.mtime < mtime ∧ s.change < change ∧ g ≤ s.inode.counter then
        some (pageWritten mount s i p.data mtime change g attrs mtimeToo wcc others)
      else none
  | .evict i => some { s with inode := { s.inode with cache := s.inode.cache.filter fun p => p.index ≠ i ∨ p.dirty = true } }
  | .ask => some { s with inode := s.asked }
  | .serve g mtimeToo =>
    if g ≤ s.inode.counter then
      some { s with
        replies := { gencount := g, change := s.change, mtime := if mtimeToo then some s.mtime else none } :: s.replies }
    else none
  | .reply k others =>
    match s.replies[k]? with
    | none => none
    | some fattr =>
      some { s with
        replies := s.replies.eraseIdx k
        inode := nfsRefreshInodeLocked s.inode mount.changeAttrType others fattr }
  | .delegate => some { s with inode := delegatedInode mount s }
  | .undelegate => some { s with inode := { s.inode with delegated := false } }
  | .otherLock c m => if Grantable s (.other c) m then some { s with locks := granted s (.other c) m } else none
  | .otherUnlock c => some { s with locks := dropped s (.other c) }
  | .modify c i data mtime change =>
    if (.other c, .write) ∈ s.locks ∧ s.inode.delegated = false ∧ s.mtime < mtime ∧ s.change < change then
      some { s with file := setFile s i data, mtime := mtime, change := change }
    else none

end

/-! ## The property, and when it holds -/

/-- Every page of the cache holds what the file has, unless the pages are flagged for invalidation. -/
def LockState.Coherent (s : LockState) : Prop :=
  s.inode.invalidData = false → ∀ p ∈ s.inode.cache, p.data = s.file p.index
deriving Decidable

def SetlkCoherent (mount : LockMount) (s : LockState) (e : LockEvent) : Prop :=
  match e, lockStep mount s e with
  | .setlk .., some t => t.Coherent
  | _, _ => True

instance (mount : LockMount) (s : LockState) (e : LockEvent) : Decidable (SetlkCoherent mount s e) := by
  unfold SetlkCoherent
  split <;> infer_instance

/-- The client has a lock or a delegation, so nobody else modifies the file. -/
def LockState.Guarded (s : LockState) : Prop := s.inode.delegated = true ∨ ∃ l ∈ s.locks, l.1.isOwn = true
deriving Decidable

/-- The GETATTR of `do_setlk` does not time out on a mount that then goes by the cached attributes; without a lock or a
delegation, `do_unlk` is called and a delegation granted only if no invalidation has been or is being deferred; and the
file does not get just the mtime that is in `unlock_mtime`. -/
def LockSafe (mount : LockMount) (s : LockState) : LockEvent → Prop
  | .setlk _ _ getattr _ _ => s.Guarded ∨ mount.softReval = false ∨ getattr ≠ .timedOut
  | .unlk _ _ => s.Guarded ∨ s.inode.dataInvalDefer = false
  | .delegate =>
    s.Guarded ∨ s.inode.dataInvalDefer = false ∧ (s.inode.haveWriters = false ∨ s.inode.iversion = s.change)
  | .modify _ _ _ mtime _ => mtime ≠ s.inode.unlockMtime
  | _ => True

instance (mount : LockMount) (s : LockState) (e : LockEvent) : Decidable (LockSafe mount s e) := by
  unfold LockSafe
  split <;> infer_instance

/-! ## What attributes do to the inode -/

/-- Flags are set, and taken away only where there is no page; the cache stays. -/
structure Flagged (c c' : LockInode) : Prop where
  cache : c'.cache = c.cache
  unlockMtime : c'.unlockMtime = c.unlockMtime
  delegated : c'.delegated = c.delegated
  counter : c.counter ≤ c'.counter
  data : c'.invalidData = false → c.invalidData = false ∨ c.cache = []
  defer : c'.dataInvalDefer = false → c.dataInvalDefer = false ∨ c'.invalidData = true ∨ c.cache = []

theorem Flagged.refl (c : LockInode) : Flagged c c where
  cache := rfl
  unlockMtime := rfl
  delegated := rfl
  counter := Nat.le_refl _
  data := .inl
  defer := .inl

theorem Flagged.data_true {c c' : LockInode} (h : Flagged c c') (hdata : c.invalidData = true) :
    c'.invalidData = true ∨ c.cache = [] := by
  by_cases hdata' : c'.invalidData = true
  · exact .inl hdata'
  refine (h.data (eq_false_iff.mpr hdata')).imp_left fun hno => ?_
  rw [hno] at hdata
  cases hdata

theorem Flagged.trans {c c' c'' : LockInode} (h : Flagged c c') (h' : Flagged c' c'') : Flagged c c'' where
  cache := h'.cache.trans h.cache
  unlockMtime := h'.unlockMtime.trans h.unlockMtime
  delegated := h'.delegated.trans h.delegated
  counter := Nat.le_trans h.counter h'.counter
  data hdata := (h'.data hdata).elim h.data fun hcache => .inr (h.cache ▸ hcache)
  defer hdefer := by
    rcases h'.defer hdefer with hdefer' | hdata | hcache
    · refine (h.defer hdefer').imp_right fun hrest => hrest.elim (fun hdata => ?_) .inr
      exact (h'.data_true hdata).imp_right fun hcache => h.cache ▸ hcache
    · exact .inr (.inl hdata)
    · exact .inr (.inr (h.cache ▸ hcache))

/-- What `nfs_set_cache_invalid` does. -/
structure Invalidated (flags : CacheFlags) (c c' : LockInode) : Prop extends Flagged c c' where
  mtime : c'.mtime = c.mtime
  iversion : c'.iversion = c.iversion
  attrGencount : c'.attrGencount = c.attrGencount
  sameCounter : c'.counter = c.counter
  flagged : flags.data = true → c'.invalidData = true ∨ c.cache = []

theorem setCacheInvalid_spec (c : LockInode) (flags : CacheFlags) :
    Invalidated flags c (nfsSetCacheInvalid c flags) := by
  unfold nfsSetCacheInvalid
  by_cases hcache : c.cache = []
  · rw [if_pos hcache]
    exact ⟨⟨rfl, rfl, rfl, Nat.le_refl _, fun _ => .inr hcache, fun _ => .inr (.inr hcache)⟩, rfl, rfl, rfl, rfl,
      fun _ => .inr hcache⟩
  rw [if_neg hcache]
  have hdata : (c.invalidData || flags.data) = false → c.invalidData = false := fun h => (or_eq_false_iff.mp h).1
  have hflag : flags.data = true → (c.invalidData || flags.data) = true := fun h => by rw [h, Bool.or_true]
  split
  next htrue =>
    exact ⟨⟨rfl, rfl, rfl, Nat.le_refl _, fun h => .inl (hdata h), fun _ => .inr (.inl htrue)⟩, rfl, rfl, rfl,
      rfl, fun h => .inl (hflag h)⟩
  next =>
    exact ⟨⟨rfl, rfl, rfl, Nat.le_refl _, fun h => .inl (hdata h), .inl⟩, rfl, rfl, rfl, rfl, fun h => .inl (hflag h)⟩

/-- What the attributes of a reply do, if there are any. -/
structure Applied (reply : Option AttrReply) (c c' : LockInode) : Prop extends Flagged c c' where
  attrs : c'.iversion = c.iversion ∧ c'.mtime = c.mtime ∨
    ∃ f, reply = some f ∧ c'.iversion = f.change ∧ (c'.mtime = c.mtime ∨ f.mtime = some c'.mtime)
  gen : (∀ f, reply = some f → f.gencount ≤ c.counter) → c.attrGencount ≤ c.counter → c'.attrGencount ≤ c'.counter

theorem Applied.refl (reply : Option AttrReply) (c : LockInode) : Applied reply c c :=
  ⟨Flagged.refl c, .inl ⟨rfl, rfl⟩, fun _ hgen => hgen⟩

theorem Invalidated.applied {flags : CacheFlags} {c c' : LockInode} (h : Invalidated flags c c')
    (reply : Option AttrReply) : Applied reply c c' :=
  ⟨h.toFlagged, .inl ⟨h.iversion, h.mtime⟩, fun _ hgen => by rw [h.attrGencount, h.sameCounter]; exact hgen⟩

/-- A change of the file is not overlooked: it is flagged, or deferred because the file is open for writing. -/
def Noticed (c c' : LockInode) : Prop :=
  c'.iversion ≠ c.iversion → c.delegated = false →
    c'.invalidData = true ∨ c.cache = [] ∨ c.haveWriters = true ∧ c'.dataInvalDefer = true

section

variable (c : LockInode) (fattr : AttrReply)

theorem updateInode_applied : Applied (some fattr) c (nfsUpdateInode c fattr) := by
  have h := setCacheInvalid_spec (updatedAttrs c fattr) { data := attrChanged c fattr }
  have hcounter : c.counter ≤ if attrChanged c fattr = true then c.counter + 1 else c.counter := by split <;> omega
  refine ⟨⟨h.cache, h.unlockMtime, h.delegated, Nat.le_trans hcounter h.counter, h.data, fun hdefer => ?_⟩,
    .inr ⟨fattr, rfl, h.iversion, ?_⟩, fun hf hgen => ?_⟩
  · exact (h.defer hdefer).imp_left fun hno => (or_eq_false_iff.mp hno).1
  · have hmtime : (nfsUpdateInode c fattr).mtime = fattr.mtime.getD c.mtime := h.mtime
    cases hm : fattr.mtime with
    | none => exact .inl (hmtime.trans (by rw [hm]; rfl))
    | some m => exact .inr (congrArg some (hmtime.trans (by rw [hm]; rfl)).symm)
  · have hf := hf fattr rfl
    have hgencount : (nfsUpdateInode c fattr).attrGencount =
        if attrChanged c fattr = true then c.counter + 1 else max c.attrGencount fattr.gencount := h.attrGencount
    have hcounter' : (nfsUpdateInode c fattr).counter =
        if attrChanged c fattr = true then c.counter + 1 else c.counter := h.sameCounter
    rw [hgencount, hcounter']
    split <;> omega

theorem updateInode_noticed (hpre : fattr.preChange = none) : Noticed c (nfsUpdateInode c fattr) := by
  intro hne hdelegated
  have h := setCacheInvalid_spec (updatedAttrs c fattr) { data := attrChanged c fattr }
  have hiversion : (nfsUpdateInode c fattr).iversion = fattr.change := h.iversion
  have hnone : fattr.preChange ≠ some c.iversion := by
    rw [hpre]
    exact nofun
  have hwcc : (nfsWccUpdateInode c fattr).iversion = c.iversion := if_neg hnone
  have hchanged : ((nfsWccUpdateInode c fattr).iversion != fattr.change) = true := by
    rw [hwcc, bne_iff_ne, ← hiversion]
    exact hne.symm
  cases hwriters : c.haveWriters with
  | false =>
    have hflag : attrChanged c fattr = true := by rw [attrChanged, hchanged, hwriters, hdelegated]; rfl
    exact (h.flagged hflag).imp_right .inl
  | true =>
    by_cases hdefer : (nfsUpdateInode c fattr).dataInvalDefer = true
    · exact .inr (.inr ⟨rfl, hdefer⟩)
    rcases h.defer (eq_false_iff.mpr hdefer) with hno | hdata | hcache
    · have hno := (or_eq_false_iff.mp hno).2
      rw [hchanged, hwriters, hdelegated] at hno
      cases hno
    · exact .inl hdata
    · exact .inr (.inl hcache)

theorem checkInodeAttributes_spec :
    Applied (some fattr) c (nfsCheckInodeAttributes c fattr) ∧
      (nfsCheckInodeAttributes c fattr).iversion = c.iversion := by
  unfold nfsCheckInodeAttributes
  split
  · exact ⟨Applied.refl _ _, rfl⟩
  · exact ⟨(setCacheInvalid_spec c _).applied _, (setCacheInvalid_spec c _).iversion⟩

variable (type : ChangeAttrType) (others : Bool)

/-- **A reply with attributes**: what `nfs_refresh_inode` can do to the inode. -/
theorem refreshInodeLocked_applied : Applied (some fattr) c (nfsRefreshInodeLocked c type others fattr) := by
  unfold nfsRefreshInodeLocked
  split
  · exact updateInode_applied c fattr
  split
  · exact (checkInodeAttributes_spec c fattr).1
  · exact Applied.refl _ _

theorem refreshInodeLocked_noticed (hpre : fattr.preChange = none) :
    Noticed c (nfsRefreshInodeLocked c type others fattr) := by
  unfold nfsRefreshInodeLocked
  split
  · exact updateInode_noticed c fattr hpre
  split
  · exact fun hne => absurd (checkInodeAttributes_spec c fattr).2 hne
  · exact fun hne => absurd rfl hne

theorem postOpUpdateInodeForceWcc_applied (reply : Option AttrReply) :
    Applied reply c (nfsPostOpUpdateInodeForceWcc c type others reply) := by
  have hflag := setCacheInvalid_spec c { change := true, mtime := true }
  have hrefresh (f : AttrReply) (pre : Option Nat) : Applied (some f) c
      (nfsRefreshInodeLocked (nfsSetCacheInvalid c { change := true, mtime := true }) type others
        { f with preChange := pre }) := by
    have h := refreshInodeLocked_applied (nfsSetCacheInvalid c { change := true, mtime := true })
      { f with preChange := pre } type others
    refine ⟨hflag.toFlagged.trans h.toFlagged, ?_, fun hf hgen => h.gen ?_ ?_⟩
    · rcases h.attrs with ⟨hiversion, hmtime⟩ | ⟨f', hf', hiversion, hmtime⟩
      · exact .inl ⟨hiversion.trans hflag.iversion, hmtime.trans hflag.mtime⟩
      · obtain rfl := Option.some.inj hf'
        exact .inr ⟨f, rfl, hiversion, hmtime.imp_left fun hm => hm.trans hflag.mtime⟩
    · intro f' hf'
      obtain rfl := Option.some.inj hf'
      exact Nat.le_trans (hf f rfl) hflag.counter
    · rw [hflag.attrGencount, hflag.sameCounter]
      exact hgen
  cases reply with
  | none => exact hflag.applied none
  | some f =>
    dsimp only [nfsPostOpUpdateInodeForceWcc]
    split
    · exact Applied.refl _ _
    · exact hrefresh f _
    · exact hrefresh f _

end

/-! ## The invariant -/

/-- The clean pages hold what the file has, unless they are flagged. -/
def LockState.Fresh (s : LockState) : Prop :=
  s.inode.invalidData = false → ∀ p ∈ s.inode.cache, p.dirty = false → p.data = s.file p.index

/-- A reply has attributes that the file has had, those of one moment. -/
structure Possible (counter mtime change : Nat) (fattr : AttrReply) : Prop where
  counterLe : fattr.gencount ≤ counter
  changeLe : fattr.change ≤ change
  mtimeLe : ∀ m, fattr.mtime = some m → m ≤ mtime ∧ (m = mtime → fattr.change = change)

structure LockBounds (s : LockState) : Prop where
  excl : ∀ l ∈ s.locks, ∀ l' ∈ s.locks, l.1 ≠ l'.1 → l.2 = .read ∧ l'.2 = .read
  dirty : ∀ p ∈ s.inode.cache, p.dirty = true → ∃ o, (.own o, .write) ∈ s.locks
  mtime : s.inode.mtime ≤ s.mtime
  iversion : s.inode.iversion ≤ s.change
  gen : s.inode.attrGencount ≤ s.inode.counter
  replies : ∀ f ∈ s.replies, Possible s.inode.counter s.mtime s.change f ∧ f.preChange = none

/-- The pages are fresh under a lock; when the attributes are current and no invalidation is deferred; and when
`unlock_mtime` is the file's mtime. -/
structure LockInv (s : LockState) : Prop extends LockBounds s where
  guarded : s.Guarded → s.Fresh
  current : s.inode.dataInvalDefer = false → s.inode.iversion = s.change ∨ s.inode.mtime = s.mtime → s.Fresh
  sampled : s.inode.unlockMtime = s.mtime → s.Fresh

theorem LockBounds.inv {s : LockState} (h : LockBounds s) (hfresh : s.Fresh) : LockInv s :=
  ⟨h, fun _ => hfresh, fun _ _ => hfresh, fun _ => hfresh⟩

theorem lockInv_start (file : Nat → Nat) (mtime change unlockMtime : Nat) :
    LockInv (LockState.start file mtime change unlockMtime) := by
  refine LockBounds.inv ⟨nofun, nofun, Nat.le_refl _, Nat.le_refl _, Nat.le_refl _, nofun⟩ ?_
  nofun

section

variable {mount : LockMount} {s t : LockState} {c : LockInode} {got : Option AttrReply} {getattr reval : GetattrOutcome}
  {change mtime k o g : Nat} {f : AttrReply} {m : LockMode} {ls : List (Party × LockMode)} {p : FilePage}
  {l : Party × LockMode} {mapped : Bool} {e : LockEvent}

theorem fresh_of_flagged (h : c.invalidData = true ∨ c.cache = []) : LockState.Fresh { s with inode := c } := by
  intro hdata p hp
  rcases h with htrue | hcache
  · cases htrue.symm.trans hdata
  · rw [show LockInode.cache _ = [] from hcache] at hp
    cases hp

theorem Flagged.fresh (h : Flagged s.inode c) (hfresh : s.Fresh) : LockState.Fresh { s with inode := c } := by
  intro hdata p hp hclean
  have hp : p ∈ s.inode.cache := h.cache ▸ hp
  rcases h.data hdata with hdata | hcache
  · exact hfresh hdata p hp hclean
  · rw [hcache] at hp
    cases hp

theorem Flagged.guarded (h : Flagged s.inode c) (hg : LockState.Guarded { s with inode := c }) : s.Guarded :=
  hg.imp_left fun hdelegated => h.delegated ▸ hdelegated

theorem LockBounds.applied (h : LockBounds s)
    (hr : ∀ f, got = some f → Possible s.inode.counter s.mtime s.change f) (happ : Applied got s.inode c) :
    LockBounds { s with inode := c } := by
  have hattrs : c.mtime ≤ s.mtime ∧ c.iversion ≤ s.change := by
    rcases happ.attrs with ⟨hiversion, hmtime⟩ | ⟨f, hf, hiversion, hmtime⟩
    · rw [hiversion, hmtime]
      exact ⟨h.mtime, h.iversion⟩
    refine ⟨?_, hiversion ▸ (hr f hf).changeLe⟩
    rcases hmtime with hold | hnew
    · exact hold ▸ h.mtime
    · exact ((hr f hf).mtimeLe _ hnew).1
  refine ⟨h.excl, ?_, hattrs.1, hattrs.2, happ.gen (fun f hf => (hr f hf).counterLe) h.gen, fun f hf => ?_⟩
  · intro p hp
    exact h.dirty p (happ.cache ▸ hp)
  · obtain ⟨hpos, hpre⟩ := h.replies f hf
    exact ⟨⟨Nat.le_trans hpos.counterLe happ.counter, hpos.changeLe, hpos.mtimeLe⟩, hpre⟩

/-- **Attributes keep the invariant**, whatever moment they are of. -/
theorem LockInv.applied (h : LockInv s)
    (hr : ∀ f, got = some f → Possible s.inode.counter s.mtime s.change f) (happ : Applied got s.inode c)
    (hnoticed : Noticed s.inode c) : LockInv { s with inode := c } := by
  refine ⟨h.toLockBounds.applied hr happ, fun hg => happ.fresh (h.guarded (happ.guarded hg)), ?_, fun hu => ?_⟩
  · intro hdefer hcurrent
    by_cases hflag : c.invalidData = true ∨ c.cache = []
    · exact fresh_of_flagged hflag
    have hcache : s.inode.cache ≠ [] := fun hcache => hflag (.inr (happ.cache.trans hcache))
    have hdefer' : s.inode.dataInvalDefer = false :=
      (happ.defer hdefer).resolve_right fun hrest => hrest.elim (fun hd => hflag (.inl hd)) hcache
    have hold (hattrs : s.inode.iversion = s.change ∨ s.inode.mtime = s.mtime) :
        LockState.Fresh { s with inode := c } := happ.fresh (h.current hdefer' hattrs)
    -- a new attribute that is the file's is noticed; the old one was covered before
    have hnew (hiversion : c.iversion = s.change) : LockState.Fresh { s with inode := c } := by
      by_cases hsame : c.iversion = s.inode.iversion
      · exact hold (.inl (hsame.symm.trans hiversion))
      cases hdelegated : s.inode.delegated with
      | true => exact happ.fresh (h.guarded (.inl hdelegated))
      | false =>
        rcases hnoticed hsame hdelegated with hdata | hempty | ⟨-, hdeferred⟩
        · exact absurd (.inl hdata) hflag
        · exact absurd hempty hcache
        · cases hdeferred.symm.trans hdefer
    rcases happ.attrs with ⟨hiversion, hmtime⟩ | ⟨f, hf, hiversion, hmtime⟩
    · exact hold (hcurrent.imp hiversion.symm.trans hmtime.symm.trans)
    rcases hcurrent with hcur | hcur
    · exact hnew hcur
    rcases hmtime with hsame | hm
    · exact hold (.inr (hsame.symm.trans hcur))
    · exact hnew (hiversion.trans (((hr f hf).mtimeLe _ hm).2 hcur))
  · exact happ.fresh (h.sampled (happ.unlockMtime.symm.trans hu))

theorem Invalidated.inv {flags : CacheFlags} (hinv : Invalidated flags s.inode c) (h : LockInv s) :
    LockInv { s with inode := c } :=
  h.applied (by intro _ hf; cases hf) (hinv.applied none) fun hne => absurd hinv.iversion hne

theorem asked_flagged (s : LockState) : Flagged s.inode s.asked := ⟨rfl, rfl, rfl, Nat.le_succ _, .inl, .inl⟩

theorem LockInv.asked (h : LockInv s) : LockInv { s with inode := s.asked } := by
  have happ : Applied none s.inode s.asked :=
    ⟨asked_flagged s, .inl ⟨rfl, rfl⟩, fun _ hgen => Nat.le_succ_of_le hgen⟩
  exact h.applied (by intro _ hf; cases hf) happ fun hne => absurd rfl hne

theorem possible_now {counter : Nat} (hg : f.gencount ≤ counter) (hchange : f.change = change)
    (hmtime : ∀ m, f.mtime = some m → m = mtime) : Possible counter mtime change f :=
  ⟨hg, Nat.le_of_eq hchange, fun m hm => ⟨Nat.le_of_eq (hmtime m hm), fun _ => hchange⟩⟩

theorem attrsNow_possible (s : LockState) : Possible s.asked.counter s.mtime s.change s.attrsNow :=
  possible_now (Nat.le_refl _) rfl fun _ hm => (Option.some.inj hm).symm

theorem refresh_attrsNow (h : LockBounds s) (type : ChangeAttrType) (others : Bool) :
    nfsRefreshInodeLocked s.asked type others s.attrsNow = nfsUpdateInode s.asked s.attrsNow := by
  have hlt : s.asked.attrGencount < s.attrsNow.gencount := Nat.lt_succ_of_le h.gen
  exact if_pos (.inl (if_pos (.inl hlt)))

theorem LockInv.refreshed (h : LockInv s) (type : ChangeAttrType) (others : Bool) :
    LockInv { s with inode := nfsRefreshInodeLocked s.asked type others s.attrsNow } := by
  refine h.asked.applied ?_ (refreshInodeLocked_applied s.asked s.attrsNow type others)
    (refreshInodeLocked_noticed s.asked s.attrsNow type others rfl)
  intro f hf
  obtain rfl := Option.some.inj hf
  exact attrsNow_possible s

theorem revalidateInode_spec (mount : LockMount) (h : LockInv s) (getattr : GetattrOutcome) :
    LockInv { s with inode := (nfsRevalidateInode mount s getattr).2 } ∧
      Flagged s.inode (nfsRevalidateInode mount s getattr).2 := by
  cases getattr with
  | ok =>
    exact ⟨h.refreshed mount.changeAttrType false, (asked_flagged s).trans (refreshInodeLocked_applied s.asked
      s.attrsNow mount.changeAttrType false).toFlagged⟩
  | timedOut | failed => exact ⟨h.asked, asked_flagged s⟩

theorem revalidateInode_mtime (mount : LockMount) (h : LockBounds s) :
    (nfsRevalidateInode mount s .ok).2.mtime = s.mtime :=
  (congrArg LockInode.mtime (refresh_attrsNow h mount.changeAttrType false)).trans
    (setCacheInvalid_spec (updatedAttrs s.asked s.attrsNow) _).mtime

/-! ## Clearing the mapping -/

theorem clearInvalidMapping_some {c' : LockInode} (h : nfsClearInvalidMapping c = some c') :
    c' = c ∨ c'.cache = [] ∧ c' = { c with invalidData := false, dataInvalDefer := false, cache := [] } := by
  unfold nfsClearInvalidMapping at h
  split at h
  · split at h
    · exact .inr (Option.some.inj h ▸ ⟨rfl, rfl⟩)
    · cases h
  · exact .inl (Option.some.inj h).symm

/-- The mapping is cleared: what is left is as fresh as before. -/
structure Cleared (s : LockState) (c : LockInode) : Prop where
  inv : LockInv { s with inode := c }
  fresh : s.Fresh → LockState.Fresh { s with inode := c }
  cache : ∀ p ∈ c.cache, p ∈ s.inode.cache

theorem clearInvalidMapping_spec (h : LockInv s) (hc : nfsClearInvalidMapping s.inode = some c) : Cleared s c := by
  rcases clearInvalidMapping_some hc with rfl | ⟨hcache, rfl⟩
  · exact ⟨h, id, fun _ => id⟩
  · have hfresh := fresh_of_flagged (s := s) (.inr hcache)
    exact ⟨LockBounds.inv { h with dirty := nofun } hfresh, fun _ => hfresh, nofun⟩

theorem revalidateMapping_spec (h : LockInv s) {expired : Bool} {r : Bool × LockInode}
    (hr : nfsRevalidateMapping mount s expired getattr = some r) : Cleared s r.2 := by
  unfold nfsRevalidateMapping at hr
  split at hr
  · obtain ⟨hinv, hflagged⟩ := revalidateInode_spec mount h getattr
    dsimp only at hr
    split at hr
    · obtain ⟨c', hc', rfl⟩ := map_eq_some_iff.mp hr
      have hclear := clearInvalidMapping_spec hinv hc'
      exact ⟨hclear.inv, fun hfresh => hclear.fresh (hflagged.fresh hfresh), fun p hp => hflagged.cache ▸ hclear.cache p hp⟩
    · obtain rfl := Option.some.inj hr
      exact ⟨hinv, hflagged.fresh, fun p hp => hflagged.cache ▸ hp⟩
  · obtain ⟨c', hc', rfl⟩ := map_eq_some_iff.mp hr
    exact clearInvalidMapping_spec h hc'

/-! ## The steps of the client -/

theorem not_dirty_of_clean (h : c.clean = true) (hp : p ∈ c.cache) : p.dirty = false := by
  simpa using all_eq_true.mp h p hp

theorem LockBounds.possible_later (h : LockBounds s) (hmtime : s.mtime < mtime) (hchange : s.change < change)
    (hf : f ∈ s.replies) : Possible s.inode.counter mtime change f ∧ f.preChange = none := by
  obtain ⟨hpos, hpre⟩ := h.replies f hf
  refine ⟨⟨hpos.counterLe, by have := hpos.changeLe; omega, fun m hm => ?_⟩, hpre⟩
  have hle := (hpos.mtimeLe m hm).1
  constructor <;> omega

theorem mem_dropped {p : Party} : l ∈ dropped s p ↔ l ∈ s.locks ∧ l.1 ≠ p := by
  simp [dropped]

theorem dropped_excl (h : LockBounds s) (p : Party) :
    ∀ l ∈ dropped s p, ∀ l' ∈ dropped s p, l.1 ≠ l'.1 → l.2 = .read ∧ l'.2 = .read := by
  intro l hl l' hl'
  exact h.excl l (mem_dropped.mp hl).1 l' (mem_dropped.mp hl').1

theorem granted_excl (h : LockBounds s) {p : Party} (hg : Grantable s p m) :
    ∀ l ∈ granted s p m, ∀ l' ∈ granted s p m, l.1 ≠ l'.1 → l.2 = .read ∧ l'.2 = .read := by
  have hother (l : Party × LockMode) (hl : l ∈ dropped s p) : l.2 = .read ∧ m = .read :=
    (hg l (mem_dropped.mp hl).1).resolve_left (mem_dropped.mp hl).2
  intro l hl l' hl' hne
  rcases mem_cons.mp hl with rfl | hl <;> rcases mem_cons.mp hl' with rfl | hl'
  · exact absurd rfl hne
  · exact (hother l' hl').symm
  · exact hother l hl
  · exact dropped_excl h p l hl l' hl' hne

section

variable (h : LockInv s) (hsafe : s.Guarded ∨ mount.softReval = false ∨ getattr ≠ .timedOut)
include h hsafe

theorem lockCompare_spec :
    LockInv { s with inode := (lockCompare mount s getattr).2 } ∧
      Flagged s.inode (lockCompare mount s getattr).2 ∧ ((lockCompare mount s getattr).1 = false → s.Fresh) := by
  unfold lockCompare
  split
  next hopt =>
    obtain ⟨hinv, hflagged⟩ := revalidateInode_spec mount h getattr
    refine ⟨hinv, hflagged, fun hkeep => ?_⟩
    have hkeep : (nfsRevalidateInode mount s getattr).1 = true ∧
        ((nfsRevalidateInode mount s getattr).2.unlockMtime == (nfsRevalidateInode mount s getattr).2.mtime) = true :=
      by simpa using hkeep
    cases getattr with
    | ok =>
      have hunlock := hflagged.unlockMtime.symm.trans (beq_iff_eq.mp hkeep.2)
      exact h.sampled (hunlock.trans (revalidateInode_mtime mount h.toLockBounds))
    | timedOut =>
      rcases hsafe with hguarded | hsoft | hne
      · exact h.guarded hguarded
      · cases hsoft.symm.trans hkeep.1
      · exact absurd rfl hne
    | failed => cases hkeep.1
  next => exact ⟨h, Flagged.refl _, nofun⟩

/-- **A granted lock** leaves only pages that are fresh or flagged. -/
theorem doSetlk_spec (hc : doSetlk mount s getattr mapped reval = some c) :
    LockInv { s with inode := c } ∧ LockState.Fresh { s with inode := c } ∧ ∀ p ∈ c.cache, p ∈ s.inode.cache := by
  obtain ⟨hinv, hflagged, hkeep⟩ := lockCompare_spec h hsafe
  have hzap := setCacheInvalid_spec (lockCompare mount s getattr).2
    { change := true, mtime := true, data := true, revalPagecache := true }
  have hzapInv := hzap.inv hinv
  have hzapFresh : LockState.Fresh { s with inode := nfsZapCaches (lockCompare mount s getattr).2 } :=
    fresh_of_flagged ((hzap.flagged rfl).imp_right hzap.cache.trans)
  have hzapCache : ∀ p ∈ (nfsZapCaches (lockCompare mount s getattr).2).cache, p ∈ s.inode.cache :=
    fun p hp => hflagged.cache ▸ hzap.cache ▸ hp
  dsimp only [doSetlk] at hc
  split at hc
  next =>
    split at hc
    · obtain ⟨r, hr, rfl⟩ := map_eq_some_iff.mp hc
      have hclear := revalidateMapping_spec hzapInv hr
      exact ⟨hclear.inv, hclear.fresh hzapFresh, fun p hp => hzapCache p (hclear.cache p hp)⟩
    · obtain rfl := Option.some.inj hc
      exact ⟨hzapInv, hzapFresh, hzapCache⟩
  next hkept =>
    obtain rfl := Option.some.inj hc
    refine ⟨hinv, hflagged.fresh ?_, fun p hp => hflagged.cache ▸ hp⟩
    by_cases hdelegated : s.inode.delegated = true
    · exact h.guarded (.inl hdelegated)
    refine hkeep (eq_false_iff.mpr fun htrue => hkept ?_)
    rw [htrue, hflagged.delegated, eq_false_iff.mpr hdelegated]
    rfl

theorem LockInv.setlk (hstep : lockStep mount s (.setlk o m getattr mapped reval) = some t) : LockInv t ∧ t.Coherent := by
  obtain ⟨⟨-, hclean, hgrant⟩, hmap⟩ := ite_none_right_eq_some.mp hstep
  obtain ⟨c, hc, rfl⟩ := map_eq_some_iff.mp hmap
  obtain ⟨hinv, hfresh, hcache⟩ := doSetlk_spec h hsafe hc
  have hnot (p : FilePage) (hp : p ∈ c.cache) : p.dirty = false := not_dirty_of_clean hclean (hcache p hp)
  refine ⟨LockBounds.inv { hinv with excl := granted_excl h.toLockBounds hgrant, dirty := ?_ } hfresh, ?_⟩
  · intro p hp hdirty
    cases (hnot p hp).symm.trans hdirty
  · exact fun hdata p hp => hfresh hdata p hp (hnot p hp)

end

theorem LockInv.unlk (h : LockInv s) (hls : ∀ l ∈ ls, l ∈ s.locks) (hclean : s.inode.clean = true)
    (hsafe : s.Guarded ∨ s.inode.dataInvalDefer = false) : LockInv { s with locks := ls, inode := doUnlk mount s } := by
  have hexcl := fun l hl l' hl' => h.excl l (hls l hl) l' (hls l' hl')
  have hguarded (hg : s.inode.delegated = true ∨ ∃ l ∈ ls, l.1.isOwn = true) : s.Fresh :=
    h.guarded (hg.imp_right fun ⟨l, hl, hown⟩ => ⟨l, hls l hl, hown⟩)
  have hdirty (p : FilePage) (hp : p ∈ s.inode.cache) (hdirty : p.dirty = true) : ∃ o, (.own o, .write) ∈ ls := by
    cases (not_dirty_of_clean hclean hp).symm.trans hdirty
  unfold doUnlk
  split
  · -- the sample is the inode's mtime, so that it is the file's only if the attributes are current
    refine { h with excl := hexcl, dirty := hdirty, guarded := hguarded, sampled := ?_ }
    exact fun hmtime => hsafe.elim h.guarded fun hdefer => h.current hdefer (.inr hmtime)
  · exact { h with excl := hexcl, dirty := hdirty, guarded := hguarded }

theorem guarded_of_own (h : (.own o, m) ∈ s.locks) : s.Guarded := .inr ⟨_, h, rfl⟩

theorem Cleared.readPage (h : Cleared s c) (hfresh : s.Fresh) (i : Nat) :
    LockInv { s with inode := readPage s c i } := by
  have hold := h.fresh hfresh
  unfold Nfs.readPage
  split
  · exact h.inv
  exact LockBounds.inv { h.inv with dirty := forall_mem_cons.mpr ⟨nofun, h.inv.dirty⟩ } fun hdata =>
    forall_mem_cons.mpr ⟨fun _ => rfl, hold hdata⟩

theorem mem_putPage {cache : List FilePage} {q : FilePage} (h : q ∈ putPage cache p) :
    q = p ∨ q ∈ cache ∧ q.index ≠ p.index :=
  (mem_cons.mp h).imp_right fun hq => ⟨(mem_filter.mp hq).1, by simpa using (mem_filter.mp hq).2⟩

theorem Cleared.write (h : Cleared s c) (hfresh : s.Fresh) (hlock : (.own o, .write) ∈ s.locks) (i data : Nat) :
    LockInv { s with inode := { c with cache := putPage c.cache { index := i, data := data, dirty := true } } } := by
  have hold := h.fresh hfresh
  refine LockBounds.inv { h.inv with dirty := ?_ } ?_
  · intro p _ _
    exact ⟨o, hlock⟩
  · intro hdata p hp hclean
    rcases mem_putPage hp with rfl | ⟨hp, -⟩
    · cases hclean
    · exact hold hdata p hp hclean

theorem writeReply_possible (hg : g ≤ s.inode.counter) {attrs mtimeToo wcc : Bool}
    (hf : writeReply s mtime change g attrs mtimeToo wcc = some f) : Possible s.inode.counter mtime change f := by
  obtain ⟨-, rfl⟩ := of_guarded hf
  exact possible_now hg rfl fun m hm => (of_guarded hm).2.symm

theorem mem_dropped_own (hown : l.1.isOwn = true) : l ∈ dropped s (.other k) ↔ l ∈ s.locks := by
  rw [mem_dropped, and_iff_left]
  intro heq
  rw [heq] at hown
  cases hown

variable (h : LockInv s)
include h

theorem LockInv.pageWritten (hp : p ∈ s.inode.cache) (hdirty : p.dirty = true)
    (hmtime : s.mtime < mtime) (hchange : s.change < change) (hg : g ≤ s.inode.counter)
    (attrs mtimeToo wcc others : Bool) :
    LockInv (pageWritten mount s p.index p.data mtime change g attrs mtimeToo wcc others) := by
  obtain ⟨o, ho⟩ := h.dirty p hp hdirty
  have hfresh := h.guarded (guarded_of_own ho)
  -- the state before the reply is handled
  obtain ⟨s', hs'⟩ : ∃ s', s' = { s with
      file := setFile s p.index p.data, mtime := mtime, change := change
      inode := { s.inode with
        cache := putPage s.inode.cache { index := p.index, data := p.data, dirty := false } } } := ⟨_, rfl⟩
  have hbounds : LockBounds s' := by
    have hold := h.mtime
    have hold' := h.iversion
    subst hs'
    refine ⟨h.excl, fun _ _ _ => ⟨o, ho⟩, ?_, ?_, h.gen, fun f hf => h.possible_later hmtime hchange hf⟩ <;> dsimp only <;>
      omega
  have hfresh' : s'.Fresh := by
    subst hs'
    intro hdata q hq hclean
    rcases mem_putPage hq with rfl | ⟨hq, hne⟩
    · exact (if_pos rfl).symm
    · exact (hfresh hdata q hq hclean).trans (if_neg hne).symm
  have happ := postOpUpdateInodeForceWcc_applied s'.inode mount.changeAttrType others
    (writeReply s mtime change g attrs mtimeToo wcc)
  have hr (f : AttrReply) (hf : writeReply s mtime change g attrs mtimeToo wcc = some f) :
      Possible s'.inode.counter s'.mtime s'.change f := by
    have hpos := writeReply_possible hg hf
    subst hs'
    exact hpos
  have hinv := (hbounds.applied hr happ).inv (happ.fresh hfresh')
  subst hs'
  exact hinv

theorem LockInv.evict (i : Nat) :
    LockInv { s with inode := { s.inode with cache := s.inode.cache.filter fun p => p.index ≠ i ∨ p.dirty = true } } := by
  have hfresh (hold : s.Fresh) : LockState.Fresh
      { s with inode := { s.inode with cache := s.inode.cache.filter fun p => p.index ≠ i ∨ p.dirty = true } } :=
    fun hdata p hp => hold hdata p (mem_filter.mp hp).1
  exact ⟨{ h.toLockBounds with dirty := fun p hp => h.dirty p (mem_filter.mp hp).1 },
    fun hg => hfresh (h.guarded hg), fun hdefer hcur => hfresh (h.current hdefer hcur), fun hu => hfresh (h.sampled hu)⟩

theorem LockInv.openFiles (files : List Bool) :
    LockInv { s with inode := { s.inode with openFiles := files } } :=
  { h with }

theorem LockInv.openFile (write : Bool) :
    LockInv { s with inode := nfsInodeAttachOpenContext s.inode write } := by
  unfold nfsInodeAttachOpenContext
  dsimp only
  split
  · exact ((setCacheInvalid_spec s.inode { data := true }).inv h).openFiles _
  · exact h.openFiles _

/-! ## Replies, delegations and the others -/

theorem LockInv.reply (hf : s.replies[k]? = some f) (type : ChangeAttrType) (others : Bool) :
    LockInv { s with replies := s.replies.eraseIdx k, inode := nfsRefreshInodeLocked s.inode type others f } := by
  have hmem : f ∈ s.replies := mem_of_getElem? hf
  have hinv : LockInv { s with inode := nfsRefreshInodeLocked s.inode type others f } := by
    refine h.applied ?_ (refreshInodeLocked_applied s.inode f type others)
      (refreshInodeLocked_noticed s.inode f type others (h.replies f hmem).2)
    intro f' hf'
    obtain rfl := Option.some.inj hf'
    exact (h.replies f hmem).1
  exact ⟨{ hinv.toLockBounds with replies := fun f' hf' => hinv.replies f' (mem_of_mem_eraseIdx hf') },
    hinv.guarded, hinv.current, hinv.sampled⟩

theorem LockInv.serve (hg : g ≤ s.inode.counter) (mtimeToo : Bool) :
    LockInv { s with
      replies := { gencount := g, change := s.change, mtime := if mtimeToo then some s.mtime else none } ::
        s.replies } := by
  refine ⟨{ h.toLockBounds with replies := forall_mem_cons.mpr ⟨?_, h.replies⟩ }, h.guarded, h.current, h.sampled⟩
  exact ⟨possible_now hg rfl fun m hm => (of_guarded hm).2.symm, rfl⟩

theorem LockInv.delegate
    (hsafe : s.Guarded ∨ s.inode.dataInvalDefer = false ∧ (s.inode.haveWriters = false ∨ s.inode.iversion = s.change)) :
    LockInv { s with inode := delegatedInode mount s } := by
  obtain ⟨c, hc⟩ : ∃ c, c = nfsRefreshInodeLocked s.asked mount.changeAttrType false s.attrsNow := ⟨_, rfl⟩
  have hinv : LockInv { s with inode := c } := hc ▸ h.refreshed mount.changeAttrType false
  have happ : Applied (some s.attrsNow) s.asked c :=
    hc ▸ refreshInodeLocked_applied s.asked s.attrsNow mount.changeAttrType false
  have hnoticed : Noticed s.asked c :=
    hc ▸ refreshInodeLocked_noticed s.asked s.attrsNow mount.changeAttrType false rfl
  have hfresh : LockState.Fresh { s with inode := c } := by
    have hkeep (hold : s.Fresh) := ((asked_flagged s).trans happ.toFlagged).fresh hold
    rcases hsafe with hguarded | ⟨hdefer, hattrs⟩
    · exact hkeep (h.guarded hguarded)
    by_cases hsame : c.iversion = s.inode.iversion
    · have hiversion : c.iversion = s.change := by
        rw [hc, refresh_attrsNow h.toLockBounds]
        exact (setCacheInvalid_spec (updatedAttrs s.asked s.attrsNow) _).iversion
      exact hkeep (h.current hdefer (.inl (hsame.symm.trans hiversion)))
    cases hdelegated : s.inode.delegated with
    | true => exact hkeep (h.guarded (.inl hdelegated))
    | false =>
      rcases hattrs with hwriters | hcurrent
      · rcases hnoticed hsame hdelegated with hdata | hcache | ⟨hw, -⟩
        · exact fresh_of_flagged (.inl hdata)
        · exact fresh_of_flagged (.inr (happ.cache.trans hcache))
        · cases hwriters.symm.trans hw
      · exact hkeep (h.current hdefer (.inl hcurrent))
  have hset (c' : LockInode) (hflagged : LockInv { s with inode := c' }) (hfresh' : LockState.Fresh { s with inode := c' }) :
      LockInv { s with inode := { c' with delegated := true } } :=
    LockBounds.inv { hflagged with } hfresh'
  dsimp only [delegatedInode]
  rw [← hc]
  split
  · have hflag := setCacheInvalid_spec c { mtime := true, data := true }
    exact hset _ (Invalidated.inv (s := { s with inode := c }) hflag hinv)
      (Flagged.fresh (s := { s with inode := c }) hflag.toFlagged hfresh)
  · exact hset _ hinv hfresh

theorem LockInv.undelegate : LockInv { s with inode := { s.inode with delegated := false } } :=
  { h with guarded := fun hg => h.guarded (hg.imp_left nofun) }

theorem LockInv.others (hexcl : ∀ l ∈ ls, ∀ l' ∈ ls, l.1 ≠ l'.1 → l.2 = .read ∧ l'.2 = .read)
    (hown : ∀ l : Party × LockMode, l.1.isOwn = true → (l ∈ ls ↔ l ∈ s.locks)) : LockInv { s with locks := ls } := by
  refine ⟨{ h.toLockBounds with excl := hexcl, dirty := fun p hp hdirty => ?_ }, fun hg => ?_, h.current, h.sampled⟩
  · obtain ⟨o, ho⟩ := h.dirty p hp hdirty
    exact ⟨o, (hown _ rfl).mpr ho⟩
  · exact h.guarded (hg.imp_right fun ⟨l, hl, hl'⟩ => ⟨l, (hown l hl').mp hl, hl'⟩)

theorem LockInv.otherLock (hgrant : Grantable s (.other k) m) :
    LockInv { s with locks := granted s (.other k) m } := by
  refine h.others (granted_excl h.toLockBounds hgrant) fun l hown => ?_
  refine mem_cons.trans ((or_iff_right fun heq => ?_).trans (mem_dropped_own hown))
  rw [heq] at hown
  cases hown

theorem LockInv.otherUnlock (k : Nat) : LockInv { s with locks := dropped s (.other k) } :=
  h.others (dropped_excl h.toLockBounds _) fun _ => mem_dropped_own

/-- **A modification by another** makes the attributes of the inode old, and so is its sample. -/
theorem LockInv.modify {i data : Nat} (hlock : (.other k, .write) ∈ s.locks)
    (hdelegated : s.inode.delegated = false) (hmtime : s.mtime < mtime) (hchange : s.change < change)
    (hsafe : mtime ≠ s.inode.unlockMtime) :
    LockInv { s with file := setFile s i data, mtime := mtime, change := change } := by
  have hold := h.mtime
  have hold' := h.iversion
  refine ⟨⟨h.excl, h.dirty, by dsimp only; omega, by dsimp only; omega, h.gen,
    fun f hf => h.possible_later hmtime hchange hf⟩, ?_, ?_, fun hu => absurd hu.symm hsafe⟩
  · rintro (htrue | ⟨l, hl, hown⟩)
    · cases hdelegated.symm.trans htrue
    · have hne : l.1 ≠ Party.other k := by
        intro heq
        rw [heq] at hown
        cases hown
      cases (h.excl l hl _ hlock hne).2
  · intro _ hcurrent
    dsimp only at hcurrent
    omega

/-! ## Whole runs -/

theorem lockStep_inv (hsafe : LockSafe mount s e) (hstep : lockStep mount s e = some t) :
    LockInv t := by
  cases e with
  | openFile write =>
    obtain rfl := Option.some.inj hstep
    exact h.openFile write
  | closeFile write =>
    obtain ⟨-, rfl⟩ := of_guarded hstep
    exact h.openFiles _
  | setlk o m getattr mapped reval =>
    exact (h.setlk hsafe hstep).1
  | unlk o released =>
    obtain ⟨⟨-, hclean⟩, rfl⟩ := of_guarded hstep
    refine h.unlk (fun l hl => ?_) hclean hsafe
    split at hl
    · exact (mem_dropped.mp hl).1
    · exact hl
  | read o i expired reval =>
    obtain ⟨⟨l, hl, hown⟩, hmap⟩ := ite_none_right_eq_some.mp hstep
    obtain ⟨r, hr, rfl⟩ := map_eq_some_iff.mp hmap
    have hfresh := h.guarded (.inr ⟨l, hl, by rw [hown]; rfl⟩)
    have hclear := revalidateMapping_spec h hr
    split
    · exact hclear.readPage hfresh i
    · exact hclear.inv
  | write o i data internal =>
    obtain ⟨⟨hlock, -⟩, hmap⟩ := ite_none_right_eq_some.mp hstep
    obtain ⟨c, hc, rfl⟩ := map_eq_some_iff.mp hmap
    have hclear : Cleared s c := by
      split at hc
      · exact Option.some.inj hc ▸ ⟨h, id, fun _ => id⟩
      · exact clearInvalidMapping_spec h hc
    exact hclear.write (h.guarded (guarded_of_own hlock)) hlock i data
  | writeback i mtime change g attrs mtimeToo wcc others =>
    dsimp only [lockStep] at hstep
    split at hstep
    · cases hstep
    next p hp =>
      obtain ⟨⟨hmtime, hchange, hg⟩, rfl⟩ := of_guarded hstep
      obtain ⟨rfl, hdirty⟩ : p.index = i ∧ p.dirty = true := by simpa using List.find?_some hp
      exact h.pageWritten (mem_of_find?_eq_some hp) hdirty hmtime hchange hg attrs mtimeToo wcc others
  | evict i =>
    obtain rfl := Option.some.inj hstep
    exact h.evict i
  | ask =>
    obtain rfl := Option.some.inj hstep
    exact h.asked
  | serve g mtimeToo =>
    obtain ⟨hg, rfl⟩ := of_guarded hstep
    exact h.serve hg mtimeToo
  | reply k others =>
    dsimp only [lockStep] at hstep
    split at hstep
    · cases hstep
    next f hf =>
      obtain rfl := Option.some.inj hstep
      exact h.reply hf mount.changeAttrType others
  | delegate =>
    obtain rfl := Option.some.inj hstep
    exact h.delegate hsafe
  | undelegate =>
    obtain rfl := Option.some.inj hstep
    exact h.undelegate
  | otherLock k m =>
    obtain ⟨hgrant, rfl⟩ := of_guarded hstep
    exact h.otherLock hgrant
  | otherUnlock k =>
    obtain rfl := Option.some.inj hstep
    exact h.otherUnlock k
  | modify k i data mtime change =>
    obtain ⟨⟨hlock, hdelegated, hmtime, hchange⟩, rfl⟩ := of_guarded hstep
    exact h.modify hlock hdelegated hmtime hchange hsafe

theorem lockStep_coherent (hsafe : LockSafe mount s e) : SetlkCoherent mount s e := by
  unfold SetlkCoherent
  split
  next o m getattr mapped reval t hstep =>
    exact (h.setlk hsafe hstep).2
  next => trivial

end

/-- **Locks are coherency points** in every run in which the GETATTR of `do_setlk` does not time out softly, there is no
stray unlock and no delegation with an invalidation deferred, and no mtime that happens to be in `unlock_mtime`. -/
theorem setlk_coherent (mount : LockMount) (file : Nat → Nat) (mtime change unlockMtime : Nat) (es : List LockEvent)
    (h : EachStep (lockStep mount) (LockSafe mount) (LockState.start file mtime change unlockMtime) es) :
    EachStep (lockStep mount) (SetlkCoherent mount) (LockState.start file mtime change unlockMtime) es :=
  h.imp_of_invariant (J := LockInv) (fun _ _ _ hs hsafe hstep => lockStep_inv hs hsafe hstep)
    (fun _ _ _ hs hsafe _ => lockStep_coherent hs hsafe) (lockInv_start file mtime change unlockMtime)

def lockedRead : List LockEvent := [.setlk 0 .read .ok false .ok, .read 0 0 false .ok, .unlk 0 true]

def otherModifies (mtime : Nat) : List LockEvent :=
  [.otherLock 0 .write, .modify 0 0 9 mtime mtime, .otherUnlock 0]

/-- The page is read, modified by another and read again; an extra lock in between keeps the cache. -/
def safeRun : List LockEvent :=
  .openFile true :: (lockedRead ++ [.setlk 0 .read .ok false .ok, .unlk 0 true] ++ otherModifies 2 ++ lockedRead)

theorem setlk_coherent_reader :
    EachStep (lockStep ⟨true, false, .undefined⟩) (LockSafe ⟨true, false, .undefined⟩)
        (LockState.start (fun _ => 0) 1 1 0) safeRun ∧
      EachStep (lockStep ⟨true, false, .undefined⟩) (SetlkCoherent ⟨true, false, .undefined⟩)
        (LockState.start (fun _ => 0) 1 1 0) safeRun :=
  have h : EachStep (lockStep ⟨true, false, .undefined⟩) (LockSafe ⟨true, false, .undefined⟩)
      (LockState.start (fun _ => 0) 1 1 0) safeRun := by decide
  ⟨h, setlk_coherent ⟨true, false, .undefined⟩ (fun _ => 0) 1 1 0 safeRun h⟩

/-- The GETATTR of the second lock times out on a mount with `softreval`. -/
def softTimeout : List LockEvent :=
  .openFile false :: (lockedRead ++ otherModifies 2 ++ [.setlk 0 .read .timedOut false .ok])

/-- The file is open for writing, so that a GETATTR leaves the page, and there is an unlock without a lock. -/
def strayUnlock : List LockEvent :=
  .openFile true :: (lockedRead ++ otherModifies 2 ++
    [.ask, .serve 2 true, .reply 0 false, .unlk 0 true, .setlk 0 .read .ok false .ok])

/-- No valid mtime at the unlock: `unlock_mtime` still has the value that was in the memory. -/
def neverSampled : List LockEvent :=
  .openFile true :: ([.setlk 0 .write .ok false .ok, .read 0 0 false .ok, .write 0 1 5 false,
    .writeback 1 2 2 0 false false false false, .unlk 0 true] ++ otherModifies 3 ++
    [.ask, .serve 2 true, .reply 0 false, .setlk 0 .read .ok false .ok])

/-- A delegation is granted while the file is open for writing. -/
def delegatedStale : List LockEvent :=
  .openFile true :: (lockedRead ++ otherModifies 2 ++ [.delegate, .setlk 0 .read .ok false .ok])

/-- **Locks that leave a stale page**: after a soft timeout, a stray unlock, an unlock without a sample, a delegation. -/
theorem setlk_stale :
    ¬EachStep (lockStep ⟨true, true, .undefined⟩) (SetlkCoherent ⟨true, true, .undefined⟩)
        (LockState.start (fun _ => 0) 1 1 0) softTimeout ∧
      ¬EachStep (lockStep ⟨true, false, .undefined⟩) (SetlkCoherent ⟨true, false, .undefined⟩)
        (LockState.start (fun _ => 0) 1 1 0) strayUnlock ∧
      ¬EachStep (lockStep ⟨true, false, .undefined⟩) (SetlkCoherent ⟨true, false, .undefined⟩)
        (LockState.start (fun _ => 0) 1 1 3) neverSampled ∧
      ¬EachStep (lockStep ⟨true, false, .undefined⟩) (SetlkCoherent ⟨true, false, .undefined⟩)
        (LockState.start (fun _ => 0) 1 1 0) delegatedStale := by
  decide

end Vastnfs.Nfs
