import Vastnfs.Nfs.Binding

/-!
# Opening a file

`nfs_atomic_open` of `fs/nfs/dir.c` with the NFSv4 open below it (`nfs4_do_open` and the functions
it calls in `fs/nfs/nfs4proc.c`, `nfs_inode_set_delegation` of `fs/nfs/delegation.c`), against
servers that answer an OPEN as `nfsd4_open` of `fs/nfsd/nfs4proc.c` does.

The state is that of one name and of the file it leads to; the servers are told apart by their
numbers.

* `nfsd4Open`: the answer of a server.
* `nfs4DoOpen`: the open with one server, which repeats the OPEN.
* `nfsAtomicOpen`: the open of a name, which goes on to the server of the file.
-/

namespace Vastnfs.Nfs

open Sunrpc

/-! ## Modes and flags -/

/-- `FMODE_READ` and `FMODE_WRITE` of an `fmode_t`. -/
structure Fmode where
  (read write : Bool := false)
  deriving DecidableEq

def Fmode.covers (type fmode : Fmode) : Bool := (!fmode.read || type.read) && (!fmode.write || type.write)

inductive AccMode where
  | rdonly | wronly | rdwr
  deriving DecidableEq

structure OpenFlags where
  accMode : AccMode := .rdonly
  (exec creat excl trunc append direct directory nofollow : Bool := false)
  deriving DecidableEq

/-- `FMODE_READ` as `flags_to_mode` sets it. -/
def OpenFlags.reads (flags : OpenFlags) : Bool := flags.accMode != .wronly

/-- `FMODE_WRITE` as `flags_to_mode` sets it. -/
def OpenFlags.writes (flags : OpenFlags) : Bool := flags.accMode != .rdonly

/-- `_nfs4_ctx_to_openmode` of `flags_to_mode`. -/
def OpenFlags.openMode (flags : OpenFlags) : Fmode where
  read := flags.reads || flags.exec
  write := flags.writes

/-! ## The state -/

/-- The claim types of an OPEN that opens a file. -/
inductive OpenClaim where
  | null | fh
  deriving DecidableEq

/-- `struct nfs_delegation`; `server` is the number of its `server`. -/
structure Delegation where
  server : Nat
  type : Fmode
  deriving DecidableEq

/-- One open counted in a `struct nfs4_state`; `server` is the number of its `owner->so_server`. -/
structure OpenState where
  server : Nat
  fmode : Fmode
  deriving DecidableEq

/-- One name in a directory, and the file it leads to. -/
structure OpenWorld where
  cache : InodeCache
  dentry : Dentry
  inLookup : Bool := true
  /-- There is an unhashed dentry with the name and the inode. -/
  exactAlias : Bool := false
  child : Option FileHandle
  /-- The delegation of the inode, if it holds a valid one. -/
  delegation : Option Delegation := none
  opens : List OpenState := []
  /-- `NFS_CAP_ATOMIC_OPEN_V1` of each server. -/
  atomicOpenV1 : Nat → Bool := fun _ => true
  sent : List (Nat × OpenClaim) := []

/-- `struct nfs_open_context` with its `nfs4_state`. -/
structure OpenContext where
  inode : InodePtr
  /-- The number of the `owner->so_server` of the state. -/
  server : Nat
  /-- The number of the server that gave out the `stateid` of the state. -/
  stateid : Nat
  fmode : Fmode
  deriving DecidableEq

/-! ## The servers -/

structure Rights where
  (read write execute : Bool := true)
  deriving DecidableEq

/-- What the answers of the servers depend on. All of them export the same files. -/
structure Nfsd where
  /-- The type of the file, if it was there before. -/
  fileType : FileType := .regular
  /-- The handle of the file, if it has yet to be created. -/
  newChild : FileHandle
  /-- What the creation of the file ends with. -/
  create : Option Errno := none
  /-- What `fh_verify` ends with in `do_open_permission` for a file that was there before. -/
  permission : Fmode → Option Errno := fun _ => none
  rights : Rights := {}
  accessSupported : Bool := true
  /-- There are sessions, that is the minor version is not zero. -/
  hasSession : Bool := true
  /-- The server is ready to hand out a delegation: it is out of its grace period, the callback
  channel is up, the owner confirmed and no open in conflict. -/
  delegates : Nat → Bool := fun _ => false
  /-- A server sees the delegations the others handed out. -/
  sharedLeases : Bool := true

structure NfsOpenargs where
  openFlags : OpenFlags
  fmode : Fmode
  claim : OpenClaim
  /-- `NFS4_SHARE_WANT_NO_DELEG`. -/
  wantNoDeleg : Bool := false
  deriving DecidableEq

structure NfsOpenres where
  /-- The handle, unless the OPEN came with it. -/
  fh : Option FileHandle
  created : Bool
  delegationType : Option Fmode
  deriving DecidableEq

section

variable (nfsd : Nfsd)

/-- The file, whether it was created and whether it is to be truncated. -/
def doNfsdCreate (child : Option FileHandle) (flags : OpenFlags) : Except Errno (FileHandle × Bool × Bool) :=
  match child with
  | none =>
    match nfsd.create with
    | some e => .error e
    | none => .ok (nfsd.newChild, true, false)
  | some fh => if flags.excl then .error .eexist else .ok (fh, false, nfsd.fileType == .regular && flags.trunc)

def nfsdLookup (child : Option FileHandle) : Except Errno (FileHandle × Bool × Bool) :=
  match child with
  | none => .error .enoent
  | some fh => .ok (fh, false, false)

def Nfsd.typeOf (created : Bool) : FileType := if created then .regular else nfsd.fileType

/-- `nfsd_check_obj_isreg`, as the client reads its answer. -/
def nfsdCheckObjIsreg : FileType → Option Errno
  | .regular => none
  | .directory => some .eisdir
  | .symlink | .special => some .eloop

/-- A file just created is its creator's to open (`NFSD_MAY_OWNER_OVERRIDE`). -/
def doOpenPermission (created truncate : Bool) (fmode : Fmode) : Option Errno :=
  if truncate && !fmode.write then some .einval
  else if created then none
  else nfsd.permission fmode

def doOpenLookup (child : Option FileHandle) (flags : OpenFlags) (fmode : Fmode) : Except Errno (FileHandle × Bool) :=
  match if flags.creat then doNfsdCreate nfsd child flags else nfsdLookup child with
  | .error e => .error e
  | .ok (fh, created, truncate) =>
    match nfsdCheckObjIsreg (nfsd.typeOf created) with
    | some e => .error e
    | none =>
      match doOpenPermission nfsd created truncate fmode with
      | some e => .error e
      | none => .ok (fh, created)

def childAfterLookup (child : Option FileHandle) (flags : OpenFlags) : Option FileHandle :=
  if flags.creat && child.isNone && nfsd.create.isNone then some nfsd.newChild else child

/-- An open with `fmode` breaks the lease of a delegation. -/
def Delegation.conflicts (d : Delegation) (fmode : Fmode) : Bool := fmode.write || d.type.write

/-- `nfsd_open_break_lease` for server `idx`: a delegation of another client is recalled. The
clients of the servers have different owner strings. -/
def nfsdOpenBreakLease (idx : Nat) (delegation : Option Delegation) (fmode : Fmode) : Bool :=
  nfsd.sharedLeases && delegation.any fun d => d.server != idx && d.conflicts fmode

/-- There are no write delegations. -/
def nfs4OpenDelegation (idx : Nat) (wantNoDeleg : Bool) : Option Fmode :=
  if (nfsd.hasSession && wantNoDeleg) || !nfsd.delegates idx then none else some { read := true }

def nfsd4ProcessOpen2 (idx : Nat) (delegation : Option Delegation) (arg : NfsOpenargs) (fh : Option FileHandle)
    (created : Bool) : Except Errno NfsOpenres :=
  if nfsdOpenBreakLease nfsd idx delegation arg.fmode then .error .nfs4errDelay
  else .ok { fh := fh, created := created, delegationType := nfs4OpenDelegation nfsd idx arg.wantNoDeleg }

def nfsd4Open (idx : Nat) (child : Option FileHandle) (delegation : Option Delegation) (arg : NfsOpenargs) :
    Except Errno NfsOpenres :=
  match arg.claim with
  | .null =>
    match doOpenLookup nfsd child arg.openFlags arg.fmode with
    | .error e => .error e
    | .ok (fh, created) => nfsd4ProcessOpen2 nfsd idx delegation arg (some fh) created
  | .fh =>
    if arg.openFlags.creat then .error .einval
    else match doOpenPermission nfsd false false arg.fmode with
      | some e => .error e
      | none => nfsd4ProcessOpen2 nfsd idx delegation arg none false

end

/-! ## The client -/

/-- What an open depends on: the servers and what the client runs into. -/
structure OpenEnv extends Nfsd where
  fhget : FhgetEnv := {}
  nameTooLong : Bool := false
  /-- `d_alloc_parallel`: the hash of the dentry now in lookup, or a dentry already looked up. -/
  dAllocParallel : Except Errno (Option (Fin (2 ^ 5))) := .ok none
  /-- A delegation is to be returned with the last close: it is marked so, or there are as many as
  `nfs_delegation_watermark`. -/
  returnOnClose : Bool := false
  finishOpen : Option Errno := none

/-- How `nfs_atomic_open` ends. -/
inductive OpenOutcome where
  | opened (ctx : OpenContext)
  /-- The name is looked up and `finish_no_open` called. -/
  | noOpen
  | error (e : Errno)
  deriving DecidableEq

variable (sb : NfsServer) (env : OpenEnv) (flags : OpenFlags)

def nfs4MapAtomicOpenClaim (atomicOpenV1 : Bool) (claim : OpenClaim) : OpenClaim :=
  if atomicOpenV1 then claim else .null

def nfs4OpendataAlloc (atomicOpenV1 : Bool) (claim : OpenClaim) : NfsOpenargs where
  openFlags := flags
  fmode := flags.openMode
  claim := nfs4MapAtomicOpenClaim atomicOpenV1 claim
  wantNoDeleg := atomicOpenV1 && flags.direct

def nfs4ReturnIncompatibleDelegation (delegation : Option Delegation) (fmode : Fmode) : Option Delegation :=
  delegation.filter fun d => d.type.covers fmode

def canOpenDelegated (delegation : Option Delegation) (fmode : Fmode) : Bool :=
  delegation.any fun d => d.type.covers fmode

def nfsInodeSetDelegation (old : Option Delegation) (new : Delegation) : Option Delegation :=
  match old with
  | none => some new
  | some old => if new.type = old.type ∨ new.type.write = false then some old else some new

def nfs4OpendataCheckDeleg (idx : Nat) (delegation : Option Delegation) : Option Fmode → Option Delegation
  | none => delegation
  | some type => nfsInodeSetDelegation delegation { server := idx, type := type }

/-- The server whose `stateid` is in the state after `update_open_stateid`. -/
def updateOpenStateid (idx : Nat) (delegation : Option Delegation) (fmode : Fmode) : Nat :=
  match delegation with
  | some d => if d.type.covers fmode then d.server else idx
  | none => idx

/-- Without an ACCESS in the OPEN there is nothing to check. -/
def nfs4OpendataAccess (created : Bool) : Option Errno :=
  if flags.excl || !env.accessSupported then none
  else if flags.exec then if env.rights.execute then none else some .eacces
  else if flags.reads && !created && !env.rights.read then some .eacces
  else none

def nfsMayOpen : Bool :=
  if flags.exec then env.rights.execute
  else (!flags.reads || env.rights.read) && (!flags.writes || env.rights.write)

def nfs4OpendataGetInode (server : NfsServer) (w : OpenWorld) (res : NfsOpenres) : InodeCache × Except Errno InodePtr :=
  match res.fh with
  | some fh => nfsFhgetServer sb w.cache fh { fileType := env.typeOf res.created } (some server) none env.fhget
  | none =>
    match w.dentry.dInode with
    | some inode => (w.cache, .ok inode)
    | none => (w.cache, .error .enoent)

/-- A negative dentry gets the inode, or an alias is hashed again in its place (`d_exact_alias`,
`d_splice_alias`). -/
def OpenWorld.instantiate (w : OpenWorld) (inode : InodePtr) : OpenWorld :=
  { w with
    dentry :=
      if w.dentry.dInode.isSome || w.exactAlias then w.dentry else { w.dentry with dInode := some inode }
    exactAlias := w.dentry.dInode.isSome && w.exactAlias }

/-- The last close may return the delegation. -/
def putNfsOpenContextSync (ctx : OpenContext) (w : OpenWorld) : OpenWorld :=
  let opens := w.opens.erase { server := ctx.server, fmode := ctx.fmode }
  { w with
    opens := opens
    delegation := if env.returnOnClose && opens.isEmpty then none else w.delegation }

/-- No OPEN is sent. -/
def nfs4TryOpenCached (server : NfsServer) (inode : InodePtr) (w : OpenWorld) : OpenWorld × Except Errno OpenContext :=
  if nfsMayOpen env flags then
    ({ w with opens := { server := server.idx, fmode := flags.openMode } :: w.opens },
      .ok
        { inode := inode
          server := server.idx
          stateid := updateOpenStateid server.idx w.delegation flags.openMode
          fmode := flags.openMode })
  else (w, .error .eacces)

/-- `_nfs4_opendata_to_nfs4_state` once the inode is known, and the dentry that goes with it. -/
def nfs4OpendataToNfs4State (server : NfsServer) (cache : InodeCache) (inode : InodePtr) (delegationType : Option Fmode)
    (w : OpenWorld) : OpenWorld × OpenContext :=
  let delegation := nfs4OpendataCheckDeleg server.idx w.delegation delegationType
  let w := { w with
    cache := cache
    delegation := delegation
    opens := { server := server.idx, fmode := flags.openMode } :: w.opens }
  (w.instantiate inode,
    { inode := inode
      server := server.idx
      stateid := updateOpenStateid server.idx delegation flags.openMode
      fmode := flags.openMode })

def OpenWorld.send (idx : Nat) (claim : OpenClaim) (w : OpenWorld) : OpenWorld :=
  { w with
    sent := w.sent ++ [(idx, claim)]
    child := if claim = .null then childAfterLookup env.toNfsd w.child flags else w.child }

def nfs4OpenAndGetState (server : NfsServer) (claim : OpenClaim) (w : OpenWorld) : OpenWorld × Except Errno OpenContext :=
  let arg := nfs4OpendataAlloc flags (w.atomicOpenV1 server.idx) claim
  let answer := nfsd4Open env.toNfsd server.idx w.child w.delegation arg
  let w := w.send env flags server.idx arg.claim
  match answer with
  | .error e => (w, .error e)
  | .ok res =>
    match nfs4OpendataGetInode sb env server w res with
    | (cache, .error e) => ({ w with cache := cache }, .error e)
    | (cache, .ok inode) =>
      let (w, ctx) := nfs4OpendataToNfs4State flags server cache inode res.delegationType w
      -- a context that is refused here is closed by `nfs_atomic_open`
      match nfs4OpendataAccess env flags res.created with
      | some e => (putNfsOpenContextSync env ctx w, .error e)
      | none => (w, .ok ctx)

/-- `_nfs4_do_open`. -/
def nfs4DoOpenOnce (server : NfsServer) (w : OpenWorld) : OpenWorld × Except Errno OpenContext :=
  match w.dentry.dInode with
  | none => nfs4OpenAndGetState sb env flags server .null w
  | some inode =>
    let w := { w with delegation := nfs4ReturnIncompatibleDelegation w.delegation flags.openMode }
    -- `nfs4_open_prepare` needs no OPEN where a delegation will do
    if canOpenDelegated w.delegation flags.openMode then nfs4TryOpenCached env flags server inode w
    else nfs4OpenAndGetState sb env flags server .fh w

def nfs4ClearCapAtomicOpenV1 (idx : Nat) (w : OpenWorld) : OpenWorld :=
  { w with atomicOpenV1 := fun i => if i = idx then false else w.atomicOpenV1 i }

/-- `none` when the fuel does not suffice. While it waits after `NFS4ERR_DELAY`, the delegation that stood in the way
is returned. -/
def nfs4DoOpen (server : NfsServer) : Nat → OpenWorld → Option (OpenWorld × Except Errno OpenContext)
  | 0, _ => none
  | fuel + 1, w =>
    match nfs4DoOpenOnce sb env flags server w with
    | (w, .ok ctx) => some (w, .ok ctx)
    | (w, .error e) =>
      if e = .einval ∧ w.atomicOpenV1 server.idx = true then
        nfs4DoOpen server fuel (nfs4ClearCapAtomicOpenV1 server.idx w)
      else if e = .nfs4errDelay then nfs4DoOpen server fuel { w with delegation := none }
      else some (w, .error e)

def openFailed (e : Errno) : OpenOutcome :=
  match e with
  | .eisdir | .enotdir => .noOpen
  | .eloop => if flags.nofollow then .error .eloop else .noOpen
  | e => .error e

/-- The loop of `nfs_atomic_open`; `none` when the fuel does not suffice. -/
def retryOpen : Nat → NfsServer → OpenWorld → Option (OpenWorld × OpenOutcome)
  | 0, _, _ => none
  | fuel + 1, server, w =>
    match nfs4DoOpen sb env flags server (fuel + 1) w with
    | none => none
    | some (w, .error e) => some (w, openFailed flags e)
    | some (w, .ok ctx) =>
      match nfsServerOf sb (w.cache.inodes ctx.inode) with
      | none => none
      | some bound =>
        if bound.idx ≠ server.idx then retryOpen fuel bound (putNfsOpenContextSync env ctx w)
        else match env.finishOpen with
          | some e => some (putNfsOpenContextSync env ctx w, .error e)
          | none => some (w, .opened ctx)

/-- `nfs_atomic_open` up to the choice of the server: the name to open, or how it ends before. -/
def openPrepare (w : OpenWorld) : Except OpenOutcome OpenWorld :=
  if flags.append && flags.direct then .error (.error .einval)
  else if flags.directory then .error (if w.inLookup then .noOpen else .error .enoent)
  else if env.nameTooLong then .error (.error .enametoolong)
  else if !flags.creat && !w.inLookup then
    match env.dAllocParallel with
    | .error e => .error (.error e)
    | .ok none => .error .noOpen
    | .ok (some hash) => .ok { w with dentry := { hash := hash }, inLookup := true }
  else .ok w

/-- `nfs_atomic_open`, with the first OPEN sent to the server that `first` names; `none` is a
`BUG_ON`, a read past the alternates in use, or a lack of fuel. -/
def nfsAtomicOpenAt (first : OpenWorld → Option NfsServer) (fuel : Nat) (w : OpenWorld) :
    Option (OpenWorld × OpenOutcome) :=
  if w.dentry.dInode.isSome then none
  else match openPrepare env flags w with
    | .error outcome => some (w, outcome)
    | .ok w =>
      match first w with
      | none => none
      | some server => retryOpen sb env flags fuel server w

def nfsAtomicOpen (fuel : Nat) (w : OpenWorld) : Option (OpenWorld × OpenOutcome) :=
  nfsAtomicOpenAt sb env flags (fun w => nfsMultipathGetClientByDentry sb w.cache w.dentry) fuel w

end Vastnfs.Nfs
