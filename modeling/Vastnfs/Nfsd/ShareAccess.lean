import Mathlib.Data.Int.Order.Basic
import Mathlib.Logic.Relation
import Vastnfs.Lib.Keyed
import Vastnfs.Lib.Runs

/-!
# Share access of an open file on the server

The server's record of one file: the open and lock stateids on it with their share bitmaps, the two
access counters, the open files kept for the stateids, and the deny mode of the file. The operations
are the ones that change it: OPEN, OPEN_DOWNGRADE, CLOSE, LOCK, FREE_STATEID, RELEASE_LOCKOWNER and
the release of an open owner.

* `ShareMove`, `shareOp_moves`: what an operation can change.
* `shareAccess_accounted`: after any sequence of operations, failed ones included, the counters are
  what the bitmaps of the stateids say, and nothing is left when no stateid is.
-/

namespace Vastnfs.Nfsd

open List

/-! ## The file and its stateids -/

/-- Status of an operation; `other` stands for what the calls outside of this model return. -/
inductive Nfserr
  | ok | inval | shareDenied | badStateid | badXdr | jukebox | openmode
  | other (n : Nat)
deriving DecidableEq

/-- Index of `fi_access`: `O_RDONLY` or `O_WRONLY`. -/
inductive AccMode
  | rdonly | wronly
deriving DecidableEq

/-- Index of `fi_fds`. -/
inductive OMode
  | rdonly | wronly | rdwr
deriving DecidableEq

def AccMode.other : AccMode → AccMode
  | .rdonly => .wronly
  | .wronly => .rdonly

/-- The entry of `fi_fds` that goes with a counter. -/
def AccMode.omode : AccMode → OMode
  | .rdonly => .rdonly
  | .wronly => .wronly

/-- `NFS4_SHARE_ACCESS_READ`, also `NFS4_SHARE_DENY_READ`. -/
def shareRead : BitVec 32 := 1#32

/-- `NFS4_SHARE_ACCESS_WRITE`, also `NFS4_SHARE_DENY_WRITE`. -/
def shareWrite : BitVec 32 := 2#32

/-- `NFS4_SHARE_ACCESS_BOTH`, also `NFS4_SHARE_DENY_BOTH`. -/
def shareBoth : BitVec 32 := 3#32

def AccMode.share : AccMode → BitVec 32
  | .rdonly => shareRead
  | .wronly => shareWrite

/-- `set_access` and `set_deny` on a bitmap. -/
def setShare (share : BitVec 32) (bmap : BitVec 8) : BitVec 8 := bmap ||| (1#8 <<< share.toNat)

/-- `clear_access` and `clear_deny` on a bitmap. -/
def clearShare (share : BitVec 32) (bmap : BitVec 8) : BitVec 8 := bmap &&& ~~~(1#8 <<< share.toNat)

/-- `test_access` and `test_deny` on a bitmap. -/
def testShare (share : BitVec 32) (bmap : BitVec 8) : Bool := bmap &&& (1#8 <<< share.toNat) != 0#8

def bmapToShareMode (bmap : BitVec 8) : BitVec 32 :=
  [1#32, 2#32, 3#32].foldl (fun access i => if testShare i bmap then access ||| i else access) 0#32

/-- A stateid of the file: an open one, or a lock stateid of an open one. -/
structure Nfs4OlStateid where
  /-- The stateid itself (its address). -/
  id : Nat
  stateowner : Nat
  /-- `st_openstp`, `none` for an open stateid. -/
  openstp : Option Nat
  (accessBmap denyBmap : BitVec 8)
deriving DecidableEq

structure Nfs4File where
  /-- `fi_stateids`, the youngest first. -/
  stateids : List Nfs4OlStateid
  shareDeny : BitVec 32
  access : AccMode → Int
  /-- Whether the entry of `fi_fds` holds an open file. -/
  fds : OMode → Bool
  /-- Whether a counter ever went below zero. -/
  underflow : Bool
  /-- The next address. -/
  nextId : Nat

/-- The file as `nfsd4_init_file` leaves it. -/
def nfsd4InitFile : Nfs4File where
  stateids := []
  shareDeny := 0#32
  access := fun _ => 0
  fds := fun _ => false
  underflow := false
  nextId := 0

def Nfs4File.lookup (f : Nfs4File) (id : Nat) : Option Nfs4OlStateid := f.stateids.find? (·.id = id)

def Nfs4File.store (f : Nfs4File) (stp : Nfs4OlStateid) : Nfs4File :=
  { f with stateids := Keyed.replace Nfs4OlStateid.id stp f.stateids }

/-! ## Access and deny -/

def incAccess (f : Nfs4File) (m : AccMode) : Nfs4File :=
  { f with access := fun k => if k = m then f.access k + 1 else f.access k }

def nfs4FileGetAccessBits (f : Nfs4File) (access : BitVec 32) : Nfs4File :=
  let f := if access &&& shareWrite != 0#32 then incAccess f .wronly else f
  if access &&& shareRead != 0#32 then incAccess f .rdonly else f

def nfs4FileGetAccess (f : Nfs4File) (access : BitVec 32) : Nfs4File × Nfserr :=
  -- Does this access mode make sense?
  if access &&& ~~~shareBoth != 0#32 then (f, .inval)
  -- Does it conflict with a deny mode already set?
  else if access &&& f.shareDeny != 0#32 then (f, .shareDenied)
  else (nfs4FileGetAccessBits f access, .ok)

def nfs4FileCheckDeny (f : Nfs4File) (deny : BitVec 32) : Nfserr :=
  if deny = 0#32 then .ok
  else if deny &&& ~~~shareBoth != 0#32 then .inval
  else if deny &&& shareRead != 0#32 ∧ f.access .rdonly ≠ 0 then .shareDenied
  else if deny &&& shareWrite != 0#32 ∧ f.access .wronly ≠ 0 then .shareDenied
  else .ok

/-- `__nfs4_file_put_access`: the last user drops the open file, and the one for both modes when the
other mode has no user either. -/
def putAccess (f : Nfs4File) (m : AccMode) : Nfs4File :=
  let left := f.access m - 1
  { f with
    access := fun k => if k = m then left else f.access k
    underflow := f.underflow || decide (left < 0)
    fds := fun o =>
      if left = 0 ∧ (o = m.omode ∨ o = .rdwr ∧ f.access m.other = 0) then false else f.fds o }

def nfs4FilePutAccess (f : Nfs4File) (access : BitVec 32) : Nfs4File :=
  let f := if access &&& shareWrite != 0#32 then putAccess f .wronly else f
  if access &&& shareRead != 0#32 then putAccess f .rdonly else f

def recalculateDenyMode (f : Nfs4File) : Nfs4File :=
  { f with shareDeny := f.stateids.foldl (fun deny s => deny ||| bmapToShareMode s.denyBmap) 0#32 }

/-- The bits `reset_union_bmap_deny` clears. -/
def outsideDeny (deny : BitVec 32) : List (BitVec 32) := [1#32, 2#32, 3#32].filter fun i => i &&& deny != i

def clearOutside (deny : BitVec 32) (bmap : BitVec 8) : BitVec 8 :=
  (outsideDeny deny).foldl (fun bmap i => clearShare i bmap) bmap

def resetUnionBmapDeny (f : Nfs4File) (deny : BitVec 32) (stp : Nfs4OlStateid) : Nfs4File :=
  let f := f.store { stp with denyBmap := clearOutside deny stp.denyBmap }
  -- Recalculate per-file deny mode if there was a change
  if outsideDeny deny ≠ [] then recalculateDenyMode f else f

/-- `release_all_access` of a stateid that is off the list already. -/
def releaseAllAccess (f : Nfs4File) (stp : Nfs4OlStateid) : Nfs4File :=
  let f := if stp.denyBmap ≠ 0#8 then recalculateDenyMode f else f
  [1#32, 2#32, 3#32].foldl (fun f i => if testShare i stp.accessBmap then nfs4FilePutAccess f i else f) f

def freeOlStateidReaplist (f : Nfs4File) (reaplist : List Nfs4OlStateid) : Nfs4File :=
  reaplist.foldl releaseAllAccess f

/-! ## Release of stateids -/

def unhashOlStateid (f : Nfs4File) (id : Nat) : Nfs4File :=
  { f with stateids := Keyed.erase Nfs4OlStateid.id id f.stateids }

def openStateidLocks (f : Nfs4File) (id : Nat) : List Nfs4OlStateid := f.stateids.filter fun s => s.openstp = some id

/-- The stateid leaves the list, and then its locks (`release_open_stateid_locks`). -/
def unhashOpenStateid (f : Nfs4File) (id : Nat) : Nfs4File :=
  { f with stateids := (unhashOlStateid f id).stateids.filter fun s => ¬ s.openstp = some id }

/-- The locks to free with an open stateid: each one was put in front of the list. -/
def reapLocks (f : Nfs4File) (id : Nat) : List Nfs4OlStateid := (openStateidLocks (unhashOlStateid f id) id).reverse

/-- The locks are freed first; the stateid itself by the last reference, or with NFSv4.0 by `move_to_close_lru`, which
releases its access as well. -/
def nfsd4CloseOpenStateid (f : Nfs4File) (stp : Nfs4OlStateid) : Nfs4File :=
  freeOlStateidReaplist (unhashOpenStateid f stp.id) (reapLocks f stp.id ++ [stp])

def releaseLockStateid (f : Nfs4File) (stp : Nfs4OlStateid) : Nfs4File :=
  releaseAllAccess (unhashOlStateid f stp.id) stp

/-! ## OPEN -/

/-- The share access of the word `w`; `when` for OPEN. -/
def nfsd4DecodeShareAccess (minorversion : Nat) (when : Bool) (w : BitVec 32) : Except Nfserr (BitVec 32) :=
  let access := w &&& 0xf#32
  let want := w &&& ~~~0xf#32
  let rest := want &&& ~~~0xff00#32
  if access ∉ [shareRead, shareWrite, shareBoth] then .error .badXdr
  else if want = 0#32 then .ok access
  else if minorversion = 0 then .error .badXdr
  else if want &&& 0xff00#32 ∉ [0#32, 0x100#32, 0x200#32, 0x300#32, 0x400#32, 0x500#32] then .error .badXdr
  else if rest = 0#32 then .ok access
  else if ¬ when then .error .inval
  else if rest ∈ [0x10000#32, 0x20000#32, 0x30000#32] then .ok access
  else .error .badXdr

def nfsd4DecodeShareDeny (x : BitVec 32) : Except Nfserr (BitVec 32) :=
  if x &&& ~~~shareBoth != 0#32 then .error .badXdr else .ok x

/-- A decoded OPEN, with what the calls it makes answer. -/
structure Nfsd4Open where
  openowner : Nat
  (shareAccess shareDeny : BitVec 32)
  truncate : Bool
  /-- Everything before the stateid is looked up: `nfsd4_process_open1`, the file, `nfs4_check_deleg`. -/
  checks : Nfserr
  (acquire breakLease setattr : Nfserr)
deriving DecidableEq

def nfs4AccessToOmode (access : BitVec 32) : OMode :=
  if access &&& shareBoth = shareRead then .rdonly
  else if access &&& shareBoth = shareWrite then .wronly
  else if access &&& shareBoth = shareBoth then .rdwr
  else .rdonly

def nfsd4Truncate (o : Nfsd4Open) : Nfserr :=
  if ¬ o.truncate then .ok
  else if o.shareAccess &&& shareWrite = 0#32 then .inval
  else o.setattr

def nfsd4FindExistingOpen (f : Nfs4File) (openowner : Nat) : Option Nfs4OlStateid :=
  f.stateids.find? fun s => s.openstp = none ∧ s.stateowner = openowner

/-- The stateid `init_open_stateid` puts on the file. -/
def newOpenStateid (f : Nfs4File) (openowner : Nat) : Nfs4OlStateid where
  id := f.nextId
  stateowner := openowner
  openstp := none
  accessBmap := 0#8
  denyBmap := 0#8

def hashStateid (f : Nfs4File) (stp : Nfs4OlStateid) : Nfs4File :=
  { f with stateids := stp :: f.stateids, nextId := f.nextId + 1 }

def withShares (stp : Nfs4OlStateid) (o : Nfsd4Open) : Nfs4OlStateid :=
  { stp with accessBmap := setShare o.shareAccess stp.accessBmap, denyBmap := setShare o.shareDeny stp.denyBmap }

def grantShares (f : Nfs4File) (stp : Nfs4OlStateid) (o : Nfsd4Open) : Nfs4File :=
  { f.store (withShares stp o) with shareDeny := f.shareDeny ||| (o.shareDeny &&& shareBoth) }

/-- The rollback at `out_put_access` of `nfs4_get_vfs_file`. -/
def outPutAccess (f : Nfs4File) (stp : Nfs4OlStateid) (o : Nfsd4Open) : Nfs4File :=
  let s := { withShares stp o with accessBmap := stp.accessBmap }
  resetUnionBmapDeny (nfs4FilePutAccess (f.store s) o.shareAccess) (bmapToShareMode stp.denyBmap) s

/-- The end of `nfs4_get_vfs_file`, with the file open. -/
def breakAndTruncate (f : Nfs4File) (stp : Nfs4OlStateid) (o : Nfsd4Open) : Nfs4File × Nfserr :=
  if o.breakLease ≠ .ok then (outPutAccess f stp o, o.breakLease)
  else if nfsd4Truncate o ≠ .ok then (outPutAccess f stp o, nfsd4Truncate o)
  else (f, .ok)

/-- The open file of the mode of the OPEN is there. -/
def keepFd (f : Nfs4File) (o : OMode) : Nfs4File := { f with fds := fun k => if k = o then true else f.fds k }

def nfs4GetVfsFile (f : Nfs4File) (stp : Nfs4OlStateid) (o : Nfsd4Open) : Nfs4File × Nfserr :=
  -- Are we trying to set a deny mode that would conflict with current access?
  if nfs4FileCheckDeny f o.shareDeny ≠ .ok then (f, nfs4FileCheckDeny f o.shareDeny)
  else if (nfs4FileGetAccess f o.shareAccess).2 ≠ .ok then (f, (nfs4FileGetAccess f o.shareAccess).2)
  else
    let f := grantShares (nfs4FileGetAccess f o.shareAccess).1 stp o
    let oflag := nfs4AccessToOmode o.shareAccess
    if f.fds oflag then breakAndTruncate f stp o
    else if o.acquire ≠ .ok then (outPutAccess f stp o, o.acquire)
    else breakAndTruncate (keepFd f oflag) stp o

def nfs4UpgradeOpen (f : Nfs4File) (stp : Nfs4OlStateid) (o : Nfsd4Open) : Nfs4File × Nfserr :=
  if ¬ testShare o.shareAccess stp.accessBmap then nfs4GetVfsFile f stp o
  else if nfs4FileCheckDeny f o.shareDeny ≠ .ok then (f, nfs4FileCheckDeny f o.shareDeny)
  else
    -- test and set deny mode
    let s := { stp with denyBmap := setShare o.shareDeny stp.denyBmap }
    let f := { f.store s with shareDeny := f.shareDeny ||| (o.shareDeny &&& shareBoth) }
    -- the rollback gets the bitmap itself, where `nfs4_get_vfs_file` passes the share mode
    if nfsd4Truncate o ≠ .ok then (resetUnionBmapDeny f (stp.denyBmap.setWidth 32) s, nfsd4Truncate o)
    else (f, .ok)

/-- A failed OPEN with a new stateid: `release_open_stateid`. -/
def releaseOpenStateid (f : Nfs4File) (id : Nat) : Nfs4File :=
  match f.lookup id with
  | none => f
  | some stp => nfsd4CloseOpenStateid f stp

def nfsd4ProcessOpen2 (f : Nfs4File) (o : Nfsd4Open) : Nfs4File × Nfserr :=
  if o.checks ≠ .ok then (f, o.checks)
  else
    match nfsd4FindExistingOpen f o.openowner with
    | some stp => nfs4UpgradeOpen f stp o
    | none =>
      let stp := newOpenStateid f o.openowner
      let r := nfs4GetVfsFile (hashStateid f stp) stp o
      if r.2 ≠ .ok then (releaseOpenStateid r.1 stp.id, r.2) else r

/-! ## OPEN_DOWNGRADE and CLOSE -/

def nfs4StateidDowngradeBit (f : Nfs4File) (stp : Nfs4OlStateid) (access : BitVec 32) : Nfs4File × Nfs4OlStateid :=
  if testShare access stp.accessBmap then
    let s := { stp with accessBmap := clearShare access stp.accessBmap }
    ((nfs4FilePutAccess f access).store s, s)
  else (f, stp)

def nfs4StateidDowngrade (f : Nfs4File) (stp : Nfs4OlStateid) (access : BitVec 32) : Nfs4File × Nfs4OlStateid :=
  if access = shareRead then
    let r := nfs4StateidDowngradeBit f stp shareWrite
    nfs4StateidDowngradeBit r.1 r.2 shareBoth
  else if access = shareWrite then
    let r := nfs4StateidDowngradeBit f stp shareRead
    nfs4StateidDowngradeBit r.1 r.2 shareBoth
  else (f, stp)

def nfsd4OpenDowngrade (f : Nfs4File) (stp : Nfs4OlStateid) (access deny : BitVec 32) : Nfs4File × Nfserr :=
  if ¬ testShare access stp.accessBmap then (f, .inval)
  else if ¬ testShare deny stp.denyBmap then (f, .inval)
  else
    let r := nfs4StateidDowngrade f stp access
    (resetUnionBmapDeny r.1 deny r.2, .ok)

/-! ## LOCK -/

/-- A write open may read too. -/
def accessPermitRead (stp : Nfs4OlStateid) : Bool :=
  testShare shareRead stp.accessBmap || testShare shareBoth stp.accessBmap || testShare shareWrite stp.accessBmap

def accessPermitWrite (stp : Nfs4OlStateid) : Bool :=
  testShare shareWrite stp.accessBmap || testShare shareBoth stp.accessBmap

/-- `lk_type`. -/
inductive LockType
  | read | write | readw | writew
deriving DecidableEq

/-- The mode a lock needs: `setlkflg`, and the branch of the switch in `nfsd4_lock`. -/
def LockType.mode : LockType → AccMode
  | .read | .readw => .rdonly
  | .write | .writew => .wronly

/-- `nfs4_check_openmode` for the open stateid behind a lock stateid. -/
def nfs4CheckOpenmode (openStp : Nfs4OlStateid) (m : AccMode) : Bool :=
  match m with
  | .rdonly => accessPermitRead openStp
  | .wronly => accessPermitWrite openStp

/-- `find_readable_file_locked`, `find_writeable_file_locked`. -/
def findFileLocked (f : Nfs4File) (m : AccMode) : Bool := f.fds m.omode || f.fds .rdwr

def getLockAccess (f : Nfs4File) (stp : Nfs4OlStateid) (access : BitVec 32) : Nfs4File :=
  if testShare access stp.accessBmap then f
  else (nfs4FileGetAccessBits f access).store { stp with accessBmap := setShare access stp.accessBmap }

/-- The stateid `init_lock_stateid` makes: no access yet, the deny bits of the open. -/
def newLockStateid (f : Nfs4File) (lockowner : Nat) (openStp : Nfs4OlStateid) : Nfs4OlStateid where
  id := f.nextId
  stateowner := lockowner
  openstp := some openStp.id
  accessBmap := 0#8
  denyBmap := openStp.denyBmap

def findLockStateid (f : Nfs4File) (lockowner : Nat) (openStp : Nfs4OlStateid) : Option Nfs4OlStateid :=
  f.stateids.find? fun s => s.openstp = some openStp.id ∧ s.stateowner = lockowner

structure Nfsd4Lock where
  type : LockType
  /-- The grace period. -/
  grace : Nfserr
  /-- What follows the access: the blocked lock, the conflicting one, `vfs_lock_file`. -/
  lockFile : Nfserr
deriving DecidableEq

/-- `nfsd4_lock` once it has its lock stateid. -/
def lockWith (f : Nfs4File) (lockStp openStp : Nfs4OlStateid) (l : Nfsd4Lock) : Nfs4File × Nfserr :=
  if ¬ nfs4CheckOpenmode openStp l.type.mode then (f, .openmode)
  else if l.grace ≠ .ok then (f, l.grace)
  else if ¬ findFileLocked f l.type.mode then (f, .openmode)
  else (getLockAccess f lockStp l.type.mode.share, l.lockFile)

/-- `nfsd4_lock` of a new lock owner of an open stateid. A stateid made for it is released when the
LOCK fails. -/
def nfsd4LockNew (f : Nfs4File) (openStp : Nfs4OlStateid) (lockowner : Nat) (alloc : Bool) (l : Nfsd4Lock) :
    Nfs4File × Nfserr :=
  match findLockStateid f lockowner openStp with
  | some lockStp => lockWith f lockStp openStp l
  | none =>
    if ¬ alloc then (f, .jukebox)
    else
      let lockStp := newLockStateid f lockowner openStp
      let r := lockWith (hashStateid f lockStp) lockStp openStp l
      if r.2 ≠ .ok then
        match r.1.lookup lockStp.id with
        | none => r
        | some s => (releaseLockStateid r.1 s, r.2)
      else r

def nfsd4LockOld (f : Nfs4File) (lockStp : Nfs4OlStateid) (l : Nfsd4Lock) : Nfs4File × Nfserr :=
  match lockStp.openstp.bind f.lookup with
  | none => (f, .badStateid)
  | some openStp => lockWith f lockStp openStp l

/-! ## Operations -/

/-- The operations on a file. `checks` is the outcome of what precedes the change: sequence ids,
generations, file handle, confirmed owner. -/
inductive ShareOp
  | open (minorversion : Nat) (access deny : BitVec 32) (o : Nfsd4Open)
  | openDowngrade (minorversion : Nat) (id : Nat) (access deny : BitVec 32) (checks : Nfserr)
  | close (id : Nat) (checks : Nfserr)
  | lockNew (id lockowner : Nat) (alloc : Bool) (checks : Nfserr) (l : Nfsd4Lock)
  | lockOld (id : Nat) (checks : Nfserr) (l : Nfsd4Lock)
  | freeStateid (id : Nat) (checks : Nfserr)
  | releaseLockowner (lockowner : Nat) (checks : Nfserr)
  | releaseOpenowner (openowner : Nat)

/-- `nfsd4_lookup_stateid` for an open stateid, and the checks on it. -/
def preprocessOpen (f : Nfs4File) (id : Nat) (checks : Nfserr) : Except Nfserr Nfs4OlStateid :=
  match f.lookup id with
  | none => .error .badStateid
  | some stp => if stp.openstp ≠ none then .error .badStateid else if checks ≠ .ok then .error checks else .ok stp

def preprocessLock (f : Nfs4File) (id : Nat) (checks : Nfserr) : Except Nfserr Nfs4OlStateid :=
  match f.lookup id with
  | none => .error .badStateid
  | some stp => if stp.openstp = none then .error .badStateid else if checks ≠ .ok then .error checks else .ok stp

/-- The lock stateids `nfsd4_release_lockowner` takes off the list. -/
def lockownerStateids (f : Nfs4File) (lockowner : Nat) : List Nfs4OlStateid :=
  f.stateids.filter fun s => s.openstp ≠ none ∧ s.stateowner = lockowner

def nfsd4ReleaseLockowner (f : Nfs4File) (lockowner : Nat) : Nfs4File :=
  freeOlStateidReaplist
    { f with stateids := f.stateids.filter fun s => ¬ (s.openstp ≠ none ∧ s.stateowner = lockowner) }
    (lockownerStateids f lockowner).reverse

/-- `release_openowner`, as far as this file goes. -/
def releaseOpenowner (f : Nfs4File) (openowner : Nat) : Nfs4File :=
  match nfsd4FindExistingOpen f openowner with
  | none => f
  | some stp => freeOlStateidReaplist (unhashOpenStateid f stp.id) (stp :: reapLocks f stp.id)

def shareOp (f : Nfs4File) : ShareOp → Nfs4File × Nfserr
  | .open minorversion access deny o =>
    match nfsd4DecodeShareAccess minorversion true access, nfsd4DecodeShareDeny deny with
    | .ok a, .ok d => nfsd4ProcessOpen2 f { o with shareAccess := a, shareDeny := d }
    | .error e, _ => (f, e)
    | _, .error e => (f, e)
  | .openDowngrade minorversion id access deny checks =>
    match nfsd4DecodeShareAccess minorversion false access, nfsd4DecodeShareDeny deny, preprocessOpen f id checks with
    | .ok a, .ok d, .ok stp => nfsd4OpenDowngrade f stp a d
    | .error e, _, _ => (f, e)
    | _, .error e, _ => (f, e)
    | _, _, .error e => (f, e)
  | .close id checks =>
    match preprocessOpen f id checks with
    | .ok stp => (nfsd4CloseOpenStateid f stp, .ok)
    | .error e => (f, e)
  | .lockNew id lockowner alloc checks l =>
    match preprocessOpen f id checks with
    | .ok stp => nfsd4LockNew f stp lockowner alloc l
    | .error e => (f, e)
  | .lockOld id checks l =>
    match preprocessLock f id checks with
    | .ok stp => nfsd4LockOld f stp l
    | .error e => (f, e)
  | .freeStateid id checks =>
    match preprocessLock f id checks with
    | .ok stp => (releaseLockStateid f stp, .ok)
    | .error e => (f, e)
  | .releaseLockowner lockowner checks => if checks ≠ .ok then (f, checks) else (nfsd4ReleaseLockowner f lockowner, .ok)
  | .releaseOpenowner openowner => (releaseOpenowner f openowner, .ok)

def shareStep (f : Nfs4File) (op : ShareOp) : Option Nfs4File := some (shareOp f op).1

/-! ## Share bits -/

def hasShare (share : BitVec 32) (m : AccMode) : Bool := share &&& m.share != 0#32

/-- A share access as it leaves the decoder. -/
def IsShare (share : BitVec 32) : Prop := share = 1#32 ∨ share = 2#32 ∨ share = 3#32

/-- A share deny as it leaves the decoder. -/
def IsDeny (d : BitVec 32) : Prop := d = 0#32 ∨ IsShare d

/-- The mode is in the bitmap, by its own bit or by BOTH. -/
def shares (bmap : BitVec 8) (m : AccMode) : Bool := testShare m.share bmap || testShare shareBoth bmap

/-- How many bits of a bitmap count for a mode: READ and BOTH, or WRITE and BOTH. -/
def accessBits (m : AccMode) (bmap : BitVec 8) : Nat :=
  (testShare m.share bmap).toNat + (testShare shareBoth bmap).toNat

section

variable {share : BitVec 32} {bmap : BitVec 8} {m : AccMode}

theorem isShare_decode {minorversion : Nat} {when : Bool} {w : BitVec 32}
    (h : nfsd4DecodeShareAccess minorversion when w = .ok share) : IsShare share := by
  unfold nfsd4DecodeShareAccess at h
  by_cases hmem : w &&& 0xf#32 ∈ [shareRead, shareWrite, shareBoth]
  · have hshare : share = w &&& 0xf#32 := by
      simp only [hmem, not_true_eq_false, if_false] at h
      split at h
      · exact (Except.ok.inj h).symm
      · repeat' split at h
        all_goals first | exact (Except.ok.inj h).symm | cases h
    rw [hshare]
    simpa [IsShare, shareRead, shareWrite, shareBoth] using hmem
  · simp only [hmem, not_false_eq_true, if_true] at h
    cases h

theorem isDeny_decode {d x : BitVec 32} (h : nfsd4DecodeShareDeny x = .ok d) : IsDeny d := by
  obtain ⟨hmask, rfl⟩ : ¬ (x &&& ~~~shareBoth != 0#32) = true ∧ x = d := by
    unfold nfsd4DecodeShareDeny at h
    split at h
    · cases h
    · exact ⟨‹_›, Except.ok.inj h⟩
  have hzero : x &&& ~~~shareBoth = 0#32 := by simpa using hmask
  have hlt : x.toNat < 4 := by
    have hx : x = x &&& shareBoth := by
      calc x = x &&& (shareBoth ||| ~~~shareBoth) := BitVec.and_allOnes.symm
        _ = (x &&& shareBoth) ||| (x &&& ~~~shareBoth) := BitVec.and_or_distrib_left
        _ = x &&& shareBoth := by rw [hzero, BitVec.or_zero]
    rw [hx]
    exact Nat.lt_of_le_of_lt Nat.and_le_right (by decide)
  have hcases : x.toNat = 0 ∨ x.toNat = 1 ∨ x.toNat = 2 ∨ x.toNat = 3 := by omega
  simp only [IsDeny, IsShare, ← BitVec.toNat_inj]
  exact hcases

theorem accessBits_zero : accessBits m 0#8 = 0 := by
  cases m <;> decide

theorem testShare_zero (hs : IsShare share) : testShare share 0#8 = false := by
  rcases hs with rfl | rfl | rfl <;> decide

theorem accessBits_set (hs : IsShare share) (h : testShare share bmap = false) :
    accessBits m (setShare share bmap) = accessBits m bmap + (hasShare share m).toNat := by
  revert bmap
  rcases hs with rfl | rfl | rfl <;> cases m <;> decide +kernel

theorem accessBits_clear (hs : IsShare share) (h : testShare share bmap = true) :
    accessBits m (clearShare share bmap) + (hasShare share m).toNat = accessBits m bmap := by
  revert bmap
  rcases hs with rfl | rfl | rfl <;> cases m <;> decide +kernel

theorem accessBits_eq : ∀ bmap : BitVec 8, accessBits m bmap =
    (if testShare 1#32 bmap then (hasShare 1#32 m).toNat else 0) +
      (if testShare 2#32 bmap then (hasShare 2#32 m).toNat else 0) +
      if testShare 3#32 bmap then (hasShare 3#32 m).toNat else 0 := by
  cases m <;> decide +kernel

end

/-! ## The counters -/

/-- The counters are the bits of the stateids on the list and the accesses `r` still to be put. -/
structure AccessInv (f : Nfs4File) (r : AccMode → Nat) : Prop where
  counted : ∀ m, f.access m = ((f.stateids.map fun s => accessBits m s.accessBmap).sum + r m : Nat)
  sound : f.underflow = false
  guarded : ∀ m : AccMode, f.fds m.omode = true → 0 < f.access m
  guardedBoth : f.fds .rdwr = true → 0 < f.access .rdonly ∨ 0 < f.access .wronly
  distinct : (f.stateids.map Nfs4OlStateid.id).Nodup
  fresh : ∀ s ∈ f.stateids, s.id < f.nextId

section

variable {f : Nfs4File} {r r' : AccMode → Nat} {stp s : Nfs4OlStateid} {share : BitVec 32}

theorem AccessInv.init : AccessInv nfsd4InitFile (fun _ => 0) := by
  constructor <;> simp [nfsd4InitFile]

section

variable (h : AccessInv f r)
include h

theorem AccessInv.nonneg (m : AccMode) : 0 ≤ f.access m := by
  rw [h.counted m]
  exact Int.natCast_nonneg _

theorem AccessInv.congr (hr : ∀ m, r m = r' m) : AccessInv f r' := by
  rwa [← funext hr]

theorem AccessInv.shareDeny (d : BitVec 32) : AccessInv { f with shareDeny := d } r :=
  { h with }

theorem AccessInv.recalculate : AccessInv (recalculateDenyMode f) r := h.shareDeny _

end

theorem getAccessBits_access (m : AccMode) :
    (nfs4FileGetAccessBits f share).access m = f.access m + ((hasShare share m).toNat : Nat) := by
  unfold nfs4FileGetAccessBits hasShare
  cases m <;> simp only [AccMode.share] <;>
    cases hr : (share &&& shareRead != 0#32) <;> cases hw : (share &&& shareWrite != 0#32) <;> simp [incAccess]

theorem getAccessBits_rest :
    (nfs4FileGetAccessBits f share).stateids = f.stateids ∧ (nfs4FileGetAccessBits f share).underflow = f.underflow ∧
      (nfs4FileGetAccessBits f share).fds = f.fds ∧ (nfs4FileGetAccessBits f share).nextId = f.nextId ∧
      (nfs4FileGetAccessBits f share).shareDeny = f.shareDeny := by
  unfold nfs4FileGetAccessBits
  split <;> split <;> exact ⟨rfl, rfl, rfl, rfl, rfl⟩

theorem getAccess_ok (h : (nfs4FileGetAccess f share).2 = .ok) :
    (nfs4FileGetAccess f share).1 = nfs4FileGetAccessBits f share := by
  unfold nfs4FileGetAccess at h ⊢
  split_ifs at h with hmode hdeny
  rw [if_neg hmode, if_neg hdeny]

theorem AccessInv.get (h : AccessInv f r) :
    AccessInv (nfs4FileGetAccessBits f share) (fun m => r m + (hasShare share m).toNat) := by
  obtain ⟨hlist, hsound, hfds, hnext, -⟩ := getAccessBits_rest (f := f)
  have hle : ∀ m, f.access m ≤ (nfs4FileGetAccessBits f share).access m := by
    intro m
    rw [getAccessBits_access]
    omega
  refine ⟨?_, ?_, ?_, ?_, ?_, ?_⟩
  · intro m
    rw [getAccessBits_access, hlist, h.counted m]
    omega
  · rw [hsound, h.sound]
  · intro m hm
    rw [hfds] at hm
    exact Int.lt_of_lt_of_le (h.guarded m hm) (hle m)
  · intro hm
    rw [hfds] at hm
    rcases h.guardedBoth hm with hpos | hpos
    · exact .inl (Int.lt_of_lt_of_le hpos (hle _))
    · exact .inr (Int.lt_of_lt_of_le hpos (hle _))
  · rw [hlist]
    exact h.distinct
  · rw [hlist, hnext]
    exact h.fresh

theorem AccessInv.putOne {m : AccMode} (h : AccessInv f fun k => r k + if k = m then 1 else 0) : AccessInv (putAccess f m) r := by
  have hm := h.counted m
  have hother : 0 ≤ f.access m.other := h.nonneg m.other
  rw [if_pos rfl] at hm
  refine ⟨?_, ?_, ?_, ?_, h.distinct, h.fresh⟩
  · intro k
    have hk := h.counted k
    unfold putAccess
    dsimp only
    by_cases hkm : k = m
    · subst hkm
      rw [if_pos rfl]
      omega
    · rw [if_neg hkm] at hk ⊢
      exact hk
  · unfold putAccess
    dsimp only
    rw [h.sound, Bool.false_or, decide_eq_false_iff_not]
    omega
  · intro k hfd
    unfold putAccess at hfd ⊢
    dsimp only at hfd ⊢
    split at hfd
    · cases hfd
    rename_i hkeep
    have hpos := h.guarded k hfd
    by_cases hkm : k = m
    · subst hkm
      have hleft : f.access k - 1 ≠ 0 := fun hzero => hkeep ⟨hzero, .inl rfl⟩
      omega
    · rw [if_neg hkm]
      exact hpos
  · intro hfd
    unfold putAccess at hfd ⊢
    dsimp only at hfd ⊢
    split at hfd
    · cases hfd
    rename_i hkeep
    have hleft : f.access m - 1 ≠ 0 ∨ f.access m.other ≠ 0 := by
      by_contra hnone
      rw [not_or, not_not, not_not] at hnone
      exact hkeep ⟨hnone.1, .inr ⟨rfl, hnone.2⟩⟩
    cases m <;> simp only [AccMode.other, if_true, reduceCtorEq, if_false] at * <;> omega

theorem AccessInv.put (h : AccessInv f fun m => r m + (hasShare share m).toNat) :
    AccessInv (nfs4FilePutAccess f share) r := by
  have hshape : ∀ m : AccMode, (hasShare share m).toNat =
      (if m = .rdonly then (share &&& shareRead != 0#32).toNat else 0) +
        if m = .wronly then (share &&& shareWrite != 0#32).toNat else 0 := by
    intro m
    cases m <;> simp [hasShare, AccMode.share]
  simp only [hshape] at h
  unfold nfs4FilePutAccess
  cases hr : (share &&& shareRead != 0#32) <;> cases hw : (share &&& shareWrite != 0#32) <;>
    simp only [hr, hw, Bool.toNat_true, Bool.toNat_false, ite_self, Nat.add_zero, Nat.zero_add, if_true, if_false,
      Bool.false_eq_true] at h ⊢
  · exact h
  · exact h.putOne
  · exact h.putOne
  · apply AccessInv.putOne
    apply AccessInv.putOne
    simpa only [Nat.add_assoc] using h

section

variable (h : AccessInv f r)
include h

theorem AccessInv.store (hs : s ∈ f.stateids) (hid : s.id = stp.id)
    (hbits : ∀ m, r' m + accessBits m stp.accessBmap = r m + accessBits m s.accessBmap) : AccessInv (f.store stp) r' := by
  refine ⟨?_, h.sound, h.guarded, h.guardedBoth, ?_, ?_⟩
  · intro m
    have hsum := Keyed.sum_replace (fun t => accessBits m t.accessBmap) h.distinct hs hid
    have hm := hbits m
    rw [show (f.store stp).access m = f.access m from rfl, h.counted m]
    unfold Nfs4File.store
    dsimp only
    omega
  · unfold Nfs4File.store
    rw [Keyed.map_key_replace]
    exact h.distinct
  · intro t ht
    rcases Keyed.mem_replace ht with rfl | ⟨ht, -⟩
    · rw [← hid]
      exact h.fresh s hs
    · exact h.fresh t ht

theorem AccessInv.filter (p : Nfs4OlStateid → Prop) [DecidablePred p] :
    AccessInv { f with stateids := f.stateids.filter fun t => ¬ p t }
      (fun m => r m + ((f.stateids.filter fun t => p t).map fun t => accessBits m t.accessBmap).sum) := by
  refine ⟨?_, h.sound, h.guarded, h.guardedBoth, ?_, ?_⟩
  · intro m
    have hsum := Keyed.sum_filter_add (l := f.stateids) (fun t => accessBits m t.accessBmap) p
    dsimp only
    rw [h.counted m]
    omega
  · exact h.distinct.sublist (filter_sublist.map _)
  · intro t ht
    exact h.fresh t (mem_of_mem_filter ht)

theorem AccessInv.unhash (hs : s ∈ f.stateids) :
    AccessInv (unhashOlStateid f s.id) (fun m => r m + accessBits m s.accessBmap) := by
  refine (h.filter fun t => t.id = s.id).congr fun m => congrArg (r m + ·) ?_
  have hsum := Keyed.sum_filter_add (l := f.stateids) (fun t => accessBits m t.accessBmap) fun t => t.id = s.id
  exact Nat.add_left_cancel (hsum.trans (Keyed.sum_erase _ h.distinct hs).symm)

theorem AccessInv.hash (hid : stp.id = f.nextId) (hbmap : stp.accessBmap = 0#8) :
    AccessInv (hashStateid f stp) r := by
  refine ⟨?_, h.sound, h.guarded, h.guardedBoth, ?_, ?_⟩
  · intro m
    unfold hashStateid
    rw [map_cons, sum_cons, hbmap, accessBits_zero, Nat.zero_add, h.counted m]
  · unfold hashStateid
    rw [map_cons, nodup_cons]
    refine ⟨?_, h.distinct⟩
    intro hmem
    obtain ⟨t, ht, heq⟩ := mem_map.1 hmem
    have := h.fresh t ht
    omega
  · refine forall_mem_cons.2 ⟨?_, fun t ht => Nat.lt_succ_of_lt (h.fresh t ht)⟩
    rw [hid]
    exact Nat.lt_succ_self _

end

theorem AccessInv.releaseAll (h : AccessInv f fun m => r m + accessBits m s.accessBmap) :
    AccessInv (releaseAllAccess f s) r := by
  have hput : ∀ (f : Nfs4File) (q : AccMode → Nat) (i : BitVec 32),
      AccessInv f (fun m => q m + if testShare i s.accessBmap then (hasShare i m).toNat else 0) →
      AccessInv (if testShare i s.accessBmap then nfs4FilePutAccess f i else f) q := by
    intro f q i hf
    cases hi : testShare i s.accessBmap <;> simp only [hi, if_true, if_false, Bool.false_eq_true, Nat.add_zero] at hf ⊢
    · exact hf
    · exact hf.put
  have hrecalc : AccessInv (if s.denyBmap ≠ 0#8 then recalculateDenyMode f else f)
      (fun m => r m + accessBits m s.accessBmap) := by
    split
    · exact h.recalculate
    · exact h
  apply hput
  apply hput
  apply hput
  apply hrecalc.congr
  intro m
  rw [accessBits_eq]
  omega

theorem AccessInv.reap {l : List Nfs4OlStateid} :
    ∀ {f : Nfs4File}, AccessInv f (fun m => r m + (l.map fun t => accessBits m t.accessBmap).sum) →
      AccessInv (freeOlStateidReaplist f l) r := by
  induction l with
  | nil => exact fun h => h
  | cons t l ih =>
    intro f h
    unfold freeOlStateidReaplist
    apply ih
    apply AccessInv.releaseAll
    apply h.congr
    intro m
    rw [map_cons, sum_cons]
    omega

end

/-! ## Operations keep the accounts -/

section

variable {f : Nfs4File} {r : AccMode → Nat} {stp s : Nfs4OlStateid} {o : Nfsd4Open} {id : Nat} {checks : Nfserr}
  {a : BitVec 32}

theorem mem_of_lookup (h : f.lookup id = some stp) : stp ∈ f.stateids := mem_of_find?_eq_some h

theorem mem_store (hs : s ∈ f.stateids) (hid : s.id = stp.id) : stp ∈ (f.store stp).stateids :=
  Keyed.mem_replace_self hs hid

@[simp] theorem filePutAccess_stateids (a : BitVec 32) : (nfs4FilePutAccess f a).stateids = f.stateids := by
  unfold nfs4FilePutAccess
  split <;> split <;> rfl

theorem filePutAccess_store (a : BitVec 32) :
    (nfs4FilePutAccess f a).store stp = nfs4FilePutAccess (f.store stp) a := by
  unfold nfs4FilePutAccess
  split <;> split <;> rfl

theorem AccessInv.reset (h : AccessInv f r) (hs : s ∈ f.stateids) (hid : s.id = stp.id)
    (hbmap : s.accessBmap = stp.accessBmap) (deny : BitVec 32) : AccessInv (resetUnionBmapDeny f deny stp) r := by
  have hstore := @AccessInv.store _ _ _
    { stp with denyBmap := (outsideDeny deny).foldl (fun bmap i => clearShare i bmap) stp.denyBmap } _ h hs hid
    (by intro m; rw [hbmap])
  unfold resetUnionBmapDeny
  split
  · exact hstore.recalculate
  · exact hstore

section

variable (ha : IsShare o.shareAccess) (hnew : testShare o.shareAccess stp.accessBmap = false)
include ha hnew

variable (h : AccessInv f r)
include h

theorem AccessInv.outPut (hs : withShares stp o ∈ f.stateids) : AccessInv (outPutAccess f stp o) r := by
  have hstore : AccessInv (f.store { withShares stp o with accessBmap := stp.accessBmap })
      (fun m => r m + (hasShare o.shareAccess m).toNat) := by
    refine h.store hs rfl ?_
    intro m
    have hbits := accessBits_set (m := m) ha hnew
    simp only [withShares]
    omega
  refine hstore.put.reset ?_ rfl rfl _
  rw [filePutAccess_stateids]
  exact mem_store hs rfl

theorem AccessInv.grant (hs : stp ∈ f.stateids) :
    AccessInv (grantShares (nfs4FileGetAccessBits f o.shareAccess) stp o) r := by
  apply AccessInv.shareDeny
  apply (h.get).store (s := stp)
  · rw [getAccessBits_rest.1]
    exact hs
  · rfl
  intro m
  have hbits := accessBits_set (m := m) ha hnew
  simp only [withShares]
  omega

theorem AccessInv.keep (hs : withShares stp o ∈ f.stateids) :
    AccessInv (keepFd f (nfs4AccessToOmode o.shareAccess)) r := by
  have hpos : ∀ m, hasShare o.shareAccess m = true → 0 < f.access m := by
    intro m hm
    have hsum := Keyed.sum_erase (fun t => accessBits m t.accessBmap) h.distinct hs
    have hbits := accessBits_set (m := m) ha hnew
    rw [hm, Bool.toNat_true] at hbits
    rw [h.counted m]
    simp only [withShares] at hsum
    omega
  refine { h with guarded := ?_, guardedBoth := ?_ }
  · intro m hm
    unfold keepFd at hm
    dsimp only at hm
    split_ifs at hm with hmode
    · apply hpos
      revert hmode
      rcases ha with ha | ha | ha <;> rw [ha] <;> cases m <;> decide
    · exact h.guarded m hm
  · intro hm
    unfold keepFd at hm
    dsimp only at hm
    split_ifs at hm with hmode
    · left
      apply hpos
      revert hmode
      rcases ha with ha | ha | ha <;> rw [ha] <;> decide
    · exact h.guardedBoth hm

end

section

variable (h : AccessInv f r)
include h

theorem AccessInv.close (hs : stp ∈ f.stateids) {reaplist : List Nfs4OlStateid}
    (hreap : reaplist.Perm (stp :: reapLocks f stp.id)) :
    AccessInv (freeOlStateidReaplist (unhashOpenStateid f stp.id) reaplist) r := by
  have hout := (h.unhash hs).filter fun t => t.openstp = some stp.id
  apply AccessInv.reap
  apply hout.congr
  intro m
  rw [(hreap.map _).sum_eq]
  unfold reapLocks openStateidLocks
  rw [map_cons, map_reverse, sum_cons, sum_reverse]
  omega

theorem AccessInv.releaseLockowner (lockowner : Nat) :
    AccessInv (nfsd4ReleaseLockowner f lockowner) r := by
  have hout := h.filter fun t => t.openstp ≠ none ∧ t.stateowner = lockowner
  apply AccessInv.reap
  apply hout.congr
  intro m
  unfold lockownerStateids
  rw [map_reverse, sum_reverse]

theorem AccessInv.downgradeBit (hs : stp ∈ f.stateids) (ha : IsShare a) :
    AccessInv (nfs4StateidDowngradeBit f stp a).1 r := by
  unfold nfs4StateidDowngradeBit
  split_ifs with htest
  · dsimp only
    rw [filePutAccess_store]
    apply AccessInv.put
    refine h.store hs rfl ?_
    intro m
    have hbits := accessBits_clear (m := m) ha htest
    dsimp only
    omega
  · exact h

theorem AccessInv.getLock (hs : stp ∈ f.stateids) (ha : IsShare a) :
    AccessInv (getLockAccess f stp a) r := by
  unfold getLockAccess
  split_ifs with hno
  · exact h
  refine (h.get).store (s := stp) ?_ rfl ?_
  · rw [getAccessBits_rest.1]
    exact hs
  · intro m
    have hbits := accessBits_set (m := m) ha (Bool.eq_false_iff.2 hno)
    dsimp only
    omega

end

theorem isShare_mode (m : AccMode) : IsShare m.share := by
  cases m
  · exact .inl rfl
  · exact .inr (.inl rfl)

theorem preprocessOpen_ok (h : preprocessOpen f id checks = .ok stp) : f.lookup id = some stp ∧ stp.openstp = none := by
  unfold preprocessOpen at h
  split at h
  · cases h
  rename_i t hfound
  split at h
  · cases h
  rename_i hopen
  split at h
  · cases h
  · cases h
    exact ⟨hfound, not_not.1 hopen⟩

theorem preprocessLock_ok (h : preprocessLock f id checks = .ok stp) : f.lookup id = some stp ∧ stp.openstp ≠ none := by
  unfold preprocessLock at h
  split at h
  · cases h
  rename_i t hfound
  split at h
  · cases h
  rename_i hlock
  split at h
  · cases h
  · cases h
    exact ⟨hfound, hlock⟩

end

/-! ## Moves -/

/-- A lock for reading goes through an open stateid with READ. -/
def ReadLockCovered (f : Nfs4File) : ShareOp → Prop
  | .lockNew id _ _ _ l => l.type.mode = .rdonly → ∀ t, f.lookup id = some t → shares t.accessBmap .rdonly = true
  | .lockOld id _ l => l.type.mode = .rdonly → ∀ s t, f.lookup id = some s → s.openstp.bind f.lookup = some t →
      shares t.accessBmap .rdonly = true
  | _ => True

/-- The lock stateids of an open stateid deny only what the bitmap does. -/
def KeptBy (f : Nfs4File) (id : Nat) (bmap : BitVec 8) : Prop :=
  ∀ t ∈ f.stateids, t.openstp = some id → ∀ m, shares t.denyBmap m = true → shares bmap m = true

/-- An OPEN that fails to truncate clears no deny mode that a lock stateid has. -/
def OpenDenyKept (f : Nfs4File) (o : Nfsd4Open) : Prop :=
  ∀ s, nfsd4FindExistingOpen f o.openowner = some s → testShare o.shareAccess s.accessBmap = true →
    nfs4FileCheckDeny f o.shareDeny = .ok → nfsd4Truncate o ≠ .ok →
    KeptBy f s.id (clearOutside (s.denyBmap.setWidth 32) (setShare o.shareDeny s.denyBmap))

/-- No deny mode is cleared in an open stateid that one of its lock stateids has. -/
def DenyKept (f : Nfs4File) : ShareOp → Prop
  | .open minorversion access deny o => ∀ a d, nfsd4DecodeShareAccess minorversion true access = .ok a →
      nfsd4DecodeShareDeny deny = .ok d → OpenDenyKept f { o with shareAccess := a, shareDeny := d }
  | .openDowngrade _ id _ deny _ => ∀ d s, nfsd4DecodeShareDeny deny = .ok d → f.lookup id = some s →
      KeptBy f s.id (clearOutside d s.denyBmap)
  | _ => True

/-- The open stateid of every lock stateid is there, and with `kept` denies what the lock stateid denies. -/
structure Covered (kept : Bool) (f : Nfs4File) : Prop where
  linked : ∀ t ∈ f.stateids, ∀ i, t.openstp = some i → ∃ s ∈ f.stateids, s.id = i ∧ s.openstp = none
  kept : kept = true → ∀ s ∈ f.stateids, KeptBy f s.id s.denyBmap

def LeftTo (kept : Bool) (f : Nfs4File) (stp : Nfs4OlStateid) (bmap : BitVec 8) : Prop :=
  kept = true → stp.openstp = none ∧ KeptBy f stp.id bmap

/-- One change to the file, with what is known when it is made. In a strict reading that includes READ of
the open stateid behind a lock for reading; with `kept` it includes the deny modes of lock stateids. -/
inductive ShareMove (strict kept : Bool) (f : Nfs4File) : Nfs4File → Prop
  | grant {stp : Nfs4OlStateid} {o : Nfsd4Open} (ha : IsShare o.shareAccess) (hd : IsDeny o.shareDeny)
      (hnew : testShare o.shareAccess stp.accessBmap = false) (hs : stp ∈ f.stateids)
      (hdeny : nfs4FileCheckDeny f o.shareDeny = .ok) (hget : (nfs4FileGetAccess f o.shareAccess).2 = .ok)
      (hkept : LeftTo kept f stp stp.denyBmap) : ShareMove strict kept f (grantShares (nfs4FileGetAccessBits f o.shareAccess) stp o)
  | outPut {stp : Nfs4OlStateid} {o : Nfsd4Open} (ha : IsShare o.shareAccess) (hd : IsDeny o.shareDeny)
      (hnew : testShare o.shareAccess stp.accessBmap = false) (hs : withShares stp o ∈ f.stateids)
      (hkept : LeftTo kept f stp stp.denyBmap) : ShareMove strict kept f (outPutAccess f stp o)
  | keep {stp : Nfs4OlStateid} {o : Nfsd4Open} (ha : IsShare o.shareAccess)
      (hnew : testShare o.shareAccess stp.accessBmap = false) (hs : withShares stp o ∈ f.stateids) :
      ShareMove strict kept f (keepFd f (nfs4AccessToOmode o.shareAccess))
  | setDeny {stp : Nfs4OlStateid} {d : BitVec 32} (hd : IsDeny d) (hs : stp ∈ f.stateids) (hdeny : nfs4FileCheckDeny f d = .ok)
      (hkept : LeftTo kept f stp stp.denyBmap) : ShareMove strict kept f { f.store { stp with denyBmap := setShare d stp.denyBmap } with
        shareDeny := f.shareDeny ||| (d &&& shareBoth) }
  | reset {stp : Nfs4OlStateid} (hs : stp ∈ f.stateids) (deny : BitVec 32)
      (hkept : LeftTo kept f stp (clearOutside deny stp.denyBmap)) : ShareMove strict kept f (resetUnionBmapDeny f deny stp)
  | hashOpen (openowner : Nat) : ShareMove strict kept f (hashStateid f (newOpenStateid f openowner))
  | hashLock {stp : Nfs4OlStateid} (hs : stp ∈ f.stateids) (hopen : stp.openstp = none) (lockowner : Nat) :
      ShareMove strict kept f (hashStateid f (newLockStateid f lockowner stp))
  | close {stp : Nfs4OlStateid} {reaplist : List Nfs4OlStateid} (hs : stp ∈ f.stateids)
      (hreap : reaplist.Perm (stp :: reapLocks f stp.id)) :
      ShareMove strict kept f (freeOlStateidReaplist (unhashOpenStateid f stp.id) reaplist)
  | releaseLock {stp : Nfs4OlStateid} (hs : stp ∈ f.stateids) (hlock : stp.openstp ≠ none) :
      ShareMove strict kept f (releaseLockStateid f stp)
  | releaseLockowner (lockowner : Nat) : ShareMove strict kept f (nfsd4ReleaseLockowner f lockowner)
  | downgradeBit {stp : Nfs4OlStateid} (hs : stp ∈ f.stateids) {a : BitVec 32} (ha : IsShare a) :
      ShareMove strict kept f (nfs4StateidDowngradeBit f stp a).1
  | getLock {stp openStp : Nfs4OlStateid} (hs : stp ∈ f.stateids) (hopen : openStp ∈ f.stateids)
      (hlink : stp.openstp = some openStp.id) {m : AccMode}
      (hm : strict = true ∨ m = .wronly → shares openStp.accessBmap m = true) : ShareMove strict kept f (getLockAccess f stp m.share)

abbrev ShareMoves (strict kept : Bool) : Nfs4File → Nfs4File → Prop := Relation.ReflTransGen (ShareMove strict kept)

section

variable {strict kept : Bool} {f f' : Nfs4File} {r : AccMode → Nat} {stp openStp : Nfs4OlStateid} {o : Nfsd4Open} {l : Nfsd4Lock}

theorem LeftTo.of_store {bmap : BitVec 8} (h : LeftTo kept f stp bmap) (s : Nfs4OlStateid) (hid : s.id = stp.id)
    (hopen : s.openstp = stp.openstp) (hlist : f'.stateids = (f.store s).stateids) : LeftTo kept f' s bmap := by
  intro hk
  obtain ⟨hnone, hkept⟩ := h hk
  refine ⟨hopen.trans hnone, fun t ht hlink => ?_⟩
  rw [hlist] at ht
  rcases Keyed.mem_replace ht with rfl | ⟨ht, -⟩
  · cases (hopen.trans hnone).symm.trans hlink
  · exact hkept t ht (hid ▸ hlink)

theorem grantShares_stateids (a : BitVec 32) :
    (grantShares (nfs4FileGetAccessBits f a) stp o).stateids = (f.store (withShares stp o)).stateids :=
  congrArg (Keyed.replace Nfs4OlStateid.id (withShares stp o)) getAccessBits_rest.1

section

variable (ha : IsShare o.shareAccess) (hd : IsDeny o.shareDeny)
include ha hd

theorem breakAndTruncate_moves (hnew : testShare o.shareAccess stp.accessBmap = false)
    (hs : withShares stp o ∈ f.stateids) (hkept : LeftTo kept f stp stp.denyBmap) :
    ShareMoves strict kept f (breakAndTruncate f stp o).1 := by
  unfold breakAndTruncate
  split
  · exact .single (.outPut ha hd hnew hs hkept)
  split
  · exact .single (.outPut ha hd hnew hs hkept)
  · exact .refl

theorem getVfsFile_moves (hnew : testShare o.shareAccess stp.accessBmap = false) (hs : stp ∈ f.stateids)
    (hkept : LeftTo kept f stp stp.denyBmap) :
    ShareMoves strict kept f (nfs4GetVfsFile f stp o).1 := by
  have hmem : withShares stp o ∈ (grantShares (nfs4FileGetAccessBits f o.shareAccess) stp o).stateids := by
    rw [grantShares_stateids]
    exact mem_store hs rfl
  have hkept' := hkept.of_store (withShares stp o) rfl rfl (grantShares_stateids o.shareAccess)
  unfold nfs4GetVfsFile
  split
  · exact .refl
  rename_i hdeny
  split
  · exact .refl
  rename_i hget
  have hgrant := @ShareMove.grant strict kept _ _ _ ha hd hnew hs (not_not.1 hdeny) (not_not.1 hget) hkept
  rw [getAccess_ok (not_not.1 hget)]
  dsimp only
  split
  · exact .head hgrant (breakAndTruncate_moves ha hd hnew hmem hkept')
  split
  · exact .head hgrant (.single (.outPut ha hd hnew hmem hkept'))
  · exact .head hgrant (.head (.keep ha hnew hmem) (breakAndTruncate_moves ha hd hnew hmem hkept'))

theorem upgradeOpen_moves (hs : stp ∈ f.stateids) (hkept : LeftTo kept f stp stp.denyBmap)
    (hreset : testShare o.shareAccess stp.accessBmap = true → nfs4FileCheckDeny f o.shareDeny = .ok → nfsd4Truncate o ≠ .ok →
      LeftTo kept f stp (clearOutside (stp.denyBmap.setWidth 32) (setShare o.shareDeny stp.denyBmap))) :
    ShareMoves strict kept f (nfs4UpgradeOpen f stp o).1 := by
  unfold nfs4UpgradeOpen
  split
  · rename_i hno
    exact getVfsFile_moves ha hd (Bool.eq_false_iff.2 hno) hs hkept
  rename_i hyes
  split
  · exact .refl
  rename_i hdeny
  have hset := @ShareMove.setDeny strict kept _ _ _ hd hs (not_not.1 hdeny) hkept
  split
  · rename_i htrunc
    refine .head hset (.single (.reset ?_ _ ?_))
    · exact mem_store hs rfl
    · exact (hreset (not_not.1 hyes) (not_not.1 hdeny) htrunc).of_store _ rfl rfl rfl
  · exact .single hset

theorem processOpen2_moves (hfresh : ∀ s ∈ f.stateids, s.id < f.nextId)
    (hkept : kept = true → Covered kept f ∧ OpenDenyKept f o) : ShareMoves strict kept f (nfsd4ProcessOpen2 f o).1 := by
  unfold nfsd4ProcessOpen2
  split
  · exact .refl
  split
  · rename_i stp hfound
    have hs := mem_of_find?_eq_some hfound
    have hopen := find?_some hfound
    rw [decide_eq_true_eq] at hopen
    exact upgradeOpen_moves ha hd hs (fun hk => ⟨hopen.1, (hkept hk).1.kept hk stp hs⟩)
      fun htest hdeny htrunc hk => ⟨hopen.1, (hkept hk).2 stp hfound htest hdeny htrunc⟩
  -- no lock stateid has a new one for its open stateid
  have hnone : LeftTo kept (hashStateid f (newOpenStateid f o.openowner)) (newOpenStateid f o.openowner) 0#8 := by
    refine fun hk => ⟨rfl, fun t ht hlink => ?_⟩
    rcases mem_cons.1 ht with rfl | ht
    · cases hlink
    · obtain ⟨s, hs, hid, -⟩ := (hkept hk).1.linked t ht _ hlink
      exact absurd hid (Nat.ne_of_lt (hfresh s hs))
  have hopen := (getVfsFile_moves ha hd (testShare_zero ha) mem_cons_self hnone).head
    (@ShareMove.hashOpen strict kept f o.openowner)
  dsimp only
  split
  · unfold releaseOpenStateid
    split
    · exact hopen
    · rename_i stp hfound
      exact hopen.tail (.close (mem_of_lookup hfound) (perm_append_singleton _ _))
  · exact hopen

end

section

variable (hs : stp ∈ f.stateids)
include hs

theorem downgradeBit_mem (a : BitVec 32) :
    (nfs4StateidDowngradeBit f stp a).2 ∈ (nfs4StateidDowngradeBit f stp a).1.stateids := by
  unfold nfs4StateidDowngradeBit
  split
  · exact mem_store (s := stp) (by rwa [filePutAccess_stateids]) rfl
  · exact hs

omit hs in
theorem downgradeBit_kept {deny a : BitVec 32} (h : LeftTo kept f stp (clearOutside deny stp.denyBmap)) :
    LeftTo kept (nfs4StateidDowngradeBit f stp a).1 (nfs4StateidDowngradeBit f stp a).2
      (clearOutside deny (nfs4StateidDowngradeBit f stp a).2.denyBmap) := by
  unfold nfs4StateidDowngradeBit
  split
  · refine h.of_store { stp with accessBmap := clearShare a stp.accessBmap } rfl rfl ?_
    exact congrArg (Keyed.replace Nfs4OlStateid.id _) (filePutAccess_stateids a)
  · exact h

theorem downgrade_moves (access deny : BitVec 32) (hkept : LeftTo kept f stp (clearOutside deny stp.denyBmap)) :
    ShareMoves strict kept f (nfsd4OpenDowngrade f stp access deny).1 := by
  have htwo : ∀ a, IsShare a → ShareMoves strict kept f (resetUnionBmapDeny (nfs4StateidDowngradeBit (nfs4StateidDowngradeBit f stp a).1
      (nfs4StateidDowngradeBit f stp a).2 shareBoth).1 deny (nfs4StateidDowngradeBit (nfs4StateidDowngradeBit f stp a).1
      (nfs4StateidDowngradeBit f stp a).2 shareBoth).2) := by
    intro a ha
    have hmem := downgradeBit_mem hs a
    exact .head (.downgradeBit hs ha) (.head (.downgradeBit hmem (.inr (.inr rfl)))
      (.single (.reset (downgradeBit_mem hmem _) deny (downgradeBit_kept (downgradeBit_kept hkept)))))
  unfold nfsd4OpenDowngrade nfs4StateidDowngrade
  split
  · exact .refl
  split
  · exact .refl
  split
  · exact htwo shareWrite (.inr (.inl rfl))
  split
  · exact htwo shareRead (.inl rfl)
  · exact .single (.reset hs deny hkept)

theorem lockWith_moves (hopen : openStp ∈ f.stateids) (hlink : stp.openstp = some openStp.id)
    (hread : strict = true → l.type.mode = .rdonly → shares openStp.accessBmap .rdonly = true) :
    ShareMoves strict kept f (lockWith f stp openStp l).1 := by
  unfold lockWith
  split
  · exact .refl
  rename_i hmode
  split
  · exact .refl
  split
  · exact .refl
  refine .single (.getLock hs hopen hlink fun hm => ?_)
  cases hk : l.type.mode with
  | rdonly =>
    rw [hk] at hm
    exact hread (hm.resolve_right (by decide)) hk
  | wronly =>
    rw [hk] at hmode
    exact not_not.1 hmode

omit hs in
theorem lockWith_lookup {t : Nfs4OlStateid} (h : (lockWith (hashStateid f stp) stp openStp l).1.lookup stp.id = some t) :
    t.openstp = stp.openstp := by
  unfold lockWith getLockAccess at h
  split_ifs at h <;> simp [Nfs4File.lookup, hashStateid, Nfs4File.store, getAccessBits_rest.1, Keyed.replace] at h <;> rw [← h]

theorem lockNew_moves (hopen : stp.openstp = none) (lockowner : Nat) (alloc : Bool)
    (hread : strict = true → l.type.mode = .rdonly → shares stp.accessBmap .rdonly = true) :
    ShareMoves strict kept f (nfsd4LockNew f stp lockowner alloc l).1 := by
  unfold nfsd4LockNew
  split
  · rename_i lockStp hfound
    have hlock := List.find?_some hfound
    rw [decide_eq_true_eq] at hlock
    exact lockWith_moves (mem_of_find?_eq_some hfound) hs hlock.1 hread
  split
  · exact .refl
  have hlock := (lockWith_moves (l := l) mem_cons_self (mem_cons_of_mem _ hs) rfl hread).head
    (@ShareMove.hashLock strict kept _ _ hs hopen lockowner)
  dsimp only
  split
  · split
    · exact hlock
    · rename_i s hfound
      refine hlock.tail (.releaseLock (mem_of_lookup hfound) ?_)
      rw [lockWith_lookup hfound]
      exact Option.some_ne_none _
  · exact hlock

theorem lockOld_moves (hread : strict = true → l.type.mode = .rdonly → ∀ t, stp.openstp.bind f.lookup = some t →
      shares t.accessBmap .rdonly = true) : ShareMoves strict kept f (nfsd4LockOld f stp l).1 := by
  unfold nfsd4LockOld
  split
  · exact .refl
  rename_i t hfound
  obtain ⟨i, hi, hlookup⟩ := Option.bind_eq_some_iff.1 hfound
  have hid : t.id = i := by
    have hpred := List.find?_some hlookup
    rwa [decide_eq_true_eq] at hpred
  exact lockWith_moves hs (mem_of_lookup hlookup) (hid ▸ hi) fun hstrict hm => hread hstrict hm t hfound

end

/-- **Every operation** is a sequence of such changes. -/
theorem shareOp_moves (op : ShareOp) (hfresh : ∀ s ∈ f.stateids, s.id < f.nextId) (hread : strict = true → ReadLockCovered f op)
    (hkept : kept = true → Covered kept f ∧ DenyKept f op) : ShareMoves strict kept f (shareOp f op).1 := by
  cases op with
  | «open» minorversion access deny o =>
    dsimp only [shareOp]
    split
    · rename_i a d haccess hdeny
      exact processOpen2_moves (isShare_decode haccess) (isDeny_decode hdeny) hfresh fun hk =>
        (hkept hk).imp_right fun hdenyKept => hdenyKept a d haccess hdeny
    · exact .refl
    · exact .refl
  | openDowngrade minorversion id access deny checks =>
    dsimp only [shareOp]
    split
    · rename_i a d stp haccess hdeny hstp
      obtain ⟨hlookup, hopen⟩ := preprocessOpen_ok hstp
      exact downgrade_moves (mem_of_lookup hlookup) a d fun hk => ⟨hopen, (hkept hk).2 d stp hdeny hlookup⟩
    · exact .refl
    · exact .refl
    · exact .refl
  | close id checks =>
    dsimp only [shareOp]
    split
    · rename_i stp hstp
      exact .single (.close (mem_of_lookup (preprocessOpen_ok hstp).1) (perm_append_singleton _ _))
    · exact .refl
  | lockNew id lockowner alloc checks l =>
    dsimp only [shareOp]
    split
    · rename_i stp hstp
      obtain ⟨hlookup, hopen⟩ := preprocessOpen_ok hstp
      exact lockNew_moves (mem_of_lookup hlookup) hopen lockowner alloc fun hstrict hm => hread hstrict hm stp hlookup
    · exact .refl
  | lockOld id checks l =>
    dsimp only [shareOp]
    split
    · rename_i stp hstp
      have hlookup := (preprocessLock_ok hstp).1
      exact lockOld_moves (mem_of_lookup hlookup) fun hstrict hm t ht => hread hstrict hm stp t hlookup ht
    · exact .refl
  | freeStateid id checks =>
    dsimp only [shareOp]
    split
    · rename_i stp hstp
      obtain ⟨hlookup, hlock⟩ := preprocessLock_ok hstp
      exact .single (.releaseLock (mem_of_lookup hlookup) hlock)
    · exact .refl
  | releaseLockowner lockowner checks =>
    dsimp only [shareOp]
    split
    · exact .refl
    · exact .single (.releaseLockowner lockowner)
  | releaseOpenowner openowner =>
    dsimp only [shareOp]
    unfold releaseOpenowner
    split
    · exact .refl
    · rename_i stp hfound
      exact .single (.close (mem_of_find?_eq_some hfound) (List.Perm.refl _))

theorem AccessInv.move (h : AccessInv f r) (hmove : ShareMove strict kept f f') : AccessInv f' r := by
  cases hmove with
  | grant ha _ hnew hs => exact h.grant ha hnew hs
  | outPut ha _ hnew hs => exact h.outPut ha hnew hs
  | keep ha hnew hs => exact h.keep ha hnew hs
  | @setDeny stp d _ hs =>
    exact (@AccessInv.store _ _ _ { stp with denyBmap := setShare d stp.denyBmap } _ h hs rfl fun _ => rfl).shareDeny _
  | reset hs deny => exact h.reset hs rfl rfl deny
  | hashOpen | hashLock => exact h.hash rfl rfl
  | close hs hreap => exact h.close hs hreap
  | releaseLock hs => exact (h.unhash hs).releaseAll
  | releaseLockowner lockowner => exact h.releaseLockowner lockowner
  | downgradeBit hs ha => exact h.downgradeBit hs ha
  | getLock hs => exact h.getLock hs (isShare_mode _)

theorem AccessInv.op (h : AccessInv f r) (op : ShareOp) : AccessInv (shareOp f op).1 r := by
  have hmoves : ∀ f', ShareMoves false false f f' → AccessInv f' r := by
    intro f' hmoves
    induction hmoves with
    | refl => exact h
    | tail _ hmove ih => exact ih.move hmove
  exact hmoves _ (shareOp_moves op h.fresh nofun nofun)

end

/-! ## Accounting of share access -/

structure Accounted (f : Nfs4File) : Prop where
  /-- Each counter is the number of bits set for its mode over all stateids. -/
  counted : ∀ m, f.access m = ((f.stateids.map fun s => accessBits m s.accessBmap).sum : Nat)
  /-- No counter went below zero. -/
  sound : f.underflow = false
  /-- Without stateids there are no accesses and no open files. -/
  empty : f.stateids = [] → (∀ m, f.access m = 0) ∧ ∀ o, f.fds o = false

theorem AccessInv.accounted {f : Nfs4File} (h : AccessInv f fun _ => 0) : Accounted f := by
  refine ⟨h.counted, h.sound, ?_⟩
  intro hempty
  have hzero : ∀ m, f.access m = 0 := by
    intro m
    rw [h.counted m, hempty]
    rfl
  refine ⟨hzero, ?_⟩
  have hmode : ∀ m : AccMode, f.fds m.omode = false := by
    intro m
    apply Bool.eq_false_iff.2
    intro hfd
    have hpos := h.guarded m hfd
    rw [hzero m] at hpos
    exact Int.lt_irrefl 0 hpos
  intro o
  cases o with
  | rdonly => exact hmode .rdonly
  | wronly => exact hmode .wronly
  | rdwr =>
    apply Bool.eq_false_iff.2
    intro hfd
    have hpos := h.guardedBoth hfd
    rw [hzero, hzero] at hpos
    exact hpos.elim (Int.lt_irrefl 0) (Int.lt_irrefl 0)

/-- **After any operations, the counters are the bits of the stateids, and a file without stateids
holds nothing.** -/
theorem shareAccess_accounted (ops : List ShareOp) : Runs.Always shareStep Accounted nfsd4InitFile ops := by
  apply Runs.always_imp (P := fun f => AccessInv f fun _ => 0) fun f h => h.accounted
  refine Runs.always_of_invariant ?_ AccessInv.init
  intro f op t h ht
  cases ht
  exact h.op op

end Vastnfs.Nfsd
