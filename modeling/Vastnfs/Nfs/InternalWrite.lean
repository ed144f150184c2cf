import Mathlib.Algebra.BigOperators.Group.List.Basic
import Vastnfs.Sunrpc.Create

/-!
# Internally buffered writes

With `buffered_internal_writeback`, `nfs_file_write` (`fs/nfs/file.c`) pins the pages of the caller's memory, copies
them into pages of its own, puts these into the page cache and queues a direct write of them. The caller's memory,
the copies and the pages of the file are three arrays of pages with offsets of their own.

* `userVec_byte`, `copyPages_getD`, `addCopies_eq`, `carried_bufVec`: what each of the four loops does.
* `nfsFileWrite_stores_iff`: the calls for which the copies and the queued write are what the caller wrote.
-/

namespace Vastnfs.Nfs

open List Function

open Sunrpc (Errno)

/-! ## What a write deals with -/

/-- A segment of the caller's memory: `struct iovec`. -/
structure UserSeg where
  (addr len : Nat)
  deriving DecidableEq

def iovCount (segs : List UserSeg) : Nat := (segs.map UserSeg.len).sum

/-- The bytes of segments in the caller's memory, one after the other. -/
def userByte (mem : Nat → UInt8) : List UserSeg → Nat → UInt8
  | [], _ => 0
  | seg :: segs, k => if k < seg.len then mem (seg.addr + k) else userByte mem segs (k - seg.len)

/-- `struct kvec` into a page. -/
structure Kvec where
  page : Nat → UInt8
  (base len : Nat)

def kvecByte : List Kvec → Nat → UInt8
  | [], _ => 0
  | v :: vec, k => if k < v.len then v.page (v.base + k) else kvecByte vec (k - v.len)

structure CachedPage where
  data : Nat → UInt8
  uptodate : Bool

/-- What the page cache shows at a position of the file. -/
def shown (cache : Nat → Option CachedPage) (x : Nat) : Option UInt8 :=
  match cache (x / 4096) with
  | some page => if page.uptodate then some (page.data (x % 4096)) else none
  | none => none

/-- `struct inode`, as far as a write deals with it. -/
structure WriteInode where
  cache : Nat → Option CachedPage
  iSize : Nat

structure Kiocb where
  pos : Nat
  append : Bool
  deriving DecidableEq

/-- `struct nfs_async_write` once it is queued: the position in its `iocb`, and its `iov`. -/
structure AsyncWrite where
  pos : Nat
  vec : List Kvec
  count : Nat

/-- What the functions that are called answer. -/
structure WriteEnv where
  /-- `nfs_key_timeout_notify`, or the file is swap. -/
  early : Option Errno
  /-- `nfs_revalidate_file_size`; the size of the inode is what it left. -/
  revalidate : Option Errno
  /-- How far the limits of the process and of the file system let a file grow. -/
  limit : Nat
  /-- `kmalloc`. -/
  awOk : Bool
  /-- Of `get_user_pages_fast`, how many pages beyond the first were pinned. -/
  pinned : Except Errno Nat
  /-- `kvmalloc_array`. -/
  vecOk : Bool
  /-- `alloc_pages_bulk_array` got the pages. -/
  bufsOk : Bool
  /-- What is in the pages it gets. -/
  garbage : Nat → Nat → UInt8
  /-- The page cache has memory for another page. -/
  addOk : Nat → Bool
  /-- `generic_write_sync`. -/
  sync : Option Errno
  /-- An error of earlier writeback that is returned at the end. -/
  wbErr : Option Errno

inductive WriteResult where
  /-- It returns `n`; `pos` is the new position, and `aw` is queued. -/
  | returns (n : Nat) (inode : WriteInode) (pos : Nat) (aw : AsyncWrite)
  | nothing
  | fails (e : Errno)
  | bugOn
  /-- A null pointer is followed. -/
  | oops

/-! ## The functions -/

def genericWriteChecks (limit iSize : Nat) (iocb : Kiocb) (count : Nat) : Except Errno (Nat × Nat) :=
  if count = 0 then .ok (iocb.pos, 0)
  else
    let pos := if iocb.append then iSize else iocb.pos
    if limit ≤ pos then .error (.other 27) else .ok (pos, min count (limit - pos))

/-- How many bytes of the first segment are in the pages that were pinned. -/
def iovIterGetPagesAlloc (seg : UserSeg) (maxsize pages : Nat) : Nat :=
  let offset := seg.addr % 4096
  let len := min maxsize seg.len
  if (len + offset + 4095) / 4096 ≤ pages then len else pages * 4096 - offset

def userVec (pages : Nat → Nat → UInt8) : Nat → Nat → Nat → Nat → List Kvec
  | 0, _, _, _ => []
  | n + 1, i, offset, bcount =>
    let len := min (4096 - offset) bcount
    { page := pages i, base := offset, len := len } :: userVec pages n (i + 1) 0 (bcount - len)

/-- The loop of `nfs_async_direct_copy` around `copy_page_from_iter`: `done` bytes are copied and `left` are left in
the iterator. -/
def copyPages (garbage : Nat → Nat → UInt8) (iov : List Kvec) : Nat → Nat → Nat → Nat → List (Nat → UInt8)
  | 0, _, _, _ => []
  | n + 1, i, done, left =>
    let len := min 4096 left
    (fun j => if j < len then kvecByte iov (done + j) else garbage i j) ::
      copyPages garbage iov n (i + 1) (done + len) (left - len)

/-- The copies, unless there is a `BUG_ON`. -/
def nfsAsyncDirectCopy (garbage userPages : Nat → Nat → UInt8) (pageOffset userCount nrPages userNrPages : Nat) :
    Option (List (Nat → UInt8)) :=
  if (if pageOffset ≠ 0 then nrPages + 1 ≠ userNrPages else nrPages ≠ userNrPages) then none
  else some (copyPages garbage (userVec userPages userNrPages 0 pageOffset userCount) nrPages 0 0 userCount)

def bufVec : List (Nat → UInt8) → Nat → List Kvec
  | [], _ => []
  | page :: pages, bcount =>
    let len := min 4096 bcount
    { page := page, base := 0, len := len } :: bufVec pages (bcount - len)

/-- The loop of `nfs_file_async_write` that puts the copies into the page cache. A page that is there is copied to;
there is none that `find_lock_page` could find if there was no memory for one. -/
def addCopies (addOk : Nat → Bool) (cache : Nat → Option CachedPage) (index : Nat) :
    List (Nat → UInt8) → Option (Nat → Option CachedPage)
  | [] => some cache
  | page :: pages =>
    match cache index with
    | some old => addCopies addOk (Function.update cache index (some { old with data := page })) (index + 1) pages
    | none =>
      if addOk index then
        addCopies addOk (Function.update cache index (some { data := page, uptodate := true })) (index + 1) pages
      else none

def nfsFileAsyncWrite (env : WriteEnv) (mem : Nat → UInt8) (inode : WriteInode) (segs : List UserSeg)
    (pos totalSize : Nat) : WriteResult :=
  if !env.awOk then .fails .enomem
  else
    match env.pinned, segs.find? (0 < ·.len) with
    | .error e, _ => .fails e
    | .ok _, none => .fails (.other 14)
    | .ok more, some seg =>
      let offset := seg.addr % 4096
      let bytes := iovIterGetPagesAlloc seg totalSize (more + 1)
      let userNrPages := (bytes + offset + 4095) / 4096
      let nrPages := (bytes + 4095) / 4096
      if !env.vecOk then .fails .enomem
      else if !env.bufsOk then .fails .enomem
      else
        match nfsAsyncDirectCopy env.garbage (fun i j => mem ((seg.addr / 4096 + i) * 4096 + j)) offset bytes nrPages
            userNrPages with
        | none => .bugOn
        | some bufPages =>
          match addCopies env.addOk inode.cache (pos / 4096) bufPages with
          | none => .oops
          | some cache =>
            .returns totalSize { cache := cache, iSize := max inode.iSize (pos + totalSize) } (pos + totalSize)
              { pos := pos, vec := bufVec bufPages bytes, count := min bytes totalSize }

def internalBuffered (enabled : Bool) (count pos : Nat) : Bool :=
  enabled && decide (1048576 < count) && count % 4096 == 0 && pos % 4096 == 0

/-- The end of `nfs_file_write`: an error of `generic_write_sync`, or one that the mapping has. -/
def writeEnd (sync wbErr : Option Errno) : WriteResult → WriteResult
  | .bugOn => .bugOn
  | .oops => .oops
  | .returns n inode pos aw =>
    match sync, wbErr with
    | some e, _ => .fails e
    | none, some e => .fails e
    | none, none => .returns n inode pos aw
  | .nothing => wbErr.elim .nothing .fails
  | .fails e => wbErr.elim (.fails e) .fails

/-- `nfs_file_write` without `O_DIRECT`; `perform` is what it does on the ordinary path. -/
def nfsFileWrite (perform : Nat → Nat → WriteResult) (enabled : Bool) (env : WriteEnv) (mem : Nat → UInt8)
    (inode : WriteInode) (iocb : Kiocb) (segs : List UserSeg) : WriteResult :=
  match env.early with
  | some e => .fails e
  | none =>
    match if iocb.append || decide (inode.iSize < iocb.pos) then env.revalidate else none with
    | some e => .fails e
    | none =>
      let internal := internalBuffered enabled (iovCount segs) iocb.pos
      writeEnd env.sync env.wbErr <|
        match genericWriteChecks env.limit inode.iSize iocb (iovCount segs) with
        | .error e => .fails e
        | .ok (_, 0) => .nothing
        | .ok (pos, count + 1) =>
          if internal then
            -- the second time, the checks have nothing left to do
            match genericWriteChecks env.limit inode.iSize { iocb with pos := pos } (count + 1) with
            | .error e => .fails e
            | .ok (_, 0) => .nothing
            | .ok (pos, totalSize + 1) => nfsFileAsyncWrite env mem inode segs pos (totalSize + 1)
          else perform pos (count + 1)

/-- `struct nfs_page`, a request of a direct write. -/
structure NfsPageReq where
  (wbIndex wbOffset : Nat)
  page : Nat → UInt8
  (wbPgbase wbBytes : Nat)

/-- `ok i` tells whether the request `i` can be made and added. -/
def nfsDirectWriteFromKvec (ok : Nat → Bool) (i pos : Nat) : List Kvec → List NfsPageReq
  | [] => []
  | v :: vec =>
    if ok i then
      { wbIndex := pos / 4096, wbOffset := pos % 4096, page := v.page, wbPgbase := 0, wbBytes := v.len } ::
        nfsDirectWriteFromKvec ok (i + 1) (pos + v.len) vec
    else []

def NfsPageReq.byte (req : NfsPageReq) (x : Nat) : Option UInt8 :=
  let start := req.wbIndex * 4096 + req.wbOffset
  if start ≤ x ∧ x < start + req.wbBytes then some (req.page (req.wbPgbase + (x - start))) else none

def AsyncWrite.carries (aw : AsyncWrite) (x : Nat) : Option UInt8 :=
  (nfsDirectWriteFromKvec (fun _ => true) 0 aw.pos aw.vec).findSome? (·.byte x)

/-! ## The loops -/

section

theorem userVec_byte (pages : Nat → Nat → UInt8) (n i offset bcount k : Nat) (hoff : offset < 4096)
    (hn : bcount + offset ≤ n * 4096) (hk : k < bcount) :
    kvecByte (userVec pages n i offset bcount) k = pages (i + (offset + k) / 4096) ((offset + k) % 4096) := by
  induction n generalizing i offset bcount k with
  | zero => omega
  | succ n ih =>
    simp only [userVec, kvecByte]
    split
    · next hlt =>
      rw [Nat.div_eq_of_lt (by omega), Nat.mod_eq_of_lt (by omega), add_zero]
    next hge =>
    have hlen : min (4096 - offset) bcount = 4096 - offset := by omega
    rw [hlen, ih (i + 1) 0 (bcount - (4096 - offset)) _ (by omega) (by omega) (by omega)]
    congr 1 <;> omega

theorem length_copyPages (garbage : Nat → Nat → UInt8) (iov : List Kvec) (n i done left : Nat) :
    (copyPages garbage iov n i done left).length = n := by
  induction n generalizing i done left with
  | zero => rfl
  | succ n ih => simp [copyPages, ih]

theorem copyPages_getD (garbage : Nat → Nat → UInt8) (iov : List Kvec) (n i done left m j : Nat)
    (d : Nat → UInt8) (hm : m < n) (hj : j < 4096) :
    (copyPages garbage iov n i done left).getD m d j =
      if m * 4096 + j < left then kvecByte iov (done + (m * 4096 + j)) else garbage (i + m) j := by
  induction n generalizing i done left m with
  | zero => omega
  | succ n ih =>
    cases m with
    | zero =>
      simp only [copyPages, getD_cons_zero, zero_mul, zero_add, add_zero]
      have hiff : j < min 4096 left ↔ j < left := by omega
      simp [hiff]
    | succ m =>
      simp only [copyPages, getD_cons_succ]
      have hrest := ih (i + 1) (done + min 4096 left) (left - min 4096 left) m (by omega)
      rw [hrest, add_assoc i 1 m, add_comm 1 m]
      have hiff : m * 4096 + j < left - min 4096 left ↔ (m + 1) * 4096 + j < left := by omega
      simp only [hiff]
      split
      · next hlt =>
        congr 1
        omega
      · rfl

theorem NfsPageReq.byte_at (page : Nat → UInt8) (pos len x : Nat) :
    NfsPageReq.byte { wbIndex := pos / 4096, wbOffset := pos % 4096, page := page, wbPgbase := 0, wbBytes := len } x =
      if pos ≤ x ∧ x < pos + len then some (page (x - pos)) else none := by
  have hstart : pos / 4096 * 4096 + pos % 4096 = pos := by omega
  simp [NfsPageReq.byte, hstart]

theorem carried_bufVec (d : Nat → UInt8) (pages : List (Nat → UInt8)) (i pos bytes x : Nat)
    (hlen : bytes ≤ pages.length * 4096) :
    (nfsDirectWriteFromKvec (fun _ => true) i pos (bufVec pages bytes)).findSome? (·.byte x) =
      if pos ≤ x ∧ x < pos + bytes then some (pages.getD ((x - pos) / 4096) d ((x - pos) % 4096)) else none := by
  induction pages generalizing i pos bytes with
  | nil =>
    rw [length_nil] at hlen
    rw [if_neg (by omega)]
    rfl
  | cons page pages ih =>
    rw [length_cons] at hlen
    simp only [bufVec, nfsDirectWriteFromKvec, if_true, List.findSome?_cons, NfsPageReq.byte_at]
    set next := pos + min 4096 bytes
    have hrest := ih (i + 1) next (bytes - min 4096 bytes) (by omega)
    by_cases hx : pos ≤ x ∧ x < next
    · rw [if_pos hx, if_pos (by omega), Nat.div_eq_of_lt (by omega), Nat.mod_eq_of_lt (by omega)]
      rfl
    rw [if_neg hx]
    refine hrest.trans ?_
    by_cases hin : pos ≤ x ∧ x < pos + bytes
    · have hdiv : (x - pos) / 4096 = (x - next) / 4096 + 1 := by omega
      have hmod : (x - pos) % 4096 = (x - next) % 4096 := by omega
      rw [if_pos hin, if_pos (by omega), hdiv, hmod, getD_cons_succ]
    · rw [if_neg hin, if_neg (by omega)]

def withCopies (cache : Nat → Option CachedPage) (index : Nat) (pages : List (Nat → UInt8)) (i : Nat) :
    Option CachedPage :=
  if index ≤ i ∧ i < index + pages.length then
    some { data := pages.getD (i - index) fun _ => 0, uptodate := (cache i).elim true CachedPage.uptodate }
  else cache i

theorem withCopies_cons (cache : Nat → Option CachedPage) (index : Nat) (page : Nat → UInt8)
    (pages : List (Nat → UInt8)) :
    withCopies
        (Function.update cache index (some { data := page, uptodate := (cache index).elim true CachedPage.uptodate }))
        (index + 1) pages = withCopies cache index (page :: pages) := by
  funext i
  simp only [withCopies, length_cons]
  rcases Nat.lt_trichotomy i index with hlt | rfl | hgt
  · rw [if_neg (by omega), if_neg (by omega), update_of_ne (ne_of_lt hlt)]
  · rw [if_neg (by omega), if_pos (by omega), update_self, Nat.sub_self]
    rfl
  have hsub : i - index = i - (index + 1) + 1 := by omega
  rw [update_of_ne (ne_of_gt hgt), hsub, getD_cons_succ]
  by_cases hin : i < index + 1 + pages.length
  · rw [if_pos (by omega), if_pos (by omega)]
  · rw [if_neg (by omega), if_neg (by omega)]

theorem addCopies_eq (addOk : Nat → Bool) (pages : List (Nat → UInt8)) (cache : Nat → Option CachedPage)
    (index : Nat) {cache' : Nat → Option CachedPage} (h : addCopies addOk cache index pages = some cache') :
    cache' = withCopies cache index pages := by
  induction pages generalizing cache index with
  | nil =>
    cases h
    funext i
    rw [withCopies, if_neg (by rw [length_nil]; omega)]
  | cons page pages ih =>
    rw [← withCopies_cons]
    unfold addCopies at h
    cases hc : cache index with
    | some old =>
      rw [hc] at h
      exact ih _ _ h
    | none =>
      rw [hc] at h
      by_cases hok : addOk index = true
      · rw [if_pos hok] at h
        exact ih _ _ h
      · rw [if_neg hok] at h
        cases h

theorem addCopies_isSome (addOk : Nat → Bool) (hok : ∀ i, addOk i = true) (pages : List (Nat → UInt8))
    (cache : Nat → Option CachedPage) (index : Nat) : (addCopies addOk cache index pages).isSome := by
  induction pages generalizing cache index with
  | nil => rfl
  | cons page pages ih =>
    unfold addCopies
    cases cache index with
    | some old => exact ih _ _
    | none =>
      rw [if_pos (hok index)]
      exact ih _ _

end

/-! ## What is stored -/

/-- The `n` bytes at `pos` are in the page cache and in the queued write, and nothing else has changed. -/
structure Stored (data : Nat → UInt8) (inode : WriteInode) (pos n : Nat) (inode' : WriteInode) (pos' : Nat)
    (aw : AsyncWrite) : Prop where
  cached : ∀ j, j < n → shown inode'.cache (pos + j) = some (data j)
  carried : ∀ x, aw.carries x = if pos ≤ x ∧ x < pos + n then some (data (x - pos)) else none
  position : pos' = pos + n
  size : inode'.iSize = max inode.iSize (pos + n)
  rest : ∀ x, x < pos ∨ pos + n ≤ x → shown inode'.cache x = shown inode.cache x

/-- A write that returns a count has stored as much, and no `BUG_ON` is reached. -/
def WriteResult.Stores (data : Nat → UInt8) (inode : WriteInode) (pos : Nat) : WriteResult → Prop
  | .returns n inode' pos' aw => Stored data inode pos n inode' pos' aw
  | .bugOn => False
  | _ => True

def checkedPos (iSize : Nat) (iocb : Kiocb) : Nat := if iocb.append then iSize else iocb.pos

/-- What is left after the checks is whole pages, they are all pinned, and those of them that are in the page cache are
up to date. -/
structure PageWrite (more : Nat) (segs : List UserSeg) (cached : Nat → Option Bool) (pos total : Nat) : Prop where
  posPages : pos % 4096 = 0
  totalPages : total % 4096 = 0
  pinned : ∀ seg, segs.find? (0 < ·.len) = some seg →
    total ≤ seg.len ∧ total + seg.addr % 4096 ≤ (more + 1) * 4096
  uptodate : ∀ i, pos / 4096 ≤ i → i < (pos + total) / 4096 → cached i ≠ some false

section

variable {env : WriteEnv} {mem data : Nat → UInt8} {inode : WriteInode} {segs : List UserSeg} {seg : UserSeg}
  {pos total more iSize limit j : Nat} {cached : Nat → Option Bool} {iocb : Kiocb}

theorem writeEnd_stores {sync wbErr : Option Errno} {r : WriteResult} (h : r.Stores data inode pos) :
    (writeEnd sync wbErr r).Stores data inode pos := by
  cases r with
  | returns n inode' pos' aw =>
    cases sync with
    | some e => trivial
    | none =>
      cases wbErr with
      | some e => trivial
      | none => exact h
  | nothing => cases wbErr <;> trivial
  | fails e => cases wbErr <;> trivial
  | bugOn => exact h
  | oops => trivial

theorem writeEnd_none (r : WriteResult) : writeEnd none none r = r := by
  cases r <;> rfl

/-- The copies that `nfs_file_async_write` makes of pinned bytes. -/
def copiesOf (env : WriteEnv) (mem : Nat → UInt8) (seg : UserSeg) (bytes : Nat) : List (Nat → UInt8) :=
  copyPages env.garbage
    (userVec (fun i j => mem ((seg.addr / 4096 + i) * 4096 + j)) ((bytes + seg.addr % 4096 + 4095) / 4096) 0
      (seg.addr % 4096) bytes)
    ((bytes + 4095) / 4096) 0 0 bytes

/-- The numbers of pages that the `BUG_ON` of `nfs_async_direct_copy` expects. -/
def PagesAgree (offset bytes : Nat) : Prop :=
  (bytes + offset + 4095) / 4096 = (bytes + 4095) / 4096 + if offset = 0 then 0 else 1
deriving Decidable

theorem length_copiesOf (env : WriteEnv) (mem : Nat → UInt8) (seg : UserSeg) (bytes : Nat) :
    (copiesOf env mem seg bytes).length = (bytes + 4095) / 4096 :=
  length_copyPages ..

theorem copiesOf_getD (env : WriteEnv) (mem : Nat → UInt8) (seg : UserSeg) (bytes : Nat) {m : Nat}
    (hm : m < (bytes + 4095) / 4096) (hj : j < 4096) (d : Nat → UInt8) :
    (copiesOf env mem seg bytes).getD m d j =
      if m * 4096 + j < bytes then mem (seg.addr + (m * 4096 + j)) else env.garbage m j := by
  rw [copiesOf, copyPages_getD _ _ _ _ _ _ _ _ _ hm hj, zero_add, zero_add]
  split
  · next hlt =>
    rw [userVec_byte _ _ _ _ _ _ (Nat.mod_lt _ (by decide)) (by omega) hlt]
    congr 1
    omega
  · rfl

theorem asyncDirectCopy_eq (garbage userPages : Nat → Nat → UInt8) (offset bytes : Nat) :
    nfsAsyncDirectCopy garbage userPages offset bytes ((bytes + 4095) / 4096) ((bytes + offset + 4095) / 4096) =
      if PagesAgree offset bytes then
        some (copyPages garbage (userVec userPages ((bytes + offset + 4095) / 4096) 0 offset bytes)
          ((bytes + 4095) / 4096) 0 0 bytes)
      else none := by
  have hiff : (if offset ≠ 0 then (bytes + 4095) / 4096 + 1 ≠ (bytes + offset + 4095) / 4096
      else (bytes + 4095) / 4096 ≠ (bytes + offset + 4095) / 4096) ↔ ¬PagesAgree offset bytes := by
    unfold PagesAgree
    by_cases hoff : offset = 0
    · rw [if_neg (not_not_intro hoff), if_pos hoff]
      omega
    · rw [if_pos hoff, if_neg hoff]
      omega
  unfold nfsAsyncDirectCopy
  by_cases hagree : PagesAgree offset bytes
  · rw [if_pos hagree, if_neg fun h => hiff.mp h hagree]
  · rw [if_neg hagree, if_pos (hiff.mpr hagree)]

theorem fileAsyncWrite_eq (env : WriteEnv) (mem : Nat → UInt8) (inode : WriteInode) (pos total : Nat)
    (hpin : env.pinned = .ok more) (hseg : segs.find? (0 < ·.len) = some seg) {bytes : Nat}
    (hbytes : iovIterGetPagesAlloc seg total (more + 1) = bytes) :
    nfsFileAsyncWrite env mem inode segs pos total =
      if env.awOk ∧ env.vecOk ∧ env.bufsOk then
        if PagesAgree (seg.addr % 4096) bytes then
          match addCopies env.addOk inode.cache (pos / 4096) (copiesOf env mem seg bytes) with
          | none => .oops
          | some cache =>
            .returns total { cache := cache, iSize := max inode.iSize (pos + total) } (pos + total)
              { pos := pos, vec := bufVec (copiesOf env mem seg bytes) bytes, count := min bytes total }
        else .bugOn
      else .fails .enomem := by
  simp only [nfsFileAsyncWrite, hpin, hseg, hbytes, asyncDirectCopy_eq]
  cases env.awOk with
  | false => rfl
  | true =>
    cases env.vecOk with
    | false => rfl
    | true =>
      cases env.bufsOk with
      | false => rfl
      | true =>
        by_cases hagree : PagesAgree (seg.addr % 4096) bytes
        · simp only [hagree, if_true]
          rfl
        · simp only [hagree, if_false]
          rfl

theorem shown_withCopies (cache : Nat → Option CachedPage) (index : Nat) (pages : List (Nat → UInt8)) (x : Nat) :
    shown (withCopies cache index pages) x =
      if index ≤ x / 4096 ∧ x / 4096 < index + pages.length then
        if (cache (x / 4096)).elim true CachedPage.uptodate then
          some (pages.getD (x / 4096 - index) (fun _ => 0) (x % 4096))
        else none
      else shown cache x := by
  by_cases hin : index ≤ x / 4096 ∧ x / 4096 < index + pages.length
  · simp [shown, withCopies, hin]
  · simp [shown, withCopies, hin]

theorem userByte_first (mem : Nat → UInt8) {segs : List UserSeg} (hseg : segs.find? (0 < ·.len) = some seg)
    (hj : j < seg.len) : userByte mem segs j = mem (seg.addr + j) := by
  induction segs with
  | nil => cases hseg
  | cons s segs ih =>
    unfold userByte
    rw [List.find?_cons] at hseg
    by_cases hs : 0 < s.len
    · simp only [hs, decide_true] at hseg
      cases hseg
      rw [if_pos hj]
    simp only [hs, decide_false] at hseg
    have hzero : s.len = 0 := by omega
    rw [hzero]
    exact ih hseg

theorem fileAsyncWrite_stores (env : WriteEnv) (mem : Nat → UInt8) (inode : WriteInode)
    (hpin : env.pinned = .ok more) (hseg : segs.find? (0 < ·.len) = some seg)
    (h : PageWrite more segs (fun i => (inode.cache i).map CachedPage.uptodate) pos total) :
    (nfsFileAsyncWrite env mem inode segs pos total).Stores (userByte mem segs) inode pos := by
  obtain ⟨hlen, hpages⟩ := h.pinned seg hseg
  have hpos := h.posPages
  have htotal := h.totalPages
  have hbytes : iovIterGetPagesAlloc seg total (more + 1) = total := by
    simp only [iovIterGetPagesAlloc]
    rw [min_eq_left hlen, if_pos (by omega)]
  rw [fileAsyncWrite_eq env mem inode pos total hpin hseg hbytes]
  split
  · have hagree : PagesAgree (seg.addr % 4096) total := by
      unfold PagesAgree
      split <;> omega
    rw [if_pos hagree]
    cases hadd : addCopies env.addOk inode.cache (pos / 4096) (copiesOf env mem seg total) with
    | none => trivial
    | some cache =>
      have hcache := addCopies_eq _ _ _ _ hadd
      have hnum := length_copiesOf env mem seg total
      subst hcache
      refine ⟨?_, ?_, rfl, rfl, ?_⟩
      · intro j hj
        rw [shown_withCopies, if_pos (by omega), if_pos, userByte_first mem hseg (by omega),
          copiesOf_getD env mem seg total (by omega) (by omega), if_pos (by omega)]
        · congr 2
          omega
        have hup := h.uptodate ((pos + j) / 4096) (by omega) (by omega)
        cases hc : inode.cache ((pos + j) / 4096) with
        | none => rfl
        | some page =>
          rw [hc] at hup
          exact eq_true_of_ne_false fun hu => hup (congrArg some hu)
      · intro x
        refine (carried_bufVec (fun _ => 0) _ 0 pos total x (by omega)).trans ?_
        by_cases hx : pos ≤ x ∧ x < pos + total
        · rw [if_pos hx, if_pos hx, userByte_first mem hseg (by omega),
            copiesOf_getD env mem seg total (by omega) (by omega), if_pos (by omega), Nat.div_add_mod']
        · rw [if_neg hx, if_neg hx]
      · intro x hx
        rw [shown_withCopies, if_neg (by omega)]
  · trivial

def inodeOf (cached : Nat → Option Bool) (old : Nat → Nat → UInt8) (iSize : Nat) : WriteInode where
  cache i := (cached i).map fun uptodate => { data := old i, uptodate := uptodate }
  iSize := iSize

/-- Nothing fails, and the pages that are allocated are zero. -/
def plainEnv (limit : Nat) (pinned : Except Errno Nat) : WriteEnv where
  early := none
  revalidate := none
  limit := limit
  awOk := true
  pinned := pinned
  vecOk := true
  bufsOk := true
  garbage := fun _ _ => 0
  addOk := fun _ => true
  sync := none
  wbErr := none

theorem iovIterGetPagesAlloc_le (seg : UserSeg) (total pages : Nat) : iovIterGetPagesAlloc seg total pages ≤ total := by
  simp only [iovIterGetPagesAlloc]
  split <;> omega

theorem shown_inodeOf_ones (cached : Nat → Option Bool) (iSize x : Nat) :
    shown (inodeOf cached (fun _ _ => 1) iSize).cache x ≠ some 0 := by
  simp only [shown, inodeOf]
  cases cached (x / 4096) with
  | none => nofun
  | some uptodate =>
    cases uptodate with
    | false => nofun
    | true =>
      show some (1 : UInt8) ≠ some 0
      decide

/-- Copies of zeros over ones that show where they should, and nowhere else, begin and end with a page. -/
theorem pages_of_shown {pages : List (Nat → UInt8)} (htotal : 0 < total) (hnum : pages.length = (total + 4095) / 4096)
    (hzero : ∀ m j, m < pages.length → j < 4096 → pages.getD m (fun _ => 0) j = 0) (hcached : ∀ j, j < total →
      shown (withCopies (inodeOf cached (fun _ _ => 1) iSize).cache (pos / 4096) pages) (pos + j) = some (data j))
    (hrest : ∀ x, x < pos ∨ pos + total ≤ x →
      shown (withCopies (inodeOf cached (fun _ _ => 1) iSize).cache (pos / 4096) pages) x =
        shown (inodeOf cached (fun _ _ => 1) iSize).cache x) :
    pos % 4096 = 0 ∧ total % 4096 = 0 ∧
      ∀ i, pos / 4096 ≤ i → i < (pos + total) / 4096 → cached i ≠ some false := by
  have hup (x : Nat) (hx : pos ≤ x ∧ x < pos + total) (hin : x / 4096 < pos / 4096 + pages.length) :
      ((inodeOf cached (fun _ _ => 1) iSize).cache (x / 4096)).elim true CachedPage.uptodate = true := by
    have hshow := hcached (x - pos) (by omega)
    rw [Nat.add_sub_cancel' hx.1, shown_withCopies, if_pos ⟨by omega, hin⟩] at hshow
    by_contra hne
    rw [if_neg hne] at hshow
    cases hshow
  -- a page with bytes of the write shows nothing but zeros afterwards
  have hsame (x x' : Nat) (hx : pos ≤ x ∧ x < pos + total) (hpage : x' / 4096 = x / 4096)
      (hin : x / 4096 < pos / 4096 + pages.length) : ¬(x' < pos ∨ pos + total ≤ x') := by
    intro hout
    have hshow := hrest x' hout
    rw [shown_withCopies, hpage, if_pos ⟨by omega, hin⟩, if_pos (hup x hx hin),
      hzero _ _ (by omega) (by omega)] at hshow
    exact shown_inodeOf_ones cached iSize x' hshow.symm
  have hpos : pos % 4096 = 0 := by
    by_contra hne
    exact hsame pos (pos / 4096 * 4096) (by omega) (by omega) (by omega) (by omega)
  refine ⟨hpos, ?_, ?_⟩
  · by_contra hne
    exact hsame (pos + total - 1) (pos + total) (by omega) (by omega) (by omega) (by omega)
  · intro i hge hlt hfalse
    have hpage := hup (i * 4096) (by omega) (by omega)
    rw [Nat.mul_div_cancel i (by decide)] at hpage
    simp only [inodeOf, hfalse] at hpage
    cases hpage

/-- A write of zeros over ones that is stored as it should be is of whole pages, all pinned. -/
theorem pageWrite_of_stores (limit iSize : Nat) (cached : Nat → Option Bool) (htotal : 0 < total)
    (hseg : segs.find? (0 < ·.len) = some seg)
    (h : (nfsFileAsyncWrite (plainEnv limit (.ok more)) (fun _ => 0) (inodeOf cached (fun _ _ => 1) iSize) segs pos
      total).Stores (userByte (fun _ => 0) segs) (inodeOf cached (fun _ _ => 1) iSize) pos) :
    PageWrite more segs cached pos total := by
  obtain ⟨bytes, hbytes⟩ : ∃ bytes, iovIterGetPagesAlloc seg total (more + 1) = bytes := ⟨_, rfl⟩
  set env := plainEnv limit (.ok more)
  rw [fileAsyncWrite_eq env _ _ pos total rfl hseg hbytes, if_pos ⟨rfl, rfl, rfl⟩] at h
  by_cases hagree : PagesAgree (seg.addr % 4096) bytes
  swap
  · rw [if_neg hagree] at h
    exact h.elim
  rw [if_pos hagree] at h
  obtain ⟨cache, hadd⟩ := Option.isSome_iff_exists.mp
    (addCopies_isSome env.addOk (fun _ => rfl)
      (copiesOf env (fun _ => 0) seg bytes) (inodeOf cached (fun _ _ => 1) iSize).cache
      (pos / 4096))
  rw [hadd] at h
  have hcache := addCopies_eq _ _ _ _ hadd
  subst hcache
  have hnum := length_copiesOf env (fun _ => 0) seg bytes
  have hle := hbytes ▸ iovIterGetPagesAlloc_le seg total (more + 1)
  have hall : bytes = total := by
    by_contra hne
    have hnone := carried_bufVec (fun _ => 0) (copiesOf env (fun _ => 0) seg bytes) 0 pos bytes
      (pos + bytes) (by omega)
    have hsome := h.carried (pos + bytes)
    rw [if_pos (by omega)] at hsome
    rw [if_neg (by omega)] at hnone
    cases hsome.symm.trans hnone
  subst hall
  obtain ⟨hpos, hlen, hup⟩ := pages_of_shown htotal hnum (fun m j hm hj => by
    rw [copiesOf_getD _ _ seg bytes (by omega) hj]
    split <;> rfl) h.cached h.rest
  refine ⟨hpos, hlen, fun seg' hseg' => ?_, hup⟩
  cases hseg.symm.trans hseg'
  simp only [iovIterGetPagesAlloc] at hbytes
  split at hbytes <;> omega

theorem genericWriteChecks_eq {count : Nat} (hcount : 0 < count) (hlimit : checkedPos iSize iocb < limit) :
    genericWriteChecks limit iSize iocb count =
      .ok (checkedPos iSize iocb, min count (limit - checkedPos iSize iocb)) := by
  unfold checkedPos at hlimit ⊢
  simp only [genericWriteChecks]
  rw [if_neg (ne_of_gt hcount), if_neg (not_le.mpr hlimit)]

theorem pos_of_internalBuffered {count pos : Nat} (h : internalBuffered true count pos = true) : 0 < count := by
  simp only [internalBuffered, Bool.and_eq_true, decide_eq_true_eq] at h
  omega

theorem checkedPos_checked (iSize : Nat) (iocb : Kiocb) :
    checkedPos iSize { iocb with pos := checkedPos iSize iocb } = checkedPos iSize iocb := by
  unfold checkedPos
  split <;> rfl

theorem exists_first_seg {segs : List UserSeg} (hcount : 0 < iovCount segs) :
    ∃ seg, segs.find? (0 < ·.len) = some seg := by
  obtain ⟨n, hn, hne⟩ := List.exists_mem_ne_zero_of_sum_ne_zero (Nat.ne_of_gt hcount)
  obtain ⟨seg, hseg, rfl⟩ := List.mem_map.1 hn
  rw [← Option.isSome_iff_exists, List.find?_isSome]
  exact ⟨seg, hseg, decide_eq_true (Nat.pos_of_ne_zero hne)⟩

theorem fileWrite_internal (perform : Nat → Nat → WriteResult) (env : WriteEnv) (mem : Nat → UInt8)
    (inode : WriteInode) (iocb : Kiocb) (hpath : internalBuffered true (iovCount segs) iocb.pos = true)
    (hlimit : checkedPos inode.iSize iocb < env.limit) :
    (∃ e, nfsFileWrite perform true env mem inode iocb segs = .fails e ∧
      (env.early ≠ none ∨ env.revalidate ≠ none)) ∨
    nfsFileWrite perform true env mem inode iocb segs =
      writeEnd env.sync env.wbErr
        (nfsFileAsyncWrite env mem inode segs (checkedPos inode.iSize iocb)
          (min (iovCount segs) (env.limit - checkedPos inode.iSize iocb))) := by
  have hcount := pos_of_internalBuffered hpath
  obtain ⟨total, htotal⟩ : ∃ total, min (iovCount segs) (env.limit - checkedPos inode.iSize iocb) = total + 1 :=
    Nat.exists_eq_add_one.mpr (by omega)
  have hagain := checkedPos_checked inode.iSize iocb
  have hfirst := genericWriteChecks_eq hcount hlimit
  have hsecond := genericWriteChecks_eq (Nat.succ_pos total) (hagain.symm ▸ hlimit)
  rw [hagain, min_eq_left (by omega)] at hsecond
  rw [htotal] at hfirst ⊢
  cases hearly : env.early with
  | some e => exact .inl ⟨e, by simp only [nfsFileWrite, hearly], .inl (Option.some_ne_none e)⟩
  | none =>
    cases hreval : if iocb.append || decide (inode.iSize < iocb.pos) then env.revalidate else none with
    | some e =>
      refine .inl ⟨e, by simp only [nfsFileWrite, hearly, hreval], .inr fun hnone => ?_⟩
      rw [hnone, ite_self] at hreval
      cases hreval
    | none => exact .inr (by simp only [nfsFileWrite, hearly, hreval, hfirst, hpath, if_true, hsecond])

theorem pageWrite_of_write (perform : Nat → Nat → WriteResult)
    (hpath : internalBuffered true (iovCount segs) iocb.pos = true) (hlimit : checkedPos iSize iocb < limit)
    (h : (nfsFileWrite perform true (plainEnv limit (.ok more)) (fun _ => 0) (inodeOf cached (fun _ _ => 1) iSize) iocb
      segs).Stores (userByte (fun _ => 0) segs) (inodeOf cached (fun _ _ => 1) iSize) (checkedPos iSize iocb)) :
    PageWrite more segs cached (checkedPos iSize iocb) (min (iovCount segs) (limit - checkedPos iSize iocb)) := by
  have hcount := pos_of_internalBuffered hpath
  obtain ⟨seg, hseg⟩ := exists_first_seg hcount
  obtain ⟨e, -, hne | hne⟩ | heq :=
    fileWrite_internal perform (plainEnv limit (.ok more)) (fun _ => 0) (inodeOf cached (fun _ _ => 1) iSize) iocb
      hpath hlimit
  · exact absurd rfl hne
  · exact absurd rfl hne
  · rw [heq.trans (writeEnd_none _)] at h
    exact pageWrite_of_stores limit iSize cached (by omega) hseg h

theorem fileWrite_beyond (perform : Nat → Nat → WriteResult) (env : WriteEnv) (mem : Nat → UInt8)
    (inode : WriteInode) (iocb : Kiocb) (hcount : 0 < iovCount segs)
    (hlimit : env.limit ≤ checkedPos inode.iSize iocb) :
    ∃ e, nfsFileWrite perform true env mem inode iocb segs = .fails e := by
  have hcheck : genericWriteChecks env.limit inode.iSize iocb (iovCount segs) = .error (.other 27) := by
    unfold checkedPos at hlimit
    simp only [genericWriteChecks]
    rw [if_neg (ne_of_gt hcount), if_pos hlimit]
  simp only [nfsFileWrite, hcheck]
  split
  · exact ⟨_, rfl⟩
  split
  · exact ⟨_, rfl⟩
  cases env.wbErr with
  | none => exact ⟨_, rfl⟩
  | some e => exact ⟨_, rfl⟩

end

/-- **What the internal path stores.**  Whatever the caller's data, the contents of the page cache and of fresh pages and
the outcome of allocations: a write stores what it says and reaches no `BUG_ON` exactly if what is left of it after
the checks begins and ends with a page, lies in one segment that is pinned as a whole, and no page that it has
in the cache is out of date. -/
theorem nfsFileWrite_stores_iff (perform : Nat → Nat → WriteResult) (iocb : Kiocb) (segs : List UserSeg)
    (limit iSize : Nat) (pinned : Except Errno Nat) (cached : Nat → Option Bool)
    (hpath : internalBuffered true (iovCount segs) iocb.pos = true) :
    (∀ mem old env, env.limit = limit → env.pinned = pinned →
      (nfsFileWrite perform true env mem (inodeOf cached old iSize) iocb segs).Stores (userByte mem segs)
        (inodeOf cached old iSize) (checkedPos iSize iocb)) ↔
      (checkedPos iSize iocb < limit → ∀ more, pinned = .ok more →
        PageWrite more segs cached (checkedPos iSize iocb)
          (min (iovCount segs) (limit - checkedPos iSize iocb))) := by
  have hcount := pos_of_internalBuffered hpath
  obtain ⟨seg, hseg⟩ := exists_first_seg hcount
  constructor
  · intro h hlimit more hpin
    subst hpin
    exact pageWrite_of_write perform hpath hlimit (h (fun _ => 0) (fun _ _ => 1) (plainEnv limit (.ok more)) rfl rfl)
  · intro h mem old env hlim hpin
    subst hlim
    rcases lt_or_ge (checkedPos iSize iocb) env.limit with hlimit | hlimit
    · obtain ⟨e, heq, -⟩ | heq := fileWrite_internal perform env mem (inodeOf cached old iSize) iocb hpath hlimit
      · rw [heq]
        trivial
      rw [heq]
      refine writeEnd_stores ?_
      cases hp : env.pinned with
      | error e =>
        unfold nfsFileAsyncWrite
        simp only [hp]
        split <;> trivial
      | ok more =>
        refine fileAsyncWrite_stores env mem _ hp hseg ?_
        have hcached : (fun i => ((inodeOf cached old iSize).cache i).map CachedPage.uptodate) = cached := by
          funext i
          simp only [inodeOf, Option.map_map]
          exact Option.map_id'
        rw [hcached]
        exact h hlimit more (hpin.symm.trans hp)
    · obtain ⟨e, heq⟩ := fileWrite_beyond perform env mem (inodeOf cached old iSize) iocb hcount hlimit
      rw [heq]
      trivial

/-- Of 257 pages of memory from the middle of a page on, in one segment. -/
theorem nfsFileWrite_stores_one_segment :
    internalBuffered true (iovCount [⟨2048, 1052672⟩]) 4096 = true ∧
      ∀ mem old env, env.limit = 2 ^ 40 → env.pinned = .ok 257 →
        (nfsFileWrite (fun _ _ => .nothing) true env mem (inodeOf (fun _ => some true) old 0) ⟨4096, false⟩
          [⟨2048, 1052672⟩]).Stores (userByte mem [⟨2048, 1052672⟩]) (inodeOf (fun _ => some true) old 0) 4096 := by
  refine ⟨by decide, (nfsFileWrite_stores_iff (fun _ _ => .nothing) ⟨4096, false⟩ [⟨2048, 1052672⟩] (2 ^ 40) 0 (.ok 257)
    (fun _ => some true) (by decide)).mpr fun _ more hmore => ?_⟩
  cases hmore
  refine ⟨rfl, rfl, fun seg hseg => ?_, nofun⟩
  cases hseg
  decide

/-- **Writes that are not stored.**  A write from two segments of which the first begins and ends within a page reaches
the `BUG_ON`; one from two segments of whole pages returns the length of both and queues a write of the first; and
one with `O_APPEND` to a file of 100 bytes is put at the start of its first page. -/
theorem nfsFileWrite_not_stored :
    nfsFileWrite (fun _ _ => .nothing) true (plainEnv (2 ^ 40) (.ok 300)) (fun _ => 0)
        (inodeOf (fun _ => none) (fun _ _ => 0) 0) ⟨0, false⟩ [⟨100, 100⟩, ⟨8192, 1052572⟩] = .bugOn ∧
      (∃ inode' pos' aw,
        nfsFileWrite (fun _ _ => .nothing) true (plainEnv (2 ^ 40) (.ok 300)) (fun _ => 0)
            (inodeOf (fun _ => none) (fun _ _ => 0) 0) ⟨0, false⟩ [⟨0, 4096⟩, ⟨8192, 1048576⟩] =
          .returns 1052672 inode' pos' aw ∧ aw.carries 4096 = none) ∧
      ¬(nfsFileWrite (fun _ _ => .nothing) true (plainEnv (2 ^ 40) (.ok 300)) (fun _ => 0)
        (inodeOf (fun _ => some true) (fun _ _ => 1) 100) ⟨0, true⟩ [⟨0, 1052672⟩]).Stores
          (userByte (fun _ => 0) [⟨0, 1052672⟩]) (inodeOf (fun _ => some true) (fun _ _ => 1) 100)
          (checkedPos 100 ⟨0, true⟩) := by
  refine ⟨rfl, ⟨_, _, _, rfl, rfl⟩, mt (pageWrite_of_write _ (by decide) (by decide)) fun hpages => ?_⟩
  exact absurd hpages.posPages (by decide)

end Vastnfs.Nfs
