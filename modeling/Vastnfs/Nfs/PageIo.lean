import Mathlib.Algebra.Order.Ring.Int
import Mathlib.Data.List.Chain
import Mathlib.Algebra.BigOperators.Group.List.Basic

/-!
# Coalescing of page I/O

A descriptor with one mirror and the default operations. Requests are put on the list of the mirror as
long as they continue what is there and fit, split where they fit in part, and the list goes out in a
header whenever the next request cannot join it.

* `pageio_partitions`: the headers carry the bytes of the requests, each byte once and in order, for
  requests that lie in their page; every header is a contiguous range, within the block size, and uses
  the pages it announces; and the loop that adds a request ends.
* `pageio_refused`: a request without bytes, and two open contexts in one header.
-/

namespace Vastnfs.Nfs

open List Option

/-! ## Requests, headers and the descriptor -/

def pageSize : Nat := 4096

/-- What `nfs_match_open_context` looks at, beside the context itself. -/
structure NfsOpenContext where
  (id cred state : Nat)
deriving DecidableEq

def nfsMatchOpenContext (ctx1 ctx2 : NfsOpenContext) : Bool := ctx1.cred = ctx2.cred && ctx1.state = ctx2.state

structure NfsPage where
  /-- The head of the page group: the request a subrequest was split from. -/
  head : Nat
  ctx : NfsOpenContext
  (lockowner page index offset pgbase bytes : Nat)
  /-- `wb_nio`: how often it was sent. -/
  nio : Nat
deriving DecidableEq

def NfsPage.reqOffset (req : NfsPage) : Nat := req.index * pageSize + req.offset

/-- `nfs_create_subreq` at the start of the request. -/
def NfsPage.subreq (req : NfsPage) (size : Nat) : NfsPage := { req with bytes := size }

/-- What is left of a request when its first bytes are on the list. -/
def NfsPage.advance (req : NfsPage) (size : Nat) : NfsPage :=
  { req with pgbase := req.pgbase + size, bytes := req.bytes - size, offset := req.offset + size }

/-- `struct nfs_pgio_header`, as `nfs_generic_pgio` fills it. -/
structure NfsPgioHeader where
  reqs : List NfsPage
  /-- `args.offset`, `args.count` and `args.pgbase`. -/
  (offset count pgbase : Nat)
  npages : Nat
  pageused : Nat
deriving DecidableEq

inductive PgError
  | enomem | einval | eio | etimedout
  /-- What `nfs_initiate_pgio` returns. -/
  | initiate
deriving DecidableEq

/-- `struct nfs_pageio_descriptor` and its mirror. -/
structure NfsPageioDescriptor where
  list : List NfsPage
  (bytesWritten count bsize base : Nat)
  (recoalesce moreio : Bool)
  error : Option PgError
  maxretrans : Nat
  softerr : Bool
  headers : List NfsPgioHeader
  /-- Counts the questions to the environment. -/
  clock : Nat
deriving DecidableEq

def nfsPageioInit (bsize maxretrans : Nat) (softerr : Bool) : NfsPageioDescriptor where
  list := []
  bytesWritten := 0
  count := 0
  bsize := bsize
  base := 0
  recoalesce := false
  moreio := false
  error := none
  maxretrans := maxretrans
  softerr := softerr
  headers := []
  clock := 0

/-- What the descriptor does not decide: whether there are locks on the file, and which allocations
and calls fail, each at any time. -/
structure PageioEnv where
  (locked subreqFails headerFails pagevecFails initiateFails : Nat → Bool)

/-! ## Sending a header -/

def nfsPageArrayLen (base len : Nat) : Nat := (len + base + pageSize - 1) / pageSize

/-- The loop of `nfs_generic_pgio`: the pages used, the requests moved to the header, and those left. -/
def usePages (pagecount : Nat) : List NfsPage → Option Nat → Nat → Nat × List NfsPage × List NfsPage
  | [], _, used => (used, [], [])
  | req :: l, last, used =>
    if last = some req.page then
      let r := usePages pagecount l last used
      (r.1, req :: r.2.1, r.2.2)
    else if used + 1 > pagecount then (used + 1, [req], l)
    else
      let r := usePages pagecount l (some req.page) (used + 1)
      (r.1, req :: r.2.1, r.2.2)

/-- Requests with no page array of their own (`NFS_PAGEVEC_SIZE`). -/
def pagevecSize : Nat := 8

def nfsGenericPgio (env : PageioEnv) (d : NfsPageioDescriptor) (first : NfsPage) : NfsPageioDescriptor × Option NfsPgioHeader :=
  let pagecount := nfsPageArrayLen d.base d.count
  if pagecount > pagevecSize ∧ env.pagevecFails d.clock then ({ d with error := some .enomem }, none)
  else
    let r := usePages pagecount d.list none 0
    if r.1 ≠ pagecount then ({ d with list := r.2.2, error := some .einval }, none)
    else
      ({ d with list := r.2.2 },
        some { reqs := r.2.1, offset := first.reqOffset, count := d.count, pgbase := first.pgbase,
               npages := pagecount, pageused := r.1 })

def nfsGenericPgPgios (env : PageioEnv) (d : NfsPageioDescriptor) (first : NfsPage) : NfsPageioDescriptor :=
  if env.headerFails d.clock then { d with error := some .enomem }
  else
    match nfsGenericPgio env d first with
    | (d, none) => d
    | (d, some hdr) =>
      if env.initiateFails d.clock then { d with error := some .initiate }
      else { d with headers := d.headers ++ [hdr] }

def nfsPageioDoio (env : PageioEnv) (d : NfsPageioDescriptor) : NfsPageioDescriptor :=
  match d.list with
  | [] => d
  | first :: _ =>
    let d := nfsGenericPgPgios env { d with clock := d.clock + 1 } first
    if d.list = [] then { d with bytesWritten := d.bytesWritten + d.count } else d

/-! ## Adding a request -/

def nfsGenericPgTest (d : NfsPageioDescriptor) (req : NfsPage) : Nat :=
  if d.count > d.bsize then 0
  -- the page array of the header must fit a page
  else if (d.count + req.bytes) / pageSize * 8 > pageSize then 0
  else min (d.bsize - d.count) req.bytes

/-- The checks of `nfs_coalesce_size` against the last request of the list. -/
def follows (locked : Bool) (prev req : NfsPage) : Bool :=
  nfsMatchOpenContext req.ctx prev.ctx && !(locked && req.lockowner ≠ prev.lockowner) &&
    req.reqOffset = prev.reqOffset + prev.bytes &&
      if req.page = prev.page then req.pgbase = prev.pgbase + prev.bytes
      else req.pgbase = 0 && prev.pgbase + prev.bytes = pageSize

def nfsCoalesceSize (locked : Bool) (prev : Option NfsPage) (req : NfsPage) (d : NfsPageioDescriptor) : Nat :=
  match prev with
  | none => nfsGenericPgTest d req
  | some prev => if follows locked prev req then nfsGenericPgTest d req else 0

def startList (d : NfsPageioDescriptor) (req : NfsPage) : NfsPageioDescriptor :=
  match d.list with
  | [] => { d with base := req.pgbase, count := 0, recoalesce := false }
  | _ :: _ => d

def nfsPageioDoAddRequest (env : PageioEnv) (d : NfsPageioDescriptor) (req : NfsPage) : NfsPageioDescriptor × Nat :=
  if d.list = [] ∧ d.error ≠ none then (d, 0)
  else
    let d := startList d req
    if d.maxretrans ≠ 0 ∧ req.nio > d.maxretrans then
      ({ d with error := some (if d.softerr then .etimedout else .eio) }, 0)
    else
      let size := nfsCoalesceSize (env.locked d.clock) d.list.getLast? req d
      let d := { d with clock := d.clock + 1 }
      if size < req.bytes then (d, size)
      else ({ d with list := d.list ++ [req], count := d.count + req.bytes }, req.bytes)

/-- One turn of the loop of `__nfs_pageio_add_request`: the request is on the list, it failed, or the
loop goes on with what is left of it and a subrequest of `sub` bytes. -/
inductive AddOutcome
  | added (d : NfsPageioDescriptor)
  | failed (d : NfsPageioDescriptor) (req : NfsPage)
  | again (d : NfsPageioDescriptor) (req : NfsPage) (sub : Option Nat)

/-- The request the turn is about: the subrequest, or the request itself. -/
def NfsPage.part (req : NfsPage) : Option Nat → NfsPage
  | none => req
  | some size => req.subreq size

def addTurn (env : PageioEnv) (d : NfsPageioDescriptor) (req : NfsPage) (sub : Option Nat) : AddOutcome :=
  let r := nfsPageioDoAddRequest env d (req.part sub)
  if r.2 = (req.part sub).bytes then
    match sub with
    | none => .added r.1
    | some size => .again r.1 (req.advance size) none
  -- a subrequest that could not join is dropped here, and the request tried again
  else if r.2 = 0 then
    let d := nfsPageioDoio env { r.1 with moreio := true }
    if d.error ≠ none ∨ d.recoalesce then .failed d req else .again d req none
  else if env.subreqFails r.1.clock then .failed { r.1 with error := some .enomem } req
  else .again r.1 req (some r.2)

/-- `__nfs_pageio_add_request`; `none` if the loop takes more than `fuel` turns. -/
def pageioAddRequest (env : PageioEnv) :
    Nat → NfsPageioDescriptor → NfsPage → Option Nat → Option (NfsPageioDescriptor × NfsPage × Bool)
  | 0, _, _, _ => none
  | fuel + 1, d, req, sub =>
    match addTurn env d req sub with
    | .added d => some (d, req, true)
    | .failed d req => some (d, req, false)
    | .again d req sub => pageioAddRequest env fuel d req sub

/-- The inner loop of `nfs_do_recoalesce`: what is left of `head`, and whether to go on. -/
def recoalesceList (env : PageioEnv) (fuel : Nat) (d : NfsPageioDescriptor) :
    List NfsPage → Option (NfsPageioDescriptor × List NfsPage × Bool)
  | [] => some (d, [], true)
  | req :: head =>
    match pageioAddRequest env fuel d req none with
    | none => none
    | some (d, _, true) => recoalesceList env fuel d head
    | some (d, req, false) =>
      if d.error ≠ none then some ({ d with list := d.list ++ req :: head, recoalesce := true }, [], false)
      else some (d, req :: head, true)

def nfsDoRecoalesce (env : PageioEnv) (fuel : Nat) :
    Nat → NfsPageioDescriptor → List NfsPage → Option (NfsPageioDescriptor × Bool)
  | 0, _, _ => none
  | rounds + 1, d, head =>
    match recoalesceList env fuel { d with list := [], recoalesce := false } (d.list ++ head) with
    | none => none
    | some (d, _, false) => some (d, false)
    | some (d, head, true) => if d.recoalesce then nfsDoRecoalesce env fuel rounds d head else some (d, true)

def nfsPageioAddRequestMirror (env : PageioEnv) (fuel : Nat) :
    Nat → NfsPageioDescriptor → NfsPage → Option (NfsPageioDescriptor × Bool)
  | 0, _, _ => none
  | rounds + 1, d, req =>
    match pageioAddRequest env fuel d req none with
    | none => none
    | some (d, _, true) => some (d, true)
    | some (d, req, false) =>
      if d.error ≠ none then some (d, false)
      else
        match nfsDoRecoalesce env fuel fuel d [] with
        | none => none
        | some (d, true) => nfsPageioAddRequestMirror env fuel rounds d req
        | some (d, false) => some (d, false)

/-- The requests on the list go back to their owner. -/
def nfsPageioErrorCleanup (d : NfsPageioDescriptor) : NfsPageioDescriptor :=
  if d.error = none then d else { d with list := [] }

def nfsPageioAddRequest (env : PageioEnv) (fuel : Nat) (d : NfsPageioDescriptor) (req : NfsPage) :
    Option NfsPageioDescriptor :=
  if d.error ≠ none then some (nfsPageioErrorCleanup d)
  else
    match nfsPageioAddRequestMirror env fuel fuel d req with
    | none => none
    | some (d, true) => some d
    | some (d, false) => some (nfsPageioErrorCleanup d)

def nfsPageioCompleteMirror (env : PageioEnv) (fuel : Nat) : Nat → NfsPageioDescriptor → Option NfsPageioDescriptor
  | 0, _ => none
  | rounds + 1, d =>
    let d := nfsPageioDoio env d
    if d.error ≠ none ∨ ¬ d.recoalesce then some d
    else
      match nfsDoRecoalesce env fuel fuel d [] with
      | none => none
      | some (d, true) => nfsPageioCompleteMirror env fuel rounds d
      | some (d, false) => some d

def nfsPageioComplete (env : PageioEnv) (fuel : Nat) (d : NfsPageioDescriptor) : Option NfsPageioDescriptor :=
  (nfsPageioCompleteMirror env fuel fuel d).map nfsPageioErrorCleanup

def pageioRun (env : PageioEnv) (fuel : Nat) (d : NfsPageioDescriptor) (reqs : List NfsPage) : Option NfsPageioDescriptor :=
  (reqs.foldlM (nfsPageioAddRequest env fuel) d).bind (nfsPageioComplete env fuel)

/-! ## Bytes -/

/-- A byte of a request: its place in the file and in the page. -/
structure PageByte where
  (head pos page pgpos : Nat)
deriving DecidableEq

def NfsPage.data (req : NfsPage) : List PageByte :=
  (List.range req.bytes).map fun k => ⟨req.head, req.reqOffset + k, req.page, req.pgbase + k⟩

def NfsPgioHeader.data (hdr : NfsPgioHeader) : List PageByte := hdr.reqs.flatMap NfsPage.data

def InPage (req : NfsPage) : Prop := 0 < req.bytes ∧ req.pgbase + req.bytes ≤ pageSize

/-- The request continues the one before it. -/
structure Continues (prev req : NfsPage) : Prop where
  ctx : nfsMatchOpenContext req.ctx prev.ctx = true
  offset : req.reqOffset = prev.reqOffset + prev.bytes
  page : req.page = prev.page ∧ req.pgbase = prev.pgbase + prev.bytes ∨
    req.page ≠ prev.page ∧ req.pgbase = 0 ∧ prev.pgbase + prev.bytes = pageSize

/-- A header as it should be: one contiguous range of at most `bsize` bytes, open contexts that match,
and as many pages as announced. -/
structure HeaderOk (bsize : Nat) (hdr : NfsPgioHeader) : Prop where
  range : hdr.data.map PageByte.pos = List.range' hdr.offset hdr.count
  size : hdr.count ≤ bsize
  ctx : ∀ a ∈ hdr.reqs, ∀ b ∈ hdr.reqs, nfsMatchOpenContext a.ctx b.ctx = true
  pages : hdr.pageused = hdr.npages

section

variable {req prev p : NfsPage} {l rest : List NfsPage} {size : Nat} {locked : Bool}

theorem InPage.subreq (h : InPage req) (hpos : 0 < size) (hlt : size < req.bytes) : InPage (req.subreq size) := by
  obtain ⟨-, hfit⟩ := h
  unfold InPage NfsPage.subreq
  dsimp only
  omega

theorem InPage.advance (h : InPage req) (hlt : size < req.bytes) : InPage (req.advance size) := by
  obtain ⟨-, hfit⟩ := h
  unfold InPage NfsPage.advance
  dsimp only
  omega

theorem data_split (h : size ≤ req.bytes) : (req.subreq size).data ++ (req.advance size).data = req.data := by
  have hbytes : req.bytes = size + (req.bytes - size) := by omega
  unfold NfsPage.data
  conv_rhs => rw [hbytes, List.range_add, List.map_append, List.map_map]
  congr 1
  apply List.map_congr_left
  intro k _
  simp [NfsPage.advance, NfsPage.reqOffset, add_assoc]

theorem continues_of_follows (h : follows locked prev req = true) : Continues prev req := by
  unfold follows at h
  simp only [Bool.and_eq_true, decide_eq_true_eq] at h
  obtain ⟨⟨⟨hctx, -⟩, hoffset⟩, hpage⟩ := h
  refine ⟨hctx, hoffset, ?_⟩
  split_ifs at hpage with heq
  · exact .inl ⟨heq, by simpa using hpage⟩
  · exact .inr ⟨heq, by simpa using hpage⟩

theorem match_iff {a b : NfsOpenContext} : nfsMatchOpenContext a b = true ↔ a.cred = b.cred ∧ a.state = b.state := by
  simp [nfsMatchOpenContext]

theorem chain_ctx (h : (p :: rest).IsChain Continues) : ∀ a ∈ p :: rest, nfsMatchOpenContext a.ctx p.ctx = true := by
  induction rest generalizing p with
  | nil =>
    intro a ha
    rw [mem_singleton.1 ha]
    exact match_iff.2 ⟨rfl, rfl⟩
  | cons r rest ih =>
    rw [isChain_cons_cons] at h
    intro a ha
    rcases mem_cons.1 ha with rfl | ha
    · exact match_iff.2 ⟨rfl, rfl⟩
    have hr := match_iff.1 (ih h.2 a ha)
    have hp := match_iff.1 h.1.ctx
    exact match_iff.2 ⟨hr.1.trans hp.1, hr.2.trans hp.2⟩

theorem data_pos : req.data.map PageByte.pos = List.range' req.reqOffset req.bytes := by
  unfold NfsPage.data
  rw [List.map_map, List.range'_eq_map_range]
  rfl

variable (h : (p :: rest).IsChain Continues)
include h

theorem chain_range :
    ((p :: rest).flatMap NfsPage.data).map PageByte.pos =
      range' p.reqOffset ((p :: rest).map NfsPage.bytes).sum := by
  induction rest generalizing p with
  | nil =>
    rw [flatMap_singleton, data_pos, map_singleton, sum_singleton]
  | cons r rest ih =>
    rw [isChain_cons_cons] at h
    rw [flatMap_cons, map_append, ih h.2, data_pos, h.1.offset, range'_append_1]
    rfl

theorem usePages_chain {k pagecount : Nat} (hin : ∀ r ∈ p :: rest, InPage r)
    (hcount : pagecount =
      (k * pageSize + p.pgbase + p.bytes + (rest.map NfsPage.bytes).sum + pageSize - 1) / pageSize) :
    usePages pagecount rest (some p.page) (k + 1) = (pagecount, rest, []) := by
  induction rest generalizing p k with
  | nil =>
    obtain ⟨hpos, hfit⟩ := hin p mem_cons_self
    simp only [usePages, map_nil, sum_nil, pageSize, Prod.mk.injEq, and_true] at hcount hfit ⊢
    omega
  | cons r rest ih =>
    rw [isChain_cons_cons] at h
    obtain ⟨hrpos, hrfit⟩ := hin r (mem_cons_of_mem p mem_cons_self)
    have hrest : ∀ t ∈ r :: rest, InPage t := fun t ht => hin t (mem_cons_of_mem p ht)
    rw [map_cons, sum_cons] at hcount
    unfold usePages
    rcases h.1.page with ⟨hpage, hbase⟩ | ⟨hpage, hbase, hend⟩
    · have hr : usePages pagecount rest (some r.page) (k + 1) = (pagecount, rest, []) := by
        apply ih h.2 hrest
        rw [hcount, hbase]
        simp [add_assoc]
      rw [if_pos (congrArg some hpage.symm), ← hpage, hr]
    have hnext : k * pageSize + p.pgbase + p.bytes = (k + 1) * pageSize := by
      rw [add_assoc, hend, Nat.succ_mul]
    rw [hnext] at hcount
    have hmore : ¬ k + 1 + 1 > pagecount := by
      simp only [pageSize] at hcount ⊢
      omega
    have hr : usePages pagecount rest (some r.page) (k + 1 + 1) = (pagecount, rest, []) := by
      apply ih h.2 hrest
      rw [hcount, hbase]
      simp [add_assoc]
    rw [if_neg fun heq => hpage (Option.some.inj heq).symm, if_neg hmore, hr]

end

/-! ## The descriptor -/

/-- The list of the mirror is a chain, and the count and base are its own. -/
structure ListOk (d : NfsPageioDescriptor) : Prop where
  chain : d.list.IsChain Continues
  inPage : ∀ r ∈ d.list, InPage r
  base : ∀ r ∈ d.list.head?, r.pgbase = d.base
  count : d.list ≠ [] → d.count = (d.list.map NfsPage.bytes).sum
  size : d.count ≤ d.bsize

/-- What holds of the descriptor when the bytes `carried` have been given to it. -/
structure PageioInv (bsize : Nat) (d : NfsPageioDescriptor) (carried : List PageByte) : Prop where
  bsizeEq : d.bsize = bsize
  bsizePos : 0 < bsize
  /-- The page count was never wrong. -/
  noEinval : d.error ≠ some .einval
  headersOk : ∀ hdr ∈ d.headers, HeaderOk bsize hdr
  listOk : ListOk d
  carriedEq : d.error = none → d.headers.flatMap NfsPgioHeader.data ++ d.list.flatMap NfsPage.data = carried
  recoalesceError : d.recoalesce = true → d.error ≠ none

section

variable {env : PageioEnv} {bsize : Nat} {d : NfsPageioDescriptor} {req first : NfsPage} {c : List PageByte}
  {rest : List NfsPage} {e : PgError}

section

variable (h : PageioInv bsize d c)
include h

theorem PageioInv.afterError (herr : d.error ≠ none) (c' : List PageByte) : PageioInv bsize d c' :=
  { h with carriedEq := fun hnone => absurd hnone herr }

theorem PageioInv.fail (he : e ≠ .einval) (c' : List PageByte) : PageioInv bsize { d with error := some e } c' :=
  { h with
    noEinval := fun heq => he (Option.some.inj heq)
    listOk := { h.listOk with }
    carriedEq := nofun
    recoalesceError := fun _ => some_ne_none e }

theorem PageioInv.tick (n : Nat) : PageioInv bsize { d with clock := n } c :=
  { h with listOk := { h.listOk with } }

theorem PageioInv.more : PageioInv bsize { d with moreio := true } c :=
  { h with listOk := { h.listOk with } }

theorem PageioInv.written (n : Nat) : PageioInv bsize { d with bytesWritten := n } c :=
  { h with listOk := { h.listOk with } }

end

theorem ListOk.of_nil (hlist : d.list = []) (hsize : d.count ≤ d.bsize) : ListOk d where
  chain := hlist ▸ isChain_nil
  inPage r hr := by rw [hlist] at hr; cases hr
  base r hr := by rw [hlist] at hr; cases hr
  count hne := absurd hlist hne
  size := hsize

def listHeader (d : NfsPageioDescriptor) (first : NfsPage) : NfsPgioHeader where
  reqs := d.list
  offset := first.reqOffset
  count := d.count
  pgbase := first.pgbase
  npages := nfsPageArrayLen d.base d.count
  pageused := nfsPageArrayLen d.base d.count

section

variable (h : ListOk d) (hlist : d.list = first :: rest)
include h hlist

theorem usePages_list :
    usePages (nfsPageArrayLen d.base d.count) d.list none 0 = (nfsPageArrayLen d.base d.count, d.list, []) := by
  have hbase : first.pgbase = d.base := h.base first (by rw [hlist]; rfl)
  have hcount := h.count (by rw [hlist]; exact cons_ne_nil _ _)
  have hchain := h.chain
  have hin := h.inPage
  rw [hlist] at hcount hchain hin
  rw [map_cons, sum_cons] at hcount
  obtain ⟨hpos, -⟩ := hin first mem_cons_self
  have hlen : nfsPageArrayLen d.base d.count =
      (0 * pageSize + first.pgbase + first.bytes + (rest.map NfsPage.bytes).sum + pageSize - 1) / pageSize := by
    unfold nfsPageArrayLen
    congr 1
    omega
  have hone : ¬ 0 + 1 > nfsPageArrayLen d.base d.count := by
    rw [hlen]
    simp only [pageSize]
    omega
  rw [hlist, usePages, if_neg (by simp), if_neg hone, usePages_chain hchain hin hlen]

theorem headerOk_list : HeaderOk d.bsize (listHeader d first) := by
  have hcount := h.count (by rw [hlist]; exact cons_ne_nil _ _)
  have hchain := h.chain
  rw [hlist] at hcount hchain
  refine ⟨?_, h.size, ?_, rfl⟩
  · rw [listHeader, hcount, hlist]
    exact chain_range hchain
  · rw [listHeader, hlist]
    intro a ha b hb
    have ha' := match_iff.1 (chain_ctx hchain a ha)
    have hb' := match_iff.1 (chain_ctx hchain b hb)
    exact match_iff.2 ⟨ha'.1.trans hb'.1.symm, ha'.2.trans hb'.2.symm⟩

theorem genericPgio_list :
    nfsGenericPgio env d first =
      if nfsPageArrayLen d.base d.count > pagevecSize ∧ env.pagevecFails d.clock then ({ d with error := some .enomem }, none)
      else ({ d with list := [] }, some (listHeader d first)) := by
  unfold nfsGenericPgio
  dsimp only
  rw [usePages_list h hlist, if_neg (not_not.2 rfl)]
  rfl

end

/-- What sending makes of a descriptor: an empty list, or an error. -/
structure Sent (bsize : Nat) (c : List PageByte) (before : Option PgError) (d : NfsPageioDescriptor) : Prop where
  inv : PageioInv bsize d c
  empty : d.error = none → d.list = []
  error : before ≠ none → d.error ≠ none

theorem PageioInv.failed (h : PageioInv bsize d c) (he : e ≠ .einval) :
    Sent bsize c d.error { d with error := some e } :=
  ⟨h.fail he c, nofun, fun _ => some_ne_none e⟩

theorem pgPgios_spec (env : PageioEnv) (h : PageioInv bsize d c) (hlist : d.list = first :: rest) :
    Sent bsize c d.error (nfsGenericPgPgios env d first) := by
  unfold nfsGenericPgPgios
  rw [genericPgio_list h.listOk hlist]
  split
  · exact h.failed (by decide)
  split_ifs with hvec
  · exact h.failed (by decide)
  dsimp only
  have hempty : ListOk { d with list := [] } := .of_nil rfl h.listOk.size
  split
  · refine ⟨{ h with noEinval := nofun, listOk := { hempty with }, carriedEq := nofun, recoalesceError := ?_ },
      fun _ => rfl, fun _ => some_ne_none _⟩
    exact fun _ => some_ne_none _
  refine ⟨{ h with headersOk := ?_, listOk := { hempty with }, carriedEq := ?_ }, fun _ => rfl, id⟩
  · refine forall_mem_append.2 ⟨h.headersOk, forall_mem_singleton.2 ?_⟩
    rw [← h.bsizeEq]
    exact headerOk_list h.listOk hlist
  · intro hnone
    rw [← h.carriedEq hnone]
    simp [NfsPgioHeader.data, listHeader]

theorem doio_spec (env : PageioEnv) (h : PageioInv bsize d c) : Sent bsize c d.error (nfsPageioDoio env d) := by
  unfold nfsPageioDoio
  split
  · rename_i hlist
    exact ⟨h, fun _ => hlist, id⟩
  rename_i first rest hlist
  have hsent := pgPgios_spec env (h.tick (d.clock + 1)) hlist
  dsimp only
  split
  · exact ⟨hsent.inv.written _, hsent.empty, hsent.error⟩
  · exact hsent

end

/-! ## Adding a request -/

/-- A request of `n` bytes fits what is on the list. -/
structure Fits (d : NfsPageioDescriptor) (n : Nat) : Prop where
  start : d.list = [] → d.count = 0
  room : n ≤ d.bsize - d.count
  array : (d.count + n) / pageSize * 8 ≤ pageSize

/-- The descriptor in the loop: `sub` bytes of the request are tried next. -/
structure AddInv (bsize : Nat) (d : NfsPageioDescriptor) (req : NfsPage) (sub : Option Nat) (total : List PageByte) : Prop where
  ok : d.error = none
  inPage : InPage req
  subreq : ∀ n ∈ sub, 0 < n ∧ n < req.bytes ∧ Fits d n
  inv : ∃ c, PageioInv bsize d c ∧ c ++ req.data = total

def turnsLeft (d : NfsPageioDescriptor) (req : NfsPage) (sub : Option Nat) : Nat :=
  4 * req.bytes + (if d.list = [] then 0 else 2) + if sub = none then 1 else 0

section

variable {env : PageioEnv} {bsize n : Nat} {d : NfsPageioDescriptor} {req : NfsPage} {c : List PageByte} {sub : Option Nat}
  {total : List PageByte}

section

variable (h : d.count ≤ d.bsize)
include h

theorem pgTest_eq : nfsGenericPgTest d req =
    if (d.count + req.bytes) / pageSize * 8 > pageSize then 0 else min (d.bsize - d.count) req.bytes :=
  if_neg (not_lt.2 h)

theorem pgTest_le : nfsGenericPgTest d req ≤ req.bytes ∧ d.count + nfsGenericPgTest d req ≤ d.bsize := by
  rw [pgTest_eq h]
  split <;> omega

theorem pgTest_array (hpos : 0 < nfsGenericPgTest d req) : (d.count + nfsGenericPgTest d req) / pageSize * 8 ≤ pageSize := by
  rw [pgTest_eq h] at hpos ⊢
  split_ifs at hpos with harray
  · exact absurd hpos (lt_irrefl 0)
  rw [if_neg harray]
  simp only [pageSize] at harray ⊢
  omega

theorem pgTest_of_fits (hfits : Fits d req.bytes) : nfsGenericPgTest d req = req.bytes := by
  rw [pgTest_eq h, if_neg (not_lt.2 hfits.array), min_eq_right hfits.room]

theorem pgTest_pos (hin : InPage req) (hcount : d.count = 0) (hpos : 0 < d.bsize) : 0 < nfsGenericPgTest d req := by
  obtain ⟨hbytes, hfit⟩ := hin
  rw [pgTest_eq h, if_neg (by simp only [pageSize] at hfit ⊢; omega)]
  omega

end

theorem coalesceSize_cases (locked : Bool) (prev : Option NfsPage) :
    nfsCoalesceSize locked prev req d = 0 ∧ prev ≠ none ∨
      nfsCoalesceSize locked prev req d = nfsGenericPgTest d req ∧ ∀ p ∈ prev, Continues p req := by
  cases prev with
  | none => exact .inr ⟨rfl, nofun⟩
  | some p =>
    unfold nfsCoalesceSize
    dsimp only
    split_ifs with hfollows
    · right
      refine ⟨rfl, ?_⟩
      intro q hq
      cases hq
      exact continues_of_follows hfollows
    · exact .inl ⟨rfl, some_ne_none p⟩

theorem startList_cases (d : NfsPageioDescriptor) (req : NfsPage) :
    d.list = [] ∧ startList d req = { d with base := req.pgbase, count := 0, recoalesce := false } ∨
      d.list ≠ [] ∧ startList d req = d := by
  unfold startList
  split
  · exact .inl ⟨‹_›, rfl⟩
  · rename_i hlist
    exact .inr ⟨hlist ▸ cons_ne_nil _ _, rfl⟩

/-- What a request is tried on. -/
structure Started (bsize : Nat) (d : NfsPageioDescriptor) (req : NfsPage) (c : List PageByte) (d' : NfsPageioDescriptor) :
    Prop where
  inv : PageioInv bsize d' c
  list : d'.list = d.list
  error : d'.error = d.error
  first : d'.list = [] → d'.count = 0 ∧ d'.base = req.pgbase
  fits : ∀ n, Fits d n → Fits d' n

theorem PageioInv.start (h : PageioInv bsize d c) : Started bsize d req c (startList d req) := by
  rcases startList_cases d req with ⟨hlist, heq⟩ | ⟨hlist, heq⟩
  · rw [heq]
    refine ⟨{ h with listOk := .of_nil hlist (Nat.zero_le _), recoalesceError := nofun }, rfl, rfl, fun _ => ⟨rfl, rfl⟩, ?_⟩
    intro n hfits
    have hcount := hfits.start hlist
    exact ⟨fun _ => rfl, hcount ▸ hfits.room, hcount ▸ hfits.array⟩
  · rw [heq]
    exact ⟨h, rfl, rfl, fun hnil => absurd hnil hlist, fun _ => id⟩

theorem PageioInv.join (h : PageioInv bsize d c) (hin : InPage req) (hnext : ∀ p ∈ d.list.getLast?, Continues p req)
    (hstart : d.list = [] → d.count = 0 ∧ d.base = req.pgbase) (hroom : d.count + req.bytes ≤ d.bsize) (n : Nat) :
    PageioInv bsize { d with list := d.list ++ [req], count := d.count + req.bytes, clock := n } (c ++ req.data) := by
  have hcount : d.count = (d.list.map NfsPage.bytes).sum := by
    by_cases hlist : d.list = []
    · rw [(hstart hlist).1, hlist]
      rfl
    · exact h.listOk.count hlist
  refine { h with listOk := ⟨?_, ?_, ?_, ?_, hroom⟩, carriedEq := ?_ }
  · refine h.listOk.chain.append (isChain_singleton req) ?_
    intro p hp q hq
    cases hq
    exact hnext p hp
  · exact forall_mem_append.2 ⟨h.listOk.inPage, forall_mem_singleton.2 hin⟩
  · intro r hr
    cases hlist : d.list with
    | nil =>
      rw [hlist] at hr
      cases hr
      exact (hstart hlist).2.symm
    | cons p rest =>
      apply h.listOk.base
      rw [hlist] at hr ⊢
      exact hr
  · intro _
    rw [map_append, sum_append, map_singleton, sum_singleton, hcount]
  · intro hnone
    rw [flatMap_append, flatMap_singleton, ← append_assoc, h.carriedEq hnone]

/-- The outcomes of `nfs_pageio_do_add_request`: an error, the request is on the list, or only a part
of it would fit (none at all only when the list is not empty). -/
inductive DoAdd (bsize : Nat) (d : NfsPageioDescriptor) (req : NfsPage) (c : List PageByte) :
    NfsPageioDescriptor × Nat → Prop
  | failed {d' : NfsPageioDescriptor} (herr : d'.error ≠ none) (hinv : PageioInv bsize d' c) : DoAdd bsize d req c (d', 0)
  | joined {d' : NfsPageioDescriptor} (hok : d'.error = none) (hinv : PageioInv bsize d' (c ++ req.data)) :
      DoAdd bsize d req c (d', req.bytes)
  | part {d' : NfsPageioDescriptor} {n : Nat} (hok : d'.error = none) (hpart : n < req.bytes)
      (hinv : PageioInv bsize d' c) (hlist : d'.list = d.list) (hnil : n = 0 → d.list ≠ []) (hfits : 0 < n → Fits d' n)
      (hsub : Fits d req.bytes → n = 0) : DoAdd bsize d req c (d', n)

theorem doAdd_spec (h : PageioInv bsize d c) (herr : d.error = none) (hin : InPage req) :
    DoAdd bsize d req c (nfsPageioDoAddRequest env d req) := by
  have ⟨hinv, hlist, herror, hfirst, hfits⟩ : Started bsize d req c (startList d req) := h.start
  unfold nfsPageioDoAddRequest
  rw [if_neg fun hbad => hbad.2 herr]
  dsimp only
  generalize startList d req = d' at *
  split
  · refine .failed (some_ne_none _) (hinv.fail ?_ c)
    split <;> decide
  have hsize := @coalesceSize_cases d' req (env.locked d'.clock) d'.list.getLast?
  obtain ⟨hle, hroom⟩ := @pgTest_le _ req hinv.listOk.size
  split_ifs with hpart
  · refine .part (herror.trans herr) hpart (hinv.tick _) hlist ?_ ?_ ?_
    · intro hzero hnil
      rw [← hlist] at hnil
      rcases hsize with ⟨-, hprev⟩ | ⟨heq, -⟩
      · rw [hnil] at hprev
        exact hprev rfl
      · have hpos := pgTest_pos hinv.listOk.size hin (hfirst hnil).1 (hinv.bsizeEq.symm ▸ hinv.bsizePos)
        omega
    · intro hpos
      rcases hsize with ⟨hzero, -⟩ | ⟨heq, -⟩
      · omega
      · rw [heq] at hpos ⊢
        exact ⟨fun hnil => (hfirst hnil).1, Nat.le_sub_of_add_le' hroom, pgTest_array hinv.listOk.size hpos⟩
    · intro hwhole
      have htest := pgTest_of_fits hinv.listOk.size (hfits _ hwhole)
      rcases hsize with ⟨hzero, -⟩ | ⟨heq, -⟩
      · exact hzero
      · omega
  · rcases hsize with ⟨hzero, -⟩ | ⟨heq, hnext⟩
    · have := hin.1
      omega
    have hbytes : nfsGenericPgTest d' req = req.bytes := by omega
    rw [hbytes] at hroom
    exact .joined (herror.trans herr) (hinv.join hin hnext hfirst hroom _)

theorem turn_doio (env : PageioEnv) (h : PageioInv bsize d c) (hin : InPage req) (htotal : c ++ req.data = total) :
    let d' := nfsPageioDoio env { d with moreio := true }
    d'.error ≠ none ∧ PageioInv bsize d' total ∨
      d.error = none ∧ d'.recoalesce = false ∧ d'.list = [] ∧ AddInv bsize d' req none total := by
  obtain ⟨hinv, hempty, herror⟩ := doio_spec env h.more
  by_cases herr : (nfsPageioDoio env { d with moreio := true }).error = none
  · refine .inr ⟨not_imp_not.1 herror herr, ?_, hempty herr, herr, hin, nofun, c, hinv, htotal⟩
    exact Bool.eq_false_iff.2 fun hset => hinv.recoalesceError hset herr
  · exact .inl ⟨herr, hinv.afterError herr total⟩

theorem addTurn_spec (h : AddInv bsize d req sub total) :
    match addTurn env d req sub with
    | .added d' => d'.error = none ∧ PageioInv bsize d' total
    | .failed d' _ => d'.error ≠ none ∧ PageioInv bsize d' total
    | .again d' req' sub' => AddInv bsize d' req' sub' total ∧ turnsLeft d' req' sub' < turnsLeft d req sub := by
  obtain ⟨c, hinv, htotal⟩ := h.inv
  have hpartIn : InPage (req.part sub) := by
    cases sub with
    | none => exact h.inPage
    | some n =>
      obtain ⟨hpos, hlt, -⟩ := h.subreq n rfl
      exact h.inPage.subreq hpos hlt
  have hpartPos := hpartIn.1
  unfold addTurn
  have hadd : DoAdd _ _ _ _ (nfsPageioDoAddRequest env d (req.part sub)) := doAdd_spec hinv h.ok hpartIn
  generalize nfsPageioDoAddRequest env d (req.part sub) = r at hadd
  cases hadd with
  | failed herr hinv' =>
    -- the list may still go out, but the loop ends
    rcases turn_doio env hinv' h.inPage htotal with hfailed | ⟨hok, -⟩
    · dsimp only
      rw [if_neg (ne_of_lt hpartPos), if_pos rfl, if_pos (.inl hfailed.1)]
      exact hfailed
    · exact absurd hok herr
  | joined hok hinv' =>
    rw [if_pos rfl]
    cases sub with
    | none => exact ⟨hok, htotal ▸ hinv'⟩
    | some n =>
      obtain ⟨hpos, hlt, -⟩ := h.subreq n rfl
      refine ⟨⟨hok, h.inPage.advance hlt, nofun, c ++ (req.subreq n).data, hinv', ?_⟩, ?_⟩
      · rw [append_assoc, data_split (le_of_lt hlt), htotal]
      · unfold turnsLeft NfsPage.advance
        split <;> split <;> simp <;> omega
  | @part d' n hok hpart hinv' hlist hnil hfits hsub =>
    rw [if_neg (ne_of_lt hpart)]
    by_cases hzero : n = 0
    · rw [if_pos hzero]
      rcases turn_doio env hinv' h.inPage htotal with hfailed | ⟨-, hflag, hempty, hnext⟩
      · rw [if_pos (.inl hfailed.1)]
        exact hfailed
      rw [if_neg (by rw [hnext.ok, hflag]; simp)]
      refine ⟨hnext, ?_⟩
      rw [turnsLeft, turnsLeft, if_pos hempty, if_neg (hnil hzero)]
      split <;> omega
    rw [if_neg hzero]
    cases sub with
    | some n =>
      -- a subrequest fits or is refused as a whole
      exact absurd (hsub (h.subreq n rfl).2.2) hzero
    | none =>
      split_ifs with hfail
      · exact ⟨some_ne_none _, hinv'.fail (by decide) total⟩
      refine ⟨⟨hok, h.inPage, ?_, c, hinv', htotal⟩, ?_⟩
      · intro n hn
        cases hn
        exact ⟨Nat.pos_of_ne_zero hzero, hpart, hfits (Nat.pos_of_ne_zero hzero)⟩
      · rw [turnsLeft, turnsLeft, hlist, if_neg (some_ne_none _), if_pos rfl]
        omega

theorem pageioAddRequest_spec (env : PageioEnv) {fuel : Nat} (h : AddInv bsize d req sub total) (hfuel : turnsLeft d req sub < fuel) :
    ∃ d' req' ok, pageioAddRequest env fuel d req sub = some (d', req', ok) ∧ PageioInv bsize d' total ∧
      (ok = true ↔ d'.error = none) := by
  induction fuel generalizing d req sub with
  | zero => exact absurd hfuel (Nat.not_lt_zero _)
  | succ fuel ih =>
    have hturn := @addTurn_spec env _ _ _ _ _ h
    unfold pageioAddRequest
    split
    · rename_i d' heq
      rw [heq] at hturn
      exact ⟨d', req, true, rfl, hturn.2, by simp [hturn.1]⟩
    · rename_i d' req' heq
      rw [heq] at hturn
      exact ⟨d', req', false, rfl, hturn.2, by simp [hturn.1]⟩
    rename_i d' req' sub' heq
    rw [heq] at hturn
    exact ih hturn.1 (by omega)

end

/-! ## Whole runs -/

section

variable {env : PageioEnv} {bsize fuel : Nat} {d : NfsPageioDescriptor} {req : NfsPage} {c : List PageByte}

theorem PageioInv.cleanup (h : PageioInv bsize d c) : PageioInv bsize (nfsPageioErrorCleanup d) c := by
  unfold nfsPageioErrorCleanup
  split_ifs with herr
  · exact h
  · exact { h with listOk := .of_nil rfl h.listOk.size, carriedEq := fun hnone => absurd hnone herr }

theorem cleanup_error : (nfsPageioErrorCleanup d).error = d.error := by
  unfold nfsPageioErrorCleanup
  split <;> rfl

/-- A request takes at most four turns for each of its bytes. -/
def addFuel : Nat := 4 * pageSize + 4

theorem turnsLeft_lt (hin : InPage req) : turnsLeft d req none < addFuel := by
  obtain ⟨-, hfit⟩ := hin
  unfold turnsLeft addFuel
  rw [if_pos rfl]
  split <;> omega

variable (h : PageioInv bsize d c)
include h

theorem addRequest_spec (hin : InPage req) (hfuel : addFuel ≤ fuel) :
    ∃ d', nfsPageioAddRequest env fuel d req = some d' ∧ PageioInv bsize d' (c ++ req.data) := by
  unfold nfsPageioAddRequest
  by_cases herr : d.error = none
  · rw [if_neg (not_not.2 herr)]
    have hadd : AddInv bsize d req none (c ++ req.data) := ⟨herr, hin, nofun, c, h, rfl⟩
    obtain ⟨d', req', ok, hrun, hinv, hok⟩ := pageioAddRequest_spec env hadd (lt_of_lt_of_le (turnsLeft_lt hin) hfuel)
    obtain ⟨n, rfl⟩ := Nat.exists_eq_add_of_le' (le_trans (by decide : 1 ≤ addFuel) hfuel)
    rw [nfsPageioAddRequestMirror, hrun]
    cases ok with
    | true => exact ⟨d', rfl, hinv⟩
    | false =>
      have herr' : d'.error ≠ none := fun hnone => Bool.false_ne_true (hok.2 hnone)
      dsimp only
      rw [if_pos herr']
      exact ⟨_, rfl, hinv.cleanup⟩
  · rw [if_pos herr]
    exact ⟨_, rfl, (h.afterError herr (c ++ req.data)).cleanup⟩

theorem addRequests_spec {reqs : List NfsPage} (hin : ∀ r ∈ reqs, InPage r) (hfuel : addFuel ≤ fuel) :
    ∃ d', reqs.foldlM (nfsPageioAddRequest env fuel) d = some d' ∧ PageioInv bsize d' (c ++ reqs.flatMap NfsPage.data) := by
  induction reqs generalizing d c with
  | nil =>
    rw [flatMap_nil, append_nil]
    exact ⟨d, rfl, h⟩
  | cons req reqs ih =>
    obtain ⟨d', hd', hinv⟩ := addRequest_spec h (hin req mem_cons_self) hfuel
    obtain ⟨d'', hd'', hinv'⟩ := ih hinv fun r hr => hin r (mem_cons_of_mem req hr)
    refine ⟨d'', ?_, ?_⟩
    · rw [foldlM_cons, hd']
      exact hd''
    · rw [flatMap_cons, ← append_assoc]
      exact hinv'

theorem complete_spec (hfuel : addFuel ≤ fuel) :
    ∃ d', nfsPageioComplete env fuel d = some d' ∧ PageioInv bsize d' c ∧ (d'.error = none → d'.list = []) := by
  obtain ⟨hinv, hempty, -⟩ := doio_spec env h
  obtain ⟨n, rfl⟩ := Nat.exists_eq_add_of_le' (le_trans (by decide : 1 ≤ addFuel) hfuel)
  set d' := nfsPageioDoio env d
  have hlast : d'.error ≠ none ∨ ¬ d'.recoalesce = true := by
    by_cases herr : d'.error = none
    · exact .inr fun hset => hinv.recoalesceError hset herr
    · exact .inl herr
  refine ⟨nfsPageioErrorCleanup d', ?_, hinv.cleanup, ?_⟩
  · rw [nfsPageioComplete, nfsPageioCompleteMirror, if_pos hlast]
    rfl
  · intro hnone
    rw [cleanup_error] at hnone
    rw [nfsPageioErrorCleanup, if_pos hnone]
    exact hempty hnone

end

/-- What a run leaves behind when no error occurred: the bytes of the requests in order, in headers as
they should be. -/
structure Partitions (bsize : Nat) (reqs : List NfsPage) (d : NfsPageioDescriptor) : Prop where
  carried : d.headers.flatMap NfsPgioHeader.data = reqs.flatMap NfsPage.data
  empty : d.list = []
  headers : ∀ hdr ∈ d.headers, HeaderOk bsize hdr

/-- **Coalescing partitions the bytes of the requests.** -/
theorem pageio_partitions (env : PageioEnv) (bsize maxretrans : Nat) (softerr : Bool) (reqs : List NfsPage)
    (hbsize : 0 < bsize) (hreqs : ∀ r ∈ reqs, InPage r) (fuel : Nat) (hfuel : addFuel ≤ fuel) :
    ∃ d, pageioRun env fuel (nfsPageioInit bsize maxretrans softerr) reqs = some d ∧ d.error ≠ some .einval ∧
      (d.error = none → Partitions bsize reqs d) := by
  have hinit : PageioInv bsize (nfsPageioInit bsize maxretrans softerr) [] :=
    ⟨rfl, hbsize, nofun, nofun, .of_nil rfl (Nat.zero_le _), fun _ => rfl, nofun⟩
  obtain ⟨d, hd, hinv⟩ := addRequests_spec hinit hreqs hfuel
  obtain ⟨d', hd', hinv', hempty⟩ := complete_spec hinv hfuel
  refine ⟨d', ?_, hinv'.noEinval, ?_⟩
  · unfold pageioRun
    rw [hd]
    exact hd'
  · intro hnone
    have hcarried := hinv'.carriedEq hnone
    rw [hempty hnone, flatMap_nil, append_nil] at hcarried
    exact ⟨hcarried, hempty hnone, hinv'.headersOk⟩

def calmEnv : PageioEnv where
  locked := fun _ => false
  subreqFails := fun _ => false
  headerFails := fun _ => false
  pagevecFails := fun _ => false
  initiateFails := fun _ => false

/-- A request for the first bytes of a page of the file, through the open context `id`. -/
def plainPage (id index bytes : Nat) : NfsPage := ⟨index, ⟨id, 1, 1⟩, 1, 100 + index, index, 0, 0, bytes, 0⟩

/-- Two pages with a block size of six kilobytes: the second one is split. -/
theorem pageio_partitions_split :
    (∀ r ∈ [plainPage 1 0 4096, plainPage 1 1 4096], InPage r) ∧
      ∃ d, pageioRun calmEnv addFuel (nfsPageioInit 6144 0 false) [plainPage 1 0 4096, plainPage 1 1 4096] = some d ∧
        d.error = none ∧ Partitions 6144 [plainPage 1 0 4096, plainPage 1 1 4096] d := by
  have hin : ∀ r ∈ [plainPage 1 0 4096, plainPage 1 1 4096], InPage r := by
    intro r hr
    simp only [mem_cons, not_mem_nil, or_false] at hr
    rcases hr with rfl | rfl <;> exact ⟨by decide, by decide⟩
  have hnone : (pageioRun calmEnv addFuel (nfsPageioInit 6144 0 false) [plainPage 1 0 4096, plainPage 1 1 4096]).map
      (·.error) = some none := by decide
  obtain ⟨d, hd, -, hparts⟩ := pageio_partitions calmEnv 6144 0 false _ (by decide) hin addFuel (le_refl _)
  rw [hd] at hnone
  have herror := Option.some.inj hnone
  exact ⟨hin, d, hd, herror, hparts herror⟩

/-- A request without bytes needs no page but uses one, and two open contexts with the same
credentials and state share a header. -/
theorem pageio_refused :
    (∃ d, pageioRun calmEnv 8 (nfsPageioInit 4096 0 false) [plainPage 1 0 0] = some d ∧ d.error = some .einval) ∧
    ∃ d, pageioRun calmEnv 8 (nfsPageioInit 8192 0 false) [plainPage 1 0 4096, plainPage 2 1 4096] = some d ∧ d.error = none ∧
      ∃ hdr ∈ d.headers, ∃ a ∈ hdr.reqs, ∃ b ∈ hdr.reqs, a.ctx ≠ b.ctx := by
  refine ⟨⟨_, rfl, by decide⟩, ⟨_, rfl, by decide, by decide⟩⟩

end Vastnfs.Nfs
