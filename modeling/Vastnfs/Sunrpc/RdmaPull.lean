import Mathlib.Data.List.GetD
import Vastnfs.Sunrpc.RdmaReadList

/-!
# Pulling the Read list of an RPC-over-RDMA call

`svc_rdma_process_read_list` (`net/sunrpc/xprtrdma/svc_rdma_rw.c`) puts together a call from what came inline and the
chunks it reads from the client's memory. The Reads land in `rq_pages`, one behind the other.

* `svcRdmaBuildReadSegment`, `svcRdmaReadChunkRange`, `svcRdmaReadMultipleChunks`, `svcRdmaProcessReadList`: the functions
  of the source.
* `landRead`, `landing`: where Reads land, on the bytes of all pages; `buildSegments_spec` says that the pages of the
  source are such.
-/

namespace Vastnfs.Sunrpc

/-! ## Reads -/

abbrev RemoteMemory := BitVec 32 → BitVec 64 → BitVec 8

def SvcRdmaSegment.byte (remote : RemoteMemory) (seg : SvcRdmaSegment) (k : Nat) : BitVec 8 :=
  remote seg.rsHandle (seg.rsOffset + BitVec.ofNat 64 k)

/-- `struct svc_rdma_read_info` with `rc_page_count` and what is in `rq_pages`; `overrun` says that a page behind the
last one has been used. -/
structure SvcRdmaReadInfo where
  (riPageno riPageoff : Nat := 0)
  riTotalbytes : BitVec 32 := 0
  rcPageCount : Nat := 0
  pages : Nat → Nat → BitVec 8
  overrun : Bool := false

/-- `-EINVAL` and `-EIO`. -/
inductive ReadFailure
  | einval | eio
deriving DecidableEq

def writePage (pages : Nat → Nat → BitVec 8) (pageno off len : Nat) (data : Nat → BitVec 8) : Nat → Nat → BitVec 8 :=
  fun p o => if p = pageno ∧ off ≤ o ∧ o < off + len then data (o - off) else pages p o

def SvcRdmaReadInfo.usePage (info : SvcRdmaReadInfo) (n : Nat) : SvcRdmaReadInfo :=
  { info with
    rcPageCount := if info.riPageoff = 0 then info.rcPageCount + 1 else info.rcPageCount
    overrun := info.overrun || decide (n ≤ info.riPageno) }

def SvcRdmaReadInfo.advance (info : SvcRdmaReadInfo) (len : Nat) : SvcRdmaReadInfo :=
  if info.riPageoff + len = 4096 then { info with riPageno := info.riPageno + 1, riPageoff := 0 }
  else { info with riPageoff := info.riPageoff + len }

/-- Bytes are put into the page, at an offset, and the place behind them is taken. -/
def SvcRdmaReadInfo.put (info : SvcRdmaReadInfo) (n off len : Nat) (data : Nat → BitVec 8) : SvcRdmaReadInfo :=
  { info.usePage n with pages := writePage info.pages info.riPageno off len data }.advance len

/-- `PAGE_ALIGN(x) >> PAGE_SHIFT` of an `unsigned int`. -/
def pagesFor (x : Nat) : Nat := (x + 4095) % 2 ^ 32 / 4096

section

-- the client's memory, and the number of `rq_pages`
variable (remote : RemoteMemory) (n : Nat)

/-- The loop of `svc_rdma_build_read_segment`: so many entries of the scatterlist, with `len` bytes to go behind `done`.
The data is put into the pages at once. -/
def buildSges (seg : SvcRdmaSegment) : Nat → (len done : Nat) → SvcRdmaReadInfo → SvcRdmaReadInfo × Bool
  | 0, _, _, info => (info, true)
  | nents + 1, len, done, info =>
    let segLen := min len (4096 - info.riPageoff)
    let info := info.put n info.riPageoff segLen fun k => seg.byte remote (done + k)
    if len - segLen ≠ 0 ∧ n < info.riPageno + 1 then (info, false)
    else buildSges seg nents (len - segLen) (done + segLen) info

/-- `svc_rdma_build_read_segment`, where there are local resources. A Read of no bytes cannot be set up. -/
def svcRdmaBuildReadSegment (info : SvcRdmaReadInfo) (seg : SvcRdmaSegment) : SvcRdmaReadInfo × Option ReadFailure :=
  let nents := pagesFor (info.riPageoff + seg.rsLength.toNat)
  match buildSges remote n seg nents seg.rsLength.toNat 0 info with
  | (info, false) => (info, some .einval)
  | (info, true) => (info, if nents = 0 ∨ seg.rsLength = 0 then some .eio else none)

def buildSegments : List SvcRdmaSegment → SvcRdmaReadInfo → SvcRdmaReadInfo × Option ReadFailure
  | [], info => (info, none)
  | seg :: segs, info =>
    match svcRdmaBuildReadSegment remote n info seg with
    | (info, some e) => (info, some e)
    | (info, none) => buildSegments segs { info with riTotalbytes := info.riTotalbytes + seg.rsLength }

def svcRdmaBuildReadChunk (info : SvcRdmaReadInfo) (chunk : SvcRdmaChunk) : SvcRdmaReadInfo × Option ReadFailure :=
  if chunk.chSegments.isEmpty then (info, some .einval) else buildSegments remote n chunk.chSegments info

/-- The loop of `svc_rdma_copy_inline_range`. The bytes go to offset `ri_pageno` of the page. -/
def copyInlinePages (src : Nat → BitVec 8) : Nat → (offset remaining : Nat) → SvcRdmaReadInfo → SvcRdmaReadInfo
  | 0, _, _, info => info
  | numpages + 1, offset, remaining, info =>
    let pageLen := min remaining (4096 - info.riPageoff)
    let info := info.put n info.riPageno pageLen fun k => src (offset + k)
    copyInlinePages src numpages (offset + pageLen) (remaining - pageLen)
      { info with riTotalbytes := info.riTotalbytes + BitVec.ofNat 32 pageLen }

/-- It never returns 0. -/
def svcRdmaCopyInlineRange (src : Nat → BitVec 8) (info : SvcRdmaReadInfo) (offset remaining : BitVec 32) :
    SvcRdmaReadInfo × Option ReadFailure :=
  (copyInlinePages n src (pagesFor (info.riPageoff + remaining.toNat)) offset.toNat remaining.toNat info, some .einval)

/-- The part of a segment that `svc_rdma_read_chunk_range` reads. -/
def rangeDummy (seg : SvcRdmaSegment) (offset length : BitVec 32) : SvcRdmaSegment where
  rsHandle := seg.rsHandle
  rsLength := (if length < seg.rsLength then length else seg.rsLength) - offset
  rsOffset := seg.rsOffset + offset.setWidth 64

/-- `svc_rdma_read_chunk_range`: `ret` is what it returns if there is nothing left to do. -/
def readRange : List SvcRdmaSegment → (offset length : BitVec 32) → (ret : Option ReadFailure) → SvcRdmaReadInfo →
    SvcRdmaReadInfo × Option ReadFailure
  | [], _, _, ret, info => (info, ret)
  | seg :: segs, offset, length, ret, info =>
    if seg.rsLength < offset then readRange segs (offset - seg.rsLength) length ret info
    else
      let dummy := rangeDummy seg offset length
      match svcRdmaBuildReadSegment remote n info dummy with
      | (info, some e) => (info, some e)
      | (info, none) =>
        readRange segs 0 (length - dummy.rsLength) none { info with riTotalbytes := info.riTotalbytes + dummy.rsLength }

@[inherit_doc readRange]
def svcRdmaReadChunkRange (info : SvcRdmaReadInfo) (chunk : SvcRdmaChunk) (offset length : BitVec 32) :
    SvcRdmaReadInfo × Option ReadFailure :=
  readRange remote n chunk.chSegments offset length (some .einval) info

/-- The loop that `svc_rdma_read_multiple_chunks` and `svc_rdma_read_call_chunk` have in common: a chunk, and what is
around it up to the next one (`between`), with `rest` the length of all that is around chunks. -/
def chunkLoop (between : SvcRdmaReadInfo → (start length : BitVec 32) → SvcRdmaReadInfo × Option ReadFailure)
    (rest : BitVec 32) : List SvcRdmaChunk → (start length : BitVec 32) → SvcRdmaReadInfo → SvcRdmaReadInfo × Option ReadFailure
  | [], start, length, info => between info (start + length) (rest - (start + length))
  | chunk :: chunks, start, length, info =>
    match svcRdmaBuildReadChunk remote n info chunk with
    | (info, some e) => (info, some e)
    | (info, none) =>
      match chunks with
      | [] => between info (start + length) (rest - (start + length))
      | next :: _ =>
        match between info (start + length) (next.chPosition - info.riTotalbytes) with
        | (info', some e) => (info', some e)
        | (info', none) => chunkLoop between rest chunks (start + length) (next.chPosition - info.riTotalbytes) info'

def firstPosition (chunks : List SvcRdmaChunk) : BitVec 32 := ((chunks.head?).map (·.chPosition)).getD 0

def interleave (between : SvcRdmaReadInfo → (start length : BitVec 32) → SvcRdmaReadInfo × Option ReadFailure)
    (rest : BitVec 32) (chunks : List SvcRdmaChunk) (info : SvcRdmaReadInfo) : SvcRdmaReadInfo × Option ReadFailure :=
  let position := firstPosition chunks
  match between info 0 position with
  | (info, some e) => (info, some e)
  | (info, none) => chunkLoop remote n between rest chunks 0 position info

def svcRdmaReadCallChunk (info : SvcRdmaReadInfo) (call : SvcRdmaChunk) (reads : List SvcRdmaChunk) :
    SvcRdmaReadInfo × Option ReadFailure :=
  if reads.isEmpty then svcRdmaBuildReadChunk remote n info call
  else interleave remote n (fun info => svcRdmaReadChunkRange remote n info call) call.chLength reads info

end

/-! ## The call -/

/-- `rq_arg`: the head is in the receive buffer, or is the first page; the tail is in the receive buffer. -/
structure RqArg where
  headIsPage : Bool := false
  headLen : BitVec 64
  /-- The index of `pages` in `rq_pages`. -/
  pagesAt : Nat := 0
  pageLen : BitVec 32 := 0
  /-- Where the tail begins behind the inline content, if it has one. -/
  tailAt : Nat := 0
  tailLen : BitVec 64 := 0
  (len buflen : BitVec 32)

/-- What a receive context holds: the transport header, the inline content, and the parsed lists. -/
structure RecvCall where
  (header inline : List (BitVec 8))
  call : Option SvcRdmaChunk
  reads : List SvcRdmaChunk

def RecvCall.rcByteLen (c : RecvCall) : BitVec 32 := BitVec.ofNat 32 (c.header.length + c.inline.length)

def RecvCall.recvBuf (c : RecvCall) (k : Nat) : BitVec 8 := (c.header ++ c.inline).getD k 0

/-- `rq_arg` as `svc_rdma_xdr_decode_req` leaves it. -/
def RecvCall.decoded (c : RecvCall) : RqArg where
  headLen := BitVec.ofNat 64 c.inline.length
  len := BitVec.ofNat 32 c.inline.length
  buflen := c.rcByteLen

section

variable (remote : RemoteMemory) (n : Nat)

/-- The end of `svc_rdma_read_multiple_chunks` and of `svc_rdma_read_special`: all pages in a row. -/
def pagesArg (info : SvcRdmaReadInfo) (arg : RqArg) : RqArg :=
  let headLen := min 4096 info.riTotalbytes.toNat
  { arg with
    len := arg.len + info.riTotalbytes
    buflen := arg.buflen + info.riTotalbytes
    headIsPage := true
    headLen := BitVec.ofNat 64 headLen
    pagesAt := 1
    pageLen := info.riTotalbytes - BitVec.ofNat 32 headLen }

def svcRdmaReadMultipleChunks (c : RecvCall) (info : SvcRdmaReadInfo) (arg : RqArg) :
    SvcRdmaReadInfo × RqArg × Option ReadFailure :=
  match interleave remote n (svcRdmaCopyInlineRange n c.recvBuf) c.rcByteLen c.reads info with
  | (info, some e) => (info, arg, some e)
  | (info, none) => (info, pagesArg info arg, none)

def xdrAlignSize (x : BitVec 32) : BitVec 32 := (x + 3) &&& ~~~3

def svcRdmaReadDataItem (chunk : SvcRdmaChunk) (info : SvcRdmaReadInfo) (arg : RqArg) :
    SvcRdmaReadInfo × RqArg × Option ReadFailure :=
  match svcRdmaBuildReadChunk remote n info chunk with
  | (info, some e) => (info, arg, some e)
  | (info, none) =>
    let length := xdrAlignSize chunk.chLength
    (info, { arg with
      tailAt := chunk.chPosition.toNat
      tailLen := arg.headLen - chunk.chPosition.setWidth 64
      headLen := chunk.chPosition.setWidth 64
      pagesAt := 0
      pageLen := length
      len := arg.len + length
      buflen := arg.buflen + length }, none)

def svcRdmaReadSpecial (call : SvcRdmaChunk) (c : RecvCall) (info : SvcRdmaReadInfo) (arg : RqArg) :
    SvcRdmaReadInfo × RqArg × Option ReadFailure :=
  match svcRdmaReadCallChunk remote n info call c.reads with
  | (info, some e) => (info, arg, some e)
  | (info, none) => (info, pagesArg info arg, none)

/-- `svc_rdma_process_read_list`, where the Reads complete; `pages` is what was in the pages. -/
def svcRdmaProcessReadList (c : RecvCall) (pages : Nat → Nat → BitVec 8) : SvcRdmaReadInfo × RqArg × Option ReadFailure :=
  let info : SvcRdmaReadInfo := { pages := pages }
  match c.call with
  | some call => svcRdmaReadSpecial remote n call c info c.decoded
  | none =>
    match c.reads with
    | [chunk] => svcRdmaReadDataItem remote n chunk info c.decoded
    | _ => svcRdmaReadMultipleChunks remote n c info c.decoded

end

/-! ## Where Reads land -/

/-- Where the place behind a Read of `x` bytes is, among the bytes of `n` pages; nothing if it cannot be built. A length
that wraps around with the offset in the page lets it end with the page. -/
def landRead (n c x : Nat) : Option Nat :=
  if x = 0 then none
  else if c % 4096 + x + 4095 < 2 ^ 32 then if c + x ≤ 4096 * n then some (c + x) else none
  else if 2 ^ 32 < c % 4096 + x ∧ c / 4096 + 1 < n then some (4096 * (c / 4096 + 1)) else none

def landing (n c : Nat) (xs : List Nat) : Option Nat := xs.foldlM (landRead n) c

def pageByte (pages : Nat → Nat → BitVec 8) (i : Nat) : BitVec 8 := pages (i / 4096) (i % 4096)

/-- The cursor is at a place, and no page behind the last one has been used. -/
structure CursorAt (n c : Nat) (info : SvcRdmaReadInfo) : Prop where
  off : info.riPageoff < 4096
  place : 4096 * info.riPageno + info.riPageoff = c
  within : c ≤ 4096 * n
  overrun : info.overrun = false

variable {remote : RemoteMemory} {n c x : Nat} {info : SvcRdmaReadInfo} {seg : SvcRdmaSegment} {nents len done : Nat}

theorem pageByte_writePage {pages : Nat → Nat → BitVec 8} {pageno off : Nat} {data : Nat → BitVec 8}
    (hoff : off + len ≤ 4096) (i : Nat) : pageByte (writePage pages pageno off len data) i =
      if 4096 * pageno + off ≤ i ∧ i < 4096 * pageno + off + len then data (i - (4096 * pageno + off)) else pageByte pages i := by
  unfold pageByte writePage
  by_cases hpage : i / 4096 = pageno
  · subst hpage
    by_cases hin : off ≤ i % 4096 ∧ i % 4096 < off + len
    · rw [if_pos ⟨rfl, hin⟩, if_pos (by omega)]
      congr 1
      omega
    · rw [if_neg (fun h => hin h.2), if_neg (by omega)]
  · rw [if_neg (fun h => hpage h.1), if_neg (by omega)]

section

variable {off len : Nat} {data : Nat → BitVec 8}

theorem put_overrun : (info.put n off len data).overrun = (info.overrun || decide (n ≤ info.riPageno)) := by
  unfold SvcRdmaReadInfo.put SvcRdmaReadInfo.advance
  split <;> rfl

theorem put_total : (info.put n off len data).riTotalbytes = info.riTotalbytes := by
  unfold SvcRdmaReadInfo.put SvcRdmaReadInfo.advance
  split <;> rfl

theorem put_pages : (info.put n off len data).pages = writePage info.pages info.riPageno off len data := by
  unfold SvcRdmaReadInfo.put SvcRdmaReadInfo.advance
  split <;> rfl

theorem put_place (hlen : info.riPageoff + len ≤ 4096) :
    (info.put n off len data).riPageoff < 4096 ∧
      4096 * (info.put n off len data).riPageno + (info.put n off len data).riPageoff =
        4096 * info.riPageno + info.riPageoff + len := by
  unfold SvcRdmaReadInfo.put SvcRdmaReadInfo.advance
  split <;> rename_i hfull <;> simp only [SvcRdmaReadInfo.usePage] at hfull ⊢ <;> omega

end

theorem overrun_buildSges (h : info.overrun = true) (nents len done : Nat) :
    (buildSges remote n seg nents len done info).1.overrun = true := by
  induction nents generalizing len done info with
  | zero => exact h
  | succ nents ih =>
    rw [buildSges]
    split
    · simp [put_overrun, h]
    · exact ih (by simp [put_overrun, h]) _ _

/-- What some bytes of a Read leave when they have landed. -/
structure Landed (remote : RemoteMemory) (n : Nat) (seg : SvcRdmaSegment) (done len : Nat) (info info' : SvcRdmaReadInfo) :
    Prop where
  cursor : CursorAt n (4096 * info.riPageno + info.riPageoff + len) info'
  total : info'.riTotalbytes = info.riTotalbytes
  bytes : ∀ i, pageByte info'.pages i =
    if 4096 * info.riPageno + info.riPageoff ≤ i ∧ i < 4096 * info.riPageno + info.riPageoff + len then
      seg.byte remote (done + (i - (4096 * info.riPageno + info.riPageoff)))
    else pageByte info.pages i

theorem landed_put (hlen : info.riPageoff + len ≤ 4096) (hpage : info.riPageno < n) (hover : info.overrun = false) :
    Landed remote n seg done len info (info.put n info.riPageoff len fun k => seg.byte remote (done + k)) := by
  obtain ⟨hoff', hplace⟩ := @put_place n info info.riPageoff len (fun k => seg.byte remote (done + k)) hlen
  refine ⟨⟨hoff', hplace, by omega, ?_⟩, put_total, fun i => ?_⟩
  · rw [put_overrun, hover]
    simpa using hpage
  · rw [put_pages, pageByte_writePage hlen]

theorem Landed.trans {len' : Nat} {info' info'' : SvcRdmaReadInfo} (h : Landed remote n seg done len info info')
    (h' : Landed remote n seg (done + len) len' info' info'') : Landed remote n seg done (len + len') info info'' := by
  have hplace := h.cursor.place
  refine ⟨?_, h'.total.trans h.total, fun i => ?_⟩
  · have := h'.cursor
    rwa [hplace, Nat.add_assoc] at this
  · rw [h'.bytes, hplace, h.bytes]
    split
    · rename_i h₁
      rw [if_pos (by omega)]
      congr 1
      omega
    rename_i h₁
    split
    · rename_i h₂
      rw [if_pos (by omega)]
    · rename_i h₂
      rw [if_neg (by omega)]

section

variable (hoff : info.riPageoff < 4096) (hover : info.overrun = false) (hnents : info.riPageoff + len ≤ 4096 * nents)
include hoff hover hnents

/-- **A Read that fits** lands. -/
theorem buildSges_fits (hexact : 4096 * nents < info.riPageoff + len + 4096) (hlen : 0 < len)
    (hfits : 4096 * info.riPageno + info.riPageoff + len ≤ 4096 * n) :
    ∃ info', buildSges remote n seg nents len done info = (info', true) ∧ Landed remote n seg done len info info' := by
  induction nents generalizing len done info with
  | zero => omega
  | succ nents ih =>
    have hpage : info.riPageno < n := by omega
    rw [buildSges]
    by_cases hlast : len ≤ 4096 - info.riPageoff
    · -- the last page
      have hzero : nents = 0 := by omega
      subst hzero
      rw [Nat.min_eq_left hlast, if_neg (by omega)]
      exact ⟨_, rfl, landed_put (by omega) hpage hover⟩
    rw [Nat.min_eq_right (by omega)]
    have hput := @landed_put remote n info seg (4096 - info.riPageoff) done (by omega) hpage hover
    generalize info.put n info.riPageoff (4096 - info.riPageoff) (fun k => seg.byte remote (done + k)) = info₁ at hput ⊢
    have hplace := hput.cursor.place
    have hoff₁ := hput.cursor.off
    rw [if_neg (by omega)]
    obtain ⟨info', heq, hrest⟩ := @ih info₁ (len - (4096 - info.riPageoff)) (done + (4096 - info.riPageoff)) hoff₁
      hput.cursor.overrun (by omega) (by omega) (by omega) (by omega)
    refine ⟨info', heq, ?_⟩
    have := hput.trans hrest
    rwa [Nat.add_sub_cancel' (by omega)] at this

theorem buildSges_refused (hpage : info.riPageno < n) (hfits : 4096 * n < 4096 * info.riPageno + info.riPageoff + len) :
    (buildSges remote n seg nents len done info).2 = false ∧
      (buildSges remote n seg nents len done info).1.overrun = false := by
  induction nents generalizing len done info with
  | zero => omega
  | succ nents ih =>
    rw [buildSges]
    rw [Nat.min_eq_right (by omega)]
    have hput := @landed_put remote n info seg (4096 - info.riPageoff) done (by omega) hpage hover
    generalize info.put n info.riPageoff (4096 - info.riPageoff) (fun k => seg.byte remote (done + k)) = info₁ at hput ⊢
    have hplace := hput.cursor.place
    have hoff₁ := hput.cursor.off
    split_ifs with hcheck
    · exact ⟨rfl, hput.cursor.overrun⟩
    · exact ih hoff₁ hput.cursor.overrun (by omega) (by omega) (by omega)

end

def Overruns (n c x : Nat) : Prop := c = 4096 * n ∧ 0 < x ∧ x + 4095 < 2 ^ 32
deriving Decidable

theorem buildSges_overruns (hpage : n ≤ info.riPageno) (hnents : 0 < nents) :
    (buildSges remote n seg nents len done info).1.overrun = true := by
  cases nents with
  | zero => omega
  | succ nents =>
    have hput : ∀ len data, (info.put n info.riPageoff len data).overrun = true := fun len data => by
      simp [put_overrun, hpage]
    rw [buildSges]
    split
    · exact hput _ _
    · exact overrun_buildSges (hput _ _) _ _ _

/-- **One Read** lands where `landRead` says, or is refused, or leaves the pages. -/
theorem buildReadSegment_spec (h : CursorAt n c info) :
    if Overruns n c seg.rsLength.toNat then (svcRdmaBuildReadSegment remote n info seg).1.overrun = true
    else match landRead n c seg.rsLength.toNat with
      | some c' => c ≤ c' ∧ (svcRdmaBuildReadSegment remote n info seg).2 = none ∧
          Landed remote n seg 0 (c' - c) info (svcRdmaBuildReadSegment remote n info seg).1
      | none => (svcRdmaBuildReadSegment remote n info seg).2 ≠ none ∧
          (svcRdmaBuildReadSegment remote n info seg).1.overrun = false := by
  obtain ⟨hoff, hplace, hwithin, hover⟩ := h
  have hx := seg.rsLength.isLt
  have hmod : c % 4096 = info.riPageoff := by omega
  have hdiv : c / 4096 = info.riPageno := by omega
  have hzero : seg.rsLength = 0 ↔ seg.rsLength.toNat = 0 := by
    rw [← BitVec.toNat_inj]
    rfl
  simp only [svcRdmaBuildReadSegment, landRead, hmod, hdiv, hzero, Overruns]
  generalize seg.rsLength.toNat = x at hx ⊢
  by_cases hx0 : x = 0
  · -- nothing to read
    subst hx0
    rw [if_neg (by omega), if_pos rfl]
    by_cases hp : info.riPageoff = 0
    · rw [hp]
      simp [pagesFor, buildSges, hover]
    have hnents : pagesFor info.riPageoff = 1 := by
      unfold pagesFor
      omega
    have hpage : ¬ n ≤ info.riPageno := by omega
    simp [hnents, buildSges, put_overrun, hover, hpage]
  rw [if_neg hx0]
  set fin := info.riPageoff + x
  by_cases hwrap : fin + 4095 < 2 ^ 32
  · have hnents : pagesFor fin = (fin + 4095) / 4096 := by
      unfold pagesFor
      rw [Nat.mod_eq_of_lt hwrap]
    rw [if_pos hwrap, hnents]
    by_cases hend : c = 4096 * n
    · rw [if_pos ⟨hend, by omega, by omega⟩]
      have := @buildSges_overruns remote n info seg ((fin + 4095) / 4096) x 0 (by omega) (by omega)
      split <;> simp_all
    rw [if_neg (by omega)]
    by_cases hfits : c + x ≤ 4096 * n
    · rw [if_pos hfits]
      obtain ⟨info', heq, hlanded⟩ := @buildSges_fits remote n info seg ((fin + 4095) / 4096) x 0 hoff hover
        (by omega) (by omega) (by omega) (by omega)
      simp only [heq]
      refine ⟨by omega, if_neg (by omega), ?_⟩
      rwa [Nat.add_sub_cancel_left]
    rw [if_neg hfits]
    obtain ⟨hfalse, hover'⟩ := @buildSges_refused remote n info seg ((fin + 4095) / 4096) x 0 hoff hover
      (by omega) (by omega) (by omega)
    generalize buildSges remote n seg ((fin + 4095) / 4096) x 0 info = out at hfalse hover' ⊢
    obtain ⟨info', ok⟩ := out
    cases hfalse
    exact ⟨by simp, hover'⟩
  · rw [if_neg hwrap, if_neg (by omega)]
    by_cases hone : 2 ^ 32 < fin
    · have hnents : pagesFor fin = 1 := by
        unfold pagesFor
        omega
      have hput := @landed_put remote n info seg (4096 - info.riPageoff) 0 (by omega) (by omega) hover
      have hmin : min x (4096 - info.riPageoff) = 4096 - info.riPageoff := by omega
      rw [hnents, buildSges, hmin]
      generalize info.put n info.riPageoff (4096 - info.riPageoff) (fun k => seg.byte remote (0 + k)) = info₁ at hput ⊢
      have hplace₁ := hput.cursor.place
      have hoff₁ := hput.cursor.off
      by_cases hcheck : info.riPageno + 1 < n
      · rw [if_pos ⟨hone, hcheck⟩, if_neg (by omega)]
        simp only [buildSges]
        refine ⟨by omega, if_neg (by omega), ?_⟩
        have hlen : 4096 * (info.riPageno + 1) - c = 4096 - info.riPageoff := by omega
        rwa [hlen]
      · rw [if_neg (fun h => hcheck h.2), if_pos (by omega)]
        exact ⟨by simp, hput.cursor.overrun⟩
    · have hnents : pagesFor fin = 0 := by
        unfold pagesFor
        omega
      rw [if_neg (fun h => hone h.1), hnents]
      simp [buildSges, hover]

def Overrun (n c : Nat) (xs : List Nat) : Prop :=
  ∃ pre x post c', xs = pre ++ x :: post ∧ landing n c pre = some c' ∧ Overruns n c' x

def lengths (segs : List SvcRdmaSegment) : List Nat := segs.map (·.rsLength.toNat)

theorem overrun_cons {xs : List Nat} : Overrun n c (x :: xs) ↔
    Overruns n c x ∨ ∃ c', landRead n c x = some c' ∧ Overrun n c' xs := by
  constructor
  · rintro ⟨pre, y, post, c', heq, hpre, hy⟩
    cases pre with
    | nil =>
      cases heq
      cases hpre
      exact .inl hy
    | cons z pre =>
      cases heq
      obtain ⟨c₁, hc₁, hpre⟩ := Option.bind_eq_some_iff.1 hpre
      exact .inr ⟨c₁, hc₁, pre, y, post, c', rfl, hpre, hy⟩
  · rintro (hx | ⟨c₁, hc₁, pre, y, post, c', rfl, hpre, hy⟩)
    · exact ⟨[], x, xs, c, rfl, rfl, hx⟩
    · refine ⟨x :: pre, y, post, c', rfl, ?_, hy⟩
      rw [landing, List.foldlM_cons, hc₁]
      exact hpre

theorem landRead_of_overruns (h : Overruns n c x) : landRead n c x = none := by
  obtain ⟨rfl, hpos, hlt⟩ := h
  unfold landRead
  rw [if_neg (by omega), if_pos (by omega), if_neg (by omega)]

theorem overrun_buildReadSegment (h : info.overrun = true) (seg : SvcRdmaSegment) :
    (svcRdmaBuildReadSegment remote n info seg).1.overrun = true := by
  have hsges := @overrun_buildSges remote n info seg h (pagesFor (info.riPageoff + seg.rsLength.toNat)) seg.rsLength.toNat 0
  unfold svcRdmaBuildReadSegment
  dsimp only
  split <;> rename_i heq <;> rw [heq] at hsges <;> exact hsges

theorem overrun_buildSegments (h : info.overrun = true) (segs : List SvcRdmaSegment) :
    (buildSegments remote n segs info).1.overrun = true := by
  induction segs generalizing info with
  | nil => exact h
  | cons seg segs ih =>
    have hone := @overrun_buildReadSegment remote n info h seg
    rw [buildSegments]
    split <;> rename_i heq <;> rw [heq] at hone
    · exact hone
    · exact ih hone

/-- **Reads one behind the other**: they leave the pages just when some Read comes where they are full, and else they are
built just when all of them land. -/
theorem buildSegments_spec (segs : List SvcRdmaSegment) (h : CursorAt n c info) :
    ((buildSegments remote n segs info).1.overrun = true ↔ Overrun n c (lengths segs)) ∧
      ((buildSegments remote n segs info).2 = none → ¬ Overrun n c (lengths segs) →
        (landing n c (lengths segs)).isSome = true) ∧
      ∀ c', landing n c (lengths segs) = some c' → (buildSegments remote n segs info).2 = none ∧
        CursorAt n c' (buildSegments remote n segs info).1 ∧
        (buildSegments remote n segs info).1.riTotalbytes = info.riTotalbytes + BitVec.ofNat 32 (totalLength segs) := by
  induction segs generalizing info c with
  | nil =>
    refine ⟨⟨fun hover => ?_, ?_⟩, fun _ _ => rfl, fun c' hc' => ?_⟩
    · exact absurd (h.overrun.symm.trans hover) (by simp)
    · rintro ⟨pre, x, post, c', heq, -⟩
      cases pre <;> cases heq
    · cases hc'
      exact ⟨rfl, h, by simp [buildSegments, totalLength]⟩
  | cons seg segs ih =>
    have hspec := @buildReadSegment_spec remote n c info seg h
    have hlengths : lengths (seg :: segs) = seg.rsLength.toNat :: lengths segs := rfl
    rw [hlengths, overrun_cons, landing, List.foldlM_cons, buildSegments]
    generalize svcRdmaBuildReadSegment remote n info seg = out at hspec ⊢
    obtain ⟨info₁, e⟩ := out
    split_ifs at hspec with hover
    · rw [landRead_of_overruns hover]
      refine ⟨⟨fun _ => .inl hover, fun _ => ?_⟩, fun _ hnot => absurd (.inl hover) hnot, by simp⟩
      cases e with
      | none => exact @overrun_buildSegments remote n { info₁ with riTotalbytes := info₁.riTotalbytes + seg.rsLength } hspec segs
      | some e => exact hspec
    cases hland : landRead n c seg.rsLength.toNat with
    | none =>
      rw [hland] at hspec
      obtain ⟨hfail, hnot⟩ := hspec
      cases e with
      | none => exact absurd rfl hfail
      | some e =>
        refine ⟨⟨fun h => absurd (hnot.symm.trans h) (by simp), ?_⟩, by simp, by simp⟩
        rintro (h | ⟨_, h, -⟩)
        · exact absurd h hover
        · cases h
    | some c₁ =>
      rw [hland] at hspec
      obtain ⟨hle, hok, hlanded⟩ := hspec
      cases hok
      have hcursor : CursorAt n c₁ { info₁ with riTotalbytes := info₁.riTotalbytes + seg.rsLength } := by
        obtain ⟨hoff, hplace, hwithin, hover⟩ := hlanded.cursor
        rw [h.place, Nat.add_sub_cancel' hle] at hplace hwithin
        exact ⟨hoff, hplace, hwithin, hover⟩
      obtain ⟨hiff, hsome, hlanding⟩ := ih hcursor
      refine ⟨?_, fun hnone hnot => ?_, fun c' hc' => ?_⟩
      · rw [hiff]
        simp [hover]
      · exact hsome hnone fun hrest => hnot (.inr ⟨c₁, rfl, hrest⟩)
      · obtain ⟨hnone, hcursor', htotal⟩ := hlanding c' hc'
        refine ⟨hnone, hcursor', htotal.trans ?_⟩
        change info₁.riTotalbytes + seg.rsLength + _ = _
        rw [hlanded.total]
        simp [totalLength, BitVec.ofNat_add, BitVec.add_assoc]

def segmentBytes (remote : RemoteMemory) (segs : List SvcRdmaSegment) : List (BitVec 8) :=
  segs.flatMap fun seg => (List.range seg.rsLength.toNat).map (seg.byte remote)

theorem length_segmentBytes (segs : List SvcRdmaSegment) : (segmentBytes remote segs).length = totalLength segs := by
  simp [segmentBytes, totalLength, List.length_flatMap]

/-- **Reads that fit**: their bytes are in the pages. -/
theorem buildSegments_fits {segs : List SvcRdmaSegment} (h : CursorAt n c info) (hn : n ≤ 259)
    (hsegs : ∀ seg ∈ segs, seg.rsLength ≠ 0) (hfits : c + totalLength segs ≤ 4096 * n) :
    landing n c (lengths segs) = some (c + totalLength segs) ∧
      ∀ i, pageByte (buildSegments remote n segs info).1.pages i =
        if c ≤ i ∧ i < c + totalLength segs then (segmentBytes remote segs).getD (i - c) 0 else pageByte info.pages i := by
  induction segs generalizing info c with
  | nil =>
    refine ⟨rfl, fun i => ?_⟩
    rw [if_neg (by simp [totalLength])]
    rfl
  | cons seg segs ih =>
    obtain ⟨hseg, hsegs⟩ := List.forall_mem_cons.1 hsegs
    have htotal : totalLength (seg :: segs) = seg.rsLength.toNat + totalLength segs := by simp [totalLength]
    have hpos : 0 < seg.rsLength.toNat := by
      rw [Nat.pos_iff_ne_zero]
      intro hzero
      exact hseg (BitVec.eq_of_toNat_eq hzero)
    set next := c + seg.rsLength.toNat
    have hland : landRead n c seg.rsLength.toNat = some next := by
      unfold landRead
      rw [if_neg (by omega), if_pos (by omega), if_pos (by omega)]
    have hspec := @buildReadSegment_spec remote n c info seg h
    rw [if_neg (by unfold Overruns; omega), hland] at hspec
    obtain ⟨-, hok, hlanded⟩ := hspec
    have hlengths : lengths (seg :: segs) = seg.rsLength.toNat :: lengths segs := rfl
    rw [hlengths, landing, List.foldlM_cons, hland, htotal, buildSegments]
    generalize svcRdmaBuildReadSegment remote n info seg = out at hok hlanded ⊢
    obtain ⟨info₁, e⟩ := out
    cases hok
    rw [Nat.add_sub_cancel_left] at hlanded
    have hflat := hlanded.bytes
    have hcursor := hlanded.cursor
    rw [h.place] at hcursor hflat
    obtain ⟨hlanding, hrest⟩ := @ih _ { info₁ with riTotalbytes := info₁.riTotalbytes + seg.rsLength }
      ⟨hcursor.off, hcursor.place, hcursor.within, hcursor.overrun⟩ hsegs (by omega)
    rw [Nat.add_assoc] at hlanding
    refine ⟨hlanding, fun i => ?_⟩
    rw [hrest]
    rw [hflat]
    have hbytes : segmentBytes remote (seg :: segs) =
        (List.range seg.rsLength.toNat).map (seg.byte remote) ++ segmentBytes remote segs := rfl
    have hlen : ((List.range seg.rsLength.toNat).map (seg.byte remote)).length = seg.rsLength.toNat := by simp
    split
    · rename_i hlate
      rw [if_pos (by omega), hbytes, List.getD_append_right _ _ _ _ (by omega), hlen]
      congr 1
      omega
    rename_i hlate
    split
    · rename_i hearly
      rw [if_pos (by omega), hbytes, List.getD_append _ _ _ _ (by omega), Nat.zero_add]
      simp [List.getD_eq_getElem?_getD, show i - c < seg.rsLength.toNat by omega]
    · rename_i hearly
      rw [if_neg (by omega)]

end Vastnfs.Sunrpc
