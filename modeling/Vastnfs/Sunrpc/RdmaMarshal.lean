import Vastnfs.Lib.Bytes
import Vastnfs.Lib.Triples

/-!
# Marshalling an RPC-over-RDMA call

`rpcrdma_marshal_req` (`net/sunrpc/xprtrdma/rpc_rdma.c`) chooses how a call travels: in the Send, pulled up into the send
buffer or gathered from where it lies, or with its page list, or all of it, as a Read chunk. `xprt_rdma_send_request`
(`net/sunrpc/xprtrdma/transport.c`) may give a call up after that and come back to it later, as it was encoded.

* `rpcrdmaConvertIovs`, `rpcrdmaEncodeReadList`, `rpcrdmaPrepareSendSges`, `rpcrdmaMarshalReq`, `xprtRdmaSendRequest`: the
  functions of the source.
* `rebuilt`: what a responder makes of it.
* `marshalReq_triple`: what marshalling leaves, whether it returns or fails.
* `rpcrdmaMarshalReq_rebuilt`: the call arrives, if no earlier attempt has pulled up pages over its tail.
-/

namespace Vastnfs.Sunrpc

open Bytes Triples List

/-! ## Calls -/

/-- Where the tail of a call is: in the send buffer, or in memory of its own, at an offset in its page. -/
inductive TailPlace
  | sendbuf (off : Nat)
  | own (offset : Nat) (bytes : Nat → BitVec 8)

/-- The lengths of an `xdr_buf`, and where head and tail begin in their pages. -/
structure Iovs where
  (headLen headOffset pageBase pageLen tailLen tailOffset : Nat)

/-- `rq_rcv_buf`, with `XDRBUF_READ` and `XDRBUF_SPARSE_PAGES`. -/
structure RcvBuf where
  iovs : Iovs
  buflen : Nat
  (read sparse : Bool)

/-- `rq_snd_buf` as it has been encoded, with `XDRBUF_WRITE`, what its credential allows, and the buffers it goes with. The
head is at the start of the send buffer, and `pages` are the bytes of the page list. -/
structure EncodedCall where
  headLen : Nat
  pages : Nat → BitVec 8
  (pageBase pageLen tailLen : Nat)
  tail : TailPlace
  (write ddpAllowed : Bool)
  /-- `rdmab_length(rl_sendbuf)`. -/
  sendbufLen : Nat
  sendbufOffset : Nat
  rcv : RcvBuf
  total : headLen + pageLen + tailLen < 2 ^ 32
  behind : ∀ off, tail = .sendbuf off → headLen ≤ off

/-- What is in the send buffer, and how far it has been written. -/
structure SendBuf where
  bytes : Nat → BitVec 8
  reach : Nat := 0

def SendBuf.write (buf : SendBuf) (dst : Nat) (src : Nat → BitVec 8) (base n : Nat) : SendBuf where
  bytes := copy buf.bytes dst src base n
  reach := max buf.reach (dst + n)

namespace EncodedCall

variable (c : EncodedCall)

def len : Nat := c.headLen + c.pageLen + c.tailLen

def tailBytes (buf : SendBuf) : Nat → BitVec 8 :=
  match c.tail with
  | .sendbuf off => fun i => buf.bytes (off + i)
  | .own _ bytes => bytes

def flatten (buf : SendBuf) : List (BitVec 8) :=
  slice buf.bytes 0 c.headLen ++ (slice c.pages c.pageBase c.pageLen ++ slice (c.tailBytes buf) 0 c.tailLen)

def iovs : Iovs where
  headLen := c.headLen
  headOffset := c.sendbufOffset
  pageBase := c.pageBase
  pageLen := c.pageLen
  tailLen := c.tailLen
  tailOffset :=
    match c.tail with
    | .sendbuf off => (c.sendbufOffset + off) % 4096
    | .own offset _ => offset

end EncodedCall

/-! ## Pages -/

/-- Some bytes of one page. -/
structure PageRun where
  (pageno off len : Nat)

def PageRun.start (r : PageRun) : Nat := 4096 * r.pageno + r.off

/-- The loop over a page list, page by page. A turn takes at least one byte. -/
def pageRunsFrom : (fuel pageno off len : Nat) → List PageRun
  | 0, _, _, _ => []
  | fuel + 1, pageno, off, len =>
    if len = 0 then []
    else ⟨pageno, off, min (4096 - off) len⟩ :: pageRunsFrom fuel (pageno + 1) 0 (len - min (4096 - off) len)

def pageRuns (pageBase pageLen : Nat) : List PageRun := pageRunsFrom pageLen (pageBase / 4096) (pageBase % 4096) pageLen

/-! ## The transport header -/

inductive RpcrdmaChunktype
  | noch | nochPullup | nochMapped | readch | areadch | writech | replych
deriving DecidableEq

/-- The errors of `rpcrdma_marshal_req`. -/
inductive MarshalError
  | eagain | enobufs | emsgsize | eio
deriving DecidableEq

/-- What a connection allows: `frwr_query_device` insists on three SGEs and on some pages in a region. -/
structure RpcrdmaEp where
  (reMaxInlineSend reMaxInlineRecv maxSendSge reMaxFrDepth : Nat)
  /-- `re_mrtype` is `IB_MR_TYPE_SG_GAPS`. -/
  sgGaps : Bool
  reImplicitRoundup : Bool
  /-- The words of `rl_rdmabuf`. -/
  hdrRoom : Nat
  sges : 3 ≤ maxSendSge
  depth : 0 < reMaxFrDepth

/-- What is there when a call is marshalled: memory for sparse pages, memory regions in their order, a send context, and
DMA mappings in their order. -/
structure Resources where
  sparsePages : Bool := true
  mr : Nat → Option MarshalError := fun _ => none
  sendctx : Bool := true
  dma : Nat → Bool := fun _ => true

/-- One call of `rpcrdma_marshal_req`. -/
structure Attempt where
  ep : RpcrdmaEp
  res : Resources := {}

/-- What a memory region or an SGE covers. -/
inductive SegSource
  | head
  | page (pageno : Nat)
  | tail

/-- `struct rpcrdma_mr_seg`. -/
structure MrSeg where
  source : SegSource
  (mrOffset mrLen : Nat)

/-- What marshalling changes: the words in `rl_hdrbuf`, the regions in use, how far `rl_segments` has been written, and the
send buffer. -/
structure MarshalState where
  (hdr mrs rlSegments : Nat := 0)
  sendbuf : SendBuf

abbrev MarshalM := EStateM MarshalError MarshalState

def rpcrdmaMaxSegs : Nat := 260

section

variable (a : Attempt)

/-- `xdr_reserve_space` in the transport header. -/
def reserve (words : Nat) : MarshalM Unit := do
  check ((← get).hdr + words ≤ a.ep.hdrRoom) .emsgsize
  modify fun s => { s with hdr := s.hdr + words }

/-- The elements `rpcrdma_convert_iovs` puts into `rl_segments`. -/
def convertedSegs (b : Iovs) (pos : Nat) (type : RpcrdmaChunktype) : List MrSeg :=
  (if pos = 0 then [⟨.head, b.headOffset, b.headLen⟩] else []) ++
    (((pageRuns b.pageBase b.pageLen).map fun r => ⟨.page r.pageno, r.off, r.len⟩) ++
      if type = .readch ∨ type = .writech ∧ a.ep.reImplicitRoundup = true ∨ b.tailLen = 0 then []
      else [⟨.tail, b.tailOffset, b.tailLen⟩])

/-- The number of elements is looked at when they have been written. -/
def rpcrdmaConvertIovs (b : Iovs) (pos : Nat) (type : RpcrdmaChunktype) : MarshalM (List MrSeg) := do
  let segs := convertedSegs a b pos type
  modify fun s => { s with rlSegments := max s.rlSegments segs.length }
  check (segs.length ≤ rpcrdmaMaxSegs) .eio
  return segs

/-- How many elements `frwr_map` takes into one region. -/
def frwrNents (sgGaps : Bool) : List MrSeg → Nat
  | [] => 0
  | [_] => 1
  | seg :: next :: segs =>
    if sgGaps = false ∧ (next.mrOffset ≠ 0 ∨ (seg.mrOffset + seg.mrLen) % 4096 ≠ 0) then 1
    else frwrNents sgGaps (next :: segs) + 1

/-- `rpcrdma_mr_prepare` and `frwr_map`; a region of nothing cannot be mapped. -/
def rpcrdmaMrPrepare (segs : List MrSeg) : MarshalM (List MrSeg) := do
  let s ← get
  match a.res.mr s.mrs with
  | some e => throw e
  | none =>
    check (!segs.isEmpty) .eio
    set { s with mrs := s.mrs + 1 }
    return segs.take (frwrNents a.ep.sgGaps (segs.take a.ep.reMaxFrDepth))

/-- The loops that register a chunk, with so many words of the header for a region. A turn takes at least one element. -/
def registerChunk (words : Nat) : (fuel : Nat) → List MrSeg → MarshalM (List (List MrSeg))
  | 0, _ => throw .eio
  | fuel + 1, segs => do
    let mr ← rpcrdmaMrPrepare a segs
    reserve a words
    let rest := segs.drop mr.length
    if rest.isEmpty then return [mr]
    else
      let mrs ← registerChunk words fuel rest
      return mr :: mrs

variable (c : EncodedCall)

def rpcrdmaArgsInline : Bool :=
  c.len ≤ a.ep.reMaxInlineSend &&
    (c.pageLen == 0 || 3 + (pageRuns c.pageBase c.pageLen).length ≤ a.ep.maxSendSge)

def rtype : RpcrdmaChunktype :=
  if rpcrdmaArgsInline a c then if c.len < c.sendbufLen then .nochPullup else .nochMapped
  else if c.ddpAllowed && c.write then .readch
  else .areadch

/-- How the results travel, with `rpcrdma_results_inline` and `rpcrdma_nonpayload_inline`. -/
def wtype : RpcrdmaChunktype :=
  if c.rcv.buflen ≤ a.ep.reMaxInlineRecv then .noch
  else if c.ddpAllowed && c.rcv.read && c.rcv.iovs.headLen + c.rcv.iovs.tailLen < a.ep.reMaxInlineRecv then .writech
  else .replych

/-- A Read list of one chunk: its position and its regions. -/
abbrev ReadList := Option (Nat × List (List MrSeg))

def rpcrdmaEncodeReadList (rtype : RpcrdmaChunktype) : MarshalM ReadList := do
  if rtype = .nochPullup ∨ rtype = .nochMapped then
    reserve a 1
    return none
  else
    let pos := if rtype = .areadch then 0 else c.headLen
    let segs ← rpcrdmaConvertIovs a c.iovs pos rtype
    let mrs ← registerChunk a 6 (segs.length + 1) segs
    reserve a 1
    return some (pos, mrs)

def rpcrdmaEncodeWriteList (wtype : RpcrdmaChunktype) : MarshalM Unit := do
  if wtype = .writech then
    let segs ← rpcrdmaConvertIovs a c.rcv.iovs c.rcv.iovs.headLen wtype
    reserve a 2
    let _ ← registerChunk a 4 (segs.length + 1) segs
    reserve a 1
  else reserve a 1

def rpcrdmaEncodeReplyChunk (wtype : RpcrdmaChunktype) : MarshalM Unit := do
  if wtype = .replych then
    let segs ← rpcrdmaConvertIovs a c.rcv.iovs 0 wtype
    reserve a 2
    let _ ← registerChunk a 4 (segs.length + 1) segs
  else reserve a 1

end

/-! ## The Send -/

/-- An element of the Send: the transport header, the start of the send buffer, a page, or a part of the tail. -/
inductive Sge
  | header
  | head (len : Nat)
  | page (r : PageRun)
  | tail (off len : Nat)

namespace EncodedCall

variable (c : EncodedCall)

def rpcrdmaPullupTailIov (buf : SendBuf) : SendBuf := buf.write (c.headLen + c.pageLen) (c.tailBytes buf) 0 c.tailLen

/-- The loop of `rpcrdma_pullup_pagelist`. -/
def pullupRuns : List PageRun → (dst : Nat) → SendBuf → SendBuf
  | [], _, buf => buf
  | r :: rs, dst, buf => pullupRuns rs (dst + r.len) (buf.write dst c.pages r.start r.len)

def rpcrdmaPullupPagelist (buf : SendBuf) : SendBuf := c.pullupRuns (pageRuns c.pageBase c.pageLen) c.headLen buf

/-- What `rpcrdma_prepare_noch_pullup` does to the send buffer. -/
def pullup (buf : SendBuf) : SendBuf :=
  let buf := if c.tailLen ≠ 0 then c.rpcrdmaPullupTailIov buf else buf
  if c.pageLen ≠ 0 then c.rpcrdmaPullupPagelist buf else buf

/-- The SGEs of `rpcrdma_prepare_noch_mapped`. -/
def mappedSges : List Sge :=
  .head c.headLen :: ((pageRuns c.pageBase c.pageLen).map .page ++ if c.tailLen ≠ 0 then [.tail 0 c.tailLen] else [])

/-- The SGEs of `rpcrdma_prepare_readch`: a pad at the start of the tail is left out. -/
def readchSges : List Sge :=
  .head c.headLen :: if 3 < c.tailLen then [.tail (c.tailLen % 4) (c.tailLen - c.tailLen % 4)] else []

end EncodedCall

section

variable (c : EncodedCall) (a : Attempt)

/-- The SGEs behind that of the transport header are mapped. -/
def mapSges (sges : List Sge) : MarshalM (List Sge) := do
  check ((List.range sges.length).all a.res.dma) .eio
  return .header :: sges

def rpcrdmaPrepareSendSges (rtype : RpcrdmaChunktype) : MarshalM (List Sge) := do
  check a.res.sendctx .eagain
  match rtype with
  | .nochPullup =>
    modify fun s => { s with sendbuf := c.pullup s.sendbuf }
    mapSges a [.head c.len]
  | .nochMapped => mapSges a c.mappedSges
  | .readch => mapSges a c.readchSges
  | .areadch => return [.header]
  | _ => throw .eio

structure Marshalled where
  readList : ReadList
  sges : List Sge

/-- `rpcrdma_marshal_req` up to the transport header's end. -/
def marshalHeader : MarshalM ReadList := do
  check (!c.rcv.sparse || a.res.sparsePages) .enobufs
  reserve a 4
  let readList ← rpcrdmaEncodeReadList a c (rtype a c)
  rpcrdmaEncodeWriteList a c (wtype a c)
  rpcrdmaEncodeReplyChunk a c (wtype a c)
  return readList

def rpcrdmaMarshalReq : MarshalM Marshalled := do
  let readList ← marshalHeader c a
  let sges ← rpcrdmaPrepareSendSges c a (rtype a c)
  return ⟨readList, sges⟩

/-- What `xprt_rdma_send_request` meets: whether the transport is connected and has room, whether the call has been sent
on this connection, whether the Send can be posted, and whether a reply is expected. -/
structure SendRequest where
  attempt : Attempt
  (connected cong : Bool := true)
  sameCookie : Bool := false
  (posted replyExpected : Bool := true)

/-- What `xprt_rdma_send_request` returns. -/
inductive SendResult
  | sent | enotconn | ebadslt
  | failed (e : MarshalError)
deriving DecidableEq

/-- `xprt_rdma_send_request`, with the send buffer it leaves. After `-ENOTCONN` the task comes back with the call as it
was encoded. -/
def xprtRdmaSendRequest (buf : SendBuf) (r : SendRequest) : SendResult × SendBuf :=
  if !r.connected then (.enotconn, buf)
  else if !r.cong then (.ebadslt, buf)
  else
    match rpcrdmaMarshalReq c r.attempt { sendbuf := buf } with
    | .error e s => (.failed e, s.sendbuf)
    | .ok _ s => (if r.sameCookie || !r.posted || !r.replyExpected then .enotconn else .sent, s.sendbuf)

def sendbufAfter (buf : SendBuf) (rs : List SendRequest) : SendBuf := rs.foldl (fun buf r => (xprtRdmaSendRequest c buf r).2) buf

end

/-! ## What a responder makes of it -/

section

variable (c : EncodedCall)

/-- The bytes of an SGE; the transport header is no part of the call. -/
def sgeBytes (buf : SendBuf) : Sge → List (BitVec 8)
  | .header => []
  | .head len => slice buf.bytes 0 len
  | .page r => slice c.pages r.start r.len
  | .tail off len => slice (c.tailBytes buf) off len

def mrSegBytes (buf : SendBuf) (seg : MrSeg) : List (BitVec 8) :=
  match seg.source with
  | .head => slice buf.bytes 0 seg.mrLen
  | .page pageno => slice c.pages (4096 * pageno + seg.mrOffset) seg.mrLen
  | .tail => slice (c.tailBytes buf) 0 seg.mrLen

def xdrPad (n : Nat) : Nat := (4 - n % 4) % 4

def roundUp (xs : List (BitVec 8)) : List (BitVec 8) := xs ++ List.replicate (xdrPad xs.length) 0

/-- The payload of the Send, with the bytes of the Read chunk, rounded up, at its position. -/
def rebuilt (buf : SendBuf) (m : Marshalled) : List (BitVec 8) :=
  let payload := m.sges.flatMap (sgeBytes c buf)
  match m.readList with
  | none => payload
  | some (pos, mrs) =>
    payload.take pos ++ (roundUp (mrs.flatten.flatMap (mrSegBytes c buf)) ++ payload.drop pos)

end

/-! ## Pages and pull-up -/

section

variable {c : EncodedCall} {m : Nat → BitVec 8} {fuel pageno off len : Nat}

theorem flatMap_pageRunsFrom (hoff : off < 4096) (hfuel : len ≤ fuel) :
    ((pageRunsFrom fuel pageno off len).flatMap fun r => slice m r.start r.len) = slice m (4096 * pageno + off) len := by
  induction fuel generalizing pageno off len with
  | zero =>
    obtain rfl : len = 0 := by omega
    rfl
  | succ fuel ih =>
    rw [pageRunsFrom]
    split_ifs with hzero
    · rw [hzero]
      rfl
    rw [flatMap_cons, ih (by omega) (by omega), PageRun.start]
    dsimp only
    by_cases hlast : len ≤ 4096 - off
    · rw [Nat.min_eq_right hlast, Nat.sub_self, slice_zero, append_nil]
    rw [Nat.min_eq_left (by omega)]
    have hnext : 4096 * (pageno + 1) + 0 = 4096 * pageno + off + (4096 - off) := by omega
    rw [hnext, slice_append, Nat.add_sub_cancel' (by omega)]

/-- **The pages of a page list** hold its bytes. -/
theorem flatMap_pageRuns (pageBase pageLen : Nat) :
    ((pageRuns pageBase pageLen).flatMap fun r => slice m r.start r.len) = slice m pageBase pageLen := by
  rw [pageRuns, flatMap_pageRunsFrom (Nat.mod_lt _ (by decide)) le_rfl, Nat.div_add_mod]

theorem pullupRuns_pageRunsFrom {dst : Nat} {buf : SendBuf} (hoff : off < 4096) (hfuel : len ≤ fuel) :
    (c.pullupRuns (pageRunsFrom fuel pageno off len) dst buf).bytes = copy buf.bytes dst c.pages (4096 * pageno + off) len ∧
      (c.pullupRuns (pageRunsFrom fuel pageno off len) dst buf).reach ≤ max buf.reach (dst + len) := by
  induction fuel generalizing pageno off len dst buf with
  | zero =>
    obtain rfl : len = 0 := by omega
    exact ⟨copy_zero.symm, Nat.le_max_left _ _⟩
  | succ fuel ih =>
    rw [pageRunsFrom]
    split_ifs with hzero
    · rw [hzero]
      exact ⟨copy_zero.symm, Nat.le_max_left _ _⟩
    rw [EncodedCall.pullupRuns]
    obtain ⟨hbytes, hreach⟩ := @ih (pageno + 1) 0 (len - min (4096 - off) len) (dst + min (4096 - off) len)
      (buf.write dst c.pages (4096 * pageno + off) (min (4096 - off) len)) (by omega) (by omega)
    refine ⟨hbytes.trans ?_, hreach.trans ?_⟩
    · rw [SendBuf.write]
      by_cases hlast : len ≤ 4096 - off
      · rw [Nat.min_eq_right hlast, Nat.sub_self, copy_zero]
      rw [Nat.min_eq_left (by omega)]
      have hnext : 4096 * (pageno + 1) + 0 = 4096 * pageno + off + (4096 - off) := by omega
      rw [hnext, copy_append, Nat.add_sub_cancel' (by omega)]
    · rw [SendBuf.write]
      dsimp only
      omega

/-- **Pulling up**: the pages are behind the head, and the tail as it was is behind them. -/
theorem pullup_spec (c : EncodedCall) (buf : SendBuf) :
    (c.pullup buf).bytes = copy (copy buf.bytes (c.headLen + c.pageLen) (c.tailBytes buf) 0 c.tailLen)
        c.headLen c.pages c.pageBase c.pageLen ∧
      (c.pullup buf).reach ≤ max buf.reach c.len := by
  have htail : ∃ buf', (if c.tailLen ≠ 0 then c.rpcrdmaPullupTailIov buf else buf) = buf' ∧
      buf'.bytes = copy buf.bytes (c.headLen + c.pageLen) (c.tailBytes buf) 0 c.tailLen ∧ buf'.reach ≤ max buf.reach c.len := by
    refine ⟨_, rfl, ?_⟩
    split_ifs with hzero
    · exact ⟨rfl, le_rfl⟩
    · rw [not_not.1 hzero]
      exact ⟨copy_zero.symm, Nat.le_max_left _ _⟩
  obtain ⟨buf', hbuf', hbytes, hreach⟩ := htail
  unfold EncodedCall.pullup
  rw [hbuf', ← hbytes]
  split_ifs with hzero
  · obtain ⟨hpages, hreach'⟩ := @pullupRuns_pageRunsFrom c c.pageLen (c.pageBase / 4096) (c.pageBase % 4096) c.pageLen
      c.headLen buf' (Nat.mod_lt _ (by decide)) le_rfl
    rw [Nat.div_add_mod] at hpages
    refine ⟨hpages, hreach'.trans ?_⟩
    unfold EncodedCall.len at hreach ⊢
    omega
  · rw [not_not.1 hzero, copy_zero]
    exact ⟨rfl, hreach⟩

theorem slice_pullup (c : EncodedCall) (buf : SendBuf) : slice (c.pullup buf).bytes 0 c.len = c.flatten buf := by
  rw [(pullup_spec c buf).1, EncodedCall.len, EncodedCall.flatten, ← slice_append, ← slice_append, append_assoc,
    Nat.zero_add]
  congr 1
  · rw [slice_copy_before (by omega), slice_copy_before (by omega)]
  · congr 1
    · exact slice_copy
    · rw [Nat.zero_add, slice_copy_behind le_rfl, slice_copy]

end

/-! ## What marshalling leaves -/

section

variable {c : EncodedCall} {a : Attempt} {buf : SendBuf} {E : MarshalState → Prop}

/-- Nothing has been written behind `rl_segments`, and the send buffer has not been touched. -/
def Marshalling (buf : SendBuf) (s : MarshalState) : Prop := s.rlSegments ≤ rpcrdmaMaxSegs ∧ s.sendbuf = buf

section

variable (hE : ∀ s : MarshalState, s.sendbuf = buf → E s)
include hE

theorem reserve_triple (words : Nat) : Triple (Marshalling buf) (reserve a words) (fun _ => Marshalling buf) E := by
  refine triple_bind triple_get fun _ => triple_bind (triple_check fun s hs => hE s hs.1.2) fun _ => ?_
  exact triple_modify fun s hs => hs.1.1

theorem convertIovs_triple (b : Iovs) (pos : Nat) (type : RpcrdmaChunktype) :
    Triple (Marshalling buf) (rpcrdmaConvertIovs a b pos type)
      (fun segs s => segs = convertedSegs a b pos type ∧ Marshalling buf s) E := by
  have hmodify : Triple (Marshalling buf)
      (modify fun s => { s with rlSegments := max s.rlSegments (convertedSegs a b pos type).length } : MarshalM Unit)
      (fun _ s => s.rlSegments ≤ max rpcrdmaMaxSegs (convertedSegs a b pos type).length ∧ s.sendbuf = buf) E :=
    triple_modify fun s hs => ⟨by have := hs.1; dsimp only; omega, hs.2⟩
  refine triple_bind hmodify fun _ => triple_bind (triple_check fun s hs => hE s hs.2) fun _ => ?_
  refine triple_pure fun s hs => ⟨rfl, ?_, hs.1.2⟩
  have hlen := of_decide_eq_true hs.2
  omega

theorem mrPrepare_triple (segs : List MrSeg) :
    Triple (Marshalling buf) (rpcrdmaMrPrepare a segs) (fun mr s => (∃ rest, mr ++ rest = segs) ∧ Marshalling buf s) E := by
  refine triple_bind triple_get fun s => ?_
  cases a.res.mr s.mrs with
  | some e => exact triple_throw fun s hs => hE s hs.1.2
  | none =>
    have hset : Triple (fun t => (Marshalling buf t ∧ s = t) ∧ (!segs.isEmpty) = true)
        (set { s with mrs := s.mrs + 1 } : MarshalM Unit) (fun _ => Marshalling buf) E :=
      triple_set fun t ht => ht.1.2 ▸ ht.1.1
    refine triple_bind (triple_check fun s hs => hE s hs.1.2) fun _ => triple_bind hset fun _ => ?_
    exact triple_pure fun s hs => ⟨⟨_, take_append_drop _ _⟩, hs⟩

/-- **Registering a chunk**: the regions hold its elements in their order. -/
theorem registerChunk_triple (words fuel : Nat) (segs : List MrSeg) :
    Triple (Marshalling buf) (registerChunk a words fuel segs) (fun mrs s => mrs.flatten = segs ∧ Marshalling buf s) E := by
  induction fuel generalizing segs with
  | zero => exact triple_throw fun s hs => hE s hs.2
  | succ fuel ih =>
    refine triple_bind (mrPrepare_triple hE segs) fun mr => ?_
    refine triple_fact fun ⟨rest, hrest⟩ => triple_bind (reserve_triple hE words) fun _ => ?_
    have hdrop : segs.drop mr.length = rest := by rw [← hrest, drop_left]
    dsimp only
    rw [hdrop]
    split_ifs with hempty
    · rw [isEmpty_iff.1 hempty] at hrest
      exact triple_pure fun s hs => ⟨by simpa using hrest, hs⟩
    · refine triple_bind (ih rest) fun mrs => triple_pure fun s hs => ⟨?_, hs.2⟩
      rw [flatten_cons, hs.1, hrest]

end

def ReadListOf (a : Attempt) (c : EncodedCall) (rtype : RpcrdmaChunktype) (r : ReadList) : Prop :=
  if rtype = .nochPullup ∨ rtype = .nochMapped then r = none
  else ∃ mrs, r = some (if rtype = .areadch then 0 else c.headLen, mrs) ∧
    mrs.flatten = convertedSegs a c.iovs (if rtype = .areadch then 0 else c.headLen) rtype

section

variable (hE : ∀ s : MarshalState, s.sendbuf = buf → E s)
include hE

theorem encodeReadList_triple (rtype : RpcrdmaChunktype) :
    Triple (Marshalling buf) (rpcrdmaEncodeReadList a c rtype) (fun r s => ReadListOf a c rtype r ∧ Marshalling buf s) E := by
  unfold rpcrdmaEncodeReadList ReadListOf
  split
  · exact triple_bind (reserve_triple hE 1) fun _ => triple_pure fun s hs => ⟨rfl, hs⟩
  refine triple_bind (convertIovs_triple hE _ _ _) fun segs => triple_fact fun hsegs => ?_
  refine triple_bind (registerChunk_triple hE 6 _ segs) fun mrs => triple_fact fun hmrs => ?_
  exact triple_bind (reserve_triple hE 1) fun _ => triple_pure fun s hs => ⟨⟨mrs, rfl, hmrs.trans hsegs⟩, hs⟩

theorem encodeWriteList_triple (wtype : RpcrdmaChunktype) :
    Triple (Marshalling buf) (rpcrdmaEncodeWriteList a c wtype) (fun _ => Marshalling buf) E := by
  unfold rpcrdmaEncodeWriteList
  split
  · refine triple_bind (convertIovs_triple hE _ _ _) fun segs => triple_fact fun _ => ?_
    refine triple_bind (reserve_triple hE 2) fun _ => triple_bind (registerChunk_triple hE 4 _ segs) fun mrs => ?_
    exact triple_fact fun _ => reserve_triple hE 1
  · exact reserve_triple hE 1

theorem encodeReplyChunk_triple (wtype : RpcrdmaChunktype) :
    Triple (Marshalling buf) (rpcrdmaEncodeReplyChunk a c wtype) (fun _ => Marshalling buf) E := by
  unfold rpcrdmaEncodeReplyChunk
  split
  · refine triple_bind (convertIovs_triple hE _ _ _) fun segs => triple_fact fun _ => ?_
    refine triple_bind (reserve_triple hE 2) fun _ => triple_bind (registerChunk_triple hE 4 _ segs) fun mrs => ?_
    exact triple_pure fun s hs => hs.2
  · exact reserve_triple hE 1

end

def sgesOf (c : EncodedCall) (rtype : RpcrdmaChunktype) : List Sge :=
  .header :: match rtype with
    | .nochPullup => [.head c.len]
    | .nochMapped => c.mappedSges
    | .readch => c.readchSges
    | _ => []

def preparedBuf (c : EncodedCall) (rtype : RpcrdmaChunktype) (buf : SendBuf) : SendBuf :=
  if rtype = .nochPullup then c.pullup buf else buf

theorem mapSges_triple {P : MarshalState → Prop} (hE : ∀ s, P s → E s) (sges : List Sge) :
    Triple P (mapSges a sges) (fun out s => out = .header :: sges ∧ P s) E :=
  triple_bind (triple_check hE) fun _ => triple_pure fun _ hs => ⟨rfl, hs.1⟩

theorem prepareSendSges_triple (rtype : RpcrdmaChunktype)
    (hE : ∀ s : MarshalState, s.sendbuf = buf ∨ a.res.sendctx = true ∧ s.sendbuf = preparedBuf c rtype buf → E s) :
    Triple (Marshalling buf) (rpcrdmaPrepareSendSges c a rtype)
      (fun sges s => sges = sgesOf c rtype ∧ Marshalling (preparedBuf c rtype buf) s ∧ a.res.sendctx = true) E := by
  have hfails : ∀ s, Marshalling buf s ∧ a.res.sendctx = true → E s := fun s hs => hE s (.inl hs.1.2)
  have hmapped : ∀ (rtype : RpcrdmaChunktype) sges, rtype ≠ .nochPullup → sgesOf c rtype = .header :: sges →
      Triple (fun s => Marshalling buf s ∧ a.res.sendctx = true) (mapSges a sges)
        (fun sges s => sges = sgesOf c rtype ∧ Marshalling (preparedBuf c rtype buf) s ∧ a.res.sendctx = true) E := by
    intro rtype sges hne hsges
    rw [hsges, preparedBuf, if_neg hne]
    exact mapSges_triple hfails sges
  refine triple_bind (triple_check fun s hs => hE s (.inl hs.2)) fun _ => ?_
  cases rtype with
  | nochPullup =>
    have hpullup : Triple (fun s => Marshalling buf s ∧ a.res.sendctx = true)
        (modify fun s => { s with sendbuf := c.pullup s.sendbuf } : MarshalM Unit)
        (fun _ s => Marshalling (preparedBuf c .nochPullup buf) s ∧ a.res.sendctx = true) E :=
      triple_modify fun s hs => ⟨⟨hs.1.1, congrArg c.pullup hs.1.2⟩, hs.2⟩
    exact triple_bind hpullup fun _ => mapSges_triple (fun s hs => hE s (.inr ⟨hs.2, hs.1.2⟩)) _
  | nochMapped => exact hmapped .nochMapped _ nofun rfl
  | readch => exact hmapped .readch _ nofun rfl
  | areadch => exact triple_pure fun s hs => ⟨rfl, hs⟩
  | noch | writech | replych => exact triple_throw hfails

/-- A transport header that is complete does not depend on the send buffer. -/
def SendPrepared (c : EncodedCall) (a : Attempt) : Prop :=
  a.res.sendctx = true ∧ ∃ buf l s, marshalHeader c a { sendbuf := buf } = .ok l s

theorem marshalHeader_triple (hE : ∀ s : MarshalState, s.sendbuf = buf → E s) :
    Triple (fun s => s = { sendbuf := buf }) (marshalHeader c a)
      (fun r s => (ReadListOf a c (rtype a c) r ∧ ∃ buf l s, marshalHeader c a { sendbuf := buf } = .ok l s) ∧
        Marshalling buf s) E := by
  have hlists : Triple (Marshalling buf) (marshalHeader c a) (fun r s => ReadListOf a c (rtype a c) r ∧ Marshalling buf s) E := by
    refine triple_bind (triple_check fun s hs => hE s hs.2) fun _ => ?_
    refine triple_imp (fun s hs => hs.1) (triple_bind (reserve_triple hE 4) fun _ => ?_)
    refine triple_bind (encodeReadList_triple hE _) fun r => triple_fact fun hr => ?_
    refine triple_bind (encodeWriteList_triple hE _) fun _ => ?_
    exact triple_bind (encodeReplyChunk_triple hE _) fun _ => triple_pure fun s hs => ⟨hr, hs⟩
  rintro _ rfl
  have hspec := hlists { sendbuf := buf } ⟨Nat.zero_le _, rfl⟩
  split <;> rename_i hout <;> rw [hout] at hspec
  · exact ⟨⟨hspec.1, _, _, _, hout⟩, hspec.2⟩
  · exact hspec

/-- **What marshalling leaves**, whether it returns or fails. -/
theorem marshalReq_triple (c : EncodedCall) (a : Attempt) (buf : SendBuf) :
    Triple (fun s => s = { sendbuf := buf }) (rpcrdmaMarshalReq c a)
      (fun m s => ReadListOf a c (rtype a c) m.readList ∧ m.sges = sgesOf c (rtype a c) ∧
        Marshalling (preparedBuf c (rtype a c) buf) s ∧ SendPrepared c a)
      (fun s => s.sendbuf = buf ∨ SendPrepared c a ∧ s.sendbuf = preparedBuf c (rtype a c) buf) := by
  refine triple_bind (marshalHeader_triple fun _ => .inl) fun r => triple_fact fun ⟨hr, hheader⟩ => ?_
  have hfails : ∀ s : MarshalState, s.sendbuf = buf ∨ a.res.sendctx = true ∧ s.sendbuf = preparedBuf c (rtype a c) buf →
      s.sendbuf = buf ∨ SendPrepared c a ∧ s.sendbuf = preparedBuf c (rtype a c) buf := by
    rintro s (hs | ⟨hctx, hs⟩)
    · exact .inl hs
    · exact .inr ⟨⟨hctx, hheader⟩, hs⟩
  refine triple_bind (prepareSendSges_triple _ hfails) fun sges => triple_pure fun s hs => ?_
  exact ⟨hr, hs.1, hs.2.1, hs.2.2, hheader⟩

end

/-! ## Each way to travel -/

section

variable {c : EncodedCall} {a : Attempt} {buf : SendBuf} {mrs : List (List MrSeg)}

/-- The tail begins with the pad of the page list, as `xdr_write_pages` leaves it. -/
def EncodedCall.Padded (c : EncodedCall) (buf : SendBuf) : Prop :=
  slice (c.tailBytes buf) 0 (c.tailLen % 4) = List.replicate (xdrPad c.pageLen) 0

theorem flatMap_pages_mrSegBytes :
    (((pageRuns c.pageBase c.pageLen).map fun r => (⟨.page r.pageno, r.off, r.len⟩ : MrSeg)).flatMap (mrSegBytes c buf)) =
      slice c.pages c.pageBase c.pageLen := by
  rw [flatMap_map]
  exact flatMap_pageRuns _ _

theorem rebuilt_mapped : rebuilt c buf ⟨none, sgesOf c .nochMapped⟩ = c.flatten buf := by
  have htail : (if c.tailLen ≠ 0 then [Sge.tail 0 c.tailLen] else []).flatMap (sgeBytes c buf) =
      slice (c.tailBytes buf) 0 c.tailLen := by
    split_ifs with hzero
    · simp [sgeBytes]
    · rw [not_not.1 hzero]
      rfl
  have hpages : ((pageRuns c.pageBase c.pageLen).map Sge.page).flatMap (sgeBytes c buf) = slice c.pages c.pageBase c.pageLen := by
    rw [flatMap_map]
    exact flatMap_pageRuns _ _
  simp only [rebuilt, sgesOf, EncodedCall.mappedSges, flatMap_cons, flatMap_append, htail, hpages, sgeBytes,
    nil_append, EncodedCall.flatten]

theorem flatMap_readch (hmrs : mrs.flatten = convertedSegs a c.iovs c.headLen .readch) :
    mrs.flatten.flatMap (mrSegBytes c buf) = slice c.pages c.pageBase c.pageLen := by
  have hhead : (if c.headLen = 0 then [(⟨.head, c.iovs.headOffset, c.iovs.headLen⟩ : MrSeg)] else []).flatMap (mrSegBytes c buf) =
      [] := by
    split_ifs with hzero
    · simp [mrSegBytes, EncodedCall.iovs, hzero]
    · rfl
  have hpages := @flatMap_pages_mrSegBytes c buf
  rw [hmrs, convertedSegs, flatMap_append, hhead]
  simp only [true_or, if_true, append_nil, nil_append]
  exact hpages

/-- **With the page list as a Read chunk** the call arrives just when its tail begins with the pad. -/
theorem rebuilt_readch (hmrs : mrs.flatten = convertedSegs a c.iovs c.headLen .readch) :
    rebuilt c buf ⟨some (c.headLen, mrs), sgesOf c .readch⟩ = c.flatten buf ↔ c.Padded buf := by
  have hrest : (if 3 < c.tailLen then [Sge.tail (c.tailLen % 4) (c.tailLen - c.tailLen % 4)] else []).flatMap (sgeBytes c buf) =
      slice (c.tailBytes buf) (c.tailLen % 4) (c.tailLen - c.tailLen % 4) := by
    split
    · simp [sgeBytes]
    have hzero : c.tailLen - c.tailLen % 4 = 0 := by omega
    rw [hzero]
    rfl
  have htail : slice (c.tailBytes buf) 0 c.tailLen =
      slice (c.tailBytes buf) 0 (c.tailLen % 4) ++ slice (c.tailBytes buf) (c.tailLen % 4) (c.tailLen - c.tailLen % 4) := by
    have hsplit := @slice_append _ (c.tailBytes buf) 0 (c.tailLen - c.tailLen % 4) (c.tailLen % 4)
    rw [Nat.zero_add, Nat.add_sub_cancel' (Nat.mod_le _ _)] at hsplit
    exact hsplit.symm
  have hpayload : (sgesOf c .readch).flatMap (sgeBytes c buf) = slice buf.bytes 0 c.headLen ++
      slice (c.tailBytes buf) (c.tailLen % 4) (c.tailLen - c.tailLen % 4) := by
    simp [sgesOf, EncodedCall.readchSges, flatMap_cons, hrest, sgeBytes]
  unfold rebuilt
  dsimp only
  rw [hpayload, flatMap_readch hmrs, take_left' length_slice, drop_left' length_slice, roundUp, length_slice,
    EncodedCall.flatten, htail, append_assoc, append_cancel_left_eq, append_cancel_left_eq,
    append_cancel_right_eq]
  exact eq_comm

theorem flatMap_areadch (hmrs : mrs.flatten = convertedSegs a c.iovs 0 .areadch) :
    mrs.flatten.flatMap (mrSegBytes c buf) = c.flatten buf := by
  have htail : (if c.tailLen = 0 then [] else [(⟨.tail, c.iovs.tailOffset, c.iovs.tailLen⟩ : MrSeg)]).flatMap (mrSegBytes c buf) =
      slice (c.tailBytes buf) 0 c.tailLen := by
    split_ifs with hzero
    · rw [hzero]
      rfl
    · simp [mrSegBytes, EncodedCall.iovs]
  have hpages := @flatMap_pages_mrSegBytes c buf
  have hif : ∀ b : Iovs, (if RpcrdmaChunktype.areadch = .readch ∨
      RpcrdmaChunktype.areadch = .writech ∧ a.ep.reImplicitRoundup = true ∨ b.tailLen = 0 then ([] : List MrSeg)
      else [⟨.tail, b.tailOffset, b.tailLen⟩]) = if b.tailLen = 0 then [] else [⟨.tail, b.tailOffset, b.tailLen⟩] := by
    intro b
    simp
  rw [hmrs, convertedSegs, hif, flatMap_append, flatMap_append]
  have hhead : [(⟨.head, c.iovs.headOffset, c.iovs.headLen⟩ : MrSeg)].flatMap (mrSegBytes c buf) = slice buf.bytes 0 c.headLen := by
    simp [mrSegBytes, EncodedCall.iovs]
  congr 1
  exact congrArg₂ _ hpages htail

theorem length_flatten (c : EncodedCall) (buf : SendBuf) : (c.flatten buf).length = c.len := by
  simp [EncodedCall.flatten, EncodedCall.len, Nat.add_assoc]

/-- **With all of it as a Read chunk** the call arrives just when it ends with a word. -/
theorem rebuilt_areadch (hmrs : mrs.flatten = convertedSegs a c.iovs 0 .areadch) :
    rebuilt c buf ⟨some (0, mrs), sgesOf c .areadch⟩ = c.flatten buf ↔ 4 ∣ c.len := by
  have hpayload : (sgesOf c .areadch).flatMap (sgeBytes c buf) = [] := rfl
  unfold rebuilt
  dsimp only
  rw [hpayload, flatMap_areadch hmrs, roundUp, length_flatten, take_nil, drop_nil, nil_append, append_nil,
    append_right_eq_self, replicate_eq_nil_iff, xdrPad]
  omega

theorem length_sgesOf (c : EncodedCall) (a : Attempt) : (sgesOf c (rtype a c)).length ≤ a.ep.maxSendSge := by
  have hmin := a.ep.sges
  unfold rtype
  split
  · rename_i hinline
    split
    · simp [sgesOf]
      omega
    simp only [rpcrdmaArgsInline, Bool.and_eq_true, Bool.or_eq_true, decide_eq_true_eq, beq_iff_eq] at hinline
    have htail : (if c.tailLen ≠ 0 then [Sge.tail 0 c.tailLen] else []).length ≤ 1 := by
      split <;> simp
    simp only [sgesOf, EncodedCall.mappedSges, length_cons, length_append, length_map]
    rcases hinline.2 with hzero | hfits
    · have hnone : pageRuns c.pageBase c.pageLen = [] := by
        rw [hzero]
        rfl
      rw [hnone, length_nil]
      omega
    · omega
  · have htail : (if 3 < c.tailLen then [Sge.tail (c.tailLen % 4) (c.tailLen - c.tailLen % 4)] else []).length ≤ 1 := by
      split <;> simp
    split
    · simp only [sgesOf, EncodedCall.readchSges, length_cons]
      omega
    · simp only [sgesOf, length_cons, length_nil]
      omega

end

/-! ## Attempts -/

variable {c : EncodedCall} {buf buf' : SendBuf} {a : Attempt}

/-- Head and tail are as they were encoded, and no write has gone behind the send buffer. -/
structure Intact (c : EncodedCall) (buf buf' : SendBuf) : Prop where
  head : slice buf'.bytes 0 c.headLen = slice buf.bytes 0 c.headLen
  tail : slice (c.tailBytes buf') 0 c.tailLen = slice (c.tailBytes buf) 0 c.tailLen
  reach : buf'.reach ≤ c.sendbufLen

/-- Pulling up does not change the tail where it lies: there is none, or it is not in the send buffer, or it already lies
where it goes to, or behind all that is written. -/
def EncodedCall.TailApart (c : EncodedCall) : Prop :=
  match c.tail with
  | .own _ _ => True
  | .sendbuf off => c.tailLen = 0 ∨ off = c.headLen + c.pageLen ∨ c.len ≤ off

instance (c : EncodedCall) : Decidable c.TailApart := by
  unfold EncodedCall.TailApart
  split <;> infer_instance

/-- The attempt gets to `rpcrdma_prepare_noch_pullup`. -/
def PullsUp (c : EncodedCall) (r : SendRequest) : Prop :=
  r.connected = true ∧ r.cong = true ∧ SendPrepared c r.attempt ∧ rtype r.attempt c = .nochPullup

theorem sendRequest_sendbuf (c : EncodedCall) (buf : SendBuf) (r : SendRequest) :
    (xprtRdmaSendRequest c buf r).2 = buf ∨ (r.connected = true ∧ r.cong = true ∧ SendPrepared c r.attempt) ∧
      (xprtRdmaSendRequest c buf r).2 = preparedBuf c (rtype r.attempt c) buf := by
  have hspec := marshalReq_triple c r.attempt buf _ rfl
  unfold xprtRdmaSendRequest
  split
  · exact .inl rfl
  rename_i hconnected
  split
  · exact .inl rfl
  rename_i hcong
  simp only [Bool.not_eq_true', Bool.not_eq_false] at hconnected hcong
  cases hout : rpcrdmaMarshalReq c r.attempt { sendbuf := buf } with
  | error e s =>
    rw [hout] at hspec
    exact hspec.imp_right fun h => ⟨⟨hconnected, hcong, h.1⟩, h.2⟩
  | ok m s =>
    rw [hout] at hspec
    exact .inr ⟨⟨hconnected, hcong, hspec.2.2.2⟩, hspec.2.2.1.2⟩

theorem len_lt_of_pullup (h : rtype a c = .nochPullup) : c.len < c.sendbufLen := by
  unfold rtype at h
  split at h
  · split at h
    · assumption
    · cases h
  · split at h <;> cases h

section

variable (h : Intact c buf buf')
include h

theorem Intact.flatten : c.flatten buf' = c.flatten buf := by
  rw [EncodedCall.flatten, h.head, h.tail, EncodedCall.flatten]

theorem Intact.padded : c.Padded buf' ↔ c.Padded buf := by
  have htake : ∀ b : SendBuf, slice (c.tailBytes b) 0 (c.tailLen % 4) = (slice (c.tailBytes b) 0 c.tailLen).take (c.tailLen % 4) := by
    intro b
    have := @take_drop_slice _ (c.tailBytes b) 0 c.tailLen 0 (c.tailLen % 4) (by have := Nat.mod_le c.tailLen 4; omega)
    exact this.symm
  rw [EncodedCall.Padded, htake, h.tail, ← htake, EncodedCall.Padded]

theorem Intact.pullup (hapart : c.TailApart) (hlen : c.len < c.sendbufLen) :
    Intact c buf (c.pullup buf') := by
  obtain ⟨hbytes, hreach⟩ := pullup_spec c buf'
  refine ⟨?_, ?_, ?_⟩
  · rw [hbytes, slice_copy_before (by omega), slice_copy_before (by omega), h.head]
  · rw [← h.tail]
    unfold EncodedCall.TailApart at hapart
    unfold EncodedCall.tailBytes at hbytes ⊢
    refine slice_congr fun i hi => ?_
    cases htail : c.tail with
    | own offset bytes => rfl
    | sendbuf off =>
      rw [htail] at hapart hbytes
      dsimp only at hapart hbytes ⊢
      rw [hbytes]
      have hlen' : c.len = c.headLen + c.pageLen + c.tailLen := rfl
      rcases hapart with hzero | rfl | hoff
      · omega
      · rw [copy_outside (by omega), copy_inside (by omega)]
        congr 1
        omega
      · rw [copy_outside (by omega), copy_outside (by omega)]
  · have := h.reach
    omega

theorem Intact.prepared (a : Attempt) (hapart : rtype a c = .nochPullup → c.TailApart) :
    Intact c buf (preparedBuf c (rtype a c) buf') := by
  unfold preparedBuf
  split_ifs with hpullup
  · exact h.pullup (hapart hpullup) (len_lt_of_pullup hpullup)
  · exact h

/-- **One attempt** leaves the call as it was encoded, unless it pulls up pages over the tail. -/
theorem Intact.step (r : SendRequest) (hapart : PullsUp c r → c.TailApart) :
    Intact c buf (xprtRdmaSendRequest c buf' r).2 := by
  rcases sendRequest_sendbuf c buf' r with heq | ⟨⟨hconnected, hcong, hprepared⟩, heq⟩
  · rwa [heq]
  · rw [heq]
    exact h.prepared r.attempt fun hpullup => hapart ⟨hconnected, hcong, hprepared, hpullup⟩

theorem Intact.run {rs : List SendRequest}
    (hapart : ∀ r ∈ rs, PullsUp c r → c.TailApart) : Intact c buf (sendbufAfter c buf' rs) := by
  induction rs generalizing buf' with
  | nil => exact h
  | cons r rs ih =>
    obtain ⟨hr, hrs⟩ := forall_mem_cons.1 hapart
    exact ih (h.step r hr) hrs

theorem rebuilt_iff {m : Marshalled} (hreads : ReadListOf a c (rtype a c) m.readList)
    (hsges : m.sges = sgesOf c (rtype a c)) :
    rebuilt c (preparedBuf c (rtype a c) buf') m = c.flatten buf ↔
      (rtype a c = .readch → c.Padded buf) ∧ (rtype a c = .areadch → 4 ∣ c.len) := by
  obtain ⟨readList, sges⟩ := m
  dsimp only at hreads hsges
  rw [hsges, ← h.flatten, ← h.padded]
  have hcases : rtype a c = .nochPullup ∨ rtype a c = .nochMapped ∨ rtype a c = .readch ∨ rtype a c = .areadch := by
    unfold rtype
    split <;> split <;> simp
  rcases hcases with hr | hr | hr | hr <;> rw [hr] at hreads ⊢
  · rw [ReadListOf, if_pos (.inl rfl)] at hreads
    have hpullup : rebuilt c (c.pullup buf') ⟨none, sgesOf c .nochPullup⟩ = c.flatten buf' := by
      simpa [rebuilt, sgesOf, sgeBytes] using slice_pullup c buf'
    simpa [hreads, preparedBuf] using hpullup
  · rw [ReadListOf, if_pos (.inr rfl)] at hreads
    simpa [hreads, preparedBuf] using @rebuilt_mapped c buf'
  · obtain ⟨mrs, rfl, hmrs⟩ := hreads
    simpa [preparedBuf] using rebuilt_readch hmrs
  · obtain ⟨mrs, rfl, hmrs⟩ := hreads
    simpa [preparedBuf] using rebuilt_areadch hmrs

end

/-- **The call arrives as it was encoded** on every attempt that marshals it, if no earlier one has pulled up pages over its
tail; as a Read chunk, if its pad or its length are those of words. No attempt takes too many SGEs or writes too far. -/
theorem rpcrdmaMarshalReq_rebuilt (c : EncodedCall) (mem : Nat → BitVec 8) (before : List SendRequest) (a : Attempt)
    {m : Marshalled} {s : MarshalState} (hbefore : ∀ r ∈ before, PullsUp c r → c.TailApart)
    (hret : rpcrdmaMarshalReq c a { sendbuf := sendbufAfter c { bytes := mem } before } = .ok m s) :
    (rebuilt c s.sendbuf m = c.flatten { bytes := mem } ↔
        (rtype a c = .readch → c.Padded { bytes := mem }) ∧ (rtype a c = .areadch → 4 ∣ c.len)) ∧
      m.sges.length ≤ a.ep.maxSendSge ∧ s.rlSegments ≤ rpcrdmaMaxSegs ∧ s.sendbuf.reach ≤ c.sendbufLen := by
  have hstart : Intact c { bytes := mem } { bytes := mem } := ⟨rfl, rfl, Nat.zero_le _⟩
  have hintact := hstart.run hbefore
  obtain ⟨hreads, hsges, ⟨hsegs, hbuf⟩, -⟩ := (marshalReq_triple c a (sendbufAfter c { bytes := mem } before)).of_ok rfl hret
  refine ⟨hbuf ▸ rebuilt_iff hintact hreads hsges, hsges ▸ length_sgesOf c a, hsegs, ?_⟩
  rw [hbuf, preparedBuf]
  split_ifs with hpullup
  · have hlen := len_lt_of_pullup hpullup
    have hreach := (pullup_spec c (sendbufAfter c { bytes := mem } before)).2
    have := hintact.reach
    omega
  · exact hintact.reach

/-- A call of three words, its tail behind the head in the send buffer as `xdr_write_pages` leaves it. -/
def sampleCall : EncodedCall where
  headLen := 4
  pages := fun i => BitVec.ofNat 8 (10 + i)
  pageBase := 0
  pageLen := 4
  tailLen := 4
  tail := .sendbuf 4
  write := true
  ddpAllowed := true
  sendbufLen := 64
  sendbufOffset := 0
  rcv := { iovs := ⟨64, 0, 0, 0, 0, 0⟩, buflen := 64, read := false, sparse := false }
  total := by decide
  behind := fun off h => by
    cases h
    decide

def sampleAttempt (inlineSend : Nat) : Attempt where
  ep :=
    { reMaxInlineSend := inlineSend
      reMaxInlineRecv := 64
      maxSendSge := 4
      reMaxFrDepth := 8
      sgGaps := false
      reImplicitRoundup := true
      hdrRoom := 32
      sges := by decide
      depth := by decide }

def sampleMem (i : Nat) : BitVec 8 := BitVec.ofNat 8 (i + 1)

theorem rpcrdmaMarshalReq_rebuilt_sample :
    ∃ m s, rpcrdmaMarshalReq sampleCall (sampleAttempt 64)
        { sendbuf := sendbufAfter sampleCall { bytes := sampleMem } [{ attempt := sampleAttempt 0, posted := false }] } = .ok m s ∧
      rebuilt sampleCall s.sendbuf m = sampleCall.flatten { bytes := sampleMem } := by
  refine ⟨_, _, rfl, ?_⟩
  exact (rpcrdmaMarshalReq_rebuilt sampleCall sampleMem [{ attempt := sampleAttempt 0, posted := false }] (sampleAttempt 64)
    (fun r hr hpulls => absurd hpulls.2.2.2 (mem_singleton.1 hr ▸ by decide)) rfl).1.2 ⟨fun h => absurd h (by decide), by decide⟩

/-- The call is pulled up and given up, since the Send cannot be posted; the next attempt sends the pages in the place of
the tail. -/
theorem rpcrdmaMarshalReq_corrupts :
    (xprtRdmaSendRequest sampleCall { bytes := sampleMem } { attempt := sampleAttempt 64, posted := false }).1 = .enotconn ∧
      sampleCall.flatten { bytes := sampleMem } = [1, 2, 3, 4, 10, 11, 12, 13, 5, 6, 7, 8] ∧
      ∃ m s, rpcrdmaMarshalReq sampleCall (sampleAttempt 64)
          { sendbuf := sendbufAfter sampleCall { bytes := sampleMem } [{ attempt := sampleAttempt 64, posted := false }] } = .ok m s ∧
        rebuilt sampleCall s.sendbuf m = [1, 2, 3, 4, 10, 11, 12, 13, 10, 11, 12, 13] :=
  ⟨by decide, by decide, _, _, rfl, by decide⟩

end Vastnfs.Sunrpc
