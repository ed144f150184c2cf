import Mathlib.Algebra.Order.Ring.Int

/-!
# Decoding from an `xdr_buf`

An RPC message lies in a head, in pages and in a tail. `struct xdr_stream` (`net/sunrpc/xdr.c`) walks
through these segments; an item that lies across two of them is put together in a scratch buffer.

* `Inv`: where the pointer of a stream is, and what the count of words has to do with it.
* `xdrInlineDecode_layout`: what is decoded does not depend on how the message is laid out.
* `xdrInlineDecode_unaligned`: what happens in the last word of a message that does not end at a word, and
  with sizes whose number of words does not fit.
-/

namespace Vastnfs.Sunrpc

open List

/-! ## The functions -/

/-- `struct xdr_buf`, with pages of `PAGE_SIZE` bytes. The message is no longer than the data, the data lies in the
pages there are, and the storage is counted in an `unsigned int` (`buflen`). -/
structure XdrBuf where
  head : List UInt8
  pages : List (List UInt8) := []
  (pageBase pageLen : Nat := 0)
  tail : List UInt8 := []
  len : Nat
  full : ∀ page ∈ pages, page.length = 4096
  enough : 0 < pageLen → pageBase + pageLen ≤ pages.length * 4096
  fits : head.length + pages.length * 4096 + tail.length < 2 ^ 32
  inside : len ≤ head.length + pageLen + tail.length

/-- The segment a pointer points into: `iov` or `page_ptr`. -/
inductive XdrSeg where
  | head
  | page (i : Nat)
  | tail
  deriving DecidableEq

/-- `struct xdr_stream`. The pointers are offsets into the segment. -/
structure XdrStream where
  seg : XdrSeg
  (p endp nwords : Nat)
  deriving DecidableEq

/-- What a call returns: a pointer into a segment, or the scratch buffer with what is in it. -/
inductive XdrPtr where
  | inline (seg : XdrSeg) (off : Nat)
  | scratch (bytes : List UInt8)
  deriving DecidableEq

def u32 (n : Nat) : Nat := n % 2 ^ 32

def xdrQuadlen (l : Nat) : Nat := (l + 3) / 4

section

variable (buf : XdrBuf)

def segBytes : XdrSeg → List UInt8
  | .head => buf.head
  | .page i => buf.pages.getD i []
  | .tail => buf.tail

def bytesAt (seg : XdrSeg) (off n : Nat) : List UInt8 := ((segBytes buf seg).drop off).take n

def XdrPtr.bytes (ptr : XdrPtr) (n : Nat) : List UInt8 :=
  match ptr with
  | .inline seg off => bytesAt buf seg off n
  | .scratch bytes => bytes.take n

def xdrStreamPos (xdr : XdrStream) : Nat := (xdrQuadlen buf.len - xdr.nwords) * 4

def xdrStreamSetPos (xdr : XdrStream) (pos : Nat) : XdrStream :=
  { xdr with nwords := if pos < buf.len then xdrQuadlen buf.len - xdrQuadlen pos else 0 }

def xdrStreamRemaining (xdr : XdrStream) : Nat := xdr.nwords * 4

def xdrSetIov (xdr : XdrStream) (iov : XdrSeg) (base len : Nat) : XdrStream × Nat :=
  let len := min len (segBytes buf iov).length
  let base := min base len
  ({ xdr with seg := iov, p := base, endp := len }, len - base)

def xdrSetTailBase (xdr : XdrStream) (base len : Nat) : XdrStream × Nat :=
  xdrSetIov buf (xdrStreamSetPos buf xdr (u32 (base + buf.pageLen + buf.head.length))) .tail base len

def xdrSetPageBase (xdr : XdrStream) (base len : Nat) : XdrStream × Nat :=
  if buf.pageLen ≤ base then (xdr, 0)
  else
    let len := min len (buf.pageLen - base)
    let xdr := xdrStreamSetPos buf xdr (base + buf.head.length)
    let base := base + buf.pageBase
    let pgoff := base % 4096
    ({ xdr with seg := .page (base / 4096), p := pgoff, endp := min (pgoff + len) 4096 }, len)

def xdrSetPage (xdr : XdrStream) (base len : Nat) : XdrStream :=
  let r := xdrSetPageBase buf xdr base len
  if r.2 = 0 then (xdrSetTailBase buf r.1 (u32 (base + 2 ^ 32 - buf.pageLen)) len).1 else r.1

def xdrSetNextPage (xdr : XdrStream) (i : Nat) : XdrStream :=
  let newbase := (1 + i) * 4096 - buf.pageBase
  if newbase < buf.pageLen then (xdrSetPageBase buf xdr newbase (xdrStreamRemaining xdr)).1
  else (xdrSetTailBase buf xdr 0 (xdrStreamRemaining xdr)).1

/-- `xdr_set_next_buffer`, without the answer. -/
def xdrSetNextBuffer (xdr : XdrStream) : XdrStream :=
  match xdr.seg with
  | .page i => xdrSetNextPage buf xdr i
  | .head => xdrSetPage buf xdr 0 (xdrStreamRemaining xdr)
  | .tail => xdr

/-- The first part of `xdr_init_decode`: the first segment with data. -/
def xdrInitSeg : XdrStream :=
  let xdr : XdrStream := { seg := .head, p := 0, endp := 0, nwords := xdrQuadlen buf.len }
  let r := xdrSetIov buf xdr .head 0 buf.len
  if r.2 = 0 then
    let r := xdrSetPageBase buf r.1 0 buf.len
    if r.2 = 0 then (xdrSetIov buf r.1 .tail 0 buf.len).1 else r.1
  else r.1

/-- `start` is how many words `p` is ahead in the first segment. -/
def xdrInitDecode (start : Nat) : XdrStream :=
  let xdr := xdrInitSeg buf
  if xdr.p + start * 4 ≤ xdr.endp then { xdr with p := xdr.p + start * 4, nwords := xdr.nwords - start } else xdr

end

/-- `XDR_QUADLEN` of a `size_t`, in an `unsigned int`. -/
def sizeWords (nbytes : Nat) : Nat := u32 ((nbytes + 3) % 2 ^ 64 / 4)

def xdrInlineDecode' (xdr : XdrStream) (nbytes : Nat) : Option XdrStream :=
  let nwords := sizeWords nbytes
  if xdr.nwords < nwords ∨ xdr.endp < xdr.p + nwords * 4 then none
  else some { xdr with p := xdr.p + nwords * 4, nwords := xdr.nwords - nwords }

/-- `xdr_copy_to_scratch` with a scratch buffer of size `scratch`. -/
def xdrCopyToScratch (buf : XdrBuf) (scratch : Nat) (xdr : XdrStream) (nbytes : Nat) : XdrStream × Option XdrPtr :=
  let cplen := xdr.endp - xdr.p
  if scratch < nbytes then (xdr, none)
  else
    match xdrInlineDecode' xdr cplen with
    | none => (xdr, none)
    | some xdr₁ =>
      let first := bytesAt buf xdr.seg xdr.p cplen
      let xdr₂ := xdrSetNextBuffer buf xdr₁
      if xdr₂.p = xdr₂.endp then (xdr₂, none)
      else
        match xdrInlineDecode' xdr₂ (nbytes - cplen) with
        | none => (xdr₂, none)
        | some xdr₃ => (xdr₃, some (.scratch (first ++ bytesAt buf xdr₂.seg xdr₂.p (nbytes - cplen))))

/-- `xdr_inline_decode`, once there is something in the current segment. -/
def xdrDecodeHere (buf : XdrBuf) (scratch : Nat) (xdr : XdrStream) (nbytes : Nat) : XdrStream × Option XdrPtr :=
  match xdrInlineDecode' xdr nbytes with
  | some xdr' => (xdr', some (.inline xdr.seg xdr.p))
  | none => xdrCopyToScratch buf scratch xdr nbytes

def xdrInlineDecode (buf : XdrBuf) (scratch : Nat) (xdr : XdrStream) (nbytes : Nat) : XdrStream × Option XdrPtr :=
  if nbytes = 0 then (xdr, some (.inline xdr.seg xdr.p))
  else if xdr.p = xdr.endp then
    let xdr := xdrSetNextBuffer buf xdr
    if xdr.p = xdr.endp then (xdr, none) else xdrDecodeHere buf scratch xdr nbytes
  else xdrDecodeHere buf scratch xdr nbytes

/-- The stream after calls of the given sizes, each with a scratch buffer of its size. -/
def xdrDecodes (buf : XdrBuf) (xdr : XdrStream) : List (Nat × Nat) → XdrStream
  | [] => xdr
  | (scratch, nbytes) :: calls => xdrDecodes buf (xdrInlineDecode buf scratch xdr nbytes).1 calls

/-! ## Positions in the message -/

section

variable (buf : XdrBuf)

def flat : List UInt8 := buf.head ++ (buf.pages.flatten.drop buf.pageBase).take buf.pageLen ++ buf.tail

/-- Where in `flat` an offset of a segment is. -/
def flatOffset (seg : XdrSeg) (off : Nat) : Nat :=
  match seg with
  | .head => off
  | .page i => buf.head.length + (i * 4096 + off) - buf.pageBase
  | .tail => buf.head.length + buf.pageLen + off

def segEnd : XdrSeg → Nat
  | .head => buf.head.length
  | .page i => min 4096 (buf.pageBase + buf.pageLen - i * 4096)
  | .tail => buf.tail.length

/-- The offset is in data of the segment, or at the end of it. -/
def InData (seg : XdrSeg) (off : Nat) : Prop :=
  match seg with
  | .head => 0 < buf.head.length
  | .page i =>
    buf.pageBase ≤ i * 4096 + off ∧ buf.pageBase < (i + 1) * 4096 ∧
      i * 4096 < buf.pageBase + buf.pageLen ∧ 0 < buf.pageLen
  | .tail => True

/-- A position where one segment ends and the next one begins. -/
def IsBoundary (e : Nat) : Prop :=
  e = buf.head.length ∨ e = buf.head.length + buf.pageLen ∨
    ∃ i, buf.pageBase < i * 4096 ∧ i * 4096 < buf.pageBase + buf.pageLen ∧
      e = buf.head.length + (i * 4096 - buf.pageBase)

def firstEnd : Nat :=
  if 0 < buf.head.length then buf.head.length
  else if 0 < buf.pageLen then min buf.pageLen (4096 - buf.pageBase % 4096)
  else buf.tail.length

/-- Where decoding ends: at the end of the message if it lies in one segment, and with the word that end is in
if it does not. -/
def decodeEnd : Nat := if buf.len ≤ firstEnd buf then buf.len else xdrQuadlen buf.len * 4

/-- The `n` bytes at `pos` lie on both sides of the boundary `e`. -/
def Crosses (pos n e : Nat) : Prop := IsBoundary buf e ∧ pos < e ∧ e < pos + n

/-- The `n` bytes at `pos` are in range and in at most two adjacent segments, and if they are in two they fit the
scratch buffer. -/
structure Decodable (pos scratch n : Nat) : Prop where
  inRange : pos + xdrQuadlen n * 4 ≤ decodeEnd buf
  once : ∀ e e', Crosses buf pos n e → Crosses buf pos n e' → e = e'
  fits : ∀ e, Crosses buf pos n e → n ≤ scratch

/-- All the segments are whole words. -/
structure Words : Prop where
  head : buf.head.length % 4 = 0
  pageBase : buf.pageBase % 4 = 0
  pageLen : buf.pageLen % 4 = 0
  tail : buf.tail.length % 4 = 0

/-- The pointer is in data of its segment, at a word. -/
structure Placed (xdr : XdrStream) : Prop where
  inData : InData buf xdr.seg xdr.p
  word : xdr.p % 4 = 0
  le : xdr.p ≤ xdr.endp
  upTo : xdr.endp ≤ segEnd buf xdr.seg
  nwords : xdr.nwords ≤ xdrQuadlen buf.len

/-- The pointer is where the count of words says, and the end is the end of the segment or of the message. -/
structure InSync (xdr : XdrStream) : Prop extends Placed buf xdr where
  here : flatOffset buf xdr.seg xdr.p = xdrStreamPos buf xdr
  upToEnd : flatOffset buf xdr.seg xdr.endp ≤ decodeEnd buf
  stops : xdr.endp = segEnd buf xdr.seg ∨ flatOffset buf xdr.seg xdr.endp = decodeEnd buf

/-- The message is read, and the pointer is somewhere behind it. -/
structure Spent (xdr : XdrStream) : Prop extends Placed buf xdr where
  noData : xdr.p = xdr.endp
  noWords : xdr.nwords = 0
  behind : xdrQuadlen buf.len * 4 ≤ flatOffset buf xdr.seg xdr.p
  atEnd : decodeEnd buf = xdrQuadlen buf.len * 4

def Inv (xdr : XdrStream) : Prop := InSync buf xdr ∨ Spent buf xdr

end

/-! ## Reading a segment is reading the message -/

theorem length_flatten_pages (pages : List (List UInt8)) (full : ∀ page ∈ pages, page.length = 4096) :
    pages.flatten.length = pages.length * 4096 := by
  rw [List.length_flatten, map_eq_replicate_iff.2 full, sum_replicate_nat]

theorem take_drop_flatten (i off n : Nat) (hn : off + n ≤ 4096) (pages : List (List UInt8))
    (full : ∀ page ∈ pages, page.length = 4096) :
    (pages.flatten.drop (i * 4096 + off)).take n = ((pages.getD i []).drop off).take n := by
  induction pages generalizing i with
  | nil => simp
  | cons page pages ih =>
    obtain ⟨hpage, hpages⟩ := forall_mem_cons.1 full
    cases i with
    | zero =>
      rw [flatten_cons, Nat.zero_mul, Nat.zero_add, drop_append_of_le_length (by omega),
        take_append_of_le_length (by rw [length_drop]; omega)]
      rfl
    | succ i =>
      have hoff : (i + 1) * 4096 + off = page.length + (i * 4096 + off) := by omega
      rw [flatten_cons, hoff, drop_length_add_append, ih i hpages]
      rfl

section

variable {buf : XdrBuf}

theorem length_pageData (buf : XdrBuf) :
    ((buf.pages.flatten.drop buf.pageBase).take buf.pageLen).length = buf.pageLen := by
  have hlen := length_flatten_pages buf.pages buf.full
  have henough := buf.enough
  rw [length_take, length_drop, hlen]
  omega

theorem length_flat (buf : XdrBuf) : (flat buf).length = buf.head.length + buf.pageLen + buf.tail.length := by
  simp only [flat, length_append, length_pageData]

/-- **What is read in a segment is what the message has there.** -/
theorem bytesAt_eq {seg : XdrSeg} {off n : Nat} (hin : InData buf seg off) (hn : off + n ≤ segEnd buf seg) :
    bytesAt buf seg off n = ((flat buf).drop (flatOffset buf seg off)).take n := by
  cases seg with
  | head =>
    have hhead : off + n ≤ buf.head.length := hn
    rw [flat, append_assoc]
    show (buf.head.drop off).take n = ((buf.head ++ _).drop off).take n
    rw [drop_append_of_le_length (by omega), take_append_of_le_length (by rw [length_drop]; omega)]
  | page i =>
    obtain ⟨hbase, -, hdata⟩ := hin
    simp only [segEnd] at hn
    have hpage : off + n ≤ 4096 := by omega
    have hoff : flatOffset buf (.page i) off = buf.head.length + (i * 4096 + off - buf.pageBase) := by
      simp only [flatOffset]
      omega
    have hlen := length_pageData buf
    rw [flat, append_assoc, hoff, drop_length_add_append, drop_append_of_le_length (by omega),
      take_append_of_le_length (by rw [length_drop]; omega), drop_take, take_take,
      drop_drop, Nat.add_sub_cancel' hbase, Nat.min_eq_left (by omega),
      take_drop_flatten i off n hpage buf.pages buf.full]
    rfl
  | tail =>
    have hoff : flatOffset buf .tail off =
        (buf.head ++ (buf.pages.flatten.drop buf.pageBase).take buf.pageLen).length + off := by
      simp only [flatOffset, length_append, length_pageData]
    rw [flat, hoff, drop_length_add_append]
    rfl

end

/-! ## The next segment -/

section

variable {buf : XdrBuf} {xdr : XdrStream} {seg : XdrSeg} {n base off : Nat}

theorem le_quadlen (n : Nat) : n ≤ xdrQuadlen n * 4 := by
  unfold xdrQuadlen
  omega

theorem decodeEnd_le (buf : XdrBuf) : decodeEnd buf ≤ xdrQuadlen buf.len * 4 := by
  unfold decodeEnd xdrQuadlen
  split <;> omega

theorem flatOffset_add (hin : InData buf seg off) (n : Nat) :
    flatOffset buf seg (off + n) = flatOffset buf seg off + n := by
  cases seg with
  | head => rfl
  | page i =>
    obtain ⟨hbase, -, -⟩ := hin
    simp only [flatOffset]
    omega
  | tail => exact (Nat.add_assoc _ _ _).symm

theorem InData.add (hin : InData buf seg off) (n : Nat) : InData buf seg (off + n) := by
  cases seg with
  | head => exact hin
  | page i =>
    obtain ⟨hbase, hfirst, hdata⟩ := hin
    exact ⟨by omega, hfirst, hdata⟩
  | tail => trivial

/-- The stream has entered a segment at `start`, with data in it. -/
structure Fresh (buf : XdrBuf) (start : Nat) (xdr : XdrStream) : Prop extends InSync buf xdr where
  lt : xdr.p < xdr.endp
  pos : xdrStreamPos buf xdr = start

theorem Fresh.of_entered {p start : Nat} (hn : 0 < n) (hin : InData buf seg p) (hword : p % 4 = 0)
    (hdata : p < segEnd buf seg) (hat : flatOffset buf seg p = start) (hstart : start < buf.len) (hmod : start % 4 = 0)
    (hstop : start + n = decodeEnd buf ∨ flatOffset buf seg (segEnd buf seg) ≤ min (start + n) (decodeEnd buf)) :
    Fresh buf start ⟨seg, p, min (p + n) (segEnd buf seg), xdrQuadlen buf.len - xdrQuadlen start⟩ := by
  have hseg := flatOffset_add hin (segEnd buf seg - p)
  set stop := min (p + n) (segEnd buf seg)
  have hto := flatOffset_add hin (stop - p)
  rw [Nat.add_sub_cancel' (by omega)] at hseg hto
  have hpos : xdrStreamPos buf ⟨seg, p, stop, xdrQuadlen buf.len - xdrQuadlen start⟩ = start := by
    simp only [xdrStreamPos, xdrQuadlen]
    omega
  have hlt : p < stop := by omega
  exact ⟨⟨⟨hin, hword, Nat.le_of_lt hlt, Nat.min_le_right _ _, Nat.sub_le _ _⟩, hat.trans hpos.symm, by dsimp only; omega,
    by dsimp only; omega⟩, hlt, hpos⟩

theorem setPageBase_fresh (xdr : XdrStream) (w : Words buf) (hbase : base < buf.pageLen) (hword : base % 4 = 0)
    (hpos : base + buf.head.length < buf.len) (hn : 0 < n) (hstop : base + buf.head.length + n = decodeEnd buf ∨
      buf.head.length + min buf.pageLen (((base + buf.pageBase) / 4096 + 1) * 4096 - buf.pageBase) ≤
        min (base + buf.head.length + n) (decodeEnd buf)) :
    Fresh buf (base + buf.head.length) (xdrSetPageBase buf xdr base n).1 := by
  have hw := w.pageBase
  have hh := w.head
  have hend : min ((base + buf.pageBase) % 4096 + min n (buf.pageLen - base)) 4096 =
      min ((base + buf.pageBase) % 4096 + n) (segEnd buf (.page ((base + buf.pageBase) / 4096))) := by
    simp only [segEnd]
    omega
  rw [xdrSetPageBase, if_neg (by omega)]
  simp only [xdrStreamSetPos, if_pos hpos, hend]
  refine .of_entered hn ?_ (by omega) ?_ ?_ hpos (by omega) ?_
  all_goals
    simp only [InData, flatOffset, segEnd]
    omega

theorem u32_data (buf : XdrBuf) : u32 (buf.pageLen + buf.head.length) = buf.head.length + buf.pageLen := by
  have hfits := buf.fits
  have henough := buf.enough
  unfold u32
  omega

theorem setTailBase_fresh (xdr : XdrStream) (w : Words buf) (hpos : buf.head.length + buf.pageLen < buf.len)
    (hn : 0 < n) (hstop : buf.head.length + buf.pageLen + n = decodeEnd buf) :
    Fresh buf (buf.head.length + buf.pageLen) (xdrSetTailBase buf xdr 0 n).1 := by
  have hl := w.pageLen
  have hh := w.head
  have hinside := buf.inside
  have hfresh := @Fresh.of_entered buf .tail n 0 (buf.head.length + buf.pageLen) hn trivial rfl (by simp only [segEnd]; omega)
    rfl hpos (by omega) (.inl hstop)
  rw [Nat.zero_add] at hfresh
  simp only [xdrSetTailBase, Nat.zero_add, u32_data, xdrStreamSetPos, if_pos hpos, xdrSetIov, segBytes, Nat.zero_min]
  exact hfresh

theorem setPage_pages (hl : 0 < buf.pageLen) (hn : 0 < n) :
    xdrSetPage buf xdr 0 n = (xdrSetPageBase buf xdr 0 n).1 := by
  have hlen : (xdrSetPageBase buf xdr 0 n).2 = min n buf.pageLen := by
    rw [xdrSetPageBase, if_neg (by omega)]
    rfl
  rw [xdrSetPage, if_neg (by omega)]

theorem setPage_tail (hl : buf.pageLen = 0) : xdrSetPage buf xdr 0 n = (xdrSetTailBase buf xdr 0 n).1 := by
  simp only [xdrSetPage, xdrSetPageBase, hl, Nat.le_refl, if_true]
  rfl

theorem decodeEnd_of_left (hin : InData buf seg off) (hoff : off ≤ segEnd buf seg)
    (hlt : flatOffset buf seg (segEnd buf seg) < buf.len) : decodeEnd buf = xdrQuadlen buf.len * 4 := by
  refine if_neg ?_
  have hinside := buf.inside
  cases seg with
  | head =>
    have hhead : 0 < buf.head.length := hin
    rw [firstEnd, if_pos hhead]
    exact Nat.not_le.mpr hlt
  | page i =>
    obtain ⟨hbase, hfirst, hdata⟩ := hin
    simp only [flatOffset, segEnd] at hoff hlt
    unfold firstEnd
    split
    · omega
    · rw [if_pos (by omega)]
      omega
  | tail =>
    simp only [flatOffset, segEnd] at hlt
    omega

theorem InSync.pos_lt (h : InSync buf xdr) (hn : 0 < xdr.nwords) : xdrStreamPos buf xdr < buf.len := by
  have hwords := h.nwords
  simp only [xdrStreamPos, xdrQuadlen] at hwords ⊢
  omega

theorem InSync.atSegEnd (h : InSync buf xdr) (hp : xdr.p = xdr.endp) (hn : 0 < xdr.nwords) :
    xdr.p = segEnd buf xdr.seg := by
  have hpos := h.pos_lt hn
  have hhere := h.here
  rcases h.stops with hend | hend
  · exact hp.trans hend
  have hlen : buf.len ≤ decodeEnd buf := by
    unfold decodeEnd xdrQuadlen
    split <;> omega
  rw [← hp] at hend
  omega

theorem setNextBuffer_fresh (w : Words buf) (h : InSync buf xdr) (hp : xdr.p = xdr.endp) (hn : 0 < xdr.nwords) :
    Fresh buf (xdrStreamPos buf xdr) (xdrSetNextBuffer buf xdr) := by
  have hpos := h.pos_lt hn
  have hhere := h.here
  have hseg := h.atSegEnd hp hn
  have hdec : decodeEnd buf = xdrQuadlen buf.len * 4 :=
    decodeEnd_of_left h.inData (Nat.le_of_eq hseg) (by rw [← hseg]; omega)
  have hrem : xdrStreamPos buf xdr + xdrStreamRemaining xdr = decodeEnd buf := by
    have hwords := h.nwords
    rw [hdec]
    simp only [xdrStreamPos, xdrStreamRemaining]
    omega
  have hrem0 : 0 < xdrStreamRemaining xdr := by
    simp only [xdrStreamRemaining]
    omega
  have hinside := buf.inside
  have hin := h.inData
  cases hs : xdr.seg with
  | head =>
    simp only [hs, flatOffset, segEnd] at hhere hseg
    simp only [xdrSetNextBuffer, hs]
    rcases Nat.eq_zero_or_pos buf.pageLen with hl | hl
    · rw [setPage_tail hl, show xdrStreamPos buf xdr = buf.head.length + buf.pageLen by omega]
      exact setTailBase_fresh xdr w (by omega) hrem0 (by omega)
    · rw [setPage_pages hl hrem0, show xdrStreamPos buf xdr = 0 + buf.head.length by omega]
      exact setPageBase_fresh xdr w hl rfl (by omega) hrem0 (by omega)
  | page i =>
    have hw := w.pageBase
    simp only [hs, flatOffset, segEnd, InData] at hhere hseg hin
    simp only [xdrSetNextBuffer, hs, xdrSetNextPage]
    split_ifs with hl
    · rw [show xdrStreamPos buf xdr = (1 + i) * 4096 - buf.pageBase + buf.head.length by omega]
      exact setPageBase_fresh xdr w hl (by omega) (by omega) hrem0 (by omega)
    · rw [show xdrStreamPos buf xdr = buf.head.length + buf.pageLen by omega]
      exact setTailBase_fresh xdr w (by omega) hrem0 (by omega)
  | tail =>
    simp only [hs, flatOffset, segEnd] at hhere hseg
    omega

theorem setTailBase_spent (hpos : buf.len ≤ u32 (base + buf.pageLen + buf.head.length))
    (hbehind : xdrQuadlen buf.len * 4 ≤ buf.head.length + buf.pageLen) (hend : decodeEnd buf = xdrQuadlen buf.len * 4) :
    Spent buf (xdrSetTailBase buf xdr base 0).1 := by
  simp only [xdrSetTailBase, xdrStreamSetPos, if_neg (Nat.not_lt.mpr hpos), xdrSetIov, Nat.zero_min, Nat.min_zero]
  exact ⟨⟨trivial, rfl, Nat.le_refl _, Nat.zero_le _, Nat.zero_le _⟩, rfl, rfl, hbehind, hend⟩

theorem setPageBase_spent (hbase : base < buf.pageLen) (hword : (base + buf.pageBase) % 4 = 0)
    (hbehind : xdrQuadlen buf.len * 4 ≤ base + buf.head.length) (hend : decodeEnd buf = xdrQuadlen buf.len * 4) :
    Spent buf (xdrSetPageBase buf xdr base 0).1 := by
  have hlen := le_quadlen buf.len
  have hmin : min ((base + buf.pageBase) % 4096) 4096 = (base + buf.pageBase) % 4096 := by omega
  rw [xdrSetPageBase, if_neg (by omega)]
  simp only [xdrStreamSetPos, if_neg (show ¬base + buf.head.length < buf.len by omega), Nat.zero_min, Nat.add_zero, hmin]
  refine ⟨⟨?_, ?_, Nat.le_refl _, ?_, Nat.zero_le _⟩, rfl, rfl, ?_, hend⟩
  all_goals
    simp only [InData, flatOffset, segEnd]
    omega

theorem setNextBuffer_spent (h : Spent buf xdr) : Spent buf (xdrSetNextBuffer buf xdr) := by
  have hbehind := h.behind
  have hin := h.inData
  have hupTo := h.upTo
  have hle := h.le
  have hlen := le_quadlen buf.len
  have hdata := u32_data buf
  have hrem : xdrStreamRemaining xdr = 0 := by
    rw [xdrStreamRemaining, h.noWords]
  cases hs : xdr.seg with
  | head =>
    simp only [hs, flatOffset, segEnd] at hbehind hupTo
    simp only [xdrSetNextBuffer, hs, hrem]
    rcases Nat.eq_zero_or_pos buf.pageLen with hl | hl
    · rw [setPage_tail hl]
      exact setTailBase_spent (by rw [Nat.zero_add]; omega) (by omega) h.atEnd
    have hnone : (xdrSetPageBase buf xdr 0 0).2 = 0 := by
      rw [xdrSetPageBase, if_neg (by omega)]
      exact Nat.zero_min _
    rw [xdrSetPage, if_pos hnone]
    have hfits := buf.fits
    have henough := buf.enough
    -- the base wraps around, and the position is the end of the head
    exact setTailBase_spent (by unfold u32; omega) (by omega) h.atEnd
  | page i =>
    simp only [hs, flatOffset, segEnd, InData] at hbehind hupTo hin
    simp only [xdrSetNextBuffer, hs, xdrSetNextPage, hrem]
    split_ifs with hl
    · exact setPageBase_spent hl (by omega) (by omega) h.atEnd
    · exact setTailBase_spent (by rw [Nat.zero_add]; omega) (by omega) h.atEnd
  | tail =>
    simp only [xdrSetNextBuffer, hs]
    exact h

end

/-! ## One step -/

section

variable {buf : XdrBuf} {xdr xdr' : XdrStream} {nbytes k : Nat}

theorem sizeWords_eq (hn : xdrQuadlen nbytes < 2 ^ 32) : sizeWords nbytes = xdrQuadlen nbytes := by
  unfold sizeWords u32
  unfold xdrQuadlen at hn ⊢
  omega

def XdrStream.advance (xdr : XdrStream) (k : Nat) : XdrStream :=
  { xdr with p := xdr.p + k * 4, nwords := xdr.nwords - k }

theorem InSync.flat_endp (h : InSync buf xdr) :
    flatOffset buf xdr.seg xdr.endp = xdrStreamPos buf xdr + (xdr.endp - xdr.p) := by
  have hto := flatOffset_add h.inData (xdr.endp - xdr.p)
  rwa [Nat.add_sub_cancel' h.le, h.here] at hto

section

variable (h : InSync buf xdr) (hk : xdr.p + k * 4 ≤ xdr.endp)
include h hk

theorem InSync.words_left : k ≤ xdr.nwords := by
  have hend := h.upToEnd
  have hdec := decodeEnd_le buf
  rw [h.flat_endp] at hend
  simp only [xdrStreamPos] at hend
  omega

theorem InSync.pos_advance : xdrStreamPos buf (xdr.advance k) = xdrStreamPos buf xdr + k * 4 := by
  have hwords := h.nwords
  have hleft := h.words_left hk
  simp only [xdrStreamPos, XdrStream.advance]
  omega

theorem InSync.advance : InSync buf (xdr.advance k) where
  __ := h
  inData := h.inData.add _
  word := by
    have hword := h.word
    show (xdr.p + k * 4) % 4 = 0
    omega
  le := hk
  nwords := Nat.le_trans (Nat.sub_le _ _) h.nwords
  here := by
    rw [h.pos_advance hk]
    exact (flatOffset_add h.inData _).trans (congrArg (· + k * 4) h.here)

end

theorem InSync.decode' (h : InSync buf xdr) (nbytes : Nat) :
    xdrInlineDecode' xdr nbytes =
      if xdr.p + sizeWords nbytes * 4 ≤ xdr.endp then some (xdr.advance (sizeWords nbytes)) else none := by
  unfold xdrInlineDecode'
  by_cases hk : xdr.p + sizeWords nbytes * 4 ≤ xdr.endp
  · have hleft := h.words_left hk
    rw [if_pos hk, if_neg (by omega)]
    rfl
  · rw [if_neg hk, if_pos (by omega)]

theorem InSync.spent (h : InSync buf xdr) (hp : xdr.p = xdr.endp) (hn : xdr.nwords = 0) : Spent buf xdr := by
  have hpos : xdrStreamPos buf xdr = xdrQuadlen buf.len * 4 := by
    rw [xdrStreamPos, hn, Nat.sub_zero]
  have hend := h.upToEnd
  have hdec := decodeEnd_le buf
  rw [← hp, h.here, hpos] at hend
  exact ⟨h.toPlaced, hp, hn, Nat.le_of_eq (h.here.trans hpos).symm, by omega⟩

theorem setNextBuffer_inv (w : Words buf) (h : Inv buf xdr) (hp : xdr.p = xdr.endp) :
    Inv buf (xdrSetNextBuffer buf xdr) := by
  rcases h with h | h
  · rcases Nat.eq_zero_or_pos xdr.nwords with hn | hn
    · exact .inr (setNextBuffer_spent (h.spent hp hn))
    · exact .inl (setNextBuffer_fresh w h hp hn).toInSync
  · exact .inr (setNextBuffer_spent h)

theorem Spent.decode' (h : Spent buf xdr) (hd : xdrInlineDecode' xdr nbytes = some xdr') : xdr' = xdr := by
  have hwords := h.noWords
  simp only [xdrInlineDecode'] at hd
  split at hd
  · cases hd
  next hk =>
  have hzero : sizeWords nbytes = 0 := by omega
  cases hd
  simp [hzero]

theorem xdrInlineDecode'_inv (h : Inv buf xdr) (hd : xdrInlineDecode' xdr nbytes = some xdr') : Inv buf xdr' := by
  rcases h with h | h
  · rw [h.decode'] at hd
    split at hd
    · next hk =>
      cases hd
      exact .inl (h.advance hk)
    · cases hd
  · rw [h.decode' hd]
    exact .inr h

theorem segEnd_lt (buf : XdrBuf) (seg : XdrSeg) : segEnd buf seg < 2 ^ 32 := by
  have hfits := buf.fits
  cases seg
  all_goals
    simp only [segEnd]
    omega

theorem Placed.rest_words (h : Placed buf xdr) : sizeWords (xdr.endp - xdr.p) = xdrQuadlen (xdr.endp - xdr.p) := by
  have hlt := segEnd_lt buf xdr.seg
  have hupTo := h.upTo
  refine sizeWords_eq ?_
  unfold xdrQuadlen
  omega

theorem InSync.decode_rest (h : InSync buf xdr) {xdr₁ : XdrStream}
    (hd : xdrInlineDecode' xdr (xdr.endp - xdr.p) = some xdr₁) :
    InSync buf xdr₁ ∧ xdr₁.p = xdr₁.endp ∧ xdr₁.seg = xdr.seg ∧ xdr₁.endp = xdr.endp ∧
      xdrStreamPos buf xdr₁ = xdrStreamPos buf xdr + (xdr.endp - xdr.p) ∧ (xdr.endp - xdr.p) % 4 = 0 := by
  rw [h.decode', h.rest_words] at hd
  split at hd
  · next hk =>
    cases hd
    have hpos := h.pos_advance hk
    have hend : (xdr.advance (xdrQuadlen (xdr.endp - xdr.p))).p = xdr.p + xdrQuadlen (xdr.endp - xdr.p) * 4 := rfl
    have hto : (xdr.advance (xdrQuadlen (xdr.endp - xdr.p))).endp = xdr.endp := rfl
    refine ⟨h.advance hk, ?_, rfl, rfl, ?_, ?_⟩
    all_goals unfold xdrQuadlen at *
    all_goals omega
  · cases hd

section

variable (w : Words buf) (h : Inv buf xdr)
include w h

theorem copyToScratch_inv (scratch nbytes : Nat) : Inv buf (xdrCopyToScratch buf scratch xdr nbytes).1 := by
  simp only [xdrCopyToScratch]
  split
  · exact h
  cases hd : xdrInlineDecode' xdr (xdr.endp - xdr.p) with
  | none => exact h
  | some xdr₁ =>
    have hinv₁ := xdrInlineDecode'_inv h hd
    have hp : xdr₁.p = xdr₁.endp := by
      rcases h with h | h
      · exact (h.decode_rest hd).2.1
      · exact h.decode' hd ▸ h.noData
    have hinv₂ := setNextBuffer_inv w hinv₁ hp
    dsimp only
    split
    · exact hinv₂
    cases hd₂ : xdrInlineDecode' (xdrSetNextBuffer buf xdr₁) (nbytes - (xdr.endp - xdr.p)) with
    | none => exact hinv₂
    | some xdr₃ => exact xdrInlineDecode'_inv hinv₂ hd₂

theorem decodeHere_inv (scratch nbytes : Nat) : Inv buf (xdrDecodeHere buf scratch xdr nbytes).1 := by
  unfold xdrDecodeHere
  cases hd : xdrInlineDecode' xdr nbytes with
  | none => exact copyToScratch_inv w h scratch nbytes
  | some xdr' => exact xdrInlineDecode'_inv h hd

theorem inlineDecode_inv (scratch nbytes : Nat) : Inv buf (xdrInlineDecode buf scratch xdr nbytes).1 := by
  simp only [xdrInlineDecode]
  split
  · exact h
  split
  · next hp =>
    have hnext := setNextBuffer_inv w h hp
    split
    · exact hnext
    · exact decodeHere_inv w hnext scratch nbytes
  · exact decodeHere_inv w h scratch nbytes

theorem decodes_inv (calls : List (Nat × Nat)) : Inv buf (xdrDecodes buf xdr calls) := by
  induction calls generalizing xdr with
  | nil => exact h
  | cons call calls ih => exact ih (inlineDecode_inv w h call.1 call.2)

end

theorem setIov_first {seg : XdrSeg} (hin : InData buf seg 0) (hstart : flatOffset buf seg 0 = 0)
    (hend : (segBytes buf seg).length = segEnd buf seg) (hfirst : firstEnd buf = segEnd buf seg)
    (hdata : 0 < segEnd buf seg) (hlen : 0 < buf.len) (hwords : xdr.nwords = xdrQuadlen buf.len) :
    InSync buf (xdrSetIov buf xdr seg 0 buf.len).1 := by
  have hseg := flatOffset_add hin (segEnd buf seg)
  rw [hstart, Nat.zero_add] at hseg
  have hfresh : Fresh buf 0 ⟨seg, 0, min (0 + buf.len) (segEnd buf seg), xdrQuadlen buf.len - xdrQuadlen 0⟩ := by
    refine .of_entered hlen hin rfl hdata hstart hlen rfl ?_
    simp only [hseg, decodeEnd, hfirst, xdrQuadlen]
    split <;> omega
  rw [Nat.zero_add] at hfresh
  simp only [xdrSetIov, Nat.zero_min, hend, hwords]
  exact hfresh.toInSync

theorem initSeg_empty (hlen : buf.len = 0) : xdrInitSeg buf = { seg := .tail, p := 0, endp := 0, nwords := 0 } := by
  have hpages (xdr : XdrStream) : (xdrSetPageBase buf xdr 0 0).2 = 0 := by
    unfold xdrSetPageBase
    split
    · rfl
    · exact Nat.zero_min _
  have hwords (xdr : XdrStream) (hxdr : xdr.nwords = 0) : (xdrSetPageBase buf xdr 0 0).1.nwords = 0 := by
    unfold xdrSetPageBase
    split
    · exact hxdr
    · exact if_neg (by omega)
  simp only [xdrInitSeg, xdrSetIov, hlen, Nat.zero_min, Nat.sub_self, if_true, hpages]
  rw [hwords _ rfl]

theorem initSeg_noHead (hh : buf.head.length = 0) :
    xdrInitSeg buf =
      let xdr : XdrStream := { seg := .head, p := 0, endp := 0, nwords := xdrQuadlen buf.len }
      if (xdrSetPageBase buf xdr 0 buf.len).2 = 0 then
        (xdrSetIov buf (xdrSetPageBase buf xdr 0 buf.len).1 .tail 0 buf.len).1
      else (xdrSetPageBase buf xdr 0 buf.len).1 := by
  simp [xdrInitSeg, xdrSetIov, segBytes, hh]

theorem initSeg_inv (w : Words buf) : Inv buf (xdrInitSeg buf) := by
  have hinside := buf.inside
  rcases Nat.eq_zero_or_pos buf.len with hlen | hlen
  · rw [initSeg_empty hlen]
    have hend : decodeEnd buf = xdrQuadlen buf.len * 4 := by
      simp only [decodeEnd, hlen, Nat.zero_le, if_true]
      rfl
    exact .inr ⟨⟨trivial, rfl, Nat.le_refl _, Nat.zero_le _, Nat.zero_le _⟩, rfl, rfl,
      by rw [hlen]; exact Nat.zero_le _, hend⟩
  left
  rcases Nat.eq_zero_or_pos buf.head.length with hh | hh
  · rw [initSeg_noHead hh]
    rcases Nat.eq_zero_or_pos buf.pageLen with hl | hl
    · have hfirst : firstEnd buf = buf.tail.length := by
        rw [firstEnd, if_neg (by omega), if_neg (by omega)]
      have htail : flatOffset buf .tail 0 = 0 := by
        simp [flatOffset, hh, hl]
      simp only [xdrSetPageBase, hl, Nat.le_refl, if_true]
      exact setIov_first trivial htail rfl hfirst (by simp only [segEnd]; omega) hlen rfl
    have hfirst : firstEnd buf = min buf.pageLen (4096 - buf.pageBase % 4096) := by
      rw [firstEnd, if_neg (by omega), if_pos hl]
    have hne (xdr : XdrStream) : (xdrSetPageBase buf xdr 0 buf.len).2 ≠ 0 := by
      rw [xdrSetPageBase, if_neg (by omega)]
      show min buf.len (buf.pageLen - 0) ≠ 0
      omega
    simp only [hne, if_false]
    refine (setPageBase_fresh _ w hl rfl (by omega) hlen ?_).toInSync
    simp only [decodeEnd, hfirst, hh, xdrQuadlen]
    split <;> omega
  · have hne (xdr : XdrStream) : (xdrSetIov buf xdr .head 0 buf.len).2 ≠ 0 := by
      simp only [xdrSetIov, segBytes]
      omega
    simp only [xdrInitSeg, hne, if_false]
    exact setIov_first hh rfl rfl (if_pos hh) hh hlen rfl

theorem initDecode_inv (w : Words buf) (start : Nat) : Inv buf (xdrInitDecode buf start) := by
  have hinv := initSeg_inv w
  simp only [xdrInitDecode]
  split
  · next hk =>
    rcases hinv with h | h
    · exact .inl (h.advance hk)
    have hp := h.noData
    have hzero : start = 0 := by omega
    simp only [hzero, Nat.zero_mul, Nat.add_zero, Nat.sub_zero]
    exact .inr h
  · exact hinv

end

/-! ## What a call returns -/

section

variable {buf : XdrBuf} {xdr xdr' : XdrStream} {scratch nbytes e off pos n : Nat} {seg : XdrSeg}

theorem le_boundary (hin : InData buf seg off) (hoff : off ≤ segEnd buf seg) (he : IsBoundary buf e)
    (hlt : flatOffset buf seg off < e) : flatOffset buf seg (segEnd buf seg) ≤ e := by
  cases seg with
  | head =>
    simp only [flatOffset, segEnd] at *
    obtain rfl | rfl | ⟨i, -, -, rfl⟩ := he <;> omega
  | page i =>
    obtain ⟨hbase, hfirst, hdata, hpos⟩ := hin
    simp only [flatOffset, segEnd] at *
    obtain rfl | rfl | ⟨j, hj, hj', rfl⟩ := he <;> omega
  | tail =>
    simp only [flatOffset, segEnd] at *
    obtain rfl | rfl | ⟨j, hj, hj', rfl⟩ := he <;> omega

theorem segEnd_boundary (w : Words buf) (hin : InData buf seg off) (hoff : off ≤ segEnd buf seg) :
    IsBoundary buf (flatOffset buf seg (segEnd buf seg)) ∨ decodeEnd buf ≤ flatOffset buf seg (segEnd buf seg) := by
  cases seg with
  | head => exact .inl (.inl rfl)
  | page i =>
    obtain ⟨hbase, hfirst, hdata, hpos⟩ := hin
    left
    simp only [flatOffset, segEnd] at *
    by_cases hi : (i + 1) * 4096 < buf.pageBase + buf.pageLen
    · exact .inr (.inr ⟨i + 1, by omega, hi, by omega⟩)
    · exact .inr (.inl (by omega))
  | tail =>
    right
    have hdec := decodeEnd_le buf
    have hinside := buf.inside
    obtain ⟨hh, hb, hl, ht⟩ := w
    simp only [flatOffset, segEnd, xdrQuadlen] at *
    omega

theorem IsBoundary.word (w : Words buf) (he : IsBoundary buf e) : e % 4 = 0 := by
  obtain ⟨hh, hb, hl, ht⟩ := w
  obtain rfl | rfl | ⟨i, hi, -, rfl⟩ := he <;> omega

theorem InSync.le_boundary (h : InSync buf xdr) (he : IsBoundary buf e) (hlt : xdrStreamPos buf xdr < e) :
    xdrStreamPos buf xdr + (xdr.endp - xdr.p) ≤ e := by
  have hle := h.le
  have hupTo := h.upTo
  have hseg := Sunrpc.le_boundary h.inData (by omega) he (h.here ▸ hlt)
  have hto := flatOffset_add h.inData (segEnd buf xdr.seg - xdr.p)
  rw [Nat.add_sub_cancel' (by omega), h.here] at hto
  omega

theorem InSync.crosses (w : Words buf) (h : InSync buf xdr) (hp : xdr.p < xdr.endp)
    (hover : xdr.endp < xdr.p + xdrQuadlen n * 4) (hend : xdrStreamPos buf xdr + xdrQuadlen n * 4 ≤ decodeEnd buf) :
    Crosses buf (xdrStreamPos buf xdr) n (xdrStreamPos buf xdr + (xdr.endp - xdr.p)) := by
  have hflat := h.flat_endp
  have hbound : IsBoundary buf (xdrStreamPos buf xdr + (xdr.endp - xdr.p)) := by
    rcases h.stops with hs | hs
    · rcases segEnd_boundary w h.inData (by rw [← hs]; exact h.le) with hb | hb
      · rwa [← hs, hflat] at hb
      · rw [← hs] at hb
        omega
    · omega
  have hword := hbound.word w
  refine ⟨hbound, by omega, ?_⟩
  simp only [xdrStreamPos, xdrQuadlen] at *
  omega

theorem InSync.bytesAt (h : InSync buf xdr) (hn : xdr.p + n ≤ xdr.endp) :
    bytesAt buf xdr.seg xdr.p n = ((flat buf).drop (xdrStreamPos buf xdr)).take n := by
  have hupTo := h.upTo
  rw [bytesAt_eq h.inData (by omega), h.here]

/-- What a call that succeeds has to do, and when it has to succeed. -/
structure Returns (buf : XdrBuf) (pos scratch nbytes : Nat) (r : XdrStream × Option XdrPtr) : Prop where
  next : ∀ ptr, r.2 = some ptr →
    ptr.bytes buf nbytes = ((flat buf).drop pos).take nbytes ∧ xdrStreamPos buf r.1 = pos + xdrQuadlen nbytes * 4
  succeeds : r.2.isSome ↔ Decodable buf pos scratch nbytes

theorem Returns.of_none (h : ¬Decodable buf pos scratch nbytes) : Returns buf pos scratch nbytes (xdr', none) where
  next := nofun
  succeeds := ⟨fun hsome => (nomatch hsome), fun hd => absurd hd h⟩

theorem Returns.of_some {ptr : XdrPtr} (hbytes : ptr.bytes buf nbytes = ((flat buf).drop pos).take nbytes)
    (hpos : xdrStreamPos buf xdr' = pos + xdrQuadlen nbytes * 4) (h : Decodable buf pos scratch nbytes) :
    Returns buf pos scratch nbytes (xdr', some ptr) where
  next := by
    intro ptr' hptr
    cases hptr
    exact ⟨hbytes, hpos⟩
  succeeds := ⟨fun _ => h, fun _ => rfl⟩

theorem InSync.returns_inline (h : InSync buf xdr) (hk : xdr.p + xdrQuadlen nbytes * 4 ≤ xdr.endp) :
    Returns buf (xdrStreamPos buf xdr) scratch nbytes
      (xdr.advance (xdrQuadlen nbytes), some (.inline xdr.seg xdr.p)) := by
  have hround := le_quadlen nbytes
  have hnone (e : Nat) (he : Crosses buf (xdrStreamPos buf xdr) nbytes e) : False := by
    have hle := h.le_boundary he.1 he.2.1
    have hlt := he.2.2
    omega
  have hend := h.upToEnd
  rw [h.flat_endp] at hend
  refine Returns.of_some (h.bytesAt (by omega)) (h.pos_advance hk) ⟨by omega, ?_, ?_⟩
  · intro e e' he
    exact (hnone e he).elim
  · intro e he
    exact (hnone e he).elim

/-- An item put together from the rest of a segment and the start of the next one. -/
theorem InSync.returns_second (h : InSync buf xdr) {xdr₂ : XdrStream} (h₂ : InSync buf xdr₂)
    (hpos₂ : xdrStreamPos buf xdr₂ = xdrStreamPos buf xdr + (xdr.endp - xdr.p))
    (hwords : xdrQuadlen nbytes * 4 = (xdr.endp - xdr.p) + xdrQuadlen (nbytes - (xdr.endp - xdr.p)) * 4)
    (hcp : xdr.endp - xdr.p ≤ nbytes) (hfits : nbytes ≤ scratch)
    (hk : xdr₂.p + xdrQuadlen (nbytes - (xdr.endp - xdr.p)) * 4 ≤ xdr₂.endp) :
    Returns buf (xdrStreamPos buf xdr) scratch nbytes
      (xdr₂.advance (xdrQuadlen (nbytes - (xdr.endp - xdr.p))),
        some (.scratch (Sunrpc.bytesAt buf xdr.seg xdr.p (xdr.endp - xdr.p) ++
          Sunrpc.bytesAt buf xdr₂.seg xdr₂.p (nbytes - (xdr.endp - xdr.p))))) := by
  have hle := h.le
  have hround := le_quadlen nbytes
  have hend₂ := h₂.upToEnd
  rw [h₂.flat_endp] at hend₂
  have hone (e : Nat) (he : Crosses buf (xdrStreamPos buf xdr) nbytes e) :
      e = xdrStreamPos buf xdr + (xdr.endp - xdr.p) := by
    have hge := h.le_boundary he.1 he.2.1
    have hlt := he.2.2
    by_contra hne
    have hge₂ := h₂.le_boundary he.1 (by omega)
    omega
  refine Returns.of_some ?_ ?_ ⟨by omega, ?_, fun _ _ => hfits⟩
  · have hsplit : nbytes = (xdr.endp - xdr.p) + (nbytes - (xdr.endp - xdr.p)) := by omega
    rw [h.bytesAt (by omega), h₂.bytesAt (by omega), hpos₂, ← drop_drop, ← take_add, ← hsplit]
    exact (take_take ..).trans (by rw [Nat.min_self])
  · rw [h₂.pos_advance hk]
    omega
  · intro e e' he he'
    rw [hone e he, hone e' he']

section

variable (w : Words buf) (h : InSync buf xdr) (hp : xdr.p < xdr.endp) (hn : xdrQuadlen nbytes < 2 ^ 32)
include w h hp hn

theorem InSync.returns_scratch (hover : xdr.endp < xdr.p + xdrQuadlen nbytes * 4) :
    Returns buf (xdrStreamPos buf xdr) scratch nbytes (xdrCopyToScratch buf scratch xdr nbytes) := by
  have hcross := h.crosses w hp hover
  simp only [xdrCopyToScratch]
  split_ifs with hfits
  · exact Returns.of_none fun hd => absurd (hd.fits _ (hcross hd.inRange)) (Nat.not_le.mpr hfits)
  set here := xdr.endp - xdr.p
  cases hd₁ : xdrInlineDecode' xdr here with
  | none =>
    refine Returns.of_none fun hd => ?_
    -- the segment ends within a word, so that it ends with the message
    have hword := (hcross hd.inRange).1.word w
    rw [h.decode', h.rest_words, if_pos] at hd₁
    · cases hd₁
    · simp only [xdrStreamPos, xdrQuadlen] at *
      omega
  | some xdr₁ =>
    obtain ⟨hsync₁, hp₁, hseg₁, hend₁, hpos₁, hcp⟩ := h.decode_rest hd₁
    dsimp only
    rcases Nat.eq_zero_or_pos xdr₁.nwords with hw₁ | hw₁
    · have hspent := setNextBuffer_spent (hsync₁.spent hp₁ hw₁)
      rw [if_pos hspent.noData]
      refine Returns.of_none fun hd => ?_
      have hrange := hd.inRange
      have hdec := decodeEnd_le buf
      have hpos : xdrStreamPos buf xdr₁ = xdrQuadlen buf.len * 4 := by
        rw [xdrStreamPos, hw₁, Nat.sub_zero]
      omega
    obtain ⟨hsync₂, hlt₂, hpos₂⟩ := setNextBuffer_fresh w hsync₁ hp₁ hw₁
    rw [if_neg (Nat.ne_of_lt hlt₂)]
    have hrest : here ≤ nbytes := by
      unfold xdrQuadlen at hover
      omega
    have hwords : xdrQuadlen nbytes * 4 = here + xdrQuadlen (nbytes - here) * 4 := by
      unfold xdrQuadlen at *
      omega
    rw [hsync₂.decode', sizeWords_eq (by omega)]
    split_ifs with hk
    · exact h.returns_second hsync₂ (hpos₂.trans hpos₁) hwords hrest (Nat.not_lt.mp hfits) hk
    refine Returns.of_none fun hd => ?_
    have hrange := hd.inRange
    have hcross₂ := hsync₂.crosses w hlt₂ (Nat.not_le.mp hk) (by omega)
    have heq := hd.once _ _ (hcross hd.inRange) ⟨hcross₂.1, by omega, by have := hcross₂.2.2; omega⟩
    omega

theorem InSync.returns_here :
    Returns buf (xdrStreamPos buf xdr) scratch nbytes (xdrDecodeHere buf scratch xdr nbytes) := by
  rw [xdrDecodeHere, h.decode', sizeWords_eq hn]
  split_ifs with hk
  · exact h.returns_inline hk
  · exact h.returns_scratch w hp hn (Nat.not_le.mp hk)

end

theorem Spent.returns_none (h : Spent buf xdr) (hn : 0 < nbytes) (xdr' : XdrStream) :
    Returns buf (xdrStreamPos buf xdr) scratch nbytes (xdr', none) := by
  refine Returns.of_none fun hd => ?_
  have hrange := hd.inRange
  have hdec := decodeEnd_le buf
  have hwords := h.noWords
  simp only [xdrStreamPos, xdrQuadlen] at *
  omega

theorem Inv.pos_le (h : Inv buf xdr) : xdrStreamPos buf xdr ≤ decodeEnd buf := by
  rcases h with h | h
  · have hend := h.upToEnd
    rw [h.flat_endp] at hend
    omega
  rw [h.atEnd]
  simp only [xdrStreamPos]
  omega

/-- **What one call returns.** -/
theorem inlineDecode_returns (w : Words buf) (h : Inv buf xdr) (hn : xdrQuadlen nbytes < 2 ^ 32) :
    Returns buf (xdrStreamPos buf xdr) scratch nbytes (xdrInlineDecode buf scratch xdr nbytes) := by
  rcases Nat.eq_zero_or_pos nbytes with rfl | hpos
  · refine Returns.of_some rfl rfl ⟨h.pos_le, ?_, ?_⟩
    · intro e e' he
      exact absurd he.2.1 (by have := he.2.2; omega)
    · intro e he
      exact Nat.zero_le _
  simp only [xdrInlineDecode, if_neg (Nat.ne_of_gt hpos)]
  by_cases hp : xdr.p = xdr.endp
  · rw [if_pos hp]
    by_cases hspent : Spent buf xdr
    · rw [if_pos (setNextBuffer_spent hspent).noData]
      exact hspent.returns_none hpos _
    have hsync := h.resolve_right hspent
    have hwords : 0 < xdr.nwords := Nat.pos_of_ne_zero fun hw => hspent (hsync.spent hp hw)
    obtain ⟨hnext, hlt, hat⟩ := setNextBuffer_fresh w hsync hp hwords
    rw [if_neg (Nat.ne_of_lt hlt), ← hat]
    exact hnext.returns_here w hlt hn
  · have hsync := h.resolve_right fun hspent => hp hspent.noData
    rw [if_neg hp]
    exact hsync.returns_here w (Nat.lt_of_le_of_ne hsync.le hp) hn

theorem decodeEnd_le_length (w : Words buf) : decodeEnd buf ≤ (flat buf).length := by
  have hdec := decodeEnd_le buf
  have hinside := buf.inside
  obtain ⟨hh, hb, hl, ht⟩ := w
  rw [length_flat]
  unfold xdrQuadlen at hdec
  omega

theorem decodeEnd_of_word (h : buf.len % 4 = 0) : decodeEnd buf = buf.len := by
  unfold decodeEnd xdrQuadlen
  split <;> omega

end

/-! ## Independence of the layout -/

/-- **Decoding does not depend on how the message is laid out.**  After any calls, one that succeeds returns the next
`nbytes` of the message and moves on by as many whole words; it succeeds exactly if these are in range and in at
most two adjacent segments, and fit the scratch buffer if they are in two. -/
theorem xdrInlineDecode_layout (buf : XdrBuf) (w : Words buf) (start : Nat) (calls : List (Nat × Nat))
    (scratch nbytes : Nat) (hn : xdrQuadlen nbytes < 2 ^ 32) :
    let xdr := xdrDecodes buf (xdrInitDecode buf start) calls
    let r := xdrInlineDecode buf scratch xdr nbytes
    Returns buf (xdrStreamPos buf xdr) scratch nbytes r ∧
      ∀ ptr, r.2 = some ptr → (ptr.bytes buf nbytes).length = nbytes ∧
        (buf.len % 4 = 0 → xdrStreamPos buf xdr + nbytes ≤ buf.len) := by
  intro xdr r
  have hinv : Inv buf xdr := decodes_inv w (initDecode_inv w start) calls
  have hret : Returns buf (xdrStreamPos buf xdr) scratch nbytes r := inlineDecode_returns w hinv hn
  refine ⟨hret, fun ptr hptr => ?_⟩
  obtain ⟨hbytes, -⟩ := hret.next ptr hptr
  have hrange := (hret.succeeds.mp (by rw [hptr]; rfl)).inRange
  have hround := le_quadlen nbytes
  have hlen := decodeEnd_le_length w
  constructor
  · rw [hbytes, length_take, length_drop]
    omega
  · intro hword
    rw [decodeEnd_of_word hword] at hrange
    omega

def headAndTail (head tail : List UInt8) (len : Nat) (fits : head.length + tail.length < 2 ^ 32)
    (inside : len ≤ head.length + tail.length) : XdrBuf where
  head := head
  tail := tail
  len := len
  full := fun _ h => absurd h List.not_mem_nil
  enough := fun h => absurd h (Nat.lt_irrefl 0)
  fits := by
    rw [List.length_nil, Nat.zero_mul, Nat.add_zero]
    exact fits
  inside := inside

/-- An item of six bytes that begins in the head and ends in the tail. -/
theorem xdrInlineDecode_layout_item :
    let buf := headAndTail [1, 2, 3, 4, 5, 6, 7, 8] [9, 10, 11, 12] 12 (by decide) (by decide)
    let xdr := xdrDecodes buf (xdrInitDecode buf 0) [(0, 4)]
    Words buf ∧ xdrQuadlen 6 < 2 ^ 32 ∧ Returns buf 4 6 6 (xdrInlineDecode buf 6 xdr 6) ∧
      (xdrInlineDecode buf 6 xdr 6).2 = some (.scratch [5, 6, 7, 8, 9, 10]) := by
  have w : Words (headAndTail [1, 2, 3, 4, 5, 6, 7, 8] [9, 10, 11, 12] 12 (by decide) (by decide)) :=
    ⟨rfl, rfl, rfl, rfl⟩
  exact ⟨w, by decide, (xdrInlineDecode_layout _ w 0 [(0, 4)] 6 6 (by decide)).1, rfl⟩

/-- **The end of a message that is not at a word, and sizes whose words do not fit.**  Of a message of 6 bytes the bytes
6 and 7 are returned, too, if they are in the tail; of a message of 5 bytes in the head the last one is not returned;
and 2 ^ 34 bytes of a message of 8 are returned without moving on. -/
theorem xdrInlineDecode_unaligned :
    (∃ buf, Words buf ∧ buf.len = 6 ∧ flat buf = [1, 2, 3, 4, 5, 6, 7, 8] ∧
      ∃ ptr, (xdrInlineDecode buf 0 (xdrDecodes buf (xdrInitDecode buf 0) [(0, 4)]) 4).2 = some ptr ∧
        ptr.bytes buf 4 = [5, 6, 7, 8]) ∧
    (∃ buf, Words buf ∧ buf.len = 5 ∧ buf.head.length = 8 ∧
      xdrStreamPos buf (xdrDecodes buf (xdrInitDecode buf 0) [(0, 4)]) = 4 ∧
      (xdrInlineDecode buf 1 (xdrDecodes buf (xdrInitDecode buf 0) [(0, 4)]) 1).2 = none) ∧
    ∃ buf, Words buf ∧ buf.len = 8 ∧ (xdrInlineDecode buf 0 (xdrInitDecode buf 0) (2 ^ 34)).2.isSome ∧
      xdrStreamPos buf (xdrInlineDecode buf 0 (xdrInitDecode buf 0) (2 ^ 34)).1 = 0 := by
  refine ⟨⟨headAndTail [1, 2, 3, 4] [5, 6, 7, 8] 6 (by decide) (by decide), ⟨rfl, rfl, rfl, rfl⟩, rfl, rfl, _, rfl, rfl⟩,
    ⟨headAndTail [1, 2, 3, 4, 5, 6, 7, 8] [] 5 (by decide) (by decide), ⟨rfl, rfl, rfl, rfl⟩, rfl, rfl, rfl, rfl⟩,
    ⟨headAndTail [1, 2, 3, 4, 5, 6, 7, 8] [] 8 (by decide) (by decide), ⟨rfl, rfl, rfl, rfl⟩, rfl, ?_, ?_⟩⟩
  · decide
  · decide

end Vastnfs.Sunrpc
