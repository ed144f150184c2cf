import Vastnfs.Sunrpc.XdrShift

/-!
# Getting bulk data into the pages

A reply with bulk data is received into a buffer whose pages are where the data is wanted, but how long the part
before the data is shows only when it is decoded. `xdr_read_pages` (`net/sunrpc/xdr.c`) moves the message so that
the data starts where the pages do, and goes on behind it.

* `realignPages_spec`, `alignPages_spec`: the message is the same afterwards.
* `xdrReadPages_lands`: where the data is, how much of it, and where decoding goes on.
* `xdrReadPages_misses`: without storage for what is moved the end of the message is lost.
-/

namespace Vastnfs.Sunrpc

open Bytes

/-! ## The functions -/

structure XdrReader where
  buf : XdrLayout
  mem : XdrBytes
  xdr : XdrStream

def XdrReader.xbuf (s : XdrReader) : XdrBuf := s.buf.toBuf s.mem

/-- `XDR_QUADLEN` of an `unsigned int`. -/
def quadlen32 (len : Nat) : Nat := u32 (len + 3) / 4

def xdrRealignPages (s : XdrReader) : XdrReader :=
  let cur := xdrStreamPos s.xbuf s.xdr
  if cur < s.buf.headLen then
    let r := xdrShrinkBufhead s.buf s.mem cur
    { buf := r.1, mem := r.2, xdr := xdrSetPage (r.1.toBuf r.2) s.xdr 0 r.1.pageLen }
  else s

def xdrAlignPages (s : XdrReader) (len : Nat) : XdrReader × Nat :=
  if s.xdr.nwords = 0 then (s, 0)
  else
    let s := xdrRealignPages s
    let nwords := min (quadlen32 len) s.xdr.nwords
    let len := if s.xdr.nwords < quadlen32 len then nwords * 4 else len
    if s.buf.pageLen ≤ len then (s, s.buf.pageLen)
    else if nwords < s.xdr.nwords then
      -- the page data is truncated and moved into the tail
      let r := xdrShrinkPagelen s.buf s.mem len
      ({ s with buf := r.1, mem := r.2 }, len)
    else (s, len)

def xdrReadPages (s : XdrReader) (len : Nat) : XdrReader × Nat :=
  let nwords := quadlen32 len
  let r := xdrAlignPages s (nwords * 4)
  let pglen := r.2
  if pglen = 0 then (r.1, 0)
  else
    let base := nwords * 4 - pglen
    let bytes := xdrStreamRemaining r.1.xdr - pglen
    ({ r.1 with xdr := (xdrSetTailBase r.1.xbuf r.1.xdr base bytes).1 }, min len pglen)

/-! ## Aligning -/

section

variable {s : XdrReader} {cur : Nat}

@[simp] theorem xbuf_head_length (s : XdrReader) : s.xbuf.head.length = s.buf.headLen := length_slice

theorem setPage_nwords (buf : XdrBuf) (xdr : XdrStream) :
    (xdrSetPage buf xdr 0 buf.pageLen).nwords = xdrQuadlen buf.len - xdrQuadlen buf.head.length := by
  have hpos : u32 (buf.pageLen + buf.head.length) = buf.head.length + buf.pageLen := u32_data buf
  have hwords : (if buf.head.length < buf.len then xdrQuadlen buf.len - xdrQuadlen buf.head.length else 0) =
      xdrQuadlen buf.len - xdrQuadlen buf.head.length := by
    split_ifs with h
    · rfl
    · simp only [xdrQuadlen]
      omega
  by_cases hl : 0 < buf.pageLen
  · rw [setPage_pages hl hl, xdrSetPageBase, if_neg (by omega)]
    simpa only [xdrStreamSetPos, Nat.zero_add] using hwords
  have hzero : buf.pageLen = 0 := by omega
  rw [setPage_tail hzero]
  simp only [hzero, Nat.zero_add, Nat.add_zero] at hpos
  simp [xdrSetTailBase, xdrSetIov, xdrStreamSetPos, hzero, hpos, hwords]

/-- What `xdr_realign_pages` makes of a stream that is in the head at `cur`. -/
structure Realigned (s t : XdrReader) (cur : Nat) : Prop where
  headLen : t.buf.headLen = cur
  pageBase : t.buf.pageBase = s.buf.pageBase
  pageLen : t.buf.pageLen = s.buf.pageLen
  sparse : t.buf.sparse = s.buf.sparse
  buflen : t.buf.buflen = s.buf.buflen - (s.buf.headLen - cur)
  len : t.buf.len = min s.buf.len t.buf.buflen
  nwords : t.xdr.nwords = xdrQuadlen t.buf.len - cur / 4
  keeps : Keeps s.buf s.mem t.buf t.mem

theorem realignPages_spec (hs : s.buf.sparse = false) (hwords : s.xdr.nwords ≤ xdrQuadlen s.buf.len)
    (hpos : 0 < s.xdr.nwords) (hcur : xdrStreamPos s.xbuf s.xdr = cur) (hin : cur ≤ s.buf.headLen) :
    Realigned s (xdrRealignPages s) cur := by
  have hat : cur = (xdrQuadlen s.buf.len - s.xdr.nwords) * 4 := hcur.symm
  have hlt : cur < s.buf.len := by
    simp only [xdrQuadlen] at hat hwords
    omega
  have hstored := s.buf.stored
  have hinside := s.buf.inside
  simp only [xdrRealignPages, hcur]
  split_ifs with h
  · obtain ⟨hshrunk, hkeeps⟩ := shrinkBufhead_spec hs (show cur < min s.buf.headLen s.buf.len by omega)
    refine ⟨hshrunk.headLen, hshrunk.pageBase, hshrunk.pageLen, hshrunk.sparse, hshrunk.buflen, hshrunk.len, ?_, hkeeps⟩
    set r := xdrShrinkBufhead s.buf s.mem cur
    have hnwords := setPage_nwords (r.1.toBuf r.2) s.xdr
    refine hnwords.trans ?_
    have hlen : (r.1.toBuf r.2).head.length = cur :=
      length_slice.trans hshrunk.headLen
    rw [hlen]
    show xdrQuadlen _ - xdrQuadlen cur = _
    congr 1
    simp only [xdrQuadlen]
    omega
  · refine ⟨by omega, rfl, rfl, rfl, by omega, by omega, ?_, fun _ _ => rfl⟩
    omega

/-- There is storage for the message, for what the head loses and for what the pages lose when `len` bytes are kept
in them. -/
def Room (buf : XdrLayout) (cur len : Nat) : Prop :=
  buf.len + (buf.headLen - cur) + (if len < min buf.pageLen (buf.len - cur) then buf.pageLen - len else 0) ≤ buf.buflen
deriving Decidable

/-- What `xdr_align_pages` leaves, with `pglen` bytes of the data in the pages. -/
structure Aligned (s t : XdrReader) (cur len pglen : Nat) : Prop where
  headLen : t.buf.headLen = cur
  pageBase : t.buf.pageBase = s.buf.pageBase
  size : pglen = min s.buf.pageLen (min len (s.xdr.nwords * 4))
  inPages : pglen ≤ t.buf.pageLen
  inMessage : min s.buf.len (cur + pglen) ≤ t.buf.len
  keeps : Keeps s.buf s.mem t.buf t.mem
  whole : Room s.buf cur len → t.buf.len = s.buf.len ∧ t.xdr.nwords = s.xdr.nwords ∧
    (t.buf.pageLen = pglen ∨ s.buf.len ≤ cur + len)

theorem alignPages_spec (hs : s.buf.sparse = false) (hwords : s.xdr.nwords ≤ xdrQuadlen s.buf.len)
    (hpos : 0 < s.xdr.nwords) (hcur : xdrStreamPos s.xbuf s.xdr = cur) (hin : cur ≤ s.buf.headLen) {len : Nat}
    (hlen : len % 4 = 0) (hsmall : len < 2 ^ 32) :
    Aligned s (xdrAlignPages s len).1 cur len (xdrAlignPages s len).2 := by
  have hq : quadlen32 len = len / 4 := by
    simp only [quadlen32, u32]
    omega
  have hat : cur = (xdrQuadlen s.buf.len - s.xdr.nwords) * 4 := hcur.symm
  have hr := realignPages_spec hs hwords hpos hcur hin
  obtain ⟨t, ht⟩ : ∃ t, t = xdrRealignPages s := ⟨_, rfl⟩
  rw [← ht] at hr
  obtain ⟨hhead, hbase, hpages, hsparse, hbuflen, hmsg, hnwords, hkeeps⟩ := hr
  have hstored := t.buf.stored
  -- nothing is lost that the pages have room for
  set n := min len (t.xdr.nwords * 4)
  have hsize : min s.buf.pageLen n = min s.buf.pageLen (min len (s.xdr.nwords * 4)) := by
    simp only [xdrQuadlen] at *
    omega
  have hwhole : Room s.buf cur len → t.buf.len = s.buf.len ∧ t.xdr.nwords = s.xdr.nwords := by
    intro hroom
    unfold Room at hroom
    simp only [xdrQuadlen] at *
    omega
  have hclip : (if t.xdr.nwords < len / 4 then min (len / 4) t.xdr.nwords * 4 else len) = n := by
    split_ifs <;> omega
  simp only [xdrAlignPages, if_neg (Nat.pos_iff_ne_zero.1 hpos), hq, ← ht, hclip]
  split_ifs with hshort hmore
  · show Aligned s t cur len t.buf.pageLen
    exact ⟨hhead, hbase, by omega, by omega, by omega, hkeeps, fun hroom => ⟨(hwhole hroom).1, (hwhole hroom).2, .inl rfl⟩⟩
  · have hmin : n = len := by omega
    have hfit : t.buf.headLen + len < t.buf.len := by
      simp only [xdrQuadlen] at hnwords hat
      omega
    rw [hmin] at hshort ⊢
    obtain ⟨hshrunk, hkeeps'⟩ := shrinkPagelen_spec (hsparse.trans hs) (show len < t.buf.pageLen by omega) hfit
    have hbuflen' := hshrunk.buflen
    have hmsg' := hshrunk.len
    have hpages' := hshrunk.pageLen
    obtain ⟨r, hr⟩ : ∃ r, r = xdrShrinkPagelen t.buf t.mem len := ⟨_, rfl⟩
    rw [← hr] at hshrunk hkeeps' hbuflen' hmsg' hpages'
    rw [← hr]
    show Aligned s { t with buf := r.1, mem := r.2 } cur len len
    refine ⟨hshrunk.headLen.trans hhead, hshrunk.pageBase.trans hbase, by omega, Nat.le_of_eq hpages'.symm, ?_, ?_, ?_⟩
    · show min s.buf.len (cur + len) ≤ r.1.len
      omega
    · intro a ha
      have hlt : a < r.1.len := ha
      exact (hkeeps' a hlt).trans (hkeeps a (by omega))
    · intro hroom
      refine ⟨?_, (hwhole hroom).2, .inl hpages'⟩
      unfold Room at hroom
      rw [if_pos (by omega)] at hroom
      show r.1.len = s.buf.len
      omega
  · show Aligned s t cur len n
    have hend : t.buf.len ≤ cur + n := by
      simp only [xdrQuadlen] at hnwords hat
      omega
    refine ⟨hhead, hbase, by omega, by omega, ?_, hkeeps, fun hroom => ⟨(hwhole hroom).1, (hwhole hroom).2, .inr ?_⟩⟩
    · omega
    · have hlen' := (hwhole hroom).1
      omega

end

/-! ## Reading pages -/

/-- The stream is at `cur` in the head. -/
structure AtHead (s : XdrReader) (cur : Nat) : Prop where
  seg : s.xdr.seg = .head
  here : s.xdr.p = cur
  endp : s.xdr.endp = min s.buf.headLen s.buf.len
  le : cur ≤ s.xdr.endp
  words : s.xdr.nwords ≤ xdrQuadlen s.buf.len
  pos : xdrStreamPos s.xbuf s.xdr = cur

/-- From `pos` on the stream `t` decodes what the message of `s` has there: an item that is inside the message is
found, and there is nothing to decode when the message does not go that far. -/
structure GoesOn (s t : XdrReader) (pos : Nat) : Prop where
  item : ∀ scratch nbytes, 0 < nbytes → pos + xdrQuadlen nbytes * 4 ≤ s.buf.len →
    ∃ ptr, (xdrInlineDecode t.xbuf scratch t.xdr nbytes).2 = some ptr ∧
      ptr.bytes t.xbuf nbytes = ((flat s.xbuf).drop pos).take nbytes
  done : s.buf.len ≤ pos → ∀ scratch nbytes, 0 < nbytes → (xdrInlineDecode t.xbuf scratch t.xdr nbytes).2 = none

/-- What `xdr_read_pages` is for. -/
structure Lands (s : XdrReader) (cur len : Nat) (r : XdrReader × Nat) : Prop where
  size : r.2 = min len (min (xdrStreamRemaining s.xdr) s.buf.pageLen)
  data : ((r.1.xbuf.pages.flatten.drop r.1.buf.pageBase).take (min r.2 (s.buf.len - cur))) =
    ((flat s.xbuf).drop cur).take (min r.2 (s.buf.len - cur))
  rest : 0 < len → 0 < s.buf.pageLen → Room s.buf cur (xdrQuadlen len * 4) → GoesOn s r.1 (cur + xdrQuadlen len * 4)

section

variable {s t : XdrReader} {cur len nbytes pglen len4 n : Nat}

theorem inlineDecode_none (h : t.xdr.p = t.xdr.endp)
    (hnext : (xdrSetNextBuffer t.xbuf t.xdr).p = (xdrSetNextBuffer t.xbuf t.xdr).endp) (scratch : Nat) (hn : 0 < nbytes) :
    (xdrInlineDecode t.xbuf scratch t.xdr nbytes).2 = none := by
  rw [xdrInlineDecode, if_neg (by omega), if_pos h]
  rw [if_pos hnext]

theorem inlineDecode_endOfTail (hseg : t.xdr.seg = .tail) (h : t.xdr.p = t.xdr.endp) (scratch : Nat)
    (hn : 0 < nbytes) : (xdrInlineDecode t.xbuf scratch t.xdr nbytes).2 = none := by
  refine inlineDecode_none h ?_ scratch hn
  simpa only [xdrSetNextBuffer, hseg] using h

theorem AtHead.spent (h : AtHead s cur) (hwords : s.xdr.nwords = 0) (scratch : Nat) (hn : 0 < nbytes) :
    (xdrInlineDecode s.xbuf scratch s.xdr nbytes).2 = none := by
  have hat : cur = (xdrQuadlen s.buf.len - s.xdr.nwords) * 4 := h.pos.symm
  have hend : s.xdr.p = s.xdr.endp := by
    have := h.le
    have := h.endp
    have := h.here
    simp only [xdrQuadlen] at hat
    omega
  refine inlineDecode_none hend ?_ scratch hn
  have hzero : (xdrSetPageBase s.xbuf s.xdr 0 0).2 = 0 := by
    unfold xdrSetPageBase
    split_ifs <;> simp
  simp only [xdrSetNextBuffer, h.seg, xdrSetPage, xdrStreamRemaining, hwords, Nat.zero_mul, hzero, if_true]
  simp [xdrSetTailBase, xdrSetIov]

theorem Keeps.slice {buf : XdrLayout} {mem : XdrBytes} (h : Keeps s.buf s.mem buf mem) {pos : Nat}
    (hn : pos + n ≤ buf.len) (hn' : pos + n ≤ s.buf.len) : slice (buf.get mem) pos n = ((flat s.xbuf).drop pos).take n := by
  have hinside := s.buf.inside
  rw [XdrReader.xbuf, XdrLayout.flat_toBuf, take_drop_slice (by unfold XdrLayout.sum; omega), Nat.zero_add]
  exact slice_congr fun i hi => h _ (by omega)

theorem Aligned.goesOn (h : AtHead s cur) (ha : Aligned s t cur len4 pglen) (hroom : Room s.buf cur len4)
    (hlen : len4 % 4 = 0) (hsmall : len4 < 2 ^ 32) :
    GoesOn s { t with xdr := (xdrSetTailBase t.xbuf t.xdr (len4 - pglen) (xdrStreamRemaining t.xdr - pglen)).1 } (cur + len4) := by
  obtain ⟨hhead, -, hsize, hinPages, -, hkeeps, hwhole⟩ := ha
  obtain ⟨hmsg, hnwords, hpages⟩ := hwhole hroom
  have hat : cur = (xdrQuadlen s.buf.len - s.xdr.nwords) * 4 := h.pos.symm
  have hwords := h.words
  have hinside := t.buf.inside
  have hfits := t.buf.len_lt
  obtain ⟨xdr, hxdr⟩ : ∃ xdr, xdr = (xdrSetTailBase t.xbuf t.xdr (len4 - pglen) (xdrStreamRemaining t.xdr - pglen)).1 := ⟨_, rfl⟩
  have hseg : xdr.seg = .tail := by rw [hxdr]; rfl
  have hend : xdr.endp = min (s.xdr.nwords * 4 - pglen) t.buf.tailLen := by
    rw [hxdr, ← hnwords]
    exact congrArg (min _) length_slice
  have hp : xdr.p = min (len4 - pglen) xdr.endp := by
    rw [hxdr]
    rfl
  rw [← hxdr]
  constructor
  · intro scratch nbytes hn hitem
    have hk : 0 < xdrQuadlen nbytes := by
      simp only [xdrQuadlen]
      omega
    have hpages' : t.buf.pageLen = pglen := by omega
    set next := cur + len4
    have hpos : u32 (len4 - pglen + t.xbuf.pageLen + t.xbuf.head.length) = next := by
      rw [xbuf_head_length, show t.xbuf.pageLen = pglen from hpages', u32, Nat.mod_eq_of_lt] <;> omega
    have hwords' : xdr.nwords = xdrQuadlen s.buf.len - next / 4 := by
      rw [hxdr]
      show (xdrStreamSetPos t.xbuf t.xdr (u32 (len4 - pglen + t.xbuf.pageLen + t.xbuf.head.length))).nwords = _
      rw [hpos]
      show (if next < t.buf.len then xdrQuadlen t.buf.len - xdrQuadlen next else 0) = _
      rw [hmsg, if_pos (by omega)]
      simp only [xdrQuadlen]
      omega
    have hfit : xdr.p + xdrQuadlen nbytes * 4 ≤ xdr.endp := by
      simp only [xdrQuadlen] at hat hwords
      omega
    have hsizeWords : sizeWords nbytes = xdrQuadlen nbytes := sizeWords_eq (by omega)
    refine ⟨.inline .tail xdr.p, ?_, ?_⟩
    · show (xdrInlineDecode t.xbuf scratch xdr nbytes).2 = _
      rw [xdrInlineDecode, if_neg (by omega), if_neg (by omega), xdrDecodeHere, xdrInlineDecode', hsizeWords, if_neg, hseg]
      omega
    · show bytesAt t.xbuf .tail xdr.p nbytes = _
      have hle : nbytes ≤ xdrQuadlen nbytes * 4 := by
        simp only [xdrQuadlen]
        omega
      have hoff : flatOffset t.xbuf .tail xdr.p = next := by
        show t.xbuf.head.length + t.buf.pageLen + xdr.p = _
        rw [xbuf_head_length]
        omega
      have htail : segEnd t.xbuf .tail = t.buf.tailLen := length_slice
      have hflat : ((flat t.xbuf).drop next).take nbytes = slice (t.buf.get t.mem) next nbytes := by
        rw [XdrReader.xbuf, XdrLayout.flat_toBuf, take_drop_slice (by unfold XdrLayout.sum; omega), Nat.zero_add]
      rw [@bytesAt_eq _ .tail _ _ trivial (show xdr.p + nbytes ≤ segEnd t.xbuf .tail by omega), hoff, hflat,
        hkeeps.slice (by omega) (by omega)]
  · intro hdone scratch nbytes hn
    refine inlineDecode_endOfTail (t := { t with xdr := xdr }) hseg ?_ scratch hn
    show xdr.p = xdr.endp
    simp only [xdrQuadlen] at hat hwords
    omega

theorem Aligned.data (ha : Aligned s t cur len4 pglen) (hn : n ≤ pglen) :
    (t.xbuf.pages.flatten.drop t.buf.pageBase).take (min n (s.buf.len - cur)) =
      ((flat s.xbuf).drop cur).take (min n (s.buf.len - cur)) := by
  have hin := ha.inPages
  have hmsg := ha.inMessage
  rcases Nat.le_total s.buf.len cur with hend | hcur
  · simp [Nat.sub_eq_zero_of_le hend]
  rw [XdrReader.xbuf, XdrLayout.pageData_eq _ _ _ (by omega), ← ha.keeps.slice (by omega) (by omega)]
  refine slice_congr fun i hi => ?_
  rw [← ha.headLen, t.buf.get_pages t.mem (by omega)]

/-- **Bulk data lands in the pages**, and decoding goes on behind it. -/
theorem xdrReadPages_lands (s : XdrReader) (cur len : Nat) (h : AtHead s cur) (hs : s.buf.sparse = false)
    (hlen : len ≤ 2 ^ 32 - 4) : Lands s cur len (xdrReadPages s len) := by
  have hlen4 : quadlen32 len = xdrQuadlen len := by
    simp only [quadlen32, u32, xdrQuadlen]
    omega
  have hsmall : xdrQuadlen len * 4 < 2 ^ 32 := by
    simp only [xdrQuadlen]
    omega
  have hle : len ≤ xdrQuadlen len * 4 := by
    simp only [xdrQuadlen]
    omega
  have hat : cur = (xdrQuadlen s.buf.len - s.xdr.nwords) * 4 := h.pos.symm
  simp only [xdrReadPages, hlen4]
  rcases Nat.eq_zero_or_pos s.xdr.nwords with hzero | hpos
  · -- nothing is left of the message
    have hend : s.buf.len ≤ cur := by
      simp only [xdrQuadlen] at hat
      omega
    have hnone : xdrAlignPages s (xdrQuadlen len * 4) = (s, 0) := by rw [xdrAlignPages, if_pos hzero]
    rw [hnone, if_pos rfl]
    refine ⟨by simp [xdrStreamRemaining, hzero], by simp, fun _ _ _ => ⟨?_, fun _ scratch nbytes hn => h.spent hzero scratch hn⟩⟩
    intro scratch nbytes hn hitem
    omega
  have hin : cur ≤ s.buf.headLen := by
    have := h.le
    have := h.endp
    omega
  have ha := alignPages_spec hs h.words hpos h.pos hin (Nat.mul_mod_left (xdrQuadlen len) 4) hsmall
  obtain ⟨r, hr⟩ : ∃ r, r = xdrAlignPages s (xdrQuadlen len * 4) := ⟨_, rfl⟩
  rw [← hr] at ha
  simp only [← hr]
  have hsize := ha.size
  have hn : min len r.2 = min len (min (s.xdr.nwords * 4) s.buf.pageLen) := by omega
  split_ifs with hpg
  · refine ⟨by simp only [xdrStreamRemaining]; omega, by simp, fun hlen' hpages _ => ?_⟩
    omega
  · exact ⟨hn, ha.data (Nat.min_le_right _ _), fun _ _ hroom => ha.goesOn h hroom (Nat.mul_mod_left _ _) hsmall⟩

end

/-- A reply of sixteen bytes, `pageLen` of them in a page and the others in the head, read up to byte 4, with
storage for `buflen` bytes. -/
def sampleReply (pageLen buflen : Nat) (hpages : pageLen ≤ 12) (hbuf : 16 ≤ buflen) (hfits : buflen ≤ 64) : XdrReader where
  buf :=
    { headLen := 16 - pageLen, npages := 1, pageLen := pageLen, len := 16, buflen := buflen
      enough := by omega
      stored := by omega
      fits := by omega
      inside := by omega }
  mem := { head := fun i => UInt8.ofNat i, pages := fun i => UInt8.ofNat (16 - pageLen + i), tail := fun _ => 0 }
  xdr := { seg := .head, p := 4, endp := 16 - pageLen, nwords := 3 }

theorem sampleReply_atHead (pageLen buflen : Nat) (hpages : pageLen ≤ 12) (hbuf : 16 ≤ buflen) (hfits : buflen ≤ 64) :
    AtHead (sampleReply pageLen buflen hpages hbuf hfits) 4 where
  seg := rfl
  here := rfl
  endp := by
    simp only [sampleReply]
    omega
  le := by
    simp only [sampleReply]
    omega
  words := by simp [sampleReply, xdrQuadlen]
  pos := by simp [xdrStreamPos, XdrReader.xbuf, XdrLayout.toBuf, sampleReply, xdrQuadlen]

/-- With storage for what is moved, four bytes are read into the page, and decoding goes on at byte 8. -/
theorem xdrReadPages_lands_sample : Room (sampleReply 8 32 (by decide) (by decide) (by decide)).buf 4 4 ∧
    (xdrReadPages (sampleReply 8 32 (by decide) (by decide) (by decide)) 4).2 = 4 ∧
    GoesOn (sampleReply 8 32 (by decide) (by decide) (by decide))
      (xdrReadPages (sampleReply 8 32 (by decide) (by decide) (by decide)) 4).1 8 := by
  have h := xdrReadPages_lands _ 4 4 (sampleReply_atHead 8 32 (by decide) (by decide) (by decide)) rfl (by decide)
  exact ⟨by decide, h.size, h.rest (by decide) (by decide) (by decide)⟩

/-- When the storage is full, what is moved is moved over the end of the message: a stream at byte 4 that reads four
bytes finds nothing behind them, although the message has eight more. In a reply without pages the stream finds
nothing either, even with storage left. -/
theorem xdrReadPages_misses :
    (AtHead (sampleReply 8 16 (by decide) (by decide) (by decide)) 4 ∧
      (xdrInlineDecode (xdrReadPages (sampleReply 8 16 (by decide) (by decide) (by decide)) 4).1.xbuf 0
        (xdrReadPages (sampleReply 8 16 (by decide) (by decide) (by decide)) 4).1.xdr 4).2 = none) ∧
    AtHead (sampleReply 0 32 (by decide) (by decide) (by decide)) 4 ∧
      (xdrInlineDecode (xdrReadPages (sampleReply 0 32 (by decide) (by decide) (by decide)) 4).1.xbuf 0
        (xdrReadPages (sampleReply 0 32 (by decide) (by decide) (by decide)) 4).1.xdr 4).2 = none :=
  ⟨⟨sampleReply_atHead _ _ _ _ _, by decide⟩, sampleReply_atHead _ _ _ _ _, by decide⟩

end Vastnfs.Sunrpc
