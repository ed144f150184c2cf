import Vastnfs.Lib.Bytes
import Vastnfs.Lib.Runs
import Vastnfs.Sunrpc.Xdr

/-!
# Encoding into an `xdr_buf`

A reply is encoded area by area (`net/sunrpc/xdr.c`). An area that would lie across the end of the head or of
a page is handed out at the start of the next page; `xdr_commit_encode` puts it where it belongs.

* `Settled`: where the stream is once nothing is left to be put right.
* `reserveSpace_spec`: what a reservation, and writing into it, does.
* `xdrEncode_complete`: nothing is lost, and a reservation fails only for lack of space.
-/

namespace Vastnfs.Sunrpc

open Bytes Runs

/-! ## The functions -/

/-- The storage a message is encoded into: the head up to `xdr->end`, of which `iovLen` bytes are in use, and the
pages. `buflen` is no more than there is. -/
structure EncodeBuf where
  (headSize npages buflen : Nat)
  iovLen : Nat := 0
  stored : buflen ≤ headSize + npages * 4096
  inHead : iovLen ≤ headSize
  word : iovLen % 4 = 0

/-- A pointer into the head, or to an address in the page array. -/
inductive EncodePtr where
  | head (off : Nat)
  | page (addr : Nat)
  deriving DecidableEq

/-- `struct xdr_stream` and the `struct xdr_buf` it encodes into. `pagePtr` is how far `page_ptr` is behind
`pages - 1`, and `iov` whether `xdr->iov` is still the head; `p` and `endp` are offsets in the head or in that page. -/
structure XdrEncoder where
  (head pages : Nat → UInt8)
  iovLen : Nat
  pageLen : Nat := 0
  len : Nat
  iov : Bool := true
  pagePtr : Nat := 0
  (p endp : Nat)
  scratchBase : EncodePtr := .head 0
  scratchLen : Nat := 0

namespace XdrEncoder

variable (xdr : XdrEncoder)

def page : Nat := (xdr.pagePtr - 1) * 4096

def ptr : EncodePtr := if xdr.iov then .head xdr.p else .page (xdr.page + xdr.p)

def data : List UInt8 := slice xdr.head 0 xdr.iovLen ++ slice xdr.pages 0 xdr.pageLen

def write (ptr : EncodePtr) (bytes : List UInt8) : XdrEncoder :=
  match ptr with
  | .head off => { xdr with head := store xdr.head off bytes }
  | .page addr => { xdr with pages := store xdr.pages addr bytes }

def copyTo (ptr : EncodePtr) (addr n : Nat) : XdrEncoder :=
  match ptr with
  | .head off => { xdr with head := copy xdr.head off xdr.pages addr n }
  | .page dst => { xdr with pages := copy xdr.pages dst xdr.pages addr n }

end XdrEncoder

def svcxdrInitEncode (buf : EncodeBuf) (head pages : Nat → UInt8) : XdrEncoder :=
  { head := head, pages := pages, iovLen := buf.iovLen, len := buf.iovLen, p := buf.iovLen, endp := buf.headSize }

def xdrCommitEncode (xdr : XdrEncoder) : XdrEncoder :=
  let shift := xdr.scratchLen
  if shift = 0 then xdr
  else
    let xdr := xdr.copyTo xdr.scratchBase xdr.page shift
    let xdr := xdr.copyTo (.page xdr.page) (xdr.page + shift) xdr.p
    { xdr with scratchBase := .head 0, scratchLen := 0 }

def xdrGetNextEncodeBuffer (buf : EncodeBuf) (xdr : XdrEncoder) (nbytes : Nat) : XdrEncoder × Option EncodePtr :=
  if 4096 < nbytes then (xdr, none)
  else if buf.buflen < xdr.len + nbytes then (xdr, none)
  else
    let frag1bytes := (xdr.endp - xdr.p) / 4 * 4
    let frag2bytes := nbytes - frag1bytes
    let xdr := if xdr.iov then { xdr with iovLen := xdr.iovLen + frag1bytes }
      else { xdr with pageLen := xdr.pageLen + frag1bytes }
    let xdr := { xdr with
      pagePtr := xdr.pagePtr + 1, iov := false, scratchBase := xdr.ptr, scratchLen := frag1bytes, p := frag2bytes }
    let spaceLeft := buf.buflen - xdr.len
    let xdr := { xdr with
      endp := if 4096 ≤ spaceLeft - frag1bytes then 4096 else spaceLeft - frag1bytes
      pageLen := xdr.pageLen + frag2bytes
      len := xdr.len + nbytes }
    (xdr, some (.page xdr.page))

def xdrReserveSpace (buf : EncodeBuf) (xdr : XdrEncoder) (nbytes : Nat) : XdrEncoder × Option EncodePtr :=
  let xdr := xdrCommitEncode xdr
  let nbytes := (nbytes + 3) / 4 * 4
  if xdr.endp < xdr.p + nbytes then xdrGetNextEncodeBuffer buf xdr nbytes
  else
    let p := xdr.ptr
    let xdr := { xdr with p := xdr.p + nbytes, len := xdr.len + nbytes }
    (if xdr.iov then { xdr with iovLen := xdr.iovLen + nbytes } else { xdr with pageLen := xdr.pageLen + nbytes },
      some p)

/-! ## Runs -/

/-- A call of `xdr_reserve_space` for at most `PAGE_SIZE` bytes, and what the caller writes into the area. -/
structure Reservation where
  nbytes : Nat
  area : List UInt8
  small : nbytes ≤ 4096
  whole : area.length = xdrQuadlen nbytes * 4

structure EncodeState where
  xdr : XdrEncoder
  granted : List Reservation := []

/-- A reservation is asked for, and written if it is granted. -/
def encodeStep (buf : EncodeBuf) (s : EncodeState) (r : Reservation) : Option EncodeState :=
  match xdrReserveSpace buf s.xdr r.nbytes with
  | (xdr, some ptr) => some ⟨xdr.write ptr r.area, s.granted ++ [r]⟩
  | (xdr, none) => some ⟨xdr, s.granted⟩

/-- The areas that have been written, one after the other. -/
def written (granted : List Reservation) : List UInt8 := (granted.map fun r => r.area).flatten

def writtenSize (granted : List Reservation) : Nat := (granted.map fun r => xdrQuadlen r.nbytes * 4).sum

/-- The `n` bytes at a pointer are in the head or in one of the pages. -/
def InStore (buf : EncodeBuf) (ptr : EncodePtr) (n : Nat) : Prop :=
  match ptr with
  | .head off => off + n ≤ buf.headSize
  | .page addr => addr + n ≤ buf.npages * 4096 ∧ addr % 4096 + n ≤ 4096

/-- What `xdr_commit_encode` leaves: the message is what was in the head and the areas that have been written. -/
structure Complete (buf : EncodeBuf) (head : Nat → UInt8) (s : EncodeState) (xdr : XdrEncoder) : Prop where
  data : xdr.data = slice head 0 buf.iovLen ++ written s.granted
  len : xdr.len = buf.iovLen + writtenSize s.granted
  sum : xdr.len = xdr.iovLen + xdr.pageLen

/-! ## A stream with nothing left to be put right -/

/-- Where the stream is: in the head, or in a page behind a full head. -/
inductive Place (buf : EncodeBuf) (xdr : XdrEncoder) : Prop where
  | head (iov : xdr.iov = true) (first : xdr.pagePtr = 0) (here : xdr.p = xdr.iovLen) (endp : xdr.endp = buf.headSize)
    (empty : xdr.pageLen = 0) (inHead : xdr.iovLen ≤ buf.headSize)
  | page (k : Nat) (iov : xdr.iov = false) (ptr : xdr.pagePtr = k + 1) (inPages : k < buf.npages)
    (here : xdr.pageLen = k * 4096 + xdr.p) (le : xdr.p ≤ xdr.endp)
    (endp : xdr.endp = min 4096 (buf.buflen - (xdr.iovLen + k * 4096))) (fits : xdr.iovLen + k * 4096 ≤ buf.buflen)
    (headFull : xdr.iovLen ≤ buf.headSize ∧ buf.headSize < xdr.iovLen + 4)

/-- The invariant after `xdr_commit_encode`, with the message `w`. -/
structure Settled (buf : EncodeBuf) (xdr : XdrEncoder) (w : List UInt8) : Prop where
  scratch : xdr.scratchLen = 0
  data : xdr.data = w
  sum : xdr.len = xdr.iovLen + xdr.pageLen
  iovWord : xdr.iovLen % 4 = 0
  pageWord : xdr.pageLen % 4 = 0
  place : Place buf xdr

section

variable {buf : EncodeBuf} {xdr : XdrEncoder} {w area : List UInt8} {n off f g : Nat}

theorem commitEncode_of_scratch (h : xdr.scratchLen = 0) : xdrCommitEncode xdr = xdr := if_pos h

theorem settled_init (buf : EncodeBuf) (head pages : Nat → UInt8) :
    Settled buf (svcxdrInitEncode buf head pages) (slice head 0 buf.iovLen) where
  scratch := rfl
  data := List.append_nil _
  sum := rfl
  iovWord := buf.word
  pageWord := rfl
  place := .head rfl rfl rfl rfl rfl buf.inHead

theorem slice_store_append (m : Nat → UInt8) (off : Nat) (bytes : List UInt8) :
    slice (store m off bytes) 0 (off + bytes.length) = slice m 0 off ++ bytes := by
  rw [← slice_append, slice_store_before (by omega), Nat.zero_add, slice_store]

theorem Settled.reserve_here (h : Settled buf xdr w) (hn : n % 4 = 0) (hfit : xdr.p + n ≤ xdr.endp) (harea : area.length = n) :
    Settled buf ((if xdr.iov then { xdr with p := xdr.p + n, len := xdr.len + n, iovLen := xdr.iovLen + n }
      else { xdr with p := xdr.p + n, len := xdr.len + n, pageLen := xdr.pageLen + n }).write xdr.ptr area) (w ++ area) ∧
      InStore buf xdr.ptr n := by
  have hw := h.iovWord
  have hpw := h.pageWord
  have hsum := h.sum
  cases h.place with
  | head iov first here endp empty inHead =>
    rw [if_pos iov, XdrEncoder.ptr, if_pos iov]
    refine ⟨⟨h.scratch, ?_, ?_, ?_, hpw, .head iov first ?_ endp empty ?_⟩, ?_⟩
    · have hdata := h.data
      simp only [XdrEncoder.data, empty, slice_zero, List.append_nil] at hdata
      simp only [XdrEncoder.data, XdrEncoder.write, empty, slice_zero, List.append_nil]
      rw [here, ← harea, slice_store_append, hdata]
    all_goals (simp only [XdrEncoder.write, InStore]; omega)
  | page k iov ptr inPages here le endp fits headFull =>
    have hpage : xdr.page + xdr.p = xdr.pageLen := by
      simp only [XdrEncoder.page, ptr]
      omega
    have hiov : ¬xdr.iov = true := by simp [iov]
    rw [if_neg hiov, XdrEncoder.ptr, if_neg hiov, hpage]
    refine ⟨⟨h.scratch, ?_, ?_, hw, ?_, .page k iov ptr inPages ?_ ?_ endp fits headFull⟩, ?_⟩
    · simp only [XdrEncoder.data, XdrEncoder.write]
      rw [← harea, slice_store_append, ← List.append_assoc]
      exact congrArg (· ++ area) h.data
    all_goals (simp only [XdrEncoder.write, InStore]; omega)

/-- An area of which `f` bytes belong at the end of the head and `g` bytes into the first page. -/
theorem commit_data_head {off : Nat} (hbase : xdr.scratchBase = .head off) (hlen : xdr.scratchLen = f)
    (hpage : xdr.page = 0) (hp : xdr.p = g) (hiov : xdr.iovLen = off + f) (hpl : xdr.pageLen = g)
    (harea : area.length = f + g) :
    (xdrCommitEncode (xdr.write (.page 0) area)).data = slice xdr.head 0 off ++ area := by
  have hstored : slice (store xdr.pages 0 area) 0 (f + g) = area := by
    rw [← harea]
    exact slice_store area
  by_cases hf : f = 0
  · subst hf
    rw [xdrCommitEncode, if_pos (show (xdr.write (.page 0) area).scratchLen = 0 from hlen)]
    rw [Nat.zero_add] at hstored
    simp [XdrEncoder.data, XdrEncoder.write, hiov, hpl, hstored]
  have hshift : ¬(xdr.write (.page 0) area).scratchLen = 0 := by
    simpa only [XdrEncoder.write, hlen] using hf
  rw [xdrCommitEncode, if_neg hshift]
  simp only [XdrEncoder.data, XdrEncoder.write, XdrEncoder.copyTo, XdrEncoder.page, hbase, hlen, hp, hiov, hpl] at hpage ⊢
  rw [hpage, ← slice_append, slice_copy_before (by omega), Nat.zero_add, Nat.zero_add, slice_copy, slice_copy,
    List.append_assoc]
  have hsplit := @slice_append _ (store xdr.pages 0 area) 0 g f
  rw [Nat.zero_add] at hsplit
  rw [hsplit, hstored]

/-- An area of which `f` bytes belong at the end of one page and `g` bytes into the next one. -/
theorem commit_data_page (hbase : xdr.scratchBase = .page off) (hlen : xdr.scratchLen = f) (hpage : xdr.page = off + f)
    (hp : xdr.p = g) (hpl : xdr.pageLen = off + (f + g)) (harea : area.length = f + g) :
    (xdrCommitEncode (xdr.write (.page xdr.page) area)).data = slice xdr.head 0 xdr.iovLen ++ slice xdr.pages 0 off ++ area := by
  have hstored : slice (store xdr.pages (off + f) area) (off + f) (f + g) = area := by
    rw [← harea]
    exact slice_store area
  rw [List.append_assoc]
  by_cases hf : f = 0
  · subst hf
    rw [xdrCommitEncode, if_pos (show (xdr.write (.page xdr.page) area).scratchLen = 0 from hlen)]
    simp only [XdrEncoder.data, XdrEncoder.write, hpage, hpl, Nat.add_zero, Nat.zero_add] at hstored ⊢
    rw [← slice_append, slice_store_before (by omega), Nat.zero_add, hstored]
  have hshift : ¬(xdr.write (.page xdr.page) area).scratchLen = 0 := by
    simpa only [XdrEncoder.write, hlen] using hf
  have hmove : ∀ pages : Nat → UInt8, copy (copy pages off pages (off + f) f) (off + f)
      (copy pages off pages (off + f) f) (off + f + f) g = move pages off (off + f) (f + g) := fun _ => move_left_append (by omega)
  rw [xdrCommitEncode, if_neg hshift]
  simp only [XdrEncoder.data, XdrEncoder.write, XdrEncoder.copyTo, XdrEncoder.page, hbase, hlen, hp, hpl] at hpage ⊢
  rw [hpage, hmove, move, ← slice_append, slice_copy_before (by omega), slice_store_before (by omega), Nat.zero_add,
    slice_copy, hstored]

theorem commit_frame (xdr : XdrEncoder) : ∃ head pages base,
    xdrCommitEncode xdr = { xdr with head := head, pages := pages, scratchBase := base, scratchLen := 0 } := by
  by_cases hs : xdr.scratchLen = 0
  · exact ⟨xdr.head, xdr.pages, xdr.scratchBase, by rw [commitEncode_of_scratch hs, ← hs]⟩
  · rw [xdrCommitEncode, if_neg hs]
    cases hb : xdr.scratchBase <;> simp [XdrEncoder.copyTo, hb]

theorem Settled.of_commit {ptr : EncodePtr} (hdata : (xdrCommitEncode (xdr.write ptr area)).data = w)
    (sum : xdr.len = xdr.iovLen + xdr.pageLen) (iovWord : xdr.iovLen % 4 = 0) (pageWord : xdr.pageLen % 4 = 0)
    (place : Place buf xdr) : Settled buf (xdrCommitEncode (xdr.write ptr area)) w := by
  obtain ⟨head, pages, base, heq⟩ : ∃ head pages base, xdrCommitEncode (xdr.write ptr area) =
      { xdr with head := head, pages := pages, scratchBase := base, scratchLen := 0 } := by
    cases ptr <;> exact commit_frame _
  rw [heq] at hdata ⊢
  refine ⟨rfl, hdata, sum, iovWord, pageWord, ?_⟩
  cases place with
  | head iov first here endp empty inHead => exact .head iov first here endp empty inHead
  | page k iov ptr inPages here le endp fits headFull => exact .page k iov ptr inPages here le endp fits headFull

theorem Settled.reserve_next (h : Settled buf xdr w) (hn : n % 4 = 0) (hsmall : n ≤ 4096) (hfit : xdr.endp < xdr.p + n)
    (hspace : xdr.len + n ≤ buf.buflen) (harea : area.length = n) :
    ∃ xdr' ptr, xdrGetNextEncodeBuffer buf xdr n = (xdr', some ptr) ∧
      Settled buf (xdrCommitEncode (xdr'.write ptr area)) (w ++ area) ∧ InStore buf ptr n := by
  have hw := h.iovWord
  have hpw := h.pageWord
  have hsum := h.sum
  have hdata := h.data
  have hstored := buf.stored
  refine ⟨_, _, by rw [xdrGetNextEncodeBuffer, if_neg (by omega), if_neg (by omega)], ?_⟩
  obtain ⟨f, hf⟩ : ∃ f, f = (xdr.endp - xdr.p) / 4 * 4 := ⟨_, rfl⟩
  rw [← hf]
  cases h.place with
  | head iov first here endp empty inHead =>
    rw [if_pos iov]
    have hpage : (xdr.pagePtr + 1 - 1) * 4096 = 0 := by rw [first]
    simp only [XdrEncoder.data, empty, slice_zero, List.append_nil, ← here] at hdata
    refine ⟨Settled.of_commit ?_ ?_ ?_ ?_ (.page 0 rfl ?_ ?_ ?_ ?_ ?_ ?_ ?_), ?_⟩
    · simp only [XdrEncoder.page, hpage]
      rw [← hdata]
      refine commit_data_head (f := f) (g := n - f) ?_ rfl hpage rfl ?_ ?_ ?_
      · simp [XdrEncoder.ptr, iov]
      all_goals try dsimp only
      all_goals omega
    all_goals try dsimp only [XdrEncoder.page, InStore]
    all_goals try omega
    all_goals (split <;> omega)
  | page k iov ptr inPages here le endp fits headFull =>
    have hiov : ¬xdr.iov = true := by simp [iov]
    rw [if_neg hiov]
    have hpage : xdr.page + xdr.p = xdr.pageLen := by
      simp only [XdrEncoder.page, ptr]
      omega
    have hroom : xdr.iovLen + (k + 1) * 4096 ≤ buf.buflen := by
      clear fits
      omega
    have hnext : (xdr.pagePtr + 1 - 1) * 4096 = xdr.pageLen + f := by
      rw [ptr]
      omega
    refine ⟨Settled.of_commit ?_ ?_ ?_ ?_ (.page (k + 1) rfl ?_ ?_ ?_ ?_ ?_ ?_ headFull), ?_⟩
    · rw [← hdata]
      refine commit_data_page (f := f) (g := n - f) ?_ rfl hnext rfl ?_ ?_
      · simp only [XdrEncoder.ptr, if_neg hiov]
        exact congrArg EncodePtr.page hpage
      all_goals try dsimp only
      all_goals omega
    · dsimp only
      omega
    · exact hw
    · dsimp only
      omega
    · dsimp only
      omega
    · omega
    · dsimp only
      omega
    · dsimp only
      split <;> omega
    · dsimp only
      split <;> omega
    · exact hroom
    · have hmod : (xdr.pagePtr + 1 - 1) * 4096 % 4096 = 0 := Nat.mul_mod_left _ _
      show (xdr.pagePtr + 1 - 1) * 4096 + n ≤ _ ∧ (xdr.pagePtr + 1 - 1) * 4096 % 4096 + n ≤ 4096
      omega

/-- **A reservation**: the area is granted and comes behind the message, or there is no space for it. -/
theorem reserveSpace_spec (h : Settled buf (xdrCommitEncode xdr) w) (r : Reservation) :
    (∃ xdr' ptr, xdrReserveSpace buf xdr r.nbytes = (xdr', some ptr) ∧
      Settled buf (xdrCommitEncode (xdr'.write ptr r.area)) (w ++ r.area) ∧ InStore buf ptr (xdrQuadlen r.nbytes * 4)) ∨
    xdrReserveSpace buf xdr r.nbytes = (xdrCommitEncode xdr, none) ∧
      buf.buflen < (xdrCommitEncode xdr).len + xdrQuadlen r.nbytes * 4 := by
  have hn : xdrQuadlen r.nbytes * 4 % 4 = 0 := Nat.mul_mod_left _ _
  have hsmall : xdrQuadlen r.nbytes * 4 ≤ 4096 := by
    have := r.small
    simp only [xdrQuadlen]
    omega
  have heq : (r.nbytes + 3) / 4 * 4 = xdrQuadlen r.nbytes * 4 := rfl
  simp only [xdrReserveSpace, heq]
  split
  · rename_i hfit
    by_cases hspace : buf.buflen < (xdrCommitEncode xdr).len + xdrQuadlen r.nbytes * 4
    · refine .inr ⟨?_, hspace⟩
      rw [xdrGetNextEncodeBuffer, if_neg (by omega), if_pos hspace]
    · exact .inl (h.reserve_next hn hsmall hfit (by omega) r.whole)
  rename_i hfit
  obtain ⟨hsettled, hin⟩ := h.reserve_here hn (by omega) r.whole
  refine .inl ⟨_, _, rfl, ?_, hin⟩
  rw [commitEncode_of_scratch hsettled.scratch]
  exact hsettled

end

/-! ## Every sequence of reservations -/

variable {buf : EncodeBuf} {head : Nat → UInt8} {s t : EncodeState} {r : Reservation}

def EncodeInv (buf : EncodeBuf) (head : Nat → UInt8) (s : EncodeState) : Prop :=
  Settled buf (xdrCommitEncode s.xdr) (slice head 0 buf.iovLen ++ written s.granted)

theorem written_append (granted : List Reservation) (r : Reservation) :
    written (granted ++ [r]) = written granted ++ r.area := by
  simp [written]

theorem length_written (granted : List Reservation) : (written granted).length = writtenSize granted := by
  induction granted with
  | nil => rfl
  | cons r granted ih =>
    have hcons : (written (r :: granted)).length = r.area.length + (written granted).length := by
      simp [written]
    rw [hcons, ih, r.whole]
    rfl

theorem EncodeInv.step (h : EncodeInv buf head s) (hstep : encodeStep buf s r = some t) : EncodeInv buf head t := by
  unfold encodeStep at hstep
  rcases reserveSpace_spec h r with ⟨xdr, ptr, heq, hsettled, -⟩ | ⟨heq, -⟩
  · rw [heq] at hstep
    cases hstep
    rw [List.append_assoc, ← written_append] at hsettled
    exact hsettled
  rw [heq] at hstep
  cases hstep
  show Settled buf (xdrCommitEncode (xdrCommitEncode s.xdr)) _
  rw [commitEncode_of_scratch h.scratch]
  exact h

theorem EncodeInv.complete (h : EncodeInv buf head s) : Complete buf head s (xdrCommitEncode s.xdr) where
  __ := h
  len := by
    have hlen := congrArg List.length h.data
    simp only [XdrEncoder.data, List.length_append, length_slice, length_written] at hlen
    rw [h.sum, hlen]

theorem commit_len (xdr : XdrEncoder) : (xdrCommitEncode xdr).len = xdr.len := by
  obtain ⟨head, pages, base, heq⟩ := commit_frame xdr
  rw [heq]

/-- **Encoding across pages loses nothing**: after `xdr_commit_encode` the message is what was in the head and the
areas written, and its length is their size. Every area handed out lies in the storage, and a reservation fails
only when it would make the message longer than the buffer. -/
theorem xdrEncode_complete (buf : EncodeBuf) (head pages : Nat → UInt8) (rs : List Reservation) :
    Always (encodeStep buf) (fun s => Complete buf head s (xdrCommitEncode s.xdr)) ⟨svcxdrInitEncode buf head pages, []⟩ rs ∧
      EachStep (encodeStep buf) (fun s r =>
          ((xdrReserveSpace buf s.xdr r.nbytes).2 = none → buf.buflen < s.xdr.len + xdrQuadlen r.nbytes * 4) ∧
          ∀ ptr, (xdrReserveSpace buf s.xdr r.nbytes).2 = some ptr → InStore buf ptr (xdrQuadlen r.nbytes * 4))
        ⟨svcxdrInitEncode buf head pages, []⟩ rs := by
  have hstart : EncodeInv buf head ⟨svcxdrInitEncode buf head pages, []⟩ := by
    have hinit := settled_init buf head pages
    rw [EncodeInv, commitEncode_of_scratch hinit.scratch]
    simpa [written] using hinit
  refine ⟨always_imp (fun s => EncodeInv.complete) (always_of_invariant (fun _ _ _ => EncodeInv.step) hstart),
    eachStep_of_invariant (fun _ _ _ => EncodeInv.step) ?_ hstart⟩
  intro s r t h _
  rcases reserveSpace_spec h r with ⟨xdr, ptr, heq, -, hin⟩ | ⟨heq, hfull⟩
  · rw [heq]
    refine ⟨nofun, ?_⟩
    rintro _ ⟨⟩
    exact hin
  · rw [heq]
    rw [commit_len] at hfull
    exact ⟨fun _ => hfull, nofun⟩

def twoPages : EncodeBuf := ⟨10, 2, 8200, 4, by decide, by decide, by decide⟩

theorem words_small {n : Nat} (h : n ≤ 1024) : n * 4 ≤ 4096 := by
  omega

theorem words_whole (n : Nat) (byte : UInt8) : (List.replicate (n * 4) byte).length = xdrQuadlen (n * 4) * 4 := by
  rw [List.length_replicate, xdrQuadlen]
  omega

def filledArea (n : Nat) (byte : UInt8) (h : n ≤ 1024) : Reservation where
  nbytes := n * 4
  area := List.replicate (n * 4) byte
  small := words_small h
  whole := words_whole n byte

/-- One area lies across the end of the head, and one across that of the first page. -/
def twoAreas : List Reservation := [filledArea 2 1 (by decide), filledArea 1024 2 (by decide)]

theorem xdrEncode_complete_twoPages :
    ∃ s, run (encodeStep twoPages) ⟨svcxdrInitEncode twoPages (fun _ => 0) (fun _ => 0), []⟩ twoAreas = some s ∧
      s.granted.length = 2 ∧ s.xdr.pagePtr = 2 ∧ Complete twoPages (fun _ => 0) s (xdrCommitEncode s.xdr) := by
  have hall := (xdrEncode_complete twoPages (fun _ => 0) (fun _ => 0) twoAreas).1
  refine ⟨_, rfl, rfl, rfl, ?_⟩
  have hcomplete := run_of_always hall rfl
  exact hcomplete

end Vastnfs.Sunrpc
