import Vastnfs.Lib.Bytes
import Vastnfs.Sunrpc.GssSequence

/-!
# Integrity protected arguments

With the integrity service the arguments of a call follow their length and the sequence number, and a MIC stands behind
them. `unwrap_integ_data` (`net/sunrpc/auth_gss/svcauth_gss.c`) cuts the protected bytes out of the request, reads the MIC
behind them, and then leaves the arguments by moving the start of the head and trimming the end of the request.

* `subsegment_part`, `readBytesFromXdrBuf_eq`, `trim_bytes`: the helpers, over the bytes of the request.
* `unwrapIntegData_eq`: a call on a request whose head holds the first two words, over its bytes.
* `unwrapIntegData_iff`: when the service gets the protected bytes and no length wraps.
-/

namespace Vastnfs.Sunrpc

open Bytes List Option BitVec

/-! ## The functions -/

/-- `struct kvec`; `iov_len` is a `size_t`. -/
structure Kvec where
  (iovBase iovLen : Nat)
deriving DecidableEq

/-- `struct xdr_buf`: `pages` is the index of its first page. -/
structure ArgBuf where
  head : Kvec
  (pages pageBase pageLen : Nat)
  tail : Kvec
  len : Nat
deriving DecidableEq

/-- What is left of a request: `rq_arg.len` counts the bytes that have been read from the head too. -/
structure RequestBuf extends ArgBuf where
  held : head.iovLen + pageLen + tail.iovLen ≤ len
  small : len < 2 ^ 32
  paged : pageBase + pageLen < 2 ^ 32

/-- What one segment contributes to a part of the request, and the `base` and `len` for the segments behind it. -/
structure Cut where
  (start thisLen base len : Nat)

/-- The step of `xdr_buf_subsegment` for one segment; `min_t` compares as `unsigned int`. -/
def cutSegment (segLen base len : Nat) : Cut :=
  if base < segLen then
    let thisLen := min len ((segLen - base) % 2 ^ 32)
    { start := base, thisLen := thisLen, base := 0, len := len - thisLen }
  else { start := 0, thisLen := 0, base := base - segLen, len := len }

def xdrBufSubsegment (buf : ArgBuf) (base len : Nat) : Option ArgBuf :=
  let head := cutSegment buf.head.iovLen base len
  let page := cutSegment buf.pageLen head.base head.len
  let tail := cutSegment buf.tail.iovLen page.base page.len
  if tail.base ≠ 0 ∨ tail.len ≠ 0 then none
  else
    some
      { head := ⟨buf.head.iovBase + head.start, head.thisLen⟩
        pages := if head.base < buf.pageLen then buf.pages + (head.base + buf.pageBase) % 2 ^ 32 / 4096 else buf.pages
        pageBase := if head.base < buf.pageLen then (head.base + buf.pageBase) % 2 ^ 32 % 4096 else 0
        pageLen := page.thisLen
        tail := ⟨buf.tail.iovBase + tail.start, tail.thisLen⟩
        len := len }

/-- Once nothing is left to trim the other segments stay as they are. -/
def xdrBufTrim (buf : ArgBuf) (len : Nat) : ArgBuf :=
  let tailCur := min buf.tail.iovLen len
  let trim := len - tailCur
  let pageCur := min buf.pageLen trim
  let trim := trim - pageCur
  let headCur := min buf.head.iovLen trim
  let trim := trim - headCur
  { buf with
    head := { buf.head with iovLen := buf.head.iovLen - headCur }
    pageLen := buf.pageLen - pageCur
    tail := { buf.tail with iovLen := buf.tail.iovLen - tailCur }
    len := (buf.len + 2 ^ 32 - (len - trim)) % 2 ^ 32 }

def rpcMaxAuthSize : Nat := 400

section

variable (mem page : Nat → BitVec 8)

def argBytes (buf : ArgBuf) : List (BitVec 8) :=
  slice mem buf.head.iovBase buf.head.iovLen ++
    (slice page (buf.pages * 4096 + buf.pageBase) buf.pageLen ++ slice mem buf.tail.iovBase buf.tail.iovLen)

/-- `svc_getnl` on the head of a buffer, with no look at its length. -/
def headGetnl (buf : ArgBuf) : BitVec 32 × ArgBuf :=
  ((svcGetnl (slice mem buf.head.iovBase 4)).1,
    { buf with head := ⟨buf.head.iovBase + 4, (buf.head.iovLen + 2 ^ 64 - 4) % 2 ^ 64⟩ })

/-- `__read_bytes_from_xdr_buf`: what is put at `obj`. -/
def copySubbuf (subbuf : ArgBuf) (len : Nat) : List (BitVec 8) :=
  let headLen := min len (subbuf.head.iovLen % 2 ^ 32)
  let len := len - headLen
  let pageLen := min len subbuf.pageLen
  let len := len - pageLen
  slice mem subbuf.head.iovBase headLen ++
    (slice page (subbuf.pages * 4096 + subbuf.pageBase) pageLen ++
      slice mem subbuf.tail.iovBase (min len (subbuf.tail.iovLen % 2 ^ 32)))

def readBytesFromXdrBuf (buf : ArgBuf) (base len : Nat) : Option (List (BitVec 8)) :=
  (xdrBufSubsegment buf base len).map fun subbuf => copySubbuf mem page subbuf len

def readU32FromXdrBuf (buf : ArgBuf) (base : Nat) : Option (BitVec 32) :=
  (readBytesFromXdrBuf mem page buf base 4).map fun raw => (svcGetnl raw).1

/-- A call of `unwrap_integ_data`: what it returns, what it leaves of the request, and what `gss_verify_mic` was given. -/
structure Unwrapped where
  stat : Int
  buf : ArgBuf
  checked : Option (List (BitVec 8) × List (BitVec 8)) := none
deriving DecidableEq

variable (verifyMic : List (BitVec 8) → List (BitVec 8) → Bool)

/-- `memory` says whether there is room for the MIC. -/
def unwrapIntegData (rqDeferred memory : Bool) (buf : ArgBuf) (seq : BitVec 32) : Unwrapped :=
  if rqDeferred then { stat := 0, buf := buf }
  else
    let (integLen, buf) := headGetnl mem buf
    let failed : Unwrapped := { stat := -22, buf := buf }
    if integLen &&& 3 ≠ 0 then failed
    else if buf.len < integLen.toNat then failed
    else
      match xdrBufSubsegment buf 0 integLen.toNat with
      | none => failed
      | some integBuf =>
        match readU32FromXdrBuf mem page buf integLen.toNat with
        | none => failed
        | some micLen =>
          if rpcMaxAuthSize < micLen.toNat then failed
          else if !memory then failed
          else
            match readBytesFromXdrBuf mem page buf (integLen + 4).toNat micLen.toNat with
            | none => failed
            | some mic =>
              let checked := some (argBytes mem page integBuf, mic)
              if !verifyMic (argBytes mem page integBuf) mic then { failed with checked := checked }
              else
                let (rseqno, buf) := headGetnl mem buf
                if rseqno ≠ seq then { stat := -22, buf := buf, checked := checked }
                else { stat := 0, buf := xdrBufTrim buf (roundUpToQuad micLen + 4).toNat, checked := checked }

end

/-! ## The helpers, over the bytes -/

def ArgBuf.total (buf : ArgBuf) : Nat := buf.head.iovLen + (buf.pageLen + buf.tail.iovLen)

/-- Where byte `a` of a buffer is: in the memory of the head and the tail, or in the pages. -/
def ArgBuf.addr (buf : ArgBuf) (a : Nat) : Nat ⊕ Nat :=
  if a < buf.head.iovLen then .inl (buf.head.iovBase + a)
  else if a < buf.head.iovLen + buf.pageLen then .inr (buf.pages * 4096 + buf.pageBase + (a - buf.head.iovLen))
  else .inl (buf.tail.iovBase + (a - (buf.head.iovLen + buf.pageLen)))

/-- `sub` is the part of a buffer from `base` on. -/
structure Part (buf sub : ArgBuf) (base : Nat) : Prop where
  inside : base + sub.total ≤ buf.total
  addr : ∀ a < sub.total, sub.addr a = buf.addr (base + a)

/-- The lengths of a buffer that has not been read behind its end. -/
structure Bounded (buf : ArgBuf) : Prop where
  held : buf.head.iovLen + (buf.pageLen + buf.tail.iovLen) ≤ buf.len
  small : buf.len < 2 ^ 32
  paged : buf.pageBase + buf.pageLen < 2 ^ 32

section

variable {buf : ArgBuf} (mem page : Nat → BitVec 8)

theorem argBytes_eq (buf : ArgBuf) :
    argBytes mem page buf = slice (fun a => Sum.elim mem page (buf.addr a)) 0 buf.total := by
  simp only [argBytes, ArgBuf.total, ← slice_append]
  congr 1
  · exact slice_congr fun a ha => by simp [ArgBuf.addr, ha]
  congr 1
  · exact slice_congr fun a ha => by simp [ArgBuf.addr, ha]
  · refine slice_congr fun a ha => ?_
    rw [ArgBuf.addr, if_neg (by omega), if_neg (by omega), Sum.elim_inl]
    congr 1
    omega

@[simp] theorem length_argBytes (buf : ArgBuf) : (argBytes mem page buf).length = buf.total := by
  rw [argBytes_eq, length_slice]

theorem Part.argBytes {sub : ArgBuf} {base : Nat} (h : Part buf sub base) :
    argBytes mem page sub = ((argBytes mem page buf).drop base).take sub.total := by
  rw [argBytes_eq, argBytes_eq, take_drop_slice h.inside]
  exact slice_congr fun a ha => by simp only [Nat.zero_add, h.addr a ha]

variable {base len : Nat} (hsmall : buf.total < 2 ^ 32) (hpaged : buf.pageBase + buf.pageLen < 2 ^ 32)
include hsmall

theorem subsegment_none (h : buf.total < base + len) : xdrBufSubsegment buf base len = none := by
  unfold ArgBuf.total at *
  simp only [xdrBufSubsegment, cutSegment]
  rw [if_pos]
  split_ifs <;> dsimp only at * <;> omega

include hpaged

theorem subsegment_part (h : base + len ≤ buf.total) :
    ∃ sub, xdrBufSubsegment buf base len = some sub ∧ sub.total = len ∧ Part buf sub base := by
  suffices hsub : ∃ sub, xdrBufSubsegment buf base len = some sub ∧ sub.total = len ∧
      ∀ a < len, sub.addr a = buf.addr (base + a) by
    obtain ⟨sub, hsub, rfl, haddr⟩ := hsub
    exact ⟨sub, hsub, rfl, h, haddr⟩
  unfold ArgBuf.total at *
  simp only [xdrBufSubsegment, cutSegment]
  split_ifs <;> dsimp only at * <;> try omega
  all_goals
    refine ⟨_, rfl, ?_⟩
    dsimp only
    refine ⟨by omega, fun a ha => ?_⟩
    simp only [ArgBuf.addr]
    split_ifs <;> first | omega | exact congrArg _ (by omega)

theorem readBytesFromXdrBuf_eq (base len : Nat) :
    readBytesFromXdrBuf mem page buf base len =
      if base + len ≤ buf.total then some (((argBytes mem page buf).drop base).take len) else none := by
  unfold readBytesFromXdrBuf
  split_ifs with henough
  · obtain ⟨sub, hsub, rfl, hp⟩ := subsegment_part hsmall hpaged henough
    rw [hsub, map_some, ← hp.argBytes mem page, copySubbuf, argBytes]
    unfold ArgBuf.total at *
    simp only [Nat.mod_eq_of_lt (show sub.head.iovLen < 2 ^ 32 by omega),
      Nat.mod_eq_of_lt (show sub.tail.iovLen < 2 ^ 32 by omega)]
    congr 3 <;> congr 1 <;> omega
  · rw [subsegment_none hsmall (by omega), map_none]

end

section

variable {buf : ArgBuf} (mem page : Nat → BitVec 8)

theorem Bounded.total_lt (hb : Bounded buf) : buf.total < 2 ^ 32 := hb.held.trans_lt hb.small

theorem trim_bytes (buf : ArgBuf) (len : Nat) :
    argBytes mem page (xdrBufTrim buf len) = (argBytes mem page buf).take (buf.total - len) := by
  simp only [argBytes, xdrBufTrim, take_append, length_slice, take_slice, ArgBuf.total]
  congr 2
  · omega
  · congr 1
    omega
  · congr 1
    omega

theorem headGetnl_fst (h : 4 ≤ buf.head.iovLen) : (headGetnl mem buf).1 = (svcGetnl (argBytes mem page buf)).1 := by
  have htake : (argBytes mem page buf).take 4 = slice mem buf.head.iovBase 4 := by
    rw [argBytes, take_append_of_le_length (by rw [length_slice]; exact h), take_slice, min_eq_left h]
  rw [headGetnl, svcGetnl, svcGetnl, ← htake, take_take, min_self]

theorem iovLen_of_headGetnl {buf' : ArgBuf} {word : BitVec 32} (h : headGetnl mem buf = (word, buf')) :
    buf'.head.iovLen = (buf.head.iovLen + 2 ^ 64 - 4) % 2 ^ 64 := by
  cases h
  rfl

theorem headGetnl_iovLen (h : 4 ≤ buf.head.iovLen) (hsmall : buf.head.iovLen < 2 ^ 32) :
    (headGetnl mem buf).2.head.iovLen = buf.head.iovLen - 4 := by
  show (buf.head.iovLen + 2 ^ 64 - 4) % 2 ^ 64 = _
  omega

theorem argBytes_headGetnl (h : 4 ≤ buf.head.iovLen) (hsmall : buf.head.iovLen < 2 ^ 32) :
    argBytes mem page (headGetnl mem buf).2 = (argBytes mem page buf).drop 4 := by
  rw [argBytes, headGetnl_iovLen mem h hsmall, argBytes, drop_append_of_le_length (by rw [length_slice]; exact h),
    drop_slice]
  rfl

theorem Bounded.headGetnl (hb : Bounded buf) (h : 4 ≤ buf.head.iovLen) : Bounded (headGetnl mem buf).2 := by
  have hheld := hb.held
  have hsmall := hb.small
  refine ⟨?_, hsmall, hb.paged⟩
  rw [headGetnl_iovLen mem h (by omega)]
  show buf.head.iovLen - 4 + (buf.pageLen + buf.tail.iovLen) ≤ buf.len
  omega

end

/-! ## What a request says about itself -/

section

def integLen (msg : List (BitVec 8)) : BitVec 32 := (svcGetnl msg).1

def covered (msg : List (BitVec 8)) : List (BitVec 8) := (msg.drop 4).take (integLen msg).toNat

def micLen (msg : List (BitVec 8)) : BitVec 32 := (svcGetnl (msg.drop (4 + (integLen msg).toNat))).1

def micOf (msg : List (BitVec 8)) : List (BitVec 8) := (msg.drop (8 + (integLen msg).toNat)).take (micLen msg).toNat

/-- What is trimmed: the MIC with its length and its padding. -/
def trimmed (msg : List (BitVec 8)) : Nat := (roundUpToQuad (micLen msg) + 4).toNat

/-- The MIC of the message is there and is right. -/
structure Verified (verifyMic : List (BitVec 8) → List (BitVec 8) → Bool) (memory : Bool) (msg : List (BitVec 8)) : Prop where
  words : integLen msg &&& 3 = 0
  room : 8 + (integLen msg).toNat + (micLen msg).toNat ≤ msg.length
  short : (micLen msg).toNat ≤ rpcMaxAuthSize
  memory : memory = true
  right : verifyMic (covered msg) (micOf msg) = true

end

variable (mem page : Nat → BitVec 8) (verifyMic : List (BitVec 8) → List (BitVec 8) → Bool) {buf second first : ArgBuf}
  {len rseqno : BitVec 32} {msg : List (BitVec 8)} {k n : Nat}

section

variable {mem page} {first : ArgBuf} {msg : List (BitVec 8)} (hb : Bounded first)
  (hbytes : argBytes mem page first = msg.drop 4)
include hb hbytes

theorem readU32FromXdrBuf_micLen : readU32FromXdrBuf mem page first (integLen msg).toNat =
    if (integLen msg).toNat + 4 ≤ first.total then some (micLen msg) else none := by
  rw [readU32FromXdrBuf, readBytesFromXdrBuf_eq mem page hb.total_lt hb.paged, hbytes, drop_drop]
  split
  · rw [map_some, micLen, svcGetnl, svcGetnl, take_take, min_self]
  · rfl

theorem readBytesFromXdrBuf_mic (hroom : (integLen msg).toNat + 4 ≤ first.total) :
    readBytesFromXdrBuf mem page first (integLen msg + 4).toNat (micLen msg).toNat =
      if (integLen msg).toNat + 4 + (micLen msg).toNat ≤ first.total then some (micOf msg) else none := by
  have hle : first.total ≤ first.len := hb.held
  have hsmall := hb.small
  have hadd : (integLen msg + 4).toNat = (integLen msg).toNat + 4 := by
    rw [toNat_add, show (4 : BitVec 32).toNat = 4 from rfl]
    omega
  rw [readBytesFromXdrBuf_eq mem page hb.total_lt hb.paged, hbytes, drop_drop, hadd, micOf,
    show 4 + ((integLen msg).toNat + 4) = 8 + (integLen msg).toNat by omega]

end

theorem unwrapIntegData_eq (memory : Bool) (seq : BitVec 32) (hb : Bounded buf) (h4 : 4 ≤ buf.head.iovLen)
    (hone : headGetnl mem buf = (len, first)) (htwo : headGetnl mem first = (rseqno, second))
    (hmsg : argBytes mem page buf = msg) {r : Unwrapped}
    (hr : unwrapIntegData mem page verifyMic false memory buf seq = r) :
    (¬ Verified verifyMic memory msg ∧ r.stat = -22 ∧ r.buf = first) ∨
      (Verified verifyMic memory msg ∧ r = if rseqno = seq then
        { stat := 0, buf := xdrBufTrim second (trimmed msg), checked := some (covered msg, micOf msg) }
        else { stat := -22, buf := second, checked := some (covered msg, micOf msg) }) := by
  have hheld := hb.held
  have hsmall := hb.small
  have hfirst : Bounded first := by simpa [hone] using hb.headGetnl mem h4
  have hbytes : argBytes mem page first = msg.drop 4 := by
    simpa [hone, hmsg] using argBytes_headGetnl mem page h4 (by omega)
  have hword : len = integLen msg := hmsg ▸ (congrArg Prod.fst hone).symm.trans (headGetnl_fst mem page h4)
  have hlen : first.total + 4 = msg.length := by
    have htotal : msg.length = buf.total := by rw [← hmsg, length_argBytes]
    rw [← length_argBytes mem page, hbytes, length_drop, htotal, ArgBuf.total]
    omega
  have hle : first.total ≤ first.len := hfirst.held
  subst hword
  rw [unwrapIntegData, if_neg Bool.false_ne_true, hone] at hr
  dsimp only at hr
  by_cases hwords : integLen msg &&& 3 = 0
  swap
  · rw [if_pos hwords] at hr
    exact .inl ⟨fun h => hwords h.words, hr ▸ rfl, hr ▸ rfl⟩
  rw [if_neg (not_not_intro hwords), readU32FromXdrBuf_micLen hfirst hbytes] at hr
  by_cases hroom : (integLen msg).toNat + 4 ≤ first.total
  swap
  · have hfailed : r = { stat := -22, buf := first } := by
      rw [← hr, if_neg hroom]
      split
      · rfl
      split <;> rfl
    refine .inl ⟨fun h => ?_, hfailed ▸ rfl, hfailed ▸ rfl⟩
    have := h.room
    omega
  obtain ⟨integBuf, hinteg, hcut, hp⟩ := subsegment_part hfirst.total_lt hfirst.paged
    (show 0 + (integLen msg).toNat ≤ _ by omega)
  have hcov : argBytes mem page integBuf = covered msg := by rw [hp.argBytes, hbytes, drop_zero, hcut, covered]
  rw [if_neg (by omega), hinteg, if_pos hroom] at hr
  dsimp only at hr
  rw [readBytesFromXdrBuf_mic hfirst hbytes hroom, hcov, htwo] at hr
  split at hr
  · rename_i hshort
    exact .inl ⟨fun h => absurd h.short (by omega), hr ▸ rfl, hr ▸ rfl⟩
  rename_i hshort
  by_cases hmem : memory = true
  swap
  · rw [if_pos (by simpa using hmem)] at hr
    exact .inl ⟨fun h => hmem h.memory, hr ▸ rfl, hr ▸ rfl⟩
  rw [if_neg (by simpa using hmem)] at hr
  by_cases hend : (integLen msg).toNat + 4 + (micLen msg).toNat ≤ first.total
  swap
  · rw [if_neg hend] at hr
    exact .inl ⟨fun h => absurd h.room (by omega), hr ▸ rfl, hr ▸ rfl⟩
  rw [if_pos hend] at hr
  dsimp only at hr
  by_cases hright : verifyMic (covered msg) (micOf msg) = true
  swap
  · rw [if_pos (by simpa using hright)] at hr
    exact .inl ⟨fun h => hright h.right, hr ▸ rfl, hr ▸ rfl⟩
  rw [if_neg (by simpa using hright)] at hr
  refine .inr ⟨⟨hwords, by omega, by omega, hmem, hright⟩, ?_⟩
  rw [← hr, ite_not, trimmed]

/-- The lengths after a call are no longer than before; one that wrapped would be. -/
structure Shrunk (buf' buf : ArgBuf) : Prop where
  head : buf'.head.iovLen ≤ buf.head.iovLen
  page : buf'.pageLen ≤ buf.pageLen
  tail : buf'.tail.iovLen ≤ buf.tail.iovLen
  len : buf'.len ≤ buf.len

theorem Shrunk.refl (buf : ArgBuf) : Shrunk buf buf := ⟨le_refl _, le_refl _, le_refl _, le_refl _⟩

theorem Shrunk.trans {a b c : ArgBuf} (hab : Shrunk a b) (hbc : Shrunk b c) : Shrunk a c :=
  ⟨hab.head.trans hbc.head, hab.page.trans hbc.page, hab.tail.trans hbc.tail, hab.len.trans hbc.len⟩

theorem shrunk_headGetnl (h : 4 ≤ buf.head.iovLen) (hsmall : buf.head.iovLen < 2 ^ 32) :
    Shrunk (headGetnl mem buf).2 buf :=
  ⟨by rw [headGetnl_iovLen mem h hsmall]; omega, le_refl _, le_refl _, le_refl _⟩

theorem shrunk_trim (hb : Bounded buf) (n : Nat) : Shrunk (xdrBufTrim buf n) buf := by
  have hheld := hb.held
  refine ⟨Nat.sub_le _ _, Nat.sub_le _ _, Nat.sub_le _ _, ?_⟩
  set left := n - min buf.tail.iovLen n
  show (buf.len + 2 ^ 32 - (n - (left - min buf.pageLen left -
    min buf.head.iovLen (left - min buf.pageLen left)))) % 2 ^ 32 ≤ buf.len
  omega

theorem trim_le (h : len.toNat ≤ rpcMaxAuthSize) : (roundUpToQuad len + 4).toNat ≤ 407 := by
  have hmax : rpcMaxAuthSize = 400 := rfl
  have hround : (roundUpToQuad len).toNat ≤ len.toNat + 3 := by
    rw [roundUpToQuad, toNat_and, toNat_add, show (3 : BitVec 32).toNat = 3 from rfl]
    exact le_trans Nat.and_le_left (Nat.mod_le _ _)
  rw [toNat_add, show (4 : BitVec 32).toNat = 4 from rfl]
  exact le_trans (Nat.mod_le _ _) (by omega)

theorem le_trim_iovLen (h : k ≤ buf.head.iovLen) (hn : n ≤ 407) : k ≤ (xdrBufTrim buf n).head.iovLen + 407 := by
  simp only [xdrBufTrim]
  omega

theorem le_unwrapIntegData_iovLen (memory : Bool) (seq : BitVec 32) (hone : headGetnl mem buf = (len, first))
    (htwo : headGetnl mem first = (rseqno, second)) (hfirst : k ≤ first.head.iovLen) (hsecond : k ≤ second.head.iovLen) :
    k ≤ (unwrapIntegData mem page verifyMic false memory buf seq).buf.head.iovLen + 407 := by
  have hle : k ≤ first.head.iovLen + 407 := by omega
  rw [unwrapIntegData, if_neg Bool.false_ne_true, hone]
  dsimp only
  split
  · exact hle
  split
  · exact hle
  split
  · exact hle
  split
  · exact hle
  split
  · exact hle
  rename_i hshort
  split
  · exact hle
  split
  · exact hle
  split
  · exact hle
  rw [htwo]
  split
  · show k ≤ second.head.iovLen + 407
    omega
  · exact le_trim_iovLen hsecond (trim_le (not_lt.1 hshort))

/-- The head holds the words that are read from it, and protected bytes whose MIC is right are the sequence number and what
is left of the request without the two words and the MIC. -/
structure Orderly (memory : Bool) (buf : ArgBuf) (seq : BitVec 32) : Prop where
  first : 4 ≤ buf.head.iovLen
  second : Verified verifyMic memory (argBytes mem page buf) → 8 ≤ buf.head.iovLen
  ends : Verified verifyMic memory (argBytes mem page buf) → (svcGetnl ((argBytes mem page buf).drop 4)).1 = seq →
    (integLen (argBytes mem page buf)).toNat = 4 + (buf.total - 8 - trimmed (argBytes mem page buf))

/-- What the service finds are the bytes that were checked, after a sequence number. -/
def Authentic (seq : BitVec 32) (r : Unwrapped) : Prop :=
  ∃ word mic, word.length = 4 ∧ (svcGetnl word).1 = seq ∧ r.checked = some (word ++ argBytes mem page r.buf, mic) ∧
    verifyMic (word ++ argBytes mem page r.buf) mic = true

variable {mem page verifyMic}

/-- The trimmed request has the bytes behind the sequence number just when it has as many. -/
theorem authentic_iff {memory : Bool} {left : ArgBuf} (hv : Verified verifyMic memory msg)
    (hleft : argBytes mem page left = (msg.drop 8).take n) (hn : n ≤ msg.length - 8) :
    Authentic mem page verifyMic (svcGetnl (msg.drop 4)).1 ⟨0, left, some (covered msg, micOf msg)⟩ ↔
      (integLen msg).toNat = 4 + n := by
  have hroom := hv.room
  have hcov : (covered msg).length = (integLen msg).toNat := by
    rw [covered, length_take, length_drop]
    omega
  have hlen : (argBytes mem page left).length = n := by
    rw [hleft, length_take, length_drop]
    omega
  constructor
  · rintro ⟨word, mic, hword, -, hchecked, -⟩
    obtain ⟨h, -⟩ := Prod.mk.inj (Option.some.inj hchecked)
    rw [← hcov, h, length_append, hword, hlen]
  · intro heq
    have happ : (msg.drop 4).take 4 ++ argBytes mem page left = covered msg := by
      rw [covered, heq, take_add, hleft, drop_drop]
    refine ⟨(msg.drop 4).take 4, micOf msg, ?_, ?_, by rw [happ], by rw [happ]; exact hv.right⟩
    · rw [length_take, length_drop]
      omega
    · rw [svcGetnl, svcGetnl, take_take, min_self]

variable (mem page verifyMic)

theorem RequestBuf.bounded (buf : RequestBuf) : Bounded buf.toArgBuf :=
  ⟨by rw [← add_assoc]; exact buf.held, buf.small, buf.paged⟩

theorem not_shrunk_of_huge {buf' : ArgBuf} (hb : Bounded buf) (h : 2 ^ 64 - 8 ≤ buf'.head.iovLen + 407) :
    ¬ Shrunk buf' buf := by
  intro hs
  have hhead := hs.head
  have hheld := hb.held
  have hsmall := hb.small
  omega

/-- **The service gets the protected bytes** and no length wraps, just for the orderly requests. -/
theorem unwrapIntegData_iff (rqDeferred memory : Bool) (buf : RequestBuf) (seq : BitVec 32) :
    ((unwrapIntegData mem page verifyMic rqDeferred memory buf.toArgBuf seq).stat = 0 → rqDeferred = false →
        Authentic mem page verifyMic seq (unwrapIntegData mem page verifyMic rqDeferred memory buf.toArgBuf seq)) ∧
      Shrunk (unwrapIntegData mem page verifyMic rqDeferred memory buf.toArgBuf seq).buf buf.toArgBuf ↔
    (rqDeferred = false → Orderly mem page verifyMic memory buf.toArgBuf seq) := by
  cases rqDeferred with
  | true => simp [unwrapIntegData, Shrunk.refl]
  | false =>
    have hb := buf.bounded
    generalize buf.toArgBuf = buf at hb ⊢
    have hheld := hb.held
    have hsmall := hb.small
    simp only [forall_const]
    obtain ⟨⟨len, first⟩, hone⟩ : ∃ one, headGetnl mem buf = one := ⟨_, rfl⟩
    obtain ⟨⟨rseqno, second⟩, htwo⟩ : ∃ two, headGetnl mem first = two := ⟨_, rfl⟩
    have hlen₁ := iovLen_of_headGetnl mem hone
    have hlen₂ := iovLen_of_headGetnl mem htwo
    by_cases h4 : 4 ≤ buf.head.iovLen
    swap
    · -- the length is read behind the end of the head
      have hhuge := le_unwrapIntegData_iovLen mem page verifyMic memory seq hone htwo (k := 2 ^ 64 - 8) (by omega)
        (by omega)
      exact iff_of_false (fun h => not_shrunk_of_huge hb hhuge h.2) (fun h => h4 h.first)
    have hfirst : Bounded first := by simpa [hone] using hb.headGetnl mem h4
    have hshrunk₁ : Shrunk first buf := by simpa [hone] using shrunk_headGetnl mem h4 (by omega)
    obtain ⟨hnot, hstat, hbuf⟩ | ⟨hv, hr⟩ := unwrapIntegData_eq mem page verifyMic memory seq hb h4 hone htwo rfl rfl
    · rw [hstat, hbuf]
      exact iff_of_true ⟨nofun, hshrunk₁⟩ ⟨h4, fun h => absurd h hnot, fun h => absurd h hnot⟩
    by_cases h8 : 8 ≤ buf.head.iovLen
    swap
    · -- the sequence number is read behind the end of the head
      refine iff_of_false (fun h => not_shrunk_of_huge hb ?_ h.2) (fun h => h8 (h.second hv))
      rw [hr]
      split
      · exact le_trim_iovLen (by omega) (trim_le hv.short)
      · show 2 ^ 64 - 8 ≤ second.head.iovLen + 407
        omega
    have h4' : 4 ≤ first.head.iovLen := by omega
    have hsecond : Bounded second := by simpa [htwo] using hfirst.headGetnl mem h4'
    have hshrunk₂ : Shrunk second first := by simpa [htwo] using shrunk_headGetnl mem h4' (by omega)
    set data := argBytes mem page buf
    have hbytes₁ : argBytes mem page first = data.drop 4 := by
      simpa [hone] using argBytes_headGetnl mem page h4 (by omega)
    have hbytes₂ : argBytes mem page second = data.drop 8 := by
      have := argBytes_headGetnl mem page h4' (by omega)
      rwa [htwo, hbytes₁, drop_drop] at this
    have hseqno : rseqno = (svcGetnl (data.drop 4)).1 := by
      rw [← hbytes₁, ← headGetnl_fst mem page h4', htwo]
    split_ifs at hr with hseq
    · have htotal : second.total = buf.total - 8 := by
        rw [← length_argBytes mem page, hbytes₂, length_drop, length_argBytes]
      have hleft : argBytes mem page (xdrBufTrim second (trimmed data)) =
          (data.drop 8).take (buf.total - 8 - trimmed data) := by
        rw [trim_bytes, hbytes₂, htotal]
      have hiff := authentic_iff hv hleft (by rw [length_argBytes]; omega)
      rw [hr, ← hseq, hseqno]
      constructor
      · rintro ⟨hauth, -⟩
        exact ⟨h4, fun _ => h8, fun _ _ => hiff.1 (hauth rfl)⟩
      · intro horderly
        exact ⟨fun _ => hiff.2 (horderly.ends hv rfl), ((shrunk_trim hsecond _).trans hshrunk₂).trans hshrunk₁⟩
    · rw [hr]
      exact iff_of_true ⟨nofun, hshrunk₂.trans hshrunk₁⟩ ⟨h4, fun _ => h8, fun _ h => absurd (hseqno.trans h) hseq⟩

/-- A request with a word behind the MIC: the service gets the length of the MIC as its last argument. -/
theorem unwrapIntegData_trailing :
    let mem := fun a => ([0, 0, 0, 8, 0, 0, 0, 1, 0, 0, 0, 7, 0, 0, 0, 4, 1, 2, 3, 4, 0, 0, 0, 9] : List (BitVec 8)).getD a 0
    let verifyMic := fun _ mic => mic == [1, 2, 3, 4]
    let r := unwrapIntegData mem (fun _ => 0) verifyMic false true ⟨⟨0, 24⟩, 0, 0, 0, ⟨0, 0⟩, 24⟩ 1
    r.stat = 0 ∧ argBytes mem (fun _ => 0) r.buf = [0, 0, 0, 7, 0, 0, 0, 4] ∧ ¬ Authentic mem (fun _ => 0) verifyMic 1 r := by
  intro mem verifyMic r
  have hr : r = ⟨0, ⟨⟨8, 8⟩, 0, 0, 0, ⟨0, 0⟩, 16⟩, some ([0, 0, 0, 1, 0, 0, 0, 7], [1, 2, 3, 4])⟩ := by decide +kernel
  rw [hr]
  refine ⟨rfl, by decide +kernel, ?_⟩
  rintro ⟨word, mic, hword, -, hchecked, -⟩
  have hlen := congrArg List.length (Prod.mk.inj (Option.some.inj hchecked)).1
  rw [length_append, hword, length_argBytes] at hlen
  exact absurd hlen (by decide)

end Vastnfs.Sunrpc
