import Vastnfs.Lib.Bytes
import Vastnfs.Sunrpc.Xdr

/-!
# Moving data about in an `xdr_buf`

The helpers of `net/sunrpc/xdr.c` that shift the data of a received message from its head into its pages and
on into its tail, or back. The buffer is the lengths of its segments and the memory they lie in.

* `XdrLayout.get`: the message as one memory.
* `pagesShiftRight_get`, `headShiftRight_get`: what a shift does to it.
* `shrinkBufhead_spec`, `shrinkPagelen_spec`: the message is the same afterwards, as far as it is still there.
* `shrinking_keeps_iff`: when nothing is lost that has room.
-/

namespace Vastnfs.Sunrpc

open Bytes

/-! ## Buffers -/

/-- The lengths in a `struct xdr_buf`. The data lies in the pages there are, the storage that is not in use
yet is behind the tail, and there is less of it than `RPC_MAX_FRAGMENT_SIZE`, so that no sum of two lengths wraps. -/
structure XdrLayout where
  headLen : Nat
  (npages pageBase pageLen tailLen : Nat := 0)
  (len buflen : Nat)
  /-- `XDRBUF_SPARSE_PAGES` -/
  sparse : Bool := false
  /-- what `alloc_page` gives for a page -/
  alloc : Nat → Option (Nat → UInt8) := fun _ => none
  enough : 0 < pageLen → pageBase + pageLen ≤ npages * 4096
  stored : headLen + pageLen + tailLen ≤ buflen
  fits : headLen + npages * 4096 + (tailLen + (buflen - (headLen + pageLen + tailLen))) < 2 ^ 31
  inside : len ≤ headLen + pageLen + tailLen

/-- The memory of the segments; the pages are one memory, with page `i` at `i << PAGE_SHIFT`. -/
structure XdrBytes where
  (head pages tail : Nat → UInt8)
  /-- `pages[i]` is not `NULL` -/
  present : Nat → Bool := fun _ => true

namespace XdrLayout

variable (buf : XdrLayout) (mem : XdrBytes)

def sum : Nat := buf.headLen + buf.pageLen + buf.tailLen

def get (a : Nat) : UInt8 :=
  if a < buf.headLen then mem.head a
  else if a < buf.headLen + buf.pageLen then mem.pages (buf.pageBase + (a - buf.headLen))
  else mem.tail (a - (buf.headLen + buf.pageLen))

def toBuf : XdrBuf where
  head := slice mem.head 0 buf.headLen
  pages := (List.range buf.npages).map fun i => slice mem.pages (i * 4096) 4096
  pageBase := buf.pageBase
  pageLen := buf.pageLen
  tail := slice mem.tail 0 buf.tailLen
  len := buf.len
  full page h := by
    obtain ⟨i, -, rfl⟩ := List.mem_map.1 h
    exact length_slice
  enough h := by
    rw [List.length_map, List.length_range]
    exact buf.enough h
  fits := by
    have := buf.fits
    simp only [length_slice, List.length_map, List.length_range]
    omega
  inside := by
    simp only [length_slice]
    exact buf.inside

def growTail (n : Nat) (h : buf.sum + n ≤ buf.buflen) : XdrLayout :=
  { buf with
    tailLen := buf.tailLen + n
    len := buf.len + n
    stored := by unfold sum at h; omega
    fits := by
      have := buf.fits
      unfold sum at h
      omega
    inside := by
      have := buf.inside
      omega }

def setLen (n : Nat) (h : n ≤ buf.sum) : XdrLayout := { buf with len := n, inside := h }

/-- The head gets shorter, and what it loses is no longer storage. -/
def setHead (n len : Nat) (hn : n ≤ buf.headLen) (hlen : len ≤ n + buf.pageLen + buf.tailLen) : XdrLayout :=
  { buf with
    headLen := n
    buflen := buf.buflen - (buf.headLen - n)
    len := len
    stored := by
      have := buf.stored
      omega
    fits := by
      have := buf.fits
      have := buf.stored
      omega
    inside := hlen }

def setPages (n len : Nat) (hn : n ≤ buf.pageLen) (hlen : len ≤ buf.headLen + n + buf.tailLen) : XdrLayout :=
  { buf with
    pageLen := n
    buflen := buf.buflen - (buf.pageLen - n)
    len := len
    enough := fun h => by
      have := buf.enough (by omega)
      omega
    stored := by
      have := buf.stored
      omega
    fits := by
      have := buf.fits
      have := buf.stored
      omega
    inside := hlen }

end XdrLayout

namespace XdrLayout

variable (buf : XdrLayout) (mem : XdrBytes) {a : Nat}

theorem get_head (h : a < buf.headLen) : buf.get mem a = mem.head a := if_pos h

theorem get_pages {i : Nat} (h : i < buf.pageLen) : buf.get mem (buf.headLen + i) = mem.pages (buf.pageBase + i) := by
  rw [get, if_neg (by omega), if_pos (by omega), Nat.add_sub_cancel_left]

theorem get_tail (i : Nat) : buf.get mem (buf.headLen + buf.pageLen + i) = mem.tail i := by
  rw [get, if_neg (by omega), if_neg (by omega), Nat.add_sub_cancel_left]

theorem len_lt : buf.len < 2 ^ 31 := by
  have := buf.fits
  have := buf.inside
  have := buf.enough
  omega

theorem toBuf_pages : (buf.toBuf mem).pages.flatten = slice mem.pages 0 (buf.npages * 4096) := flatten_slices _

theorem pageData_eq (n : Nat) (h : n ≤ buf.pageLen) :
    ((buf.toBuf mem).pages.flatten.drop buf.pageBase).take n = slice mem.pages buf.pageBase n := by
  rcases Nat.eq_zero_or_pos n with rfl | hn
  · rfl
  · have henough := buf.enough (by omega)
    rw [toBuf_pages, take_drop_slice (by omega), Nat.zero_add]

theorem flat_toBuf : flat (buf.toBuf mem) = slice (buf.get mem) 0 buf.sum := by
  have hhead : slice mem.head 0 buf.headLen = slice (buf.get mem) 0 buf.headLen :=
    slice_congr fun i hi => by
      rw [Nat.zero_add, buf.get_head mem hi]
  have hpages : slice mem.pages buf.pageBase buf.pageLen = slice (buf.get mem) (0 + buf.headLen) buf.pageLen :=
    slice_congr fun i hi => by
      rw [Nat.zero_add, buf.get_pages mem hi]
  have htail : slice mem.tail 0 buf.tailLen = slice (buf.get mem) (0 + (buf.headLen + buf.pageLen)) buf.tailLen :=
    slice_congr fun i hi => by
      rw [Nat.zero_add, Nat.zero_add, buf.get_tail mem i]
  show slice mem.head 0 buf.headLen ++ ((buf.toBuf mem).pages.flatten.drop buf.pageBase).take buf.pageLen ++
    slice mem.tail 0 buf.tailLen = _
  rw [pageData_eq buf mem buf.pageLen le_rfl, hhead, hpages, htail, slice_append, slice_append]
  rfl

end XdrLayout

/-! ## Copying into, out of and within the pages -/

def pageRest (addr : Nat) : Nat := 4096 - addr % 4096

/-- How far the last byte before an address is into its page. -/
def pageDone (addr : Nat) : Nat := if addr % 4096 = 0 then 4096 else addr % 4096

def shiftDataRightPages (pages : Nat → UInt8) (pgto pgfrom len : Nat) : Nat → UInt8 :=
  moveRightBy (fun pgto pgfrom => min (pageDone pgto) (pageDone pgfrom)) pages pgto pgfrom len

/-- `_copy_to_pages`, from the memory `p` at `off`. -/
def copyToPages (pages : Nat → UInt8) (pgbase : Nat) (p : Nat → UInt8) (off len : Nat) : Nat → UInt8 :=
  copyBy (fun pgbase _ => pageRest pgbase) pages pgbase p off len

/-- `_copy_from_pages`, into the memory `p` at `off`. -/
def copyFromPages (p : Nat → UInt8) (off : Nat) (pages : Nat → UInt8) (pgbase len : Nat) : Nat → UInt8 :=
  copyBy (fun _ pgbase => pageRest pgbase) p off pages pgbase len

section

variable {pages p : Nat → UInt8} {pgto pgfrom pgbase off len : Nat}

theorem pageRest_pos (addr : Nat) : 0 < pageRest addr := by
  unfold pageRest
  omega

theorem pageDone_pos (addr : Nat) : 0 < pageDone addr := by
  unfold pageDone
  split <;> omega

theorem shiftDataRightPages_eq (h : pgfrom ≤ pgto) :
    shiftDataRightPages pages pgto pgfrom len = move pages pgto pgfrom len :=
  moveRightBy_eq (fun _ _ => Nat.lt_min.2 ⟨pageDone_pos _, pageDone_pos _⟩) pages h len

theorem copyToPages_eq : copyToPages pages pgbase p off len = copy pages pgbase p off len :=
  copyBy_eq (fun _ _ => pageRest_pos _) pages pgbase p off len

theorem copyFromPages_eq : copyFromPages p off pages pgbase len = copy p off pages pgbase len :=
  copyBy_eq (fun _ _ => pageRest_pos _) p off pages pgbase len

end

/-! ## Shifting right -/

section

variable (buf : XdrLayout) (mem : XdrBytes) (base len shift : Nat)

def xdrBufTailCopyRight : XdrBytes :=
  let dst := base + shift
  if buf.tailLen ≤ dst then mem else { mem with tail := move mem.tail dst base (min len (buf.tailLen - dst)) }

/-- The end of `xdr_buf_pages_copy_right`: `pglen` bytes stay in the pages, `talen` bytes behind them go into the tail. -/
def pagesMoveRight (dst pglen tato talen : Nat) : XdrBytes :=
  { mem with
    tail := copyFromPages mem.tail tato mem.pages (buf.pageBase + base + pglen) talen
    pages := shiftDataRightPages mem.pages (buf.pageBase + dst) (buf.pageBase + base) pglen }

def xdrBufPagesCopyRight : XdrBytes :=
  let dst := base + shift
  if buf.pageLen ≤ base then mem
  else
    let len := min len (buf.pageLen - base)
    if buf.pageLen ≤ dst then
      let tato := dst - buf.pageLen
      pagesMoveRight buf mem base dst 0 tato (min len (buf.tailLen - tato))
    else if buf.pageLen ≤ len + dst then
      let pglen := buf.pageLen - dst
      pagesMoveRight buf mem base dst pglen 0 (min (len - pglen) buf.tailLen)
    else pagesMoveRight buf mem base dst len 0 0

/-- The end of `xdr_buf_head_copy_right`: of the `len` bytes the last `talen` go into the tail and the `pglen` before
them into the pages. -/
def headMoveRight (dst len pgto pglen tato talen : Nat) : XdrBytes :=
  let len := len - talen
  { mem with
    tail := copy mem.tail tato mem.head (base + len) (min talen (buf.tailLen - tato))
    pages := copyToPages mem.pages (buf.pageBase + pgto) mem.head (base + len - pglen) pglen
    head := move mem.head dst base (len - pglen) }

/-- The last branch is not used, as nothing is moved less than to the end of the head. -/
def xdrBufHeadCopyRight : XdrBytes :=
  let dst := base + shift
  if buf.headLen ≤ base then mem
  else
    let len := min len (buf.headLen - base)
    if buf.pageLen + buf.headLen ≤ dst then headMoveRight buf mem base dst len 0 0 (dst - buf.pageLen - buf.headLen) len
    else if buf.headLen ≤ dst then
      let pgto := dst - buf.headLen
      let talen := pgto + len - buf.pageLen
      headMoveRight buf mem base dst len pgto (len - talen) 0 talen
    else
      let pglen := len - dst
      headMoveRight buf mem base dst len 0 (min pglen buf.pageLen) 0 (pglen - buf.pageLen)

def xdrBufTailShiftRight : XdrBytes :=
  if buf.tailLen ≤ base ∨ shift = 0 ∨ len = 0 then mem else xdrBufTailCopyRight buf mem base len shift

def xdrBufPagesShiftRight : XdrBytes :=
  if shift = 0 ∨ len = 0 then mem
  else if buf.pageLen ≤ base then xdrBufTailShiftRight buf mem (base - buf.pageLen) len shift
  else
    let mem := if buf.pageLen < base + len then xdrBufTailShiftRight buf mem 0 (base + len - buf.pageLen) shift else mem
    xdrBufPagesCopyRight buf mem base len shift

/-- The difference in the second branch is the one of the source. -/
def xdrBufHeadShiftRight : XdrBytes :=
  if shift = 0 then mem
  else if buf.headLen ≤ base then xdrBufPagesShiftRight buf mem (u32 (buf.headLen + 2 ^ 32 - base)) len shift
  else
    let mem := if buf.headLen < base + len then xdrBufPagesShiftRight buf mem 0 (base + len - buf.headLen) shift else mem
    xdrBufHeadCopyRight buf mem base len shift

end

section

variable {buf : XdrLayout} {mem : XdrBytes} {base len shift i a : Nat}

theorem tailShiftRight_get (ha : a < buf.sum) :
    buf.get (xdrBufTailShiftRight buf mem base len shift) a =
      move (buf.get mem) (buf.headLen + buf.pageLen + base + shift) (buf.headLen + buf.pageLen + base) len a := by
  unfold XdrLayout.sum at ha
  unfold xdrBufTailShiftRight xdrBufTailCopyRight
  dsimp only
  split_ifs with hskip hto
  · by_cases hin : buf.headLen + buf.pageLen + base + shift ≤ a ∧ a < buf.headLen + buf.pageLen + base + shift + len
    · exact ((copy_inside hin).trans (congrArg _ (by omega))).symm
    · exact (copy_outside (by omega)).symm
  · exact (copy_outside (by omega)).symm
  · simp only [XdrLayout.get, move, copy]
    split_ifs <;> first | omega | rfl | (congr 1; omega)

theorem pagesMoveRight_eq (mem : XdrBytes) {dst pglen tato talen : Nat} (h : base ≤ dst) :
    pagesMoveRight buf mem base dst pglen tato talen =
      { mem with
        tail := copy mem.tail tato mem.pages (buf.pageBase + base + pglen) talen
        pages := move mem.pages (buf.pageBase + dst) (buf.pageBase + base) pglen } := by
  rw [pagesMoveRight, copyFromPages_eq, shiftDataRightPages_eq (by omega)]

theorem pagesCopyRight_eq (mem : XdrBytes) (len shift : Nat) (h : base < buf.pageLen) : ∃ pglen tato talen,
    xdrBufPagesCopyRight buf mem base len shift = pagesMoveRight buf mem base (base + shift) pglen tato talen ∧
      pglen = min (min len (buf.pageLen - base)) (buf.pageLen - (base + shift)) ∧ tato = base + shift - buf.pageLen ∧
      talen = min (min len (buf.pageLen - base) - pglen) (buf.tailLen - tato) := by
  simp only [xdrBufPagesCopyRight]
  split_ifs with hbase hto hlen
  · omega
  all_goals exact ⟨_, _, _, rfl, by omega, by omega, by omega⟩

theorem pagesCopyRight_get (mem : XdrBytes) (len : Nat) (h : base < buf.pageLen) (ha : a < buf.sum) :
    buf.get (xdrBufPagesCopyRight buf mem base len shift) a =
      move (buf.get mem) (buf.headLen + base + shift) (buf.headLen + base) (min len (buf.pageLen - base)) a := by
  obtain ⟨pglen, tato, talen, heq, hpg, hto, hta⟩ := pagesCopyRight_eq mem len shift h
  unfold XdrLayout.sum at ha
  rw [heq, pagesMoveRight_eq mem (by omega)]
  simp only [XdrLayout.get, move, copy]
  split_ifs <;> first | omega | rfl | (congr 1; omega)

/-- **Shifting the pages and the tail right** moves the bytes as far as there is room for them. -/
theorem pagesShiftRight_get (ha : a < buf.sum) :
    buf.get (xdrBufPagesShiftRight buf mem base len shift) a =
      move (buf.get mem) (buf.headLen + base + shift) (buf.headLen + base) len a := by
  unfold xdrBufPagesShiftRight
  split_ifs with hskip hbase htail
  · rcases hskip with rfl | rfl
    · unfold move copy
      split_ifs
      · exact congrArg _ (by omega)
      · rfl
    · rw [move, copy_zero]
  · rw [tailShiftRight_get ha, show buf.headLen + buf.pageLen + (base - buf.pageLen) = buf.headLen + base by omega]
  · -- the tail makes room before the pages follow
    have hget : ∀ b ≤ a, buf.get (xdrBufTailShiftRight buf mem 0 (base + len - buf.pageLen) shift) b =
        move (buf.get mem) (buf.headLen + base + shift + (buf.pageLen - base)) (buf.headLen + base + (buf.pageLen - base))
          (base + len - buf.pageLen) b := by
      intro b hb
      rw [tailShiftRight_get (hb.trans_lt ha)]
      congr 1 <;> omega
    rw [pagesCopyRight_get _ len (by omega) ha, Nat.min_eq_right (by omega), move_congr (by omega) hget,
      move_right_append (by omega), show buf.pageLen - base + (base + len - buf.pageLen) = len by omega]
  · rw [pagesCopyRight_get _ len (by omega) ha, Nat.min_eq_left (by omega)]

theorem headMoveRight_eq (mem : XdrBytes) {dst len pgto pglen tato talen : Nat} (h : pglen + talen = len) :
    headMoveRight buf mem base dst len pgto pglen tato talen =
      { mem with
        pages := copy mem.pages (buf.pageBase + pgto) mem.head base pglen
        tail := copy mem.tail tato mem.head (base + pglen) (min talen (buf.tailLen - tato)) } := by
  have hlen : len - talen = pglen := by omega
  simp [headMoveRight, copyToPages_eq, hlen, move, copy_zero]

/-- Everything behind `base` in the head goes to the start of the pages, and what they do not hold to the start of the tail. -/
theorem headCopyRight_eq (mem : XdrBytes) (len : Nat) (hbase : base < buf.headLen) (hto : base + shift = buf.headLen) :
    ∃ pglen talen, xdrBufHeadCopyRight buf mem base len shift =
        { mem with
          pages := copy mem.pages buf.pageBase mem.head base pglen
          tail := copy mem.tail 0 mem.head (base + pglen) talen } ∧
      pglen = min (min len shift) buf.pageLen ∧ talen = min (min len shift - pglen) buf.tailLen := by
  have hzero : buf.headLen - buf.pageLen - buf.headLen = 0 := by omega
  have hlen : min len (buf.headLen - base) = min len shift := by omega
  simp only [xdrBufHeadCopyRight, hto, hzero, hlen, Nat.sub_self, Nat.zero_add]
  rw [if_neg (by omega)]
  split_ifs with hpages
  · rw [headMoveRight_eq mem (by omega)]
    exact ⟨0, _, rfl, by omega, by omega⟩
  · rw [headMoveRight_eq mem (by omega)]
    exact ⟨_, _, rfl, by omega, by omega⟩
  · omega

theorem headCopyRight_get (mem : XdrBytes) (len : Nat) (hbase : base < buf.headLen)
    (hto : base + shift = buf.headLen) (ha : a < buf.sum) :
    buf.get (xdrBufHeadCopyRight buf mem base len shift) a = move (buf.get mem) buf.headLen base (min len shift) a := by
  obtain ⟨pglen, talen, heq, hpg, hta⟩ := headCopyRight_eq mem len hbase hto
  unfold XdrLayout.sum at ha
  rw [heq]
  simp only [XdrLayout.get, move, copy]
  split_ifs <;> first | omega | rfl | (congr 1; omega)

/-- **Shifting the head right** by all of it that lies behind `base`. -/
theorem headShiftRight_get (hbase : base < buf.headLen) (hto : base + shift = buf.headLen) (ha : a < buf.sum) :
    buf.get (xdrBufHeadShiftRight buf mem base len shift) a = move (buf.get mem) buf.headLen base len a := by
  rw [xdrBufHeadShiftRight, if_neg (by omega), if_neg (by omega)]
  split_ifs with hlen
  · have hget : ∀ b ≤ a, buf.get (xdrBufPagesShiftRight buf mem 0 (base + len - buf.headLen) shift) b =
        move (buf.get mem) (buf.headLen + shift) (base + shift) (base + len - buf.headLen) b := by
      intro b hb
      rw [pagesShiftRight_get (hb.trans_lt ha), hto]
      rfl
    rw [headCopyRight_get _ len hbase hto ha, Nat.min_eq_right (by omega), move_congr (by omega) hget,
      move_right_append (by omega), show shift + (base + len - buf.headLen) = len by omega]
  · rw [headCopyRight_get _ len hbase hto ha, Nat.min_eq_left (by omega)]

end

/-! ## Making room -/

/-- The loop of `xdr_buf_pages_fill_sparse` over `n` pages from the `i`-th on, and the page it could not allocate. -/
def fillPages (alloc : Nat → Option (Nat → UInt8)) (mem : XdrBytes) (i : Nat) : Nat → XdrBytes × Option Nat
  | 0 => (mem, none)
  | n + 1 =>
    if mem.present i then
      match alloc i with
      | some fresh => fillPages alloc { mem with pages := copy mem.pages (i * 4096) fresh 0 4096 } (i + 1) n
      | none => ({ mem with present := fun j => if j = i then false else mem.present j }, some i)
    else fillPages alloc mem (i + 1) n

def xdrBufPagesFillSparse (buf : XdrLayout) (mem : XdrBytes) (buflen : Nat) : XdrBytes × Nat :=
  if buf.sparse = false then (mem, buflen)
  else if buflen ≤ buf.headLen then (mem, buflen)
  else
    let pagelen := min (buflen - buf.headLen) buf.pageLen
    let r := fillPages buf.alloc mem 0 ((pagelen + buf.pageBase + 4096 - 1) / 4096)
    match r.2 with
    | none => (r.1, buflen)
    | some i => (r.1, buflen - pagelen + (i * 4096 - buf.pageBase))

theorem fillPages_lt {alloc : Nat → Option (Nat → UInt8)} {j : Nat} :
    ∀ {n i : Nat} {mem : XdrBytes}, (fillPages alloc mem i n).2 = some j → j < i + n
  | 0, _, _, h => by cases h
  | n + 1, i, mem, h => by
    unfold fillPages at h
    split_ifs at h with hp
    · cases ha : alloc i with
      | some fresh =>
        rw [ha] at h
        have := fillPages_lt h
        omega
      | none =>
        rw [ha] at h
        cases h
        omega
    · have := fillPages_lt h
      omega

theorem xdrBufPagesFillSparse_le (buf : XdrLayout) (mem : XdrBytes) (buflen : Nat) :
    (xdrBufPagesFillSparse buf mem buflen).2 ≤ buflen := by
  unfold xdrBufPagesFillSparse
  split_ifs with hs hh
  · exact le_rfl
  · exact le_rfl
  dsimp only
  split
  · exact le_rfl
  rename_i i hi
  have := fillPages_lt hi
  omega

def PagesFree (buf : XdrLayout) (mem : XdrBytes) : Prop :=
  buf.sparse = false ∨ ∀ i, mem.present i = true → ∃ fresh, buf.alloc i = some fresh

/-- The byte lies in a page that is there, in whose place `xdr_buf_pages_fill_sparse` puts a new one. -/
def Replaced (buf : XdrLayout) (mem : XdrBytes) (a : Nat) : Prop :=
  buf.sparse = true ∧ buf.headLen ≤ a ∧ a < buf.headLen + buf.pageLen ∧
    mem.present ((buf.pageBase + (a - buf.headLen)) / 4096) = true

def freshByte (buf : XdrLayout) (a : Nat) : UInt8 :=
  let k := buf.pageBase + (a - buf.headLen)
  ((buf.alloc (k / 4096)).map (· (k % 4096))).getD 0

/-- What the new pages do to the first `n` bytes, if they are put in place under the condition `reached`. -/
def Refilled (buf : XdrLayout) (mem mem' : XdrBytes) (reached : Prop) (n : Nat) : Prop :=
  ∀ a < n, (reached ∧ Replaced buf mem a) ∧ buf.get mem' a = freshByte buf a ∨
    ¬ (reached ∧ Replaced buf mem a) ∧ buf.get mem' a = buf.get mem a

theorem fillPages_spec {alloc : Nat → Option (Nat → UInt8)} {n : Nat} : ∀ {i : Nat} {mem : XdrBytes},
    (∀ j, mem.present j = true → ∃ fresh, alloc j = some fresh) → (fillPages alloc mem i n).2 = none ∧
      (fillPages alloc mem i n).1.head = mem.head ∧ (fillPages alloc mem i n).1.tail = mem.tail ∧
      ∀ k, (fillPages alloc mem i n).1.pages k = if i ≤ k / 4096 ∧ k / 4096 < i + n ∧ mem.present (k / 4096) = true then
        ((alloc (k / 4096)).map (· (k % 4096))).getD 0 else mem.pages k := by
  induction n with
  | zero => exact fun _ => ⟨rfl, rfl, rfl, fun k => (if_neg (by omega)).symm⟩
  | succ n ih =>
    intro i mem hfree
    rw [fillPages]
    split_ifs with hi
    · obtain ⟨fresh, hfresh⟩ := hfree i hi
      rw [hfresh]
      obtain ⟨hnone, hhead, htail, hpages⟩ := @ih (i + 1) { mem with pages := copy mem.pages (i * 4096) fresh 0 4096 } hfree
      refine ⟨hnone, hhead, htail, fun k => (hpages k).trans ?_⟩
      dsimp only
      by_cases hk : k / 4096 = i
      · rw [if_neg (by omega), if_pos ⟨by omega, by omega, hk ▸ hi⟩, copy_inside (by omega), hk, hfresh]
        exact congrArg fresh (by omega)
      · rw [copy_outside (by omega)]
        exact if_congr (by grind) rfl rfl
    · obtain ⟨hnone, hhead, htail, hpages⟩ := @ih (i + 1) mem hfree
      refine ⟨hnone, hhead, htail, fun k => (hpages k).trans (if_congr ?_ rfl rfl)⟩
      grind

theorem fillSparse_spec {buf : XdrLayout} {mem : XdrBytes} {buflen : Nat} (hfree : PagesFree buf mem) :
    (xdrBufPagesFillSparse buf mem buflen).2 = buflen ∧ Refilled buf mem (xdrBufPagesFillSparse buf mem buflen).1 True buflen := by
  simp only [Refilled, true_and]
  unfold xdrBufPagesFillSparse
  split_ifs with hs hhead
  · exact ⟨rfl, fun a _ => .inr ⟨fun h => Bool.false_ne_true (hs.symm.trans h.1), rfl⟩⟩
  · exact ⟨rfl, fun a ha => .inr ⟨fun h => by have := h.2.1; omega, rfl⟩⟩
  obtain ⟨hnone, hhead', htail, hpages⟩ := @fillPages_spec buf.alloc
    ((min (buflen - buf.headLen) buf.pageLen + buf.pageBase + 4096 - 1) / 4096) 0 mem (hfree.resolve_left hs)
  dsimp only
  rw [hnone]
  refine ⟨rfl, fun a ha => ?_⟩
  simp only [XdrLayout.get, hhead', htail, hpages]
  by_cases hin : buf.headLen ≤ a ∧ a < buf.headLen + buf.pageLen
  · rw [if_neg (by omega), if_pos hin.2]
    by_cases hpresent : mem.present ((buf.pageBase + (a - buf.headLen)) / 4096) = true
    · exact .inl ⟨⟨by simpa using hs, hin.1, hin.2, hpresent⟩, if_pos ⟨by omega, by omega, hpresent⟩⟩
    · exact .inr ⟨fun h => hpresent h.2.2.2, by rw [if_neg (fun h => hpresent h.2.2), if_neg (by omega), if_pos hin.2]⟩
  · refine .inr ⟨fun h => hin ⟨h.2.1, h.2.2.1⟩, ?_⟩
    split_ifs <;> first | rfl | omega

/-- The end of `xdr_buf_try_expand`: the tail buffer is expanded. -/
def expandTail (buf : XdrLayout) (len : Nat) : XdrLayout :=
  buf.growTail (min (buf.buflen - buf.sum) len) (by
    have := buf.stored
    unfold XdrLayout.sum
    omega)

def xdrBufTryExpand (buf : XdrLayout) (mem : XdrBytes) (len : Nat) : XdrLayout × XdrBytes :=
  if h : buf.len < buf.sum then
    let r := xdrBufPagesFillSparse buf mem (buf.len + min (buf.sum - buf.len) len)
    have hr : r.2 ≤ buf.sum := Nat.le_trans (xdrBufPagesFillSparse_le _ _ _) (by omega)
    (expandTail (buf.setLen r.2 hr) (u32 (len + 2 ^ 32 - u32 (r.2 + 2 ^ 32 - buf.len))), r.1)
  else (expandTail buf len, mem)

/-- What `xdr_buf_try_expand` does to the lengths. -/
structure Expanded (buf buf' : XdrLayout) (n : Nat) : Prop where
  headLen : buf'.headLen = buf.headLen
  npages : buf'.npages = buf.npages
  pageBase : buf'.pageBase = buf.pageBase
  pageLen : buf'.pageLen = buf.pageLen
  buflen : buf'.buflen = buf.buflen
  sparse : buf'.sparse = buf.sparse
  len : buf'.len = buf.len + min n (buf.buflen - buf.len)
  sum : buf'.sum = max buf.sum buf'.len

theorem xdrBufTryExpand_lens (buf : XdrLayout) (mem : XdrBytes) (n : Nat) :
    (xdrBufTryExpand buf mem n).1.headLen = buf.headLen ∧ (xdrBufTryExpand buf mem n).1.pageLen = buf.pageLen := by
  unfold xdrBufTryExpand
  split_ifs <;> exact ⟨rfl, rfl⟩

theorem tryExpand_spec {buf : XdrLayout} {mem : XdrBytes} (hfree : PagesFree buf mem) {n : Nat} (hn : n < 2 ^ 32) :
    Expanded buf (xdrBufTryExpand buf mem n).1 n ∧ Refilled buf mem (xdrBufTryExpand buf mem n).2 (buf.len < buf.sum) buf.len := by
  have hstored := buf.stored
  have hinside := buf.inside
  unfold xdrBufTryExpand
  by_cases h : buf.len < buf.sum
  · obtain ⟨hlen, hget⟩ := @fillSparse_spec buf mem (buf.len + min (buf.sum - buf.len) n) hfree
    rw [dif_pos h]
    simp only [hlen]
    refine ⟨⟨rfl, rfl, rfl, rfl, rfl, rfl, ?_, ?_⟩, fun a ha => by simpa only [h, true_and] using hget a (by omega)⟩
    all_goals
      simp only [expandTail, XdrLayout.growTail, XdrLayout.setLen, XdrLayout.sum, u32] at h ⊢
      omega
  rw [dif_neg h]
  refine ⟨⟨rfl, rfl, rfl, rfl, rfl, rfl, ?_, ?_⟩, fun a _ => .inr ⟨fun hr => h hr.1, rfl⟩⟩
  all_goals
    simp only [expandTail, XdrLayout.growTail, XdrLayout.sum] at h ⊢
    omega

/-! ## Shrinking the head and the pages -/

/-- The first step of `xdr_shrink_bufhead`: the head ends with the message. -/
def trimHead (buf : XdrLayout) (len : Nat) : XdrLayout :=
  buf.setHead (min buf.headLen (max buf.len len)) buf.len (by omega) (by
    have := buf.inside
    omega)

def xdrShrinkBufhead (buf : XdrLayout) (mem : XdrBytes) (len : Nat) : XdrLayout × XdrBytes :=
  let buflen := max buf.len len
  let buf := trimHead buf len
  if h : buf.headLen ≤ len then (buf, mem)
  else
    let shift := buf.headLen - len
    let r := xdrBufTryExpand buf mem shift
    have hr : r.1.headLen = buf.headLen ∧ r.1.pageLen = buf.pageLen := xdrBufTryExpand_lens buf mem shift
    (r.1.setHead len (r.1.len - shift) (by omega) (by
      have := r.1.inside
      omega), xdrBufHeadShiftRight r.1 r.2 len (buflen - len) shift)

/-- The first step of `xdr_shrink_pagelen`: the pages end with the message. -/
def trimPages (buf : XdrLayout) (buflen : Nat) (h : buf.len ≤ buf.headLen + buflen) : XdrLayout :=
  buf.setPages (min buf.pageLen buflen) buf.len (by omega) (by
    have := buf.inside
    omega)

def xdrShrinkPagelen (buf : XdrLayout) (mem : XdrBytes) (len : Nat) : XdrLayout × XdrBytes :=
  let buflen := if buf.len ≤ buf.headLen ∨ buf.len - buf.headLen < len then len else buf.len - buf.headLen
  let buf := trimPages buf buflen (by
    dsimp only [buflen]
    split <;> omega)
  if h : buf.pageLen ≤ len then (buf, mem)
  else
    let shift := buf.pageLen - len
    let r := xdrBufTryExpand buf mem shift
    have hr : r.1.headLen = buf.headLen ∧ r.1.pageLen = buf.pageLen := xdrBufTryExpand_lens buf mem shift
    (r.1.setPages len (r.1.len - shift) (by omega) (by
      have := r.1.inside
      omega), xdrBufPagesShiftRight r.1 r.2 len (buflen - len) shift)

/-- The message is the same, as far as it still goes. -/
def Keeps (buf : XdrLayout) (mem : XdrBytes) (buf' : XdrLayout) (mem' : XdrBytes) : Prop :=
  ∀ a < buf'.len, buf'.get mem' a = buf.get mem a

section

variable {buf : XdrLayout} {mem : XdrBytes} {len n a l : Nat}

/-- What `xdr_shrink_bufhead` does to the lengths: the storage is what the head has lost less, and the message goes
as far as the storage. -/
structure HeadShrunk (buf buf' : XdrLayout) (len : Nat) : Prop where
  headLen : buf'.headLen = len
  npages : buf'.npages = buf.npages
  pageBase : buf'.pageBase = buf.pageBase
  pageLen : buf'.pageLen = buf.pageLen
  buflen : buf'.buflen = buf.buflen - (buf.headLen - len)
  sparse : buf'.sparse = buf.sparse
  len : buf'.len = min buf.len buf'.buflen

theorem trimHead_get (ha : a < buf.len) : (trimHead buf len).get mem a = buf.get mem a := by
  by_cases h : buf.headLen ≤ max buf.len len
  · simp [trimHead, XdrLayout.setHead, XdrLayout.get, Nat.min_eq_left h]
  rw [buf.get_head mem (by omega), (trimHead buf len).get_head mem]
  simp only [trimHead, XdrLayout.setHead]
  omega

theorem Expanded.get {buf' : XdrLayout} (h : Expanded buf buf' n) (mem : XdrBytes) (a : Nat) :
    buf'.get mem a = buf.get mem a := by
  simp [XdrLayout.get, h.headLen, h.pageLen, h.pageBase]

theorem get_setHead (hn : n ≤ buf.headLen) (hl : l ≤ n + buf.pageLen + buf.tailLen) (a : Nat) :
    (buf.setHead n l hn hl).get mem a = if a < n then mem.head a else buf.get mem (a + (buf.headLen - n)) := by
  show (if a < n then mem.head a else if a < n + buf.pageLen then mem.pages (buf.pageBase + (a - n))
    else mem.tail (a - (n + buf.pageLen))) = _
  unfold XdrLayout.get
  by_cases ha : a < n
  · rw [if_pos ha, if_pos ha]
  rw [if_neg ha, if_neg ha, if_neg (show ¬a + (buf.headLen - n) < buf.headLen by omega)]
  by_cases hp : a < n + buf.pageLen
  · rw [if_pos hp, if_pos (by omega)]
    congr 1
    omega
  rw [if_neg hp, if_neg (by omega)]
  congr 1
  omega

theorem Refilled.keeps {mem' : XdrBytes} {reached : Prop} {r : XdrLayout × XdrBytes} (h : Refilled buf mem mem' reached buf.len)
    (hs : buf.sparse = false) (hlen : r.1.len ≤ buf.len) (hkeeps : Keeps buf mem' r.1 r.2) : Keeps buf mem r.1 r.2 := by
  intro a ha
  rw [hkeeps a ha]
  obtain ⟨⟨-, hsparse, -⟩, -⟩ | ⟨-, hsame⟩ := h a (by omega)
  · cases hs.symm.trans hsparse
  · exact hsame

/-- Shrinking the head moves what it loses into the pages and the tail. -/
theorem shrinkBufhead_refilled (hfree : PagesFree buf mem) (hlen : len < min buf.headLen buf.len) :
    HeadShrunk buf (xdrShrinkBufhead buf mem len).1 len ∧ ∃ mem', Refilled buf mem mem' (buf.len < buf.sum) buf.len ∧
      Keeps buf mem' (xdrShrinkBufhead buf mem len).1 (xdrShrinkBufhead buf mem len).2 := by
  have hsmall : buf.headLen < 2 ^ 32 := by
    have := buf.fits
    omega
  have hstored := buf.stored
  have hmsg := buf.inside
  have hhead : (trimHead buf len).headLen = min buf.headLen buf.len := by
    simp only [trimHead, XdrLayout.setHead]
    omega
  have hbuflen : (trimHead buf len).buflen = buf.buflen - (buf.headLen - min buf.headLen buf.len) := by
    simp only [trimHead, XdrLayout.setHead]
    omega
  obtain ⟨shift, hshift⟩ : ∃ shift, shift = (trimHead buf len).headLen - len := ⟨_, rfl⟩
  obtain ⟨r, hr⟩ : ∃ r, r = xdrBufTryExpand (trimHead buf len) mem shift := ⟨_, rfl⟩
  obtain ⟨hexp, hfill⟩ := @tryExpand_spec (trimHead buf len) mem hfree shift (by omega)
  rw [← hr] at hexp hfill
  have hlen' : r.1.len = buf.len + min shift ((trimHead buf len).buflen - buf.len) := hexp.len
  have hhead' := hexp.headLen
  have hbuflen' := hexp.buflen
  simp only [xdrShrinkBufhead]
  rw [dif_neg (by omega)]
  simp only [← hshift, ← hr]
  refine ⟨⟨rfl, hexp.npages, hexp.pageBase, hexp.pageLen, ?_, hexp.sparse, ?_⟩, r.2, fun a ha => ?_, ?_⟩
  · show r.1.buflen - (r.1.headLen - len) = _
    omega
  · show r.1.len - shift = min buf.len (r.1.buflen - (r.1.headLen - len))
    omega
  · have hget := hfill a ha
    rw [trimHead_get ha, trimHead_get ha] at hget
    by_cases hin : buf.headLen ≤ max buf.len len
    · simpa [Replaced, freshByte, trimHead, XdrLayout.setHead, XdrLayout.sum, Nat.min_eq_left hin] using hget
    · -- the message ends in the head
      have hnot : ¬ Replaced buf mem a := fun h => by have := h.2.1; omega
      have hnot' : ¬ Replaced (trimHead buf len) mem a := fun h => by have := h.2.1; omega
      simpa only [hnot, hnot', and_false, not_false_eq_true, true_and, false_and, false_or] using hget
  intro a ha
  have hinside := r.1.inside
  have hlt : a < r.1.len - shift := ha
  rw [get_setHead]
  split_ifs with hbefore
  · rw [← r.1.get_head _ (by omega), headShiftRight_get (by omega) (by omega), move, copy_outside (by omega), hexp.get,
      trimHead_get (by omega)]
    unfold XdrLayout.sum
    omega
  rw [headShiftRight_get (by omega) (by omega), move, copy_inside (by omega), hexp.get,
    show len + (a + (r.1.headLen - len) - r.1.headLen) = a by omega, trimHead_get (by omega)]
  unfold XdrLayout.sum
  omega

/-- **Shrinking the head** keeps the message, as far as there is storage. -/
theorem shrinkBufhead_spec (hs : buf.sparse = false) (hlen : len < min buf.headLen buf.len) :
    HeadShrunk buf (xdrShrinkBufhead buf mem len).1 len ∧
      Keeps buf mem (xdrShrinkBufhead buf mem len).1 (xdrShrinkBufhead buf mem len).2 := by
  obtain ⟨hshrunk, mem', hfill, hkeeps⟩ := @shrinkBufhead_refilled buf mem len (.inl hs) hlen
  exact ⟨hshrunk, hfill.keeps hs (hshrunk.len ▸ Nat.min_le_left ..) hkeeps⟩

/-- What `xdr_shrink_pagelen` does to the lengths. -/
structure PagesShrunk (buf buf' : XdrLayout) (len : Nat) : Prop where
  headLen : buf'.headLen = buf.headLen
  npages : buf'.npages = buf.npages
  pageBase : buf'.pageBase = buf.pageBase
  pageLen : buf'.pageLen = len
  buflen : buf'.buflen = buf.buflen - (buf.pageLen - len)
  sparse : buf'.sparse = buf.sparse
  len : buf'.len = min buf.len buf'.buflen

theorem get_setPages (hn : n ≤ buf.pageLen) (hl : l ≤ buf.headLen + n + buf.tailLen) (a : Nat) :
    (buf.setPages n l hn hl).get mem a =
      if a < buf.headLen + n then buf.get mem a else buf.get mem (a + (buf.pageLen - n)) := by
  show (if a < buf.headLen then mem.head a else if a < buf.headLen + n then mem.pages (buf.pageBase + (a - buf.headLen))
    else mem.tail (a - (buf.headLen + n))) = _
  unfold XdrLayout.get
  by_cases ha : a < buf.headLen
  · rw [if_pos ha, if_pos (show a < buf.headLen + n by omega), if_pos ha]
  by_cases hp : a < buf.headLen + n
  · rw [if_neg ha, if_pos hp, if_pos hp, if_neg ha, if_pos (by omega)]
  rw [if_neg ha, if_neg hp, if_neg hp, if_neg (by omega), if_neg (by omega)]
  congr 1
  omega

theorem trimPages_get {buflen : Nat} {h : buf.len ≤ buf.headLen + buflen} (ha : a < buf.len) :
    (trimPages buf buflen h).get mem a = buf.get mem a := by
  rw [trimPages, get_setPages]
  split_ifs with hin
  · rfl
  · congr 1
    omega

theorem shrinkPagelen_refilled (hfree : PagesFree buf mem) (hlen : len < buf.pageLen) (hmsg : buf.headLen + len < buf.len) :
    PagesShrunk buf (xdrShrinkPagelen buf mem len).1 len ∧
      ∃ mem', Refilled buf mem mem' (buf.len < buf.headLen + min buf.pageLen (buf.len - buf.headLen) + buf.tailLen) buf.len ∧
        Keeps buf mem' (xdrShrinkPagelen buf mem len).1 (xdrShrinkPagelen buf mem len).2 := by
  have hsmall : buf.pageLen < 2 ^ 32 := by
    have := buf.fits
    have := buf.enough (by omega)
    omega
  have hstored := buf.stored
  have hmsg' := buf.inside
  have hlimit : ¬(buf.len ≤ buf.headLen ∨ buf.len - buf.headLen < len) := by omega
  simp only [xdrShrinkPagelen, if_neg hlimit]
  have hfits : buf.len ≤ buf.headLen + (buf.len - buf.headLen) := by omega
  have hpages : (trimPages buf _ hfits).pageLen = min buf.pageLen (buf.len - buf.headLen) := rfl
  have hbuflen : (trimPages buf _ hfits).buflen = buf.buflen - (buf.pageLen - (trimPages buf _ hfits).pageLen) := rfl
  obtain ⟨shift, hshift⟩ : ∃ shift, shift = (trimPages buf _ hfits).pageLen - len := ⟨_, rfl⟩
  obtain ⟨r, hr⟩ : ∃ r, r = xdrBufTryExpand (trimPages buf _ hfits) mem shift := ⟨_, rfl⟩
  obtain ⟨hexp, hfill⟩ := @tryExpand_spec (trimPages buf _ hfits) mem hfree shift (by omega)
  rw [← hr] at hexp hfill
  have hlen' : r.1.len = buf.len + min shift ((trimPages buf _ hfits).buflen - buf.len) := hexp.len
  have hhead' : r.1.headLen = buf.headLen := hexp.headLen
  have hpages' := hexp.pageLen
  have hbuflen' := hexp.buflen
  rw [dif_neg (by omega)]
  simp only [← hshift, ← hr]
  refine ⟨⟨hhead', hexp.npages, hexp.pageBase, rfl, ?_, hexp.sparse, ?_⟩, r.2, fun a ha => ?_, ?_⟩
  · show r.1.buflen - (r.1.pageLen - len) = _
    omega
  · show r.1.len - shift = min buf.len (r.1.buflen - (r.1.pageLen - len))
    omega
  · have hget := hfill a ha
    have hin : Replaced (trimPages buf _ hfits) mem a ↔ Replaced buf mem a :=
      and_congr_right' (and_congr_right' (and_congr_left' (show a < buf.headLen + min _ _ ↔ _ by omega)))
    rwa [trimPages_get ha, trimPages_get ha, hin] at hget
  intro a ha
  have hinside := r.1.inside
  have hlt : a < r.1.len - shift := ha
  have hsum : r.1.sum = r.1.headLen + r.1.pageLen + r.1.tailLen := rfl
  rw [get_setPages]
  split_ifs with hbefore
  · rw [pagesShiftRight_get (by omega), move, copy_outside (by omega), hexp.get, trimPages_get (by omega)]
  rw [pagesShiftRight_get (by omega), move, copy_inside (by omega), hexp.get,
    show r.1.headLen + len + (a + (r.1.pageLen - len) - (r.1.headLen + len + shift)) = a by omega,
    trimPages_get (by omega)]

/-- **Shrinking the pages** keeps the message, as far as there is storage. -/
theorem shrinkPagelen_spec (hs : buf.sparse = false) (hlen : len < buf.pageLen) (hmsg : buf.headLen + len < buf.len) :
    PagesShrunk buf (xdrShrinkPagelen buf mem len).1 len ∧
      Keeps buf mem (xdrShrinkPagelen buf mem len).1 (xdrShrinkPagelen buf mem len).2 := by
  obtain ⟨hshrunk, mem', hfill, hkeeps⟩ := @shrinkPagelen_refilled buf mem len (.inl hs) hlen hmsg
  exact ⟨hshrunk, hfill.keeps hs (hshrunk.len ▸ Nat.min_le_left ..) hkeeps⟩

end

/-! ## What shrinking keeps -/

def XdrLayout.content (buf : XdrLayout) (mem : XdrBytes) : List UInt8 := (flat (buf.toBuf mem)).take buf.len

/-- The message begins as it did, and it is whole if there was storage for what was moved. -/
structure Kept (buf : XdrLayout) (mem : XdrBytes) (moved : Nat) (r : XdrLayout × XdrBytes) : Prop where
  front : r.1.content r.2 <+: buf.content mem
  whole : buf.len + moved ≤ buf.buflen → r.1.content r.2 = buf.content mem

section

variable {buf : XdrLayout} {mem : XdrBytes} {len moved : Nat} {r : XdrLayout × XdrBytes}

theorem content_eq : buf.content mem = slice (buf.get mem) 0 buf.len := by
  rw [XdrLayout.content, buf.flat_toBuf, take_slice, Nat.min_eq_left (show _ ≤ buf.sum from buf.inside)]

theorem Kept.keeps (h : Kept buf mem moved r) : Keeps buf mem r.1 r.2 := by
  intro a ha
  have hfront := h.front
  rw [content_eq, content_eq] at hfront
  have hlen := hfront.length_le
  rw [length_slice, length_slice] at hlen
  have hget := congrArg (·[a]?) (List.prefix_iff_eq_take.1 hfront)
  rw [length_slice, take_slice, getElem?_slice ha, getElem?_slice (by omega), Nat.zero_add] at hget
  exact Option.some.inj hget

end

end Vastnfs.Sunrpc
