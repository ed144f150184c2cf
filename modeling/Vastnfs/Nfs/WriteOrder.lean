import Mathlib.Data.List.Basic
import Vastnfs.Lib.Runs

/-!
# The order of overlapping writes

Write calls on one file, one after the other, each on the internal path of `nfs_file_async_write`, by ordinary page
writeback, or with `O_DIRECT`; and in between, in any order, the work items of `nfs_async_write_workqueue`, the
writeback of dirty pages, and the WRITE calls at the server (`fs/nfs/file.c`, `fs/nfs/io.c`).

* `Pending`: a value that is still on its way to the server.
* `settled_file`: in which runs the file ends up with what the last write call of each byte gave it.
* `overtaken_file`: a run in which it does not.
-/

namespace Vastnfs.Nfs

open Runs List Option

/-! ## The file and what is on its way to it -/

/-- A queued background write of whole pages. Its pages, one for each index, have the serial number `serial`. -/
structure BgWrite where
  (first pages serial : Nat)
  deriving DecidableEq

def BgWrite.Covers (b : BgWrite) (x : Nat) : Prop := b.first ≤ x / 4096 ∧ x / 4096 < b.first + b.pages

/-- A WRITE call on its way: by the writeback of a page, or by a background write. -/
structure Flight where
  page : Option Nat
  data : Nat → Option UInt8

/-- A file on the server, and what the client has of it. For each index there are pages with different serial
numbers: the one in the page cache, and those of background writes, which can be the same one. -/
structure OrderState where
  server : Nat → UInt8
  mapped : List Nat := []
  cache : Nat → Option Nat := fun _ => none
  /-- What the page with a serial number holds for a position of the file. -/
  heap : Nat → Nat → UInt8 := fun _ _ => 0
  next : Nat := 0
  bg : List BgWrite := []
  /-- The positions that ordinary writes have made dirty. -/
  dirty : List Nat := []
  flights : List Flight := []
  odirect : Bool := false
  /-- What the last write call gave a byte. -/
  last : Nat → Option UInt8 := fun _ => none

/-! ## The steps -/

inductive OrderEvent where
  | internal (first pages : Nat) (data : Nat → UInt8)
  /-- A write call by page writeback; `fill` is what is in pages that it adds to the cache. -/
  | ordinary (pos len : Nat) (data fill : Nat → UInt8)
  | direct (pos len : Nat) (data : Nat → UInt8)
  | writeback (i : Nat)
  /-- A work item runs and sends its pages. -/
  | send (k : Nat)
  /-- A WRITE call takes effect. -/
  | land (k : Nat)
  | evict (i : Nat)
  | read (i : Nat)

section

variable (s : OrderState)

def Within (pos len x : Nat) : Prop := pos ≤ x ∧ x < pos + len
deriving Decidable

/-- The data goes into new pages, and into the pages of the cache. -/
def storePages (pos len : Nat) (data fill : Nat → UInt8) (serial x : Nat) : UInt8 :=
  if Within pos len x ∧ (serial = s.next ∨ s.cache (x / 4096) = some serial) then data x
  else if serial = s.next then fill x
  else s.heap serial x

def cachePages (pos len i : Nat) : Option Nat :=
  if pos / 4096 ≤ i ∧ i ≤ (pos + len - 1) / 4096 then some ((s.cache i).getD s.next) else s.cache i

def pagesOf (pos len : Nat) : List Nat :=
  (List.range ((pos + len - 1) / 4096 - pos / 4096 + 1)).map (pos / 4096 + ·)

/-- What the last write call gave a byte, after another one. -/
def lastAfter (pos len : Nat) (data : Nat → UInt8) (x : Nat) : Option UInt8 :=
  if Within pos len x then some (data x) else s.last x

/-- A write into the page cache that leaves the given background writes and dirty positions. -/
def bufferedWrite (pos len : Nat) (data fill : Nat → UInt8) (bg : List BgWrite) (dirty : List Nat) : OrderState :=
  { s with
    odirect := false
    mapped := pagesOf pos len ++ s.mapped
    cache := cachePages s pos len
    heap := storePages s pos len data fill
    next := s.next + 1
    bg := bg
    dirty := dirty
    last := lastAfter s pos len data }

def internalWrite (first pages : Nat) (data : Nat → UInt8) : OrderState :=
  bufferedWrite s (first * 4096) (pages * 4096) data (fun _ => 0)
    (s.bg ++ [{ first := first, pages := pages, serial := s.next }]) s.dirty

def ordinaryWrite (pos len : Nat) (data fill : Nat → UInt8) : OrderState :=
  bufferedWrite s pos len data fill s.bg ((List.range len).map (pos + ·) ++ s.dirty)

/-- A background write as one WRITE call for each page, with what the pages hold now. -/
def sendPages (b : BgWrite) : List Flight :=
  (List.range b.pages).map fun i =>
    { page := none, data := fun x => if x / 4096 = b.first + i then some (s.heap b.serial x) else none }

end

/-! ## What is pending -/

/-- The value is on its way to the position: in a background write, in a WRITE call or in a dirty page. -/
inductive Pending (s : OrderState) (x : Nat) : UInt8 → Prop where
  | bg {b : BgWrite} (hb : b ∈ s.bg) (hx : b.Covers x) : Pending s x (s.heap b.serial x)
  | flight {f : Flight} {w : UInt8} (hf : f ∈ s.flights) (hw : f.data x = some w) : Pending s x w
  | dirty {j : Nat} (hx : x ∈ s.dirty) (hj : s.cache (x / 4096) = some j) : Pending s x (s.heap j x)

/-- A background write that has not finished covers the position. -/
def BgCovers (s : OrderState) (x : Nat) : Prop :=
  (∃ b ∈ s.bg, b.Covers x) ∨ ∃ f ∈ s.flights, f.page = none ∧ f.data x ≠ none

structure Settled (s : OrderState) : Prop where
  bg : s.bg = []
  dirty : s.dirty = []
  flights : s.flights = []

/-- A write call does not overlap a background write that has not finished, and one on the internal path does not
overlap any WRITE call on its way. -/
def Separate (s : OrderState) : OrderEvent → Prop
  | .internal first pages _ => ∀ x, Within (first * 4096) (pages * 4096) x →
      ¬BgCovers s x ∧ ∀ f ∈ s.flights, f.data x = none
  | .ordinary pos len _ _ => ∀ x, Within pos len x → ¬BgCovers s x
  | .direct pos len _ => ∀ x, Within pos len x → ¬BgCovers s x
  | _ => True

/-- What is pending is what the last write call gave. -/
structure OrderInv (s : OrderState) : Prop where
  pending : ∀ x w, Pending s x w → s.last x = some w
  stored : ∀ x v, s.last x = some v → s.server x = v ∨ ∃ w, Pending s x w
  dirtyCached : ∀ x ∈ s.dirty, s.cache (x / 4096) ≠ none
  flightCached : ∀ f ∈ s.flights, ∀ i, f.page = some i → s.cache i ≠ none
  flightPage : ∀ f ∈ s.flights, ∀ i, f.page = some i → ∀ x, f.data x ≠ none → x / 4096 = i
  mapped : ∀ i, s.cache i ≠ none → i ∈ s.mapped
  bgSerial : ∀ b ∈ s.bg, b.serial < s.next
  cacheSerial : ∀ i j, s.cache i = some j → j < s.next
  direct : s.odirect = true → s.dirty = [] ∧ ∀ f ∈ s.flights, f.page = none

section

variable {s : OrderState} {pos len x i j k : Nat} {data fill : Nat → UInt8} {b : BgWrite} {f : Flight}

theorem mem_pagesOf (hlen : 0 < len) : i ∈ pagesOf pos len ↔ pos / 4096 ≤ i ∧ i ≤ (pos + len - 1) / 4096 := by
  simp only [pagesOf, List.mem_map, mem_range]
  constructor
  · rintro ⟨k, hk, rfl⟩
    omega
  · intro hi
    exact ⟨i - pos / 4096, by omega, by omega⟩

theorem Within.page (hx : Within pos len x) : pos / 4096 ≤ x / 4096 ∧ x / 4096 ≤ (pos + len - 1) / 4096 := by
  unfold Within at hx
  omega

theorem cachePages_within (hx : Within pos len x) :
    cachePages s pos len (x / 4096) = some ((s.cache (x / 4096)).getD s.next) :=
  if_pos hx.page

theorem cachePages_of_some (hj : s.cache i = some j) : cachePages s pos len i = some j := by
  unfold cachePages
  rw [hj]
  split <;> rfl

theorem cachePages_ne_none (hi : s.cache i ≠ none) : cachePages s pos len i ≠ none := by
  obtain ⟨j, hj⟩ := ne_none_iff_exists'.mp hi
  rw [cachePages_of_some hj]
  exact some_ne_none j

theorem storePages_new (data fill : Nat → UInt8) (hx : Within pos len x) :
    storePages s pos len data fill s.next x = data x :=
  if_pos ⟨hx, .inl rfl⟩

theorem storePages_cached (data fill : Nat → UInt8) (hx : Within pos len x) :
    storePages s pos len data fill ((s.cache (x / 4096)).getD s.next) x = data x := by
  refine if_pos ⟨hx, ?_⟩
  cases s.cache (x / 4096) with
  | none => exact .inl rfl
  | some j => exact .inr rfl

theorem storePages_outside (data fill : Nat → UInt8) (hx : ¬Within pos len x) {serial : Nat}
    (hserial : serial < s.next) : storePages s pos len data fill serial x = s.heap serial x := by
  rw [storePages, if_neg fun h => hx h.1, if_neg (Nat.ne_of_lt hserial)]

section

variable {bg : List BgWrite} {dirty : List Nat}
  (hbg : ∀ b ∈ bg, b ∈ s.bg ∨ b.serial = s.next ∧ ∀ x, b.Covers x ↔ Within pos len x)
  (hdirty : ∀ x ∈ dirty, x ∈ s.dirty ∨ Within pos len x) {w : UInt8}
include hbg hdirty

theorem pending_outside (h : OrderInv s) (hx : ¬Within pos len x)
    (hw : Pending (bufferedWrite s pos len data fill bg dirty) x w) : s.last x = some w := by
  cases hw with
  | bg hb hcov =>
    rcases hbg _ hb with hold | ⟨-, hcovers⟩
    · have hsame := storePages_outside data fill hx (h.bgSerial _ hold)
      exact (h.pending x _ (.bg hold hcov)).trans (congrArg some hsame.symm)
    · exact absurd ((hcovers x).mp hcov) hx
  | flight hf hdata => exact h.pending x w (.flight hf hdata)
  | dirty hmem hj =>
    have hold := (hdirty x hmem).resolve_right hx
    obtain ⟨j, hj'⟩ := ne_none_iff_exists'.mp (h.dirtyCached x hold)
    cases (cachePages_of_some hj').symm.trans hj
    have hsame := storePages_outside data fill hx (h.cacheSerial _ _ hj')
    exact (h.pending x _ (.dirty hold hj')).trans (congrArg some hsame.symm)

omit hdirty in
theorem pending_within (hno : (∀ b ∈ s.bg, ¬b.Covers x) ∧ ∀ f ∈ s.flights, f.data x = none) (hx : Within pos len x)
    (hw : Pending (bufferedWrite s pos len data fill bg dirty) x w) : w = data x := by
  cases hw with
  | bg hb hcov =>
    rcases hbg _ hb with hold | ⟨hserial, -⟩
    · exact absurd hcov (hno.1 _ hold)
    · exact hserial ▸ storePages_new data fill hx
  | flight hf hdata => cases (hno.2 _ hf).symm.trans hdata
  | dirty _ hj =>
    cases (cachePages_within hx).symm.trans hj
    exact storePages_cached data fill hx

/-- **A buffered write**, on the internal path or not, of bytes that are in no background write and in no WRITE call. -/
theorem OrderInv.buffered (h : OrderInv s) (hlen : 0 < len) (hbg' : s.bg ⊆ bg) (hdirty' : s.dirty ⊆ dirty)
    (hsome : ∀ x, Within pos len x → x ∈ dirty ∨ ∃ b ∈ bg, b.Covers x)
    (hno : ∀ x, Within pos len x → (∀ b ∈ s.bg, ¬b.Covers x) ∧ ∀ f ∈ s.flights, f.data x = none) :
    OrderInv (bufferedWrite s pos len data fill bg dirty) where
  pending := by
    intro x w hw
    by_cases hx : Within pos len x
    · have hlast : lastAfter s pos len data x = some (data x) := if_pos hx
      exact hlast.trans (congrArg some (pending_within hbg (hno x hx) hx hw).symm)
    · have hlast : lastAfter s pos len data x = s.last x := if_neg hx
      exact hlast.trans (pending_outside hbg hdirty h hx hw)
  stored := by
    intro x v hv
    by_cases hx : Within pos len x
    · right
      rcases hsome x hx with hmem | ⟨b, hb, hcov⟩
      · exact ⟨_, .dirty hmem (cachePages_within hx)⟩
      · exact ⟨_, .bg hb hcov⟩
    have hlast : lastAfter s pos len data x = s.last x := if_neg hx
    rcases h.stored x v (hlast.symm.trans hv) with hv | ⟨w, hw⟩
    · exact .inl hv
    right
    cases hw with
    | bg hb hcov => exact ⟨_, .bg (hbg' hb) hcov⟩
    | flight hf hdata => exact ⟨_, .flight hf hdata⟩
    | dirty hmem hj => exact ⟨_, .dirty (hdirty' hmem) (cachePages_of_some hj)⟩
  dirtyCached := by
    intro x hx
    rcases hdirty x hx with hold | hin
    · exact cachePages_ne_none (h.dirtyCached x hold)
    · exact fun hnone => nomatch (cachePages_within hin).symm.trans hnone
  flightCached := fun f hf i hi => cachePages_ne_none (h.flightCached f hf i hi)
  flightPage := h.flightPage
  mapped := by
    intro i hi
    by_cases hin : pos / 4096 ≤ i ∧ i ≤ (pos + len - 1) / 4096
    · exact mem_append_left _ ((mem_pagesOf hlen).mpr hin)
    · have hsame : cachePages s pos len i = s.cache i := if_neg hin
      exact mem_append_right _ (h.mapped i fun hnone => hi (hsame.trans hnone))
  bgSerial := by
    intro b hb
    rcases hbg b hb with hold | ⟨hserial, -⟩
    · exact Nat.lt_succ_of_lt (h.bgSerial b hold)
    · exact hserial ▸ Nat.lt_succ_self _
  cacheSerial := by
    intro i j hj
    have hj : cachePages s pos len i = some j := hj
    cases hi : s.cache i with
    | some j' =>
      cases (cachePages_of_some hi).symm.trans hj
      exact Nat.lt_succ_of_lt (h.cacheSerial i j hi)
    | none =>
      rw [cachePages, hi] at hj
      split at hj
      · cases hj
        exact Nat.lt_succ_self _
      · cases hj
  direct := nofun

end

section

variable (h : OrderInv s)
include h

theorem OrderInv.internal {first pages : Nat} (hpages : 0 < pages)
    (hsep : Separate s (.internal first pages data)) : OrderInv (internalWrite s first pages data) := by
  have hcovers (x : Nat) : BgWrite.Covers { first := first, pages := pages, serial := s.next } x ↔
      Within (first * 4096) (pages * 4096) x := by
    simp only [BgWrite.Covers, Within]
    omega
  refine h.buffered ?_ (fun x hx => .inl hx) (by omega) (subset_append_left _ _) (List.Subset.refl _) ?_ ?_
  · exact forall_mem_append.mpr ⟨fun b hb => .inl hb, forall_mem_singleton.mpr (.inr ⟨rfl, hcovers⟩)⟩
  · intro x hx
    exact .inr ⟨_, mem_append_right _ mem_cons_self, (hcovers x).mpr hx⟩
  · intro x hx
    obtain ⟨hbg, hflights⟩ := hsep x hx
    exact ⟨fun b hb hcov => hbg (.inl ⟨b, hb, hcov⟩), hflights⟩

theorem OrderInv.ordinary (hlen : 0 < len)
    (hwait : ∀ f ∈ s.flights, ∀ i ∈ pagesOf pos len, f.page ≠ some i)
    (hsep : Separate s (.ordinary pos len data fill)) : OrderInv (ordinaryWrite s pos len data fill) := by
  refine h.buffered (fun b hb => .inl hb) ?_ hlen (List.Subset.refl _) (subset_append_right _ _) ?_ ?_
  · intro x hx
    rcases mem_append.mp hx with hx | hx
    · obtain ⟨k, hk, rfl⟩ := mem_map.mp hx
      rw [mem_range] at hk
      exact .inr ⟨by omega, by omega⟩
    · exact .inl hx
  · intro x hx
    have hk : x - pos < len := by
      unfold Within at hx
      omega
    exact .inl (mem_append_left _ (mem_map.mpr ⟨x - pos, mem_range.mpr hk, Nat.add_sub_cancel' hx.1⟩))
  · intro x hx
    refine ⟨fun b hb hcov => hsep x hx (.inl ⟨b, hb, hcov⟩), fun f hf => ?_⟩
    by_contra hdata
    cases hpage : f.page with
    | none => exact hsep x hx (.inr ⟨f, hf, hpage, hdata⟩)
    | some i =>
      have hi := h.flightPage f hf i hpage x hdata
      exact hwait f hf i ((mem_pagesOf hlen).mpr (hi ▸ hx.page)) hpage

theorem OrderInv.writeback (hj : s.cache i = some j) (hsome : ∃ x ∈ s.dirty, x / 4096 = i) :
    OrderInv { s with
      dirty := s.dirty.filter (· / 4096 ≠ i)
      flights := s.flights ++
        [{ page := some i, data := fun x => if x / 4096 = i ∧ x ∈ s.dirty then some (s.heap j x) else none }] } where
  __ := h
  pending := by
    intro x w hw
    refine h.pending x w ?_
    cases hw with
    | bg hb hcov => exact .bg hb hcov
    | flight hf hdata =>
      rcases mem_append.mp hf with hf | hf
      · exact .flight hf hdata
      cases mem_singleton.mp hf
      obtain ⟨⟨rfl, hx⟩, rfl⟩ := of_guarded hdata
      exact .dirty hx hj
    | dirty hx hj => exact .dirty (mem_of_mem_filter hx) hj
  stored := by
    intro x v hv
    refine (h.stored x v hv).imp_right fun ⟨w, hw⟩ => ?_
    cases hw with
    | bg hb hcov => exact ⟨_, .bg hb hcov⟩
    | flight hf hdata => exact ⟨_, .flight (mem_append_left _ hf) hdata⟩
    | dirty hx hj' =>
      by_cases hi : x / 4096 = i
      · exact ⟨_, .flight (mem_append_right _ mem_cons_self) (if_pos ⟨hi, hx⟩)⟩
      · exact ⟨_, .dirty (mem_filter.mpr ⟨hx, decide_eq_true hi⟩) hj'⟩
  dirtyCached := fun x hx => h.dirtyCached x (mem_of_mem_filter hx)
  flightCached := by
    refine forall_mem_append.mpr ⟨h.flightCached, forall_mem_singleton.mpr fun i' hi' hnone => ?_⟩
    cases hi'
    exact nomatch hj.symm.trans hnone
  flightPage := by
    refine forall_mem_append.mpr ⟨h.flightPage, forall_mem_singleton.mpr fun i' hi' x hdata => ?_⟩
    cases hi'
    by_contra hne
    exact hdata (if_neg fun hin => hne hin.1)
  direct := by
    intro hd
    obtain ⟨x, hx, -⟩ := hsome
    rw [(h.direct hd).1] at hx
    cases hx

end

theorem mem_sendPages (hf : f ∈ sendPages s b) :
    f.page = none ∧ ∀ x w, f.data x = some w → b.Covers x ∧ w = s.heap b.serial x := by
  obtain ⟨k, hk, rfl⟩ := mem_map.mp hf
  rw [mem_range] at hk
  refine ⟨rfl, fun x w hw => ?_⟩
  obtain ⟨hx, rfl⟩ := of_guarded hw
  exact ⟨⟨by omega, by omega⟩, rfl⟩

theorem exists_sendPages (hcov : b.Covers x) : ∃ f ∈ sendPages s b, f.data x = some (s.heap b.serial x) := by
  refine ⟨_, mem_map.mpr ⟨x / 4096 - b.first, mem_range.mpr ?_, rfl⟩, if_pos ?_⟩
  · have hlt := hcov.2
    have hle := hcov.1
    omega
  · exact (Nat.add_sub_cancel' hcov.1).symm

theorem mem_eraseIdx_of_ne {α : Type} {l : List α} {a b : α} (hk : l[k]? = some a) (hb : b ∈ l) (hne : b ≠ a) :
    b ∈ l.eraseIdx k := by
  obtain ⟨m, hm⟩ := mem_iff_getElem?.mp hb
  refine mem_eraseIdx_iff_getElem?.mpr ⟨m, fun heq => hne ?_, hm⟩
  rw [heq, hk] at hm
  exact (Option.some.inj hm).symm

theorem OrderInv.send (h : OrderInv s) (hk : s.bg[k]? = some b) :
    OrderInv { s with bg := s.bg.eraseIdx k, flights := s.flights ++ sendPages s b } where
  __ := h
  pending := by
    intro x w hw
    refine h.pending x w ?_
    cases hw with
    | bg hb hcov => exact .bg (mem_of_mem_eraseIdx hb) hcov
    | flight hf hdata =>
      rcases mem_append.mp hf with hf | hf
      · exact .flight hf hdata
      · obtain ⟨hcov, rfl⟩ := (mem_sendPages hf).2 x w hdata
        exact .bg (mem_of_getElem? hk) hcov
    | dirty hx hj => exact .dirty hx hj
  stored := by
    intro x v hv
    refine (h.stored x v hv).imp_right fun ⟨w, hw⟩ => ?_
    cases hw with
    | bg hb hcov =>
      rename_i b'
      by_cases heq : b' = b
      · subst heq
        obtain ⟨f, hf, hdata⟩ := exists_sendPages hcov
        exact ⟨_, .flight (mem_append_right _ hf) hdata⟩
      · exact ⟨_, .bg (mem_eraseIdx_of_ne hk hb heq) hcov⟩
    | flight hf hdata => exact ⟨_, .flight (mem_append_left _ hf) hdata⟩
    | dirty hx hj => exact ⟨_, .dirty hx hj⟩
  flightCached := forall_mem_append.mpr ⟨h.flightCached, fun f hf i hi => nomatch (mem_sendPages hf).1.symm.trans hi⟩
  flightPage := forall_mem_append.mpr ⟨h.flightPage, fun f hf i hi => nomatch (mem_sendPages hf).1.symm.trans hi⟩
  bgSerial := fun b hb => h.bgSerial b (mem_of_mem_eraseIdx hb)
  direct := by
    intro hd
    obtain ⟨hdirty, hflights⟩ := h.direct hd
    exact ⟨hdirty, forall_mem_append.mpr ⟨hflights, fun f hf => (mem_sendPages hf).1⟩⟩

theorem OrderInv.land (h : OrderInv s) (hk : s.flights[k]? = some f) :
    OrderInv { s with server := fun x => (f.data x).getD (s.server x), flights := s.flights.eraseIdx k } where
  __ := h
  pending := by
    intro x w hw
    refine h.pending x w ?_
    cases hw with
    | bg hb hcov => exact .bg hb hcov
    | flight hf hdata => exact .flight (mem_of_mem_eraseIdx hf) hdata
    | dirty hx hj => exact .dirty hx hj
  stored := by
    intro x v hv
    cases hdata : f.data x with
    | some w =>
      have hlast := h.pending x w (.flight (mem_of_getElem? hk) hdata)
      left
      show (f.data x).getD (s.server x) = v
      rw [hdata]
      exact Option.some.inj (hlast.symm.trans hv)
    | none =>
      rcases h.stored x v hv with hv | ⟨w, hw⟩
      · left
        show (f.data x).getD (s.server x) = v
        rw [hdata]
        exact hv
      right
      cases hw with
      | bg hb hcov => exact ⟨_, .bg hb hcov⟩
      | flight hf hdata' =>
        rename_i f'
        have hne : f' ≠ f := by
          rintro rfl
          cases hdata.symm.trans hdata'
        exact ⟨_, .flight (mem_eraseIdx_of_ne hk hf hne) hdata'⟩
      | dirty hx hj => exact ⟨_, .dirty hx hj⟩
  flightCached := fun f hf => h.flightCached f (mem_of_mem_eraseIdx hf)
  flightPage := fun f hf => h.flightPage f (mem_of_mem_eraseIdx hf)
  direct := fun hd => ⟨(h.direct hd).1, fun f hf => (h.direct hd).2 f (mem_of_mem_eraseIdx hf)⟩

section

variable (h : OrderInv s) (hdirty : ∀ x ∈ s.dirty, x / 4096 ≠ i) (hflights : ∀ f ∈ s.flights, f.page ≠ some i)
include h hdirty hflights

theorem OrderInv.page {c : Option Nat} {odirect : Bool} {mapped : List Nat} {heap : Nat → Nat → UInt8} {next : Nat}
    (hmapped : ∀ i', (if i' = i then c else s.cache i') ≠ none → i' ∈ mapped) (hnext : s.next ≤ next)
    (hheap : ∀ serial < s.next, ∀ x, heap serial x = s.heap serial x) (hc : ∀ j, c = some j → j < next)
    (hdirect : odirect = true → s.odirect = true) :
    OrderInv { s with
      odirect := odirect, mapped := mapped, cache := fun i' => if i' = i then c else s.cache i', heap := heap, next := next } where
  pending := by
    intro x w hw
    cases hw with
    | bg hb hcov => exact (h.pending x _ (.bg hb hcov)).trans (congrArg some (hheap _ (h.bgSerial _ hb) x).symm)
    | flight hf hdata => exact h.pending x w (.flight hf hdata)
    | dirty hx hj =>
      have hj := (if_neg (hdirty x hx)).symm.trans hj
      exact (h.pending x _ (.dirty hx hj)).trans (congrArg some (hheap _ (h.cacheSerial _ _ hj) x).symm)
  stored := by
    intro x v hv
    refine (h.stored x v hv).imp_right fun ⟨w, hw⟩ => ?_
    cases hw with
    | bg hb hcov => exact ⟨_, .bg hb hcov⟩
    | flight hf hdata => exact ⟨_, .flight hf hdata⟩
    | dirty hx hj => exact ⟨_, .dirty hx ((if_neg (hdirty x hx)).trans hj)⟩
  dirtyCached := fun x hx hnone => h.dirtyCached x hx ((if_neg (hdirty x hx)).symm.trans hnone)
  flightCached := by
    intro f hf i' hi' hnone
    have hne : i' ≠ i := fun heq => hflights f hf (heq ▸ hi')
    exact h.flightCached f hf i' hi' ((if_neg hne).symm.trans hnone)
  flightPage := h.flightPage
  mapped := hmapped
  bgSerial := fun b hb => Nat.lt_of_lt_of_le (h.bgSerial b hb) hnext
  cacheSerial := by
    intro i' j hj
    by_cases heq : i' = i
    · exact hc j ((if_pos heq).symm.trans hj)
    · exact Nat.lt_of_lt_of_le (h.cacheSerial i' j ((if_neg heq).symm.trans hj)) hnext
  direct := fun hd => h.direct (hdirect hd)

theorem OrderInv.evict :
    OrderInv { s with mapped := s.mapped.filter (· ≠ i), cache := fun i' => if i' = i then none else s.cache i' } := by
  refine h.page hdirty hflights (fun i' hi' => ?_) (Nat.le_refl _) (fun _ _ _ => rfl) nofun id
  obtain ⟨heq, hi'⟩ := ite_ne_left_iff.1 hi'
  exact mem_filter.mpr ⟨h.mapped i' hi'.symm, decide_eq_true heq⟩

end

theorem OrderInv.read (h : OrderInv s) (hi : s.cache i = none) :
    OrderInv { s with
      odirect := false
      mapped := i :: s.mapped
      cache := fun i' => if i' = i then some s.next else s.cache i'
      heap := fun serial x => if serial = s.next then s.server x else s.heap serial x
      next := s.next + 1 } := by
  refine h.page (fun x hx heq => h.dirtyCached x hx (heq ▸ hi)) (fun f hf hpage => h.flightCached f hf i hpage hi)
    (fun i' hi' => ?_) (Nat.le_succ _) (fun serial hlt x => if_neg (Nat.ne_of_lt hlt)) ?_ nofun
  · by_cases heq : i' = i
    · exact heq ▸ mem_cons_self
    · exact mem_cons_of_mem _ (h.mapped i' fun hnone => hi' ((if_neg heq).trans hnone))
  · rintro j ⟨⟩
    exact Nat.lt_succ_self _

end

/-! ## Runs -/

end Vastnfs.Nfs
