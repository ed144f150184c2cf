import Mathlib.Algebra.Order.Ring.Int
import Mathlib.Data.List.Basic
import Vastnfs.Lib.Runs

/-!
# When written data is dropped

The page requests of one write header are acknowledged by the server at a commit level and under a verifier
(`fs/nfs/write.c`). A short reply makes the client send the rest again; the level and the verifier of the header are those
of the last reply. A request whose level does not suffice waits for a COMMIT that returns the header's verifier.

* `nfsWritebackResult`, `nfsWriteCompletion`, `nfsCommitReleasePage`: the functions.
* `mem_writeCompletion`: what becomes of a request when the header is done.
* `KeptInv.step`: what every step keeps that does not go on behind data that still needs a COMMIT.
* `dropped_only_when_safe`: no request is dropped before its bytes are safe.
-/

namespace Vastnfs.Nfs

open Runs List Option

/-! ## The functions -/

/-- `NFS_UNSTABLE`, `NFS_DATA_SYNC` and `NFS_FILE_SYNC`; the NFSv4 decoder takes any word. -/
def nfsUnstable : Nat := 0

@[inherit_doc nfsUnstable] def nfsDataSync : Nat := 1

@[inherit_doc nfsUnstable] def nfsFileSync : Nat := 2

/-- What a write says of `struct nfs_pgio_header`: `pages` are the `wb_bytes` of its requests, `error` is there with
`NFS_IOHDR_ERROR`, `mdsOffset` and `offset` differ for a data server with its own offsets. -/
structure WriteHdr (Verf : Type) where
  ioStart : Int
  goodBytes : Nat
  lseg : Bool
  error : Option Int := none
  (mdsOffset offset : Int)
  count : Nat
  (stable committed : Nat := nfsUnstable)
  verifier : Verf
  pages : List Nat
deriving DecidableEq

/-- The bytes of a header from the first number up to the second. -/
abbrev Span := Nat × Nat

inductive Fate (Verf : Type) where
  | removed
  | failed (error : Option Int)
  | commit (wbVerf : Verf)
  | redirtied
deriving DecidableEq

section

variable {Verf : Type}

def Fate.waits : Fate Verf → Option Verf
  | .commit wbVerf => some wbVerf
  | _ => none

def nfsSetPgioError (hdr : WriteHdr Verf) (error pos : Int) : WriteHdr Verf :=
  let new := ((pos - hdr.ioStart) % 2 ^ 32).toNat
  if new < hdr.goodBytes then { hdr with goodBytes := new, error := hdr.error <|> some error } else hdr

/-- `nfs_writeback_result`, and whether the call is made again. -/
def nfsWritebackResult (hdr : WriteHdr Verf) (count : Nat) : WriteHdr Verf × Bool :=
  if count < hdr.count then
    if count = 0 then (nfsSetPgioError hdr (-5) hdr.offset, false)
    else if hdr.committed ≠ nfsUnstable then
      ({ hdr with
          mdsOffset := hdr.mdsOffset + count
          offset := hdr.offset + count
          count := hdr.count - count
          committed := 0 }, true)
    else ({ hdr with stable := nfsFileSync, committed := 0 }, true)
  else (hdr, false)

def nfsWriteNeedCommit (hdr : WriteHdr Verf) : Bool :=
  if hdr.committed = nfsDataSync then !hdr.lseg else hdr.committed ≠ nfsFileSync

/-- The requests from byte `bytes` on. -/
def nfsWriteCompletion (hdr : WriteHdr Verf) : Nat → List Nat → List (Span × Fate Verf)
  | _, [] => []
  | start, wbBytes :: pages =>
    let bytes := start + wbBytes
    let fate :=
      if hdr.error.isSome ∧ hdr.goodBytes < bytes then .failed hdr.error
      else if nfsWriteNeedCommit hdr then .commit hdr.verifier
      else .removed
    ((start, bytes), fate) :: nfsWriteCompletion hdr bytes pages

variable [DecidableEq Verf]

def nfsCommitReleasePage (status : Int) (committed : Nat) (verifier wbVerf : Verf) : Fate Verf :=
  if status < 0 then .failed (some status)
  -- `nfs_write_match_verf`
  else if nfsUnstable < committed ∧ wbVerf = verifier then .removed
  else .redirtied

structure WriteAck (Verf : Type) where
  span : Span
  committed : Nat
  verifier : Verf
deriving DecidableEq

/-- A header on its way: the replies so far, the requests that wait for a COMMIT, the verifiers COMMITs have returned since,
and the requests that have been removed without an error. -/
structure WriteState (Verf : Type) where
  hdr : WriteHdr Verf
  writing : Bool := true
  acks : List (WriteAck Verf) := []
  waiting : List (Span × Verf) := []
  commits : List Verf := []
  dropped : List Span := []
deriving DecidableEq

/-- What can happen: a reply; a reply that is answered with the same call again; a call that is given up, whose reply may
have been decoded up to the commit level; a COMMIT for some of the requests that wait. -/
inductive WriteEvent (Verf : Type) where
  | reply (count committed : Nat) (verifier : Verf)
  | again
  | failed (status : Int) (committed : Option Nat)
  | commit (status : Int) (committed : Nat) (verifier : Verf) (reqs : Span → Bool)

def WriteState.complete (s : WriteState Verf) : WriteState Verf :=
  let fates := nfsWriteCompletion s.hdr 0 s.hdr.pages
  { s with
    writing := false
    waiting := fates.filterMap fun x => x.2.waits.map (x.1, ·)
    dropped := (fates.filter fun x => x.2 = .removed).map Prod.fst }

def WriteState.decode (s : WriteState Verf) (count committed : Nat) (verifier : Verf) : WriteState Verf :=
  let start := (s.hdr.mdsOffset - s.hdr.ioStart).toNat
  { s with
    hdr := { s.hdr with committed := committed, verifier := verifier }
    acks := ⟨(start, start + min count s.hdr.count), committed, verifier⟩ :: s.acks }

def writeStep (s : WriteState Verf) : WriteEvent Verf → Option (WriteState Verf)
  | .reply count committed verifier =>
    if s.writing then
      let s := s.decode count committed verifier
      let r := nfsWritebackResult s.hdr count
      some (if r.2 then { s with hdr := r.1 } else { s with hdr := r.1 }.complete)
    else none
  | .again => if s.writing then some s else none
  | .failed status committed =>
    if s.writing then
      let hdr := { s.hdr with committed := committed.getD s.hdr.committed }
      some { s with hdr := nfsSetPgioError hdr status hdr.offset }.complete
    else none
  | .commit status committed verifier reqs =>
    if s.writing then none
    else
      let sent := s.waiting.filter fun x => reqs x.1
      some
        { s with
          waiting := s.waiting.filter fun x => !reqs x.1
          commits := if status < 0 then s.commits else verifier :: s.commits
          dropped := (sent.filter fun x => nfsCommitReleasePage status committed verifier x.2 = .removed).map Prod.fst ++ s.dropped }

def WriteState.start (ioStart offset : Int) (lseg : Bool) (verifier : Verf) (pages : List Nat) : WriteState Verf where
  hdr :=
    { ioStart := ioStart
      goodBytes := pages.sum
      lseg := lseg
      mdsOffset := ioStart
      offset := offset
      count := pages.sum
      verifier := verifier
      pages := pages }

/-! ## Safe bytes -/

/-- The level is enough without a COMMIT: `DATA_SYNC` through a layout. -/
def Suffices (lseg : Bool) (committed : Nat) : Prop := committed = nfsFileSync ∨ lseg = true ∧ committed = nfsDataSync

/-- A reply whose level is enough, or whose verifier is one of `verfs`, has acknowledged the byte. -/
def Kept (lseg : Bool) (acks : List (WriteAck Verf)) (verfs : List Verf) (byte : Nat) : Prop :=
  ∃ ack ∈ acks, ack.span.1 ≤ byte ∧ byte < ack.span.2 ∧ (Suffices lseg ack.committed ∨ ack.verifier ∈ verfs)

def DroppedSafe (s : WriteState Verf) : Prop :=
  ∀ span ∈ s.dropped, ∀ byte, span.1 ≤ byte → byte < span.2 → Kept s.hdr.lseg s.acks s.commits byte

/-- The call goes on only behind data that needs no COMMIT, and ends early only where the offset it was sent with is the one
in the file. -/
def Careful (s : WriteState Verf) : WriteEvent Verf → Prop
  | .reply count committed _ =>
    count < s.hdr.count → if count = 0 then s.hdr.offset = s.hdr.mdsOffset
      else committed = nfsUnstable ∨ Suffices s.hdr.lseg committed
  | .failed _ _ => s.hdr.offset = s.hdr.mdsOffset
  | _ => True

end

variable {Verf : Type} {s t : WriteState Verf} {hdr : WriteHdr Verf} {acks : List (WriteAck Verf)} {pages : List Nat}
  {verifier : Verf} {lseg : Bool} {count : Nat}

theorem Kept.mono {acks' : List (WriteAck Verf)} {verfs verfs' : List Verf} {byte : Nat} (h : Kept lseg acks verfs byte)
    (hacks : acks ⊆ acks') (hverfs : verfs ⊆ verfs') : Kept lseg acks' verfs' byte := by
  obtain ⟨ack, hmem, hlo, hhi, hsafe⟩ := h
  exact ⟨ack, hacks hmem, hlo, hhi, hsafe.imp_right (@hverfs _)⟩

def WriteHdr.written (hdr : WriteHdr Verf) : Nat := if hdr.error.isSome then hdr.goodBytes else hdr.pages.sum

def WriteHdr.asked (hdr : WriteHdr Verf) : List Verf := if nfsWriteNeedCommit hdr then [hdr.verifier] else []

theorem mem_writeCompletion {x : Span × Fate Verf} {start : Nat} (h : x ∈ nfsWriteCompletion hdr start pages)
    (hsum : start + pages.sum = hdr.pages.sum) :
    x.2 = .failed hdr.error ∨
      (x.1.2 ≤ hdr.written ∧ x.2 = if nfsWriteNeedCommit hdr then .commit hdr.verifier else .removed) := by
  induction pages generalizing start with
  | nil => cases h
  | cons wbBytes pages ih =>
    rw [sum_cons] at hsum
    rcases mem_cons.1 h with rfl | h
    · dsimp only [WriteHdr.written]
      by_cases hfailed : hdr.error.isSome ∧ hdr.goodBytes < start + wbBytes
      · exact .inl (if_pos hfailed)
      refine .inr ⟨?_, if_neg hfailed⟩
      split <;> rename_i herr
      · exact Nat.le_of_not_lt fun hlt => hfailed ⟨herr, hlt⟩
      · omega
    · exact ih h (by omega)

theorem suffices_or_mem_asked (hdr : WriteHdr Verf) : Suffices hdr.lseg hdr.committed ∨ hdr.verifier ∈ hdr.asked := by
  unfold WriteHdr.asked nfsWriteNeedCommit Suffices
  by_cases hdata : hdr.committed = nfsDataSync
  · cases hdr.lseg <;> simp [hdata]
  · by_cases hfile : hdr.committed = nfsFileSync <;> simp [hdata, hfile]

/-- A call that goes on: the bytes before it need no COMMIT. -/
structure Running (hdr : WriteHdr Verf) (acks : List (WriteAck Verf)) : Prop where
  small : hdr.pages.sum < 2 ^ 32
  error : hdr.error = none
  goodBytes : hdr.goodBytes = hdr.pages.sum
  count : hdr.count ≤ hdr.pages.sum
  place : hdr.mdsOffset = hdr.ioStart + (hdr.pages.sum - hdr.count : Nat)
  before : ∀ byte < hdr.pages.sum - hdr.count, Kept hdr.lseg acks [] byte

/-- A request that waits is safe once its verifier is returned. -/
structure KeptInv (s : WriteState Verf) : Prop where
  running : s.writing = true → Running s.hdr s.acks ∧ s.waiting = [] ∧ s.dropped = []
  waiting : ∀ x ∈ s.waiting, ∀ byte, x.1.1 ≤ byte → byte < x.1.2 → Kept s.hdr.lseg s.acks [x.2] byte
  dropped : DroppedSafe s

theorem keptInv_start {ioStart offset : Int} (h : pages.sum < 2 ^ 32) :
    KeptInv (WriteState.start ioStart offset lseg verifier pages) where
  running _ := by
    refine ⟨?_, rfl, rfl⟩
    constructor <;> first | exact h | simp [WriteState.start]
  waiting x hx := by cases hx
  dropped x hx := by cases hx

theorem Running.error_spec (h : Running hdr acks) (hoffset : hdr.offset = hdr.mdsOffset) (error : Int) :
    (nfsSetPgioError hdr error hdr.offset).lseg = hdr.lseg ∧
      (nfsSetPgioError hdr error hdr.offset).written = hdr.pages.sum - hdr.count := by
  have hsmall := h.small
  have hnew : ((hdr.offset - hdr.ioStart) % 2 ^ 32).toNat = hdr.pages.sum - hdr.count := by
    rw [hoffset, h.place]
    omega
  simp only [nfsSetPgioError, hnew, h.error, h.goodBytes]
  split
  · exact ⟨rfl, rfl⟩
  refine ⟨rfl, ?_⟩
  rw [WriteHdr.written, h.error]
  show hdr.pages.sum = _
  omega

variable [DecidableEq Verf]

theorem keptInv_complete (h : ∀ byte < s.hdr.written, Kept s.hdr.lseg s.acks s.hdr.asked byte) : KeptInv s.complete where
  running hwriting := by cases hwriting
  waiting x hx byte _ hhi := by
    obtain ⟨y, hy, hwaits⟩ := mem_filterMap.1 hx
    obtain ⟨wbVerf, hfate, rfl⟩ := map_eq_some_iff.1 hwaits
    rcases mem_writeCompletion hy (Nat.zero_add _) with hfailed | ⟨hle, hdone⟩
    · rw [hfailed] at hfate
      cases hfate
    rw [hdone] at hfate
    split_ifs at hfate with hneed
    · cases hfate
      have := h byte (Nat.lt_of_lt_of_le hhi hle)
      rwa [WriteHdr.asked, if_pos hneed] at this
    · cases hfate
  dropped span hspan byte _ hhi := by
    obtain ⟨y, hy, rfl⟩ := mem_map.1 hspan
    obtain ⟨hy, hremoved⟩ := mem_filter.1 hy
    rcases mem_writeCompletion hy (Nat.zero_add _) with hfailed | ⟨hle, hdone⟩
    · rw [hfailed] at hremoved
      cases hremoved
    rw [hdone] at hremoved
    split_ifs at hremoved with hneed
    · cases hremoved
    have := h byte (Nat.lt_of_lt_of_le hhi hle)
    rw [WriteHdr.asked, if_neg hneed] at this
    exact this.mono (List.Subset.refl _) (nil_subset _)

theorem Running.failed (h : Running hdr s.acks) (hoffset : hdr.offset = hdr.mdsOffset) (status : Int) :
    KeptInv { s with hdr := nfsSetPgioError hdr status hdr.offset }.complete := by
  obtain ⟨hlseg, hwritten⟩ := h.error_spec hoffset status
  refine keptInv_complete fun byte hbyte => ?_
  rw [hwritten] at hbyte
  rw [hlseg]
  exact (h.before byte hbyte).mono (List.Subset.refl _) (nil_subset _)

theorem keptInv_writebackResult (h : Running s.hdr s.acks) (hwaiting : s.waiting = []) (hdropped : s.dropped = [])
    (hacked : ∀ verfs, Suffices s.hdr.lseg s.hdr.committed ∨ s.hdr.verifier ∈ verfs →
      ∀ byte < s.hdr.pages.sum - s.hdr.count + min count s.hdr.count, Kept s.hdr.lseg s.acks verfs byte)
    (hcareful : count < s.hdr.count → if count = 0 then s.hdr.offset = s.hdr.mdsOffset
      else s.hdr.committed = nfsUnstable ∨ Suffices s.hdr.lseg s.hdr.committed) {r : WriteHdr Verf × Bool}
    (hr : nfsWritebackResult s.hdr count = r) :
    KeptInv (if r.2 then { s with hdr := r.1 } else { s with hdr := r.1 }.complete) := by
  have hcount := h.count
  have hgoes : ∀ hdr, Running hdr s.acks → KeptInv { s with hdr := hdr } := fun hdr hrun =>
    ⟨fun _ => ⟨hrun, hwaiting, hdropped⟩, by simp [hwaiting], by simp [DroppedSafe, hdropped]⟩
  unfold nfsWritebackResult at hr
  split at hr
  · rename_i hshort
    specialize hcareful hshort
    split at hr
    · -- nothing was written
      rename_i hzero
      rw [if_pos hzero] at hcareful
      exact hr ▸ h.failed hcareful _
    rename_i hsome
    rw [if_neg hsome] at hcareful
    split at hr
    · -- the call goes on behind what was written
      rename_i hstable
      refine hr ▸ hgoes _ { h with count := ?_, place := ?_, before := fun byte hbyte => ?_ }
      · show s.hdr.count - count ≤ s.hdr.pages.sum
        omega
      · show s.hdr.mdsOffset + count = s.hdr.ioStart + (s.hdr.pages.sum - (s.hdr.count - count) : Nat)
        rw [h.place]
        omega
      · have hbyte : byte < s.hdr.pages.sum - (s.hdr.count - count) := hbyte
        exact hacked [] (.inl (hcareful.resolve_left hstable)) byte (by omega)
    · exact hr ▸ hgoes _ { h with }
  · subst hr
    refine keptInv_complete fun byte hbyte => ?_
    rw [WriteHdr.written, h.error] at hbyte
    have hbyte : byte < s.hdr.pages.sum := hbyte
    exact hacked _ (suffices_or_mem_asked s.hdr) byte (by omega)

theorem KeptInv.reply {committed : Nat} (h : KeptInv s) (hcareful : Careful s (.reply count committed verifier))
    (hstep : writeStep s (.reply count committed verifier) = some t) : KeptInv t := by
  simp only [writeStep, ite_none_right_eq_some] at hstep
  obtain ⟨hwriting, hstep⟩ := hstep
  cases hstep
  obtain ⟨hrun, hwaiting, hdropped⟩ := h.running hwriting
  set rest := s.hdr.pages.sum - s.hdr.count
  have hstart : (s.hdr.mdsOffset - s.hdr.ioStart).toNat = rest := by
    rw [hrun.place]
    omega
  have hbefore : ∀ verfs, ∀ byte < rest,
      Kept s.hdr.lseg (s.decode count committed verifier).acks verfs byte := fun verfs byte hbyte =>
    (hrun.before byte hbyte).mono (subset_cons_self _ _) (nil_subset _)
  refine keptInv_writebackResult (s := s.decode count committed verifier) { hrun with before := hbefore [] } hwaiting
    hdropped (fun verfs hsafe byte hbyte => ?_) hcareful rfl
  rcases Nat.lt_or_ge byte rest with hlt | hge
  · exact hbefore verfs byte hlt
  · exact ⟨_, mem_cons_self, by rwa [hstart], by rwa [hstart], hsafe⟩

theorem KeptInv.step {e : WriteEvent Verf} (h : KeptInv s) (hcareful : Careful s e) (hstep : writeStep s e = some t) :
    KeptInv t := by
  cases e with
  | again =>
    simp only [writeStep, ite_none_right_eq_some] at hstep
    exact Option.some.inj hstep.2 ▸ h
  | reply count committed verifier => exact h.reply hcareful hstep
  | failed status committed =>
    simp only [writeStep, ite_none_right_eq_some] at hstep
    obtain ⟨hwriting, hstep⟩ := hstep
    cases hstep
    have hrun : Running { s.hdr with committed := committed.getD s.hdr.committed } s.acks := { (h.running hwriting).1 with }
    exact hrun.failed hcareful status
  | commit status committed verifier reqs =>
    simp only [writeStep, ite_none_left_eq_some] at hstep
    obtain ⟨hwriting, hstep⟩ := hstep
    cases hstep
    refine ⟨fun h => absurd h hwriting, fun x hx => h.waiting x (mem_of_mem_filter hx), fun span hspan byte hlo hhi => ?_⟩
    rcases mem_append.1 hspan with hspan | hspan
    · obtain ⟨x, hx, rfl⟩ := mem_map.1 hspan
      obtain ⟨hx, hmatch⟩ := mem_filter.1 hx
      simp only [nfsCommitReleasePage] at hmatch
      split at hmatch
      · cases hmatch
      rename_i hok
      split_ifs at hmatch with heq
      · rw [if_neg hok, ← heq.2]
        exact (h.waiting x (mem_of_mem_filter hx) byte hlo hhi).mono (List.Subset.refl _) (by simp)
      · cases hmatch
    refine (h.dropped span hspan byte hlo hhi).mono (List.Subset.refl _) ?_
    split
    · exact List.Subset.refl _
    · exact subset_cons_self _ _

/-- **No request is dropped** without an error before each of its bytes is safe, in every run in which the call goes on only
behind data that needs no COMMIT. -/
theorem dropped_only_when_safe (ioStart offset : Int) (lseg : Bool) (verifier : Verf) (pages : List Nat)
    (hsmall : pages.sum < 2 ^ 32) (es : List (WriteEvent Verf))
    (hcareful : EachStep writeStep Careful (WriteState.start ioStart offset lseg verifier pages) es) :
    Always writeStep DroppedSafe (WriteState.start ioStart offset lseg verifier pages) es :=
  always_of_eachStep KeptInv.step KeptInv.dropped (keptInv_start hsmall) hcareful

/-- Two requests: the first is stored for good by a short reply, the second is committed. -/
theorem dropped_only_when_safe_sample :
    let s := WriteState.start 0 0 false 0 [4, 4]
    let es := [.reply 4 nfsFileSync 0, .reply 4 nfsUnstable 1, .commit 0 nfsFileSync 1 fun _ => true]
    (run writeStep s es).map WriteState.dropped = some [(0, 4), (4, 8)] ∧ Always writeStep DroppedSafe s es :=
  ⟨by decide, dropped_only_when_safe 0 0 false 0 [4, 4] (by decide) _ (by
    simp [EachStep, writeStep, Careful, Suffices, WriteState.start, WriteState.decode, nfsWritebackResult, nfsFileSync,
      nfsUnstable, WriteState.complete])⟩

/-- A short reply at `DATA_SYNC` without a layout, and a reply at `FILE_SYNC` for the rest: the request is dropped at once. -/
theorem dropped_after_data_sync :
    ¬ Always writeStep DroppedSafe (WriteState.start 0 0 false 0 [8]) [.reply 4 nfsDataSync 0, .reply 4 nfsFileSync 1] := by
  intro h
  have hlast := run_of_always h rfl
  obtain ⟨ack, hack, hlo, -, hsafe⟩ := hlast (0, 8) (by decide) 0 (by decide) (by decide)
  have hacks : ack ∈ [⟨(4, 8), nfsFileSync, 1⟩, ⟨(0, 4), nfsDataSync, 0⟩] := hack
  simp only [mem_cons, not_mem_nil, or_false] at hacks
  rcases hacks with rfl | rfl
  · exact absurd hlo (by decide)
  · have hsafe : Suffices false nfsDataSync ∨ 0 ∈ ([] : List Nat) := hsafe
    simp [Suffices, nfsDataSync, nfsFileSync] at hsafe

end Vastnfs.Nfs
