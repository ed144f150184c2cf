import Mathlib.Data.List.Perm.Subperm
import Vastnfs.Lib.Runs

/-!
# Waiting for internally buffered writes

The background writes of `nfs_file_async_write` are on a list of their inode. `nfs_async_write_flush` takes them off
one by one and waits for each; `nfs_file_flush` calls it through `nfs_wb_all`, `nfs_file_fsync` does not call it
(`fs/nfs/file.c`, `fs/nfs/write.c`).

* `SyncInv`: where the background writes are that have not finished.
* `syncs_cover_writes`: in which runs a call that returns success has waited for all the writes before it.
* `syncs_miss_writes`: runs in which it has not.
-/

namespace Vastnfs.Nfs

open Runs List Function

/-! ## The functions -/

/-- What `nfs_file_direct_write` returns for a background write. -/
inductive BgOutcome where
  | complete | short | failed
  deriving DecidableEq

/-- The work item of a background write. -/
inductive BgWork where
  | idle | queued
  | done (outcome : BgOutcome)
  deriving DecidableEq

/-- A call of `nfs_async_write_flush`. A call for `nfs_file_flush` comes with the background writes that were
queued before it and with the sampled error of the mapping. -/
structure FlushCall where
  limit : Int
  sync : Option (List Nat × Nat)
  deriving DecidableEq

/-- A call of `nfs_file_flush` or `nfs_file_fsync` that has returned, with the background writes queued before it. -/
structure SyncReturn where
  before : List Nat
  ok : Bool
  deriving DecidableEq

/-- The background writes of an inode, and the threads that deal with them. -/
structure SyncState where
  list : List Nat := []
  count : Int := 0
  work : Nat → BgWork := fun _ => .idle
  /-- What a writer has put on the list and not counted yet. -/
  added : List Nat := []
  /-- What a writer has counted and not queued yet. -/
  counted : List Nat := []
  queued : List Nat := []
  next : Nat := 0
  /-- Calls that are at the head of the loop. -/
  flushing : List FlushCall := []
  /-- Calls that wait for a write they have taken off the list. -/
  taken : List (Nat × FlushCall) := []
  /-- Calls of `nfs_file_flush` in the rest of `nfs_wb_all`. -/
  writingBack : List (List Nat × Nat) := []
  /-- Calls of `nfs_file_fsync`, with their file. -/
  fsyncing : List (Nat × List Nat) := []
  /-- `wb_err` of the mapping: how many errors were recorded. -/
  wbErr : Nat := 0
  /-- `f_wb_err` of the files. -/
  seen : Nat → Nat := fun _ => 0
  returns : List SyncReturn := []

def leaveFlush (s : SyncState) (c : FlushCall) : SyncState :=
  { s with
    flushing := s.flushing.erase c
    writingBack := c.sync.elim s.writingBack (· :: s.writingBack) }

def flushHead (s : SyncState) (c : FlushCall) : SyncState :=
  if c.limit < s.count then
    match s.list with
    | [] => leaveFlush s c
    | aw :: rest => { s with list := rest, flushing := s.flushing.erase c, taken := (aw, c) :: s.taken }
  else leaveFlush s c

def flushWaited (s : SyncState) (aw : Nat) (c : FlushCall) : SyncState :=
  { s with count := s.count - 1, taken := s.taken.erase (aw, c), flushing := c :: s.flushing }

/-- The outcome goes into `aw->count`, and the write to the head of the list. -/
def nfsAsyncDirectWrite (s : SyncState) (aw : Nat) (outcome : BgOutcome) : SyncState :=
  { s with
    work := Function.update s.work aw (.done outcome)
    list := if aw ∈ s.list then aw :: s.list.erase aw else s.list }

/-- What can happen. A write with `O_SYNC` goes on with an `fsync`. -/
inductive SyncEvent where
  | add
  | inc (aw : Nat)
  /-- `queue_work`, and into `nfs_async_write_flush`. -/
  | queue (aw : Nat)
  | head (c : FlushCall)
  | waited (aw : Nat) (c : FlushCall)
  | run (aw : Nat) (outcome : BgOutcome)
  /-- The writeback of an ordinary write records an error. -/
  | wbError
  | fsync (file : Nat)
  /-- `nfs_file_fsync` returns; `ok` is what the commit and pNFS say. -/
  | fsyncEnd (file : Nat) (before : List Nat) (ok : Bool)
  /-- `nfs_file_flush` of a file that is open for writing. -/
  | flush
  | flushEnd (before : List Nat) (since : Nat)

def syncStep (s : SyncState) : SyncEvent → Option SyncState
  | .add => some { s with list := s.list ++ [s.next], added := s.next :: s.added, next := s.next + 1 }
  | .inc aw =>
    if aw ∈ s.added then
      some { s with count := s.count + 1, added := s.added.erase aw, counted := aw :: s.counted }
    else none
  | .queue aw =>
    if aw ∈ s.counted then
      some { s with
        counted := s.counted.erase aw
        work := Function.update s.work aw .queued
        queued := aw :: s.queued
        flushing := { limit := 256, sync := none } :: s.flushing }
    else none
  | .head c => if c ∈ s.flushing then some (flushHead s c) else none
  | .waited aw c => if (aw, c) ∈ s.taken ∧ s.work aw ≠ .queued then some (flushWaited s aw c) else none
  | .run aw outcome => if s.work aw = .queued then some (nfsAsyncDirectWrite s aw outcome) else none
  | .wbError => some { s with wbErr := s.wbErr + 1 }
  | .fsync file => some { s with fsyncing := (file, s.queued) :: s.fsyncing }
  | .fsyncEnd file before ok =>
    if (file, before) ∈ s.fsyncing then
      some { s with
        fsyncing := s.fsyncing.erase (file, before)
        returns := { before := before, ok := ok && s.wbErr == s.seen file } :: s.returns
        seen := Function.update s.seen file s.wbErr }
    else none
  | .flush => some { s with flushing := { limit := 0, sync := some (s.queued, s.wbErr) } :: s.flushing }
  | .flushEnd before since =>
    if (before, since) ∈ s.writingBack then
      some { s with
        writingBack := s.writingBack.erase (before, since)
        returns := { before := before, ok := s.wbErr == since } :: s.returns }
    else none

/-! ## What a call that returns success has waited for -/

/-- Every background write queued before a call that has returned success has finished and stored all its bytes. -/
def SyncsCover (s : SyncState) : Prop :=
  ∀ r ∈ s.returns, r.ok = true → ∀ aw ∈ r.before, s.work aw = .done .complete

/-- No background write fails or is short, `nfs_file_fsync` is called when no write is counted, and no one is at the
head of the loop of `nfs_async_write_flush` while a writer is about to queue a write or another thread waits for one. -/
def KeepsCover (s : SyncState) : SyncEvent → Prop
  | .run _ outcome => outcome = .complete
  | .fsync _ => s.count = 0
  | .head _ => s.added = [] ∧ s.counted = [] ∧ s.taken = []
  | _ => True

instance (s : SyncState) (e : SyncEvent) : Decidable (KeepsCover s e) := by
  cases e <;> dsimp only [KeepsCover] <;> infer_instance

/-- Where the background writes are, and which of them have finished. -/
structure SyncInv (s : SyncState) : Prop where
  counted : (s.list.length + s.taken.length : Int) = s.count + s.added.length
  places : (s.list ++ s.taken.map Prod.fst).Nodup
  stages : (s.added ++ s.counted ++ s.queued).Nodup
  listed : ∀ aw, aw ∈ s.added ∨ aw ∈ s.counted → aw ∈ s.list
  staged : ∀ aw ∈ s.list, aw ∈ s.added ++ s.counted ++ s.queued
  taken : ∀ aw ∈ s.taken.map Prod.fst, aw ∈ s.queued
  below : ∀ aw ∈ s.added ++ s.counted ++ s.queued, aw < s.next
  idle : ∀ aw, aw ∉ s.queued → s.work aw = .idle
  tracked : ∀ aw ∈ s.queued, s.work aw = .done .complete ∨
    s.work aw = .queued ∧ (aw ∈ s.list ∨ aw ∈ s.taken.map Prod.fst)
  calls : ∀ c ∈ s.flushing ++ s.taken.map Prod.snd, ∀ call, c.sync = some call → c.limit = 0 ∧ call.1 ⊆ s.queued
  waited : ∀ call ∈ s.writingBack, ∀ aw ∈ call.1, s.work aw = .done .complete
  synced : ∀ call ∈ s.fsyncing, ∀ aw ∈ call.2, s.work aw = .done .complete
  returned : SyncsCover s

section

variable {s : SyncState} {aw file : Nat} {c : FlushCall}

theorem SyncInv.next_new (h : SyncInv s) : s.next ∉ s.added ++ s.counted ++ s.queued :=
  fun hmem => absurd (h.below s.next hmem) (Nat.lt_irrefl _)

theorem SyncInv.add (h : SyncInv s) :
    SyncInv { s with list := s.list ++ [s.next], added := s.next :: s.added, next := s.next + 1 } where
  __ := h
  counted := by
    have hcounted := h.counted
    simp only [length_append, length_cons, length_nil]
    omega
  places := by
    have hlist : s.next ∉ s.list ++ s.taken.map Prod.fst := by
      intro hmem
      rcases mem_append.mp hmem with hmem | hmem
      · exact h.next_new (h.staged _ hmem)
      · exact h.next_new (mem_append_right _ (h.taken _ hmem))
    rw [append_assoc]
    exact perm_middle.nodup_iff.mpr (nodup_cons.mpr ⟨hlist, h.places⟩)
  stages := nodup_cons.mpr ⟨h.next_new, h.stages⟩
  listed := by
    intro aw haw
    rcases haw with haw | haw
    · rcases mem_cons.mp haw with rfl | haw
      · exact mem_append_right _ mem_cons_self
      · exact mem_append_left _ (h.listed aw (.inl haw))
    · exact mem_append_left _ (h.listed aw (.inr haw))
  staged := forall_mem_append.mpr
    ⟨fun aw haw => mem_cons_of_mem _ (h.staged aw haw), forall_mem_singleton.mpr mem_cons_self⟩
  below := forall_mem_cons.mpr ⟨Nat.lt_succ_self _, fun aw haw => Nat.lt_succ_of_lt (h.below aw haw)⟩
  tracked := by
    intro aw haw
    rcases h.tracked aw haw with hdone | ⟨hq, hlist | htaken⟩
    · exact .inl hdone
    · exact .inr ⟨hq, .inl (mem_append_left _ hlist)⟩
    · exact .inr ⟨hq, .inr htaken⟩

theorem perm_stage {added counted : List Nat} (haw : aw ∈ added) (queued : List Nat) :
    (added.erase aw ++ (aw :: counted) ++ queued).Perm (added ++ counted ++ queued) :=
  (perm_middle.trans ((perm_cons_erase haw).symm.append_right counted)).append_right queued

theorem SyncInv.inc (h : SyncInv s) (haw : aw ∈ s.added) :
    SyncInv { s with count := s.count + 1, added := s.added.erase aw, counted := aw :: s.counted } where
  __ := h
  counted := by
    have hcounted := h.counted
    have hlen := length_erase_of_mem haw
    have hpos := length_pos_of_mem haw
    simp only
    omega
  stages := (perm_stage haw s.queued).nodup_iff.mpr h.stages
  listed := by
    intro aw' haw'
    rcases haw' with haw' | haw'
    · exact h.listed aw' (.inl (mem_of_mem_erase haw'))
    rcases mem_cons.mp haw' with rfl | haw'
    · exact h.listed aw' (.inl haw)
    · exact h.listed aw' (.inr haw')
  staged := fun aw' haw' => (perm_stage haw s.queued).mem_iff.mpr (h.staged aw' haw')
  below := fun aw' haw' => h.below aw' ((perm_stage haw s.queued).mem_iff.mp haw')

theorem work_update_done {work : Nat → BgWork} {aw' : Nat} {w : BgWork} (hne : work aw ≠ .done .complete)
    (h : work aw' = .done .complete) : Function.update work aw w aw' = .done .complete := by
  have haw : aw' ≠ aw := fun heq => hne (heq ▸ h)
  rwa [update_of_ne haw]

section

variable (h : SyncInv s)
include h

theorem SyncInv.queue (haw : aw ∈ s.counted) :
    SyncInv { s with
      counted := s.counted.erase aw
      work := Function.update s.work aw .queued
      queued := aw :: s.queued
      flushing := { limit := 256, sync := none } :: s.flushing } := by
  have hperm : (s.added ++ s.counted.erase aw ++ (aw :: s.queued)).Perm (s.added ++ s.counted ++ s.queued) := by
    rw [append_assoc, append_assoc]
    exact (perm_middle.trans ((perm_cons_erase haw).symm.append_right s.queued)).append_left s.added
  have hnew : aw ∉ s.queued := by
    have hdisj := (nodup_append.mp h.stages).2.2
    exact fun hq => hdisj aw (mem_append_right _ haw) aw hq rfl
  have hidle : s.work aw ≠ .done .complete := by
    rw [h.idle aw hnew]
    nofun
  exact { h with
    stages := hperm.nodup_iff.mpr h.stages
    listed := by
      intro aw' haw'
      rcases haw' with haw' | haw'
      · exact h.listed aw' (.inl haw')
      · exact h.listed aw' (.inr (mem_of_mem_erase haw'))
    staged := fun aw' haw' => hperm.mem_iff.mpr (h.staged aw' haw')
    taken := fun aw' haw' => mem_cons_of_mem _ (h.taken aw' haw')
    below := fun aw' haw' => h.below aw' (hperm.mem_iff.mp haw')
    idle := by
      intro aw' haw'
      rw [mem_cons, not_or] at haw'
      exact (update_of_ne haw'.1 ..).trans (h.idle aw' haw'.2)
    tracked := by
      intro aw' haw'
      by_cases heq : aw' = aw
      · subst heq
        exact .inr ⟨update_self .., .inl (h.listed aw' (.inr haw))⟩
      have hsame : Function.update s.work aw .queued aw' = s.work aw' := update_of_ne heq ..
      rcases h.tracked aw' ((mem_cons.mp haw').resolve_left heq) with hdone | ⟨hq, hplace⟩
      · exact .inl (hsame.trans hdone)
      · exact .inr ⟨hsame.trans hq, hplace⟩
    calls := by
      refine forall_mem_cons.mpr ⟨nofun, fun c hc call hcall => ?_⟩
      obtain ⟨hlimit, hsub⟩ := h.calls c hc call hcall
      exact ⟨hlimit, fun aw' haw' => mem_cons_of_mem _ (hsub haw')⟩
    waited := fun call hcall aw' haw' => work_update_done hidle (h.waited call hcall aw' haw')
    synced := fun call hcall aw' haw' => work_update_done hidle (h.synced call hcall aw' haw')
    returned := fun r hr hok aw' haw' => work_update_done hidle (h.returned r hr hok aw' haw') }

theorem SyncInv.all_done (hlist : ∀ aw ∈ s.queued, aw ∉ s.list) (htaken : s.taken = []) :
    ∀ aw ∈ s.queued, s.work aw = .done .complete := by
  intro aw haw
  rcases h.tracked aw haw with hdone | ⟨-, hmem | hmem⟩
  · exact hdone
  · exact absurd hmem (hlist aw haw)
  · rw [htaken] at hmem
    cases hmem

section

variable (hc : c ∈ s.flushing)
include hc

theorem SyncInv.leave (hdone : c.sync ≠ none → ∀ aw ∈ s.queued, s.work aw = .done .complete) :
    SyncInv (leaveFlush s c) where
  __ := h
  calls c' hc' := h.calls c' (mem_append.mpr ((mem_append.mp hc').imp_left mem_of_mem_erase))
  waited := by
    intro call hcall aw haw
    cases hsync : c.sync with
    | none =>
      rw [leaveFlush, hsync] at hcall
      exact h.waited call hcall aw haw
    | some call' =>
      rw [leaveFlush, hsync] at hcall
      rcases mem_cons.mp hcall with rfl | hcall
      · obtain ⟨-, hsub⟩ := h.calls c (mem_append_left _ hc) call hsync
        exact hdone (by rw [hsync]; exact Option.some_ne_none _) aw (hsub haw)
      · exact h.waited call hcall aw haw

theorem SyncInv.take (hadded : s.added = []) (hcounted : s.counted = []) {rest : List Nat}
    (hlist : s.list = aw :: rest) :
    SyncInv { s with list := rest, flushing := s.flushing.erase c, taken := (aw, c) :: s.taken } where
  __ := h
  counted := by
    have hcounted := h.counted
    rw [hlist] at hcounted
    simp only [length_cons] at hcounted ⊢
    omega
  places := by
    have hplaces := h.places
    rw [hlist] at hplaces
    exact perm_middle.nodup_iff.mpr hplaces
  listed := by
    intro aw' haw'
    rw [hadded, hcounted] at haw'
    rcases haw' with haw' | haw' <;> cases haw'
  staged := fun aw' haw' => h.staged aw' (hlist ▸ mem_cons_of_mem _ haw')
  taken := by
    refine forall_mem_cons.mpr ⟨?_, h.taken⟩
    have hstaged := h.staged _ (hlist ▸ mem_cons_self)
    rwa [hadded, hcounted] at hstaged
  tracked := by
    intro aw' haw'
    rcases h.tracked aw' haw' with hdone | ⟨hq, hmem | hmem⟩
    · exact .inl hdone
    · rw [hlist] at hmem
      rcases mem_cons.mp hmem with rfl | hmem
      · exact .inr ⟨hq, .inr mem_cons_self⟩
      · exact .inr ⟨hq, .inl hmem⟩
    · exact .inr ⟨hq, .inr (mem_cons_of_mem _ hmem)⟩
  calls := by
    intro c' hc' call hcall
    refine h.calls c' ?_ call hcall
    rcases mem_append.mp hc' with hc' | hc'
    · exact mem_append_left _ (mem_of_mem_erase hc')
    rcases mem_cons.mp hc' with rfl | hc'
    · exact mem_append_left _ hc
    · exact mem_append_right _ hc'

theorem SyncInv.head (hadded : s.added = []) (hcounted : s.counted = []) (htaken : s.taken = []) :
    SyncInv (flushHead s c) := by
  have hcount := h.counted
  rw [hadded, htaken] at hcount
  unfold flushHead
  split
  · cases hlist : s.list with
    | nil => exact h.leave hc fun _ => h.all_done (fun aw _ => hlist ▸ not_mem_nil) htaken
    | cons aw rest => exact h.take hc hadded hcounted hlist
  next hle =>
  refine h.leave hc fun hsync => h.all_done (fun aw _ => ?_) htaken
  obtain ⟨call, hcall⟩ := Option.ne_none_iff_exists'.mp hsync
  obtain ⟨hlimit, -⟩ := h.calls c (mem_append_left _ hc) call hcall
  have hnil : s.list = [] := by
    refine eq_nil_of_length_eq_zero ?_
    omega
  rw [hnil]
  exact not_mem_nil

end

theorem SyncInv.flushWaited (haw : (aw, c) ∈ s.taken) (hwork : s.work aw ≠ .queued) : SyncInv (flushWaited s aw c) := by
  have hperm : (s.taken.map Prod.fst).Perm (aw :: (s.taken.erase (aw, c)).map Prod.fst) :=
    (perm_cons_erase haw).map Prod.fst
  exact { h with
    counted := by
      have hcounted := h.counted
      have hlen := length_erase_of_mem haw
      have hpos := length_pos_of_mem haw
      simp only [Nfs.flushWaited]
      omega
    places := by
      have hplaces := (hperm.append_left s.list).nodup_iff.mp h.places
      exact (nodup_cons.mp (perm_middle.nodup_iff.mp hplaces)).2
    taken := fun aw' haw' => h.taken aw' (hperm.mem_iff.mpr (mem_cons_of_mem _ haw'))
    tracked := by
      intro aw' haw'
      rcases h.tracked aw' haw' with hdone | ⟨hq, hmem | hmem⟩
      · exact .inl hdone
      · exact .inr ⟨hq, .inl hmem⟩
      rcases mem_cons.mp (hperm.mem_iff.mp hmem) with rfl | hmem
      · exact absurd hq hwork
      · exact .inr ⟨hq, .inr hmem⟩
    calls := by
      intro c' hc' call hcall
      refine h.calls c' ?_ call hcall
      rcases mem_cons.mp hc' with rfl | hc'
      · exact mem_append_right _ (mem_map_of_mem haw)
      rcases mem_append.mp hc' with hc' | hc'
      · exact mem_append_left _ hc'
      · obtain ⟨p, hp, rfl⟩ := mem_map.mp hc'
        exact mem_append_right _ (mem_map_of_mem (mem_of_mem_erase hp))
    returned := h.returned }

theorem SyncInv.run (hwork : s.work aw = .queued) : SyncInv (nfsAsyncDirectWrite s aw .complete) := by
  have hqueued : aw ∈ s.queued := by
    by_contra hnot
    cases hwork.symm.trans (h.idle aw hnot)
  have hperm : (if aw ∈ s.list then aw :: s.list.erase aw else s.list).Perm s.list := by
    split
    · next hmem => exact (perm_cons_erase hmem).symm
    · exact List.Perm.refl _
  have hnot : s.work aw ≠ .done .complete := by
    rw [hwork]
    nofun
  exact { h with
    counted := by
      have hcounted := h.counted
      have hlen := hperm.length_eq
      simp only [nfsAsyncDirectWrite]
      omega
    places := (hperm.append_right _).nodup_iff.mpr h.places
    listed := fun aw' haw' => hperm.mem_iff.mpr (h.listed aw' haw')
    staged := fun aw' haw' => h.staged aw' (hperm.mem_iff.mp haw')
    idle := by
      intro aw' haw'
      have hne : aw' ≠ aw := fun heq => haw' (heq ▸ hqueued)
      exact (update_of_ne hne ..).trans (h.idle aw' haw')
    tracked := by
      intro aw' haw'
      by_cases heq : aw' = aw
      · subst heq
        exact .inl (update_self ..)
      have hsame : Function.update s.work aw (.done .complete) aw' = s.work aw' := update_of_ne heq ..
      rcases h.tracked aw' haw' with hdone | ⟨hq, hmem | hmem⟩
      · exact .inl (hsame.trans hdone)
      · exact .inr ⟨hsame.trans hq, .inl (hperm.mem_iff.mpr hmem)⟩
      · exact .inr ⟨hsame.trans hq, .inr hmem⟩
    waited := fun call hcall aw' haw' => work_update_done hnot (h.waited call hcall aw' haw')
    synced := fun call hcall aw' haw' => work_update_done hnot (h.synced call hcall aw' haw')
    returned := fun r hr hok aw' haw' => work_update_done hnot (h.returned r hr hok aw' haw') }

theorem SyncInv.done_of_count (hcount : s.count = 0) : ∀ aw ∈ s.queued, s.work aw = .done .complete := by
  have hcounted := h.counted
  have hstages := h.stages
  have hadded : s.added.Nodup := (nodup_append.mp (nodup_append.mp hstages).1).1
  have hsub : List.Subperm s.added s.list :=
    subperm_of_subset hadded fun aw haw => h.listed aw (.inl haw)
  have hle := hsub.length_le
  have htaken : s.taken = [] := eq_nil_of_length_eq_zero (by omega)
  have hperm : s.added.Perm s.list := hsub.perm_of_length_le (by omega)
  refine h.all_done (fun aw haw hmem => ?_) htaken
  -- what is on the list has only been added
  exact (nodup_append.mp hstages).2.2 aw (mem_append_left _ (hperm.mem_iff.mpr hmem)) aw haw rfl

theorem syncStep_inv {s' : SyncState} {e : SyncEvent} (hcond : KeepsCover s e) (hstep : syncStep s e = some s') :
    SyncInv s' := by
  cases e with
  | add =>
    cases hstep
    exact h.add
  | inc aw =>
    obtain ⟨haw, rfl⟩ := of_guarded hstep
    exact h.inc haw
  | queue aw =>
    obtain ⟨haw, rfl⟩ := of_guarded hstep
    exact h.queue haw
  | head c =>
    obtain ⟨hc, rfl⟩ := of_guarded hstep
    exact h.head hc hcond.1 hcond.2.1 hcond.2.2
  | waited aw c =>
    obtain ⟨⟨haw, hwork⟩, rfl⟩ := of_guarded hstep
    exact h.flushWaited haw hwork
  | run aw outcome =>
    obtain ⟨hwork, rfl⟩ := of_guarded hstep
    cases (hcond : outcome = .complete)
    exact h.run hwork
  | wbError =>
    cases hstep
    exact { h with }
  | fsync file =>
    cases hstep
    exact { h with synced := forall_mem_cons.mpr ⟨h.done_of_count hcond, h.synced⟩ }
  | fsyncEnd file before ok =>
    obtain ⟨hmem, rfl⟩ := of_guarded hstep
    exact { h with
      synced := fun call hcall => h.synced call (mem_of_mem_erase hcall)
      returned := forall_mem_cons.mpr ⟨fun _ => h.synced _ hmem, h.returned⟩ }
  | flush =>
    cases hstep
    refine { h with calls := forall_mem_cons.mpr ⟨fun call hcall => ?_, h.calls⟩ }
    cases hcall
    exact ⟨rfl, fun _ haw => haw⟩
  | flushEnd before since =>
    obtain ⟨hmem, rfl⟩ := of_guarded hstep
    exact { h with
      waited := fun call hcall => h.waited call (mem_of_mem_erase hcall)
      returned := forall_mem_cons.mpr ⟨fun _ => h.waited _ hmem, h.returned⟩ }

end

end

theorem syncInv_init : SyncInv {} where
  counted := rfl
  places := nodup_nil
  stages := nodup_nil
  listed := fun _ h => by rcases h with h | h <;> cases h
  staged := nofun
  taken := nofun
  below := nofun
  idle := fun _ _ => rfl
  tracked := nofun
  calls := nofun
  waited := nofun
  synced := nofun
  returned := nofun

/-- **What has been synced is stored**, in every state of a run in which no background write fails or is short, `fsync`
is called with no background write counted, and no two threads are in `nfs_async_write_flush` at a time. -/
theorem syncs_cover_writes (es : List SyncEvent) (h : EachStep syncStep KeepsCover {} es) :
    Always syncStep SyncsCover {} es :=
  always_of_eachStep (fun h => syncStep_inv h) SyncInv.returned syncInv_init h

/-- The call of `nfs_file_flush` that waits for the write 0. -/
def flushOfOne : FlushCall := { limit := 0, sync := some ([0], 0) }

def writeOne : List SyncEvent := [.add, .inc 0, .queue 0, .head { limit := 256, sync := none }]

/-- The write ends, a `close` takes it off the list, and an `fsync` follows. -/
def closeAndFsync : List SyncEvent :=
  writeOne ++ [.run 0 .complete, .flush, .head flushOfOne, .waited 0 flushOfOne, .head flushOfOne, .flushEnd [0] 0,
    .fsync 7, .fsyncEnd 7 [0] true]

theorem syncs_cover_writes_close :
    EachStep syncStep KeepsCover {} closeAndFsync ∧ Always syncStep SyncsCover {} closeAndFsync :=
  ⟨by decide, syncs_cover_writes closeAndFsync (by decide)⟩

/-- **Success before the data is stored.**  An `fsync` returns success while the write is queued; a `close` returns
success after the write has failed; and a second `close` returns success while the first one waits for the write. -/
theorem syncs_miss_writes :
    (∃ s, run syncStep {} (writeOne ++ [.fsync 7, .fsyncEnd 7 [0] true]) = some s ∧
      s.returns = [⟨[0], true⟩] ∧ s.work 0 = .queued) ∧
    (∃ s, run syncStep {} (writeOne ++ [.run 0 .failed, .flush, .head flushOfOne, .waited 0 flushOfOne,
        .head flushOfOne, .flushEnd [0] 0]) = some s ∧
      s.returns = [⟨[0], true⟩] ∧ s.work 0 = .done .failed) ∧
    ∃ s, run syncStep {} (writeOne ++ [.flush, .head flushOfOne, .flush, .head flushOfOne, .flushEnd [0] 0]) = some s ∧
      s.returns = [⟨[0], true⟩] ∧ s.work 0 = .queued :=
  ⟨⟨_, rfl, rfl, rfl⟩, ⟨_, rfl, rfl, rfl⟩, _, rfl, rfl, rfl⟩

end Vastnfs.Nfs
