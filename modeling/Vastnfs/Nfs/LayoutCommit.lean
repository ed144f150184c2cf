import Vastnfs.Nfs.ExtentTree

/-!
# Committing a block layout

LAYOUTCOMMIT of a block layout: `ext_tree_prepare_commit` lists the extents that were written, tags them, and
`ext_tree_mark_committed` settles the tagged extents when the reply is there (`fs/nfs/blocklayout/extent_tree.c`).

* `encodeLoop_eq`: what a run of `ext_tree_encode_commit` lists and tags.
* `extMarkLoop_spec`: what `ext_tree_mark_committed` does to every sector.
* `prepareCommit_exact`: when the update lists just what is committed.
-/

namespace Vastnfs.Nfs

open SearchTrees Intervals List ExtMapping

/-! ## The functions -/

/-- What a commit uses of `struct pnfs_block_layout`. -/
structure PnfsCommitLayout extends PnfsBlockLayout where
  blLwb : BitVec 64 := 0
  blScsiLayout : Bool := false

/-- What a commit fills in of `struct nfs4_layoutcommit_args`: the update as 32-bit words. -/
structure LayoutcommitArgs where
  lastbytewritten : BitVec 64
  layoutupdate : List (BitVec 32)
  layoutupdateLen : Nat
  deriving DecidableEq

/-- `PAGE_SIZE` -/
def commitPageSize : Nat := 4096

/-- `PNFS_SCSI_RANGE_SIZE` or `PNFS_BLOCK_EXTENT_SIZE` -/
def commitUnit (scsi : Bool) : Nat := if scsi then 16 else 44

def extTreeLayoutupdateSize (scsi : Bool) (count : Nat) : Nat := 4 + commitUnit scsi * count

def xdrEncodeHyper (x : BitVec 64) : List (BitVec 32) := [x.extractLsb' 32 32, x.extractLsb' 0 32]

/-- `deviceid` are the words of the id of a device. -/
def encodeBlockExtent (deviceid : Nat → List (BitVec 32)) (be : PnfsBlockExtent) : List (BitVec 32) :=
  deviceid be.beDevice ++ xdrEncodeHyper (BitVec.ofNat 64 be.beFOffset <<< 9) ++
    xdrEncodeHyper (BitVec.ofNat 64 be.beLength <<< 9) ++ xdrEncodeHyper 0 ++ [0]

def encodeScsiRange (be : PnfsBlockExtent) : List (BitVec 32) :=
  xdrEncodeHyper (BitVec.ofNat 64 be.beFOffset <<< 9) ++ xdrEncodeHyper (BitVec.ofNat 64 be.beLength <<< 9)

def encodeCommitted (deviceid : Nat → List (BitVec 32)) (scsi : Bool) (be : PnfsBlockExtent) : List (BitVec 32) :=
  if scsi then encodeScsiRange be else encodeBlockExtent deviceid be

/-- An extent with data that the server does not know about. -/
def isWritten (be : PnfsBlockExtent) : Bool := be.beState = .invalidData ∧ be.beTag = .written

/-- An extent with data on its way to the server. -/
def isCommitting (be : PnfsBlockExtent) : Bool := be.beState = .invalidData ∧ be.beTag = .committing

/-- What a run of `ext_tree_encode_commit` leaves: the extents, the entries, their number, and whether they fit. -/
structure EncodedCommit where
  extents : List PnfsBlockExtent
  entries : List (BitVec 32)
  count : Nat
  fits : Bool
  deriving DecidableEq

def encodeLoop (deviceid : Nat → List (BitVec 32)) (scsi : Bool) (bufferSize : Nat) :
    (count : Nat) → List PnfsBlockExtent → EncodedCommit
  | count, [] => ⟨[], [], count, true⟩
  | count, be :: rest =>
    if isWritten be then
      let e := encodeLoop deviceid scsi bufferSize (count + 1) rest
      if bufferSize < extTreeLayoutupdateSize scsi (count + 1) then
        -- keep counting
        { e with extents := be :: e.extents, fits := false }
      else
        { e with
          extents := { be with beTag := .committing } :: e.extents
          entries := encodeCommitted deviceid scsi be ++ e.entries }
    else
      let e := encodeLoop deviceid scsi bufferSize count rest
      { e with extents := be :: e.extents }

/-- The loop of `ext_tree_prepare_commit` with at most `rounds` runs of `ext_tree_encode_commit`: the layout, and the
arguments unless memory ran out. `again` says whether the larger buffer can be allocated. -/
def prepareLoop (shape : TreeShape) (deviceid : Nat → List (BitVec 32)) (again : Bool) :
    (rounds : Nat) → PnfsCommitLayout → (bufferSize : Nat) → Option (PnfsCommitLayout × Option LayoutcommitArgs)
  | 0, _, _ => none
  | rounds + 1, bl, bufferSize =>
    let e := encodeLoop deviceid bl.blScsiLayout bufferSize 0 (toList bl.blExtRw)
    let bl' := { bl with blExtRw := shape.build e.extents, blLwb := 0 }
    if e.fits then
      some (bl', some
        { lastbytewritten := bl.blLwb - 1
          layoutupdate := BitVec.ofNat 32 e.count :: e.entries
          layoutupdateLen := extTreeLayoutupdateSize bl.blScsiLayout e.count })
    else if again then prepareLoop shape deviceid again rounds bl' (extTreeLayoutupdateSize bl.blScsiLayout e.count)
    else some (bl', none)

def extTreePrepareCommit (shape : TreeShape) (deviceid : Nat → List (BitVec 32)) (page again : Bool) (bl : PnfsCommitLayout) :
    Option (PnfsCommitLayout × Option LayoutcommitArgs) :=
  if page then prepareLoop shape deviceid again 2 bl commitPageSize else some (bl, none)

/-- What `ext_tree_mark_committed` makes of an extent on its way. -/
def markCommitted (status : Int) (be : PnfsBlockExtent) : PnfsBlockExtent :=
  if isCommitting be then
    if status ≠ 0 then { be with beTag := .written } else { be with beState := .readWriteData, beTag := .none }
  else be

theorem extTryToMergeLeft_after (c : ExtCursor) : (extTryToMergeLeft c).after = c.after := by
  unfold extTryToMergeLeft
  split
  · rfl
  · split <;> rfl

theorem extTryToMergeRight_after_length (c : ExtCursor) : (extTryToMergeRight c).after.length ≤ c.after.length := by
  unfold extTryToMergeRight
  split
  · exact Nat.le_refl _
  rename_i right rest hafter
  split
  · rw [hafter]
    exact Nat.le_succ _
  · exact Nat.le_refl _

def extMarkLoop (status : Int) (before : List PnfsBlockExtent) : List PnfsBlockExtent → List PnfsBlockExtent
  | [] => before.reverse
  | be :: after =>
    if isCommitting be then
      extMarkLoop status
        ((extTryToMergeRight (extTryToMergeLeft ⟨before, markCommitted status be, after⟩)).be ::
          (extTryToMergeRight (extTryToMergeLeft ⟨before, markCommitted status be, after⟩)).before)
        (extTryToMergeRight (extTryToMergeLeft ⟨before, markCommitted status be, after⟩)).after
    else extMarkLoop status (be :: before) after
  termination_by after => after.length
  decreasing_by
    · have hright := extTryToMergeRight_after_length (extTryToMergeLeft ⟨before, markCommitted status be, after⟩)
      rw [extTryToMergeLeft_after] at hright
      exact Nat.lt_succ_of_le hright
    · exact Nat.lt_succ_self _

def extTreeMarkCommitted (shape : TreeShape) (status : Int) (bl : PnfsCommitLayout) : PnfsCommitLayout :=
  { bl with blExtRw := shape.build (extMarkLoop status [] (toList bl.blExtRw)) }

/-! ## Settling the extents on their way -/

def ExtMapping.settle (status : Int) (m : ExtMapping) : ExtMapping :=
  if m.state = .invalidData ∧ m.tag = .committing then
    if status ≠ 0 then { m with tag := .written } else { m with state := .readWriteData, tag := .none }
  else m

section

variable {status : Int} {be right left : PnfsBlockExtent} {xs before after : List PnfsBlockExtent} {s : Nat}
  {f : PnfsBlockExtent → PnfsBlockExtent} {c : ExtCursor}

theorem isCommitting_iff : isCommitting be = true ↔ be.beState = .invalidData ∧ be.beTag = .committing := by
  rw [isCommitting, decide_eq_true_eq]

theorem isWritten_iff : isWritten be = true ↔ be.beState = .invalidData ∧ be.beTag = .written := by
  rw [isWritten, decide_eq_true_eq]

@[simp] theorem markCommitted_beFOffset : (markCommitted status be).beFOffset = be.beFOffset := by
  unfold markCommitted
  split
  · split <;> rfl
  · rfl

@[simp] theorem markCommitted_extFEnd : extFEnd (markCommitted status be) = extFEnd be := by
  unfold markCommitted
  split
  · split <;> rfl
  · rfl

theorem extMapping_markCommitted : extMapping (markCommitted status be) s = (extMapping be s).settle status := by
  by_cases hc : isCommitting be
  · obtain ⟨hstate, htag⟩ := isCommitting_iff.1 hc
    by_cases hstatus : status = 0 <;>
      simp [markCommitted, hc, hstatus, extMapping, settle, hstate, htag]
  rw [markCommitted, if_neg hc, settle, if_neg]
  rintro ⟨hstate, htag⟩
  simp only [extMapping] at hstate htag
  rw [if_pos hstate] at htag
  exact hc (isCommitting_iff.2 ⟨hstate, htag⟩)

section

variable (hlo : ∀ be, (f be).beFOffset = be.beFOffset) (hhi : ∀ be, extFEnd (f be) = extFEnd be)
include hlo hhi

theorem sectorMap_map {g : ExtMapping → ExtMapping} (hmap : ∀ be s, extMapping (f be) s = g (extMapping be s)) :
    sectorMap (xs.map f) s = (sectorMap xs s).map g := by
  induction xs with
  | nil => rfl
  | cons be xs ih =>
    rw [map_cons, sectorMap, valueAt_cons, valueAt_cons, hlo, hhi, hmap]
    split
    · rfl
    · exact ih

theorem extOrdered_map (h : ExtOrdered xs) : ExtOrdered (xs.map f) := by
  constructor
  · refine forall_mem_map.2 fun y hy => ?_
    rw [hlo, hhi]
    exact h.nonempty y hy
  · refine pairwise_map.2 (h.apart.imp ?_)
    intro a b hab
    rw [hlo, hhi]
    exact hab

end

theorem not_isCommitting_markCommitted : ¬ isCommitting (markCommitted status be) := by
  unfold markCommitted
  split
  · split <;> simp [isCommitting]
  · assumption

theorem isCommitting_of_merge (h : extCanMerge left right) (hright : isCommitting right) : isCommitting left := by
  obtain ⟨hstate, -, -, -, htag⟩ := extCanMerge_iff.1 h
  obtain ⟨hinv, hcomm⟩ := isCommitting_iff.1 hright
  exact isCommitting_iff.2 ⟨hstate.trans hinv, (htag (hstate.trans hinv)).trans hcomm⟩

theorem not_isCommitting_of_merge (h : extCanMerge left right) (hleft : ¬ isCommitting left) :
    ¬ isCommitting right := fun hright => hleft (isCommitting_of_merge h hright)

theorem not_isCommitting_mergeLeft (hc : ¬ isCommitting c.be) : ¬ isCommitting (extTryToMergeLeft c).be := by
  unfold extTryToMergeLeft
  split
  · exact hc
  split
  · rename_i left rest _ hmerge
    obtain ⟨hstate, -, -, -, htag⟩ := extCanMerge_iff.1 hmerge
    intro hleft
    obtain ⟨hinv, hcomm⟩ := isCommitting_iff.1 hleft
    exact hc (isCommitting_iff.2 ⟨hstate ▸ hinv, (htag hinv) ▸ hcomm⟩)
  · exact hc

theorem mergeLeft_after (xs ys : List PnfsBlockExtent) :
    extTryToMergeLeft ⟨before, be, ys⟩ =
      ⟨(extTryToMergeLeft ⟨before, be, xs⟩).before, (extTryToMergeLeft ⟨before, be, xs⟩).be, ys⟩ := by
  cases before with
  | nil => rfl
  | cons left rest => by_cases hmerge : extCanMerge left be <;> simp [extTryToMergeLeft, hmerge]

theorem mergeRight_settle (hc : ¬ isCommitting c.be)
    (hord : ExtOrdered (c.before.reverse ++ c.be :: c.after.map (markCommitted status))) :
    sectorMap ((extTryToMergeRight c).before.reverse ++ (extTryToMergeRight c).be ::
        (extTryToMergeRight c).after.map (markCommitted status)) s =
      sectorMap (c.before.reverse ++ c.be :: c.after.map (markCommitted status)) s := by
  obtain ⟨before, be, after⟩ := c
  cases after with
  | nil => rfl
  | cons right rest =>
    by_cases hmerge : extCanMerge be right
    · -- The extent behind is not on its way: settling leaves it as it is.
      have hright : markCommitted status right = right := if_neg (not_isCommitting_of_merge hmerge hc)
      simp only [map_cons, hright] at hord ⊢
      have hspec := (extTryToMergeRight_spec (c := ⟨before, be, right :: rest.map (markCommitted status)⟩) hord).2 s
      simp only [extTryToMergeRight, hmerge, if_true, ExtCursor.extents] at hspec ⊢
      exact hspec
    · simp [extTryToMergeRight, hmerge]

/-- **`ext_tree_mark_committed`** settles the extents on their way and changes no other sector. -/
theorem extMarkLoop_spec (before after : List PnfsBlockExtent) (h : ExtOrdered (before.reverse ++ after)) :
    ExtOrdered (extMarkLoop status before after) ∧
      ∀ s, sectorMap (extMarkLoop status before after) s = sectorMap (before.reverse ++ after.map (markCommitted status)) s := by
  induction before, after using extMarkLoop.induct status with
  | case1 before =>
    rw [extMarkLoop]
    simpa using h
  | case2 before be after hbe ih =>
    rw [extMarkLoop, if_pos hbe]
    obtain ⟨hbefore, hrest, hcross⟩ := ordered_append.1 h
    -- Settled up to here, and settled all through.
    have hsettled : ExtOrdered (before.reverse ++ markCommitted status be :: after) := by
      obtain ⟨hrest, hne, hleft, hright⟩ := ordered_middle.1 h
      exact ordered_middle.2 ⟨hrest, by simpa using hne, by simpa using hleft, by simpa using hright⟩
    have hall : ExtOrdered (before.reverse ++ (be :: after).map (markCommitted status)) := by
      refine ordered_append.2 ⟨hbefore, extOrdered_map (fun _ => markCommitted_beFOffset) (fun _ => markCommitted_extFEnd) hrest, ?_⟩
      refine fun x hx => forall_mem_map.2 fun y hy => ?_
      rw [markCommitted_beFOffset]
      exact hcross x hx y hy
    obtain ⟨hord1, -⟩ := extTryToMergeLeft_spec (c := ⟨before, markCommitted status be, after⟩) hsettled
    obtain ⟨hord2, -⟩ := extTryToMergeRight_spec hord1
    obtain ⟨hordAll, hmapAll⟩ := extTryToMergeLeft_spec
      (c := ⟨before, markCommitted status be, after.map (markCommitted status)⟩) hall
    rw [mergeLeft_after after] at hordAll hmapAll
    obtain ⟨hord, hmap⟩ := ih (by simpa [ExtCursor.extents] using hord2)
    refine ⟨hord, fun s => ?_⟩
    have hright := mergeRight_settle (s := s)
      (not_isCommitting_mergeLeft (c := ⟨before, markCommitted status be, after⟩) not_isCommitting_markCommitted)
      (by rw [extTryToMergeLeft_after]; exact hordAll)
    rw [hmap, reverse_cons, append_assoc, singleton_append, hright, extTryToMergeLeft_after]
    exact hmapAll s
  | case3 before be after hbe ih =>
    rw [extMarkLoop, if_neg hbe]
    obtain ⟨hord, hmap⟩ := ih (by simpa using h)
    refine ⟨hord, fun s => ?_⟩
    rw [hmap, map_cons, show markCommitted status be = be from if_neg hbe]
    simp

end

/-! ## What a run of the encoder lists -/

/-- The extents with the first `k` written ones tagged as on their way. -/
def tagWritten : (k : Nat) → List PnfsBlockExtent → List PnfsBlockExtent
  | _, [] => []
  | 0, be :: rest => be :: rest
  | k + 1, be :: rest =>
    if isWritten be then { be with beTag := .committing } :: tagWritten k rest else be :: tagWritten (k + 1) rest

def commitRoom (scsi : Bool) (bufferSize : Nat) : Nat := (bufferSize - 4) / commitUnit scsi

section

variable {deviceid : Nat → List (BitVec 32)} {scsi : Bool} {bufferSize count k : Nat} {xs : List PnfsBlockExtent}
  {be : PnfsBlockExtent}

theorem commitUnit_pos : 0 < commitUnit scsi := by
  cases scsi <;> decide

theorem size_le_iff (hbuf : 4 ≤ bufferSize) : extTreeLayoutupdateSize scsi count ≤ bufferSize ↔ count ≤ commitRoom scsi bufferSize := by
  rw [extTreeLayoutupdateSize, commitRoom, Nat.le_div_iff_mul_le commitUnit_pos, Nat.mul_comm count]
  omega

theorem commitRoom_size : commitRoom scsi (extTreeLayoutupdateSize scsi count) = count := by
  rw [commitRoom, extTreeLayoutupdateSize, Nat.add_sub_cancel_left, Nat.mul_div_cancel_left _ commitUnit_pos]

@[simp] theorem tagWritten_zero : tagWritten 0 xs = xs := by
  cases xs <;> rfl

theorem tagWritten_cons_written (h : isWritten be) :
    tagWritten (k + 1) (be :: xs) = { be with beTag := .committing } :: tagWritten k xs := by
  rw [tagWritten, if_pos h]

theorem tagWritten_cons_other (h : ¬ isWritten be) : tagWritten k (be :: xs) = be :: tagWritten k xs := by
  cases k with
  | zero => rw [tagWritten_zero, tagWritten_zero]
  | succ k => rw [tagWritten, if_neg h]

/-- **A run of `ext_tree_encode_commit`** lists and tags as many written extents as fit, and counts all of them. -/
theorem encodeLoop_eq (hbuf : 4 ≤ bufferSize) : ∀ (xs : List PnfsBlockExtent) (count : Nat),
    encodeLoop deviceid scsi bufferSize count xs =
      { extents := tagWritten (commitRoom scsi bufferSize - count) xs
        entries := ((xs.filter isWritten).take (commitRoom scsi bufferSize - count)).flatMap (encodeCommitted deviceid scsi)
        count := count + (xs.filter isWritten).length
        fits := decide (xs.filter isWritten = [] ∨ count + (xs.filter isWritten).length ≤ commitRoom scsi bufferSize) } := by
  intro xs
  induction xs with
  | nil =>
    intro count
    simp [encodeLoop, tagWritten]
  | cons be rest ih =>
    intro count
    rw [encodeLoop]
    split
    · rename_i hbe
      have hsize := @size_le_iff scsi _ (count + 1) hbuf
      rw [filter_cons_of_pos hbe]
      simp only [ih (count + 1)]
      by_cases hfit : bufferSize < extTreeLayoutupdateSize scsi (count + 1)
      · have hroom : commitRoom scsi bufferSize - count = 0 := by omega
        have hroom' : commitRoom scsi bufferSize - (count + 1) = 0 := by omega
        simp only [if_pos hfit, hroom, hroom', tagWritten_zero, take_zero, length_cons, EncodedCommit.mk.injEq,
          flatMap_nil, true_and]
        refine ⟨by omega, ?_⟩
        rw [eq_comm, decide_eq_false_iff_not]
        rintro (hnil | hle)
        · cases hnil
        · omega
      obtain ⟨k, hk⟩ : ∃ k, commitRoom scsi bufferSize - count = k + 1 := ⟨commitRoom scsi bufferSize - count - 1, by omega⟩
      have hk' : commitRoom scsi bufferSize - (count + 1) = k := by omega
      simp only [if_neg hfit, hk, hk', tagWritten_cons_written hbe, take_succ_cons, flatMap_cons, length_cons,
        EncodedCommit.mk.injEq, true_and]
      refine ⟨by omega, ?_⟩
      rw [decide_eq_decide]
      constructor
      · rintro (hnil | hle)
        · rw [hnil]
          exact .inr (by simp only [length_nil]; omega)
        · exact .inr (by omega)
      · rintro (hnil | hle)
        · cases hnil
        · exact .inr (by omega)
    · rename_i hbe
      rw [filter_cons_of_neg hbe, tagWritten_cons_other hbe, ih count]

theorem filter_tagWritten : ∀ (xs : List PnfsBlockExtent) (k : Nat),
    (tagWritten k xs).filter isWritten = (xs.filter isWritten).drop k := by
  intro xs
  induction xs with
  | nil =>
    intro k
    simp [tagWritten]
  | cons be rest ih =>
    intro k
    by_cases hbe : isWritten be
    · cases k with
      | zero => rw [tagWritten_zero, drop_zero]
      | succ k =>
        rw [tagWritten_cons_written hbe, filter_cons_of_pos hbe, drop_succ_cons, filter_cons_of_neg, ih]
        simp [isWritten]
    · rw [tagWritten_cons_other hbe, filter_cons_of_neg hbe, filter_cons_of_neg hbe, ih]

end

/-! ## Updates that list what they commit -/

def PnfsCommitLayout.written (bl : PnfsCommitLayout) : List PnfsBlockExtent := bl.rw.filter isWritten

def Covers (xs : List PnfsBlockExtent) (s : Nat) : Prop := ∃ be ∈ xs, be.beFOffset ≤ s ∧ s < extFEnd be

/-- The update lists what was written in `bl`, and settling `bl1` settles just that. -/
structure CommitExact (deviceid : Nat → List (BitVec 32)) (bl bl1 : PnfsCommitLayout) (args : LayoutcommitArgs) : Prop where
  update : args.layoutupdate =
    BitVec.ofNat 32 bl.written.length :: bl.written.flatMap (encodeCommitted deviceid bl.blScsiLayout)
  length : args.layoutupdateLen = extTreeLayoutupdateSize bl.blScsiLayout bl.written.length
  lastbyte : args.lastbytewritten = bl.blLwb - 1
  settles : ∀ (shape : TreeShape) (status : Int) (s : Nat), Covers bl.written s →
    sectorMap (extTreeMarkCommitted shape status bl1).rw s =
      (sectorMap bl.rw s).map fun m => if status = 0 then { m with state := .readWriteData, tag := .none } else m
  others : ∀ (shape : TreeShape) (status : Int) (s : Nat), ¬ Covers bl.written s →
    sectorMap (extTreeMarkCommitted shape status bl1).rw s = sectorMap bl1.rw s

/-- The layout after a run that tagged the first `k` written extents. -/
def PnfsCommitLayout.tagged (bl : PnfsCommitLayout) (shape : TreeShape) (k : Nat) : PnfsCommitLayout :=
  { bl with blExtRw := shape.build (tagWritten k bl.rw), blLwb := 0 }

def ExtMapping.tagged (m : ExtMapping) : ExtMapping :=
  if m.state = .invalidData ∧ m.tag = .written then { m with tag := .committing } else m

section

variable {shape : TreeShape} {deviceid : Nat → List (BitVec 32)} {page again : Bool} {bl bl1 : PnfsCommitLayout}
  {args : LayoutcommitArgs} {xs : List PnfsBlockExtent} {be : PnfsBlockExtent} {k s : Nat} {status : Int}

theorem tagWritten_all (hk : (xs.filter isWritten).length ≤ k) (h : ExtOrdered xs) :
    ExtOrdered (tagWritten k xs) ∧ ∀ s, sectorMap (tagWritten k xs) s = (sectorMap xs s).map tagged := by
  obtain ⟨tag, htag⟩ : ∃ tag : PnfsBlockExtent → PnfsBlockExtent,
      tag = fun be => if isWritten be then { be with beTag := .committing } else be := ⟨_, rfl⟩
  have hlo : ∀ be, (tag be).beFOffset = be.beFOffset := by
    intro be
    rw [htag]
    dsimp only
    split <;> rfl
  have hhi : ∀ be, extFEnd (tag be) = extFEnd be := by
    intro be
    rw [htag]
    dsimp only
    split <;> rfl
  have hmap : ∀ be s, extMapping (tag be) s = (extMapping be s).tagged := by
    intro be s
    rw [htag]
    by_cases hw : isWritten be
    · obtain ⟨hstate, hwritten⟩ := isWritten_iff.1 hw
      simp [hw, extMapping, tagged, hstate, hwritten]
    dsimp only
    rw [if_neg hw, tagged, if_neg]
    rintro ⟨hstate, hwritten⟩
    simp only [extMapping] at hstate hwritten
    rw [if_pos hstate] at hwritten
    exact hw (isWritten_iff.2 ⟨hstate, hwritten⟩)
  have heq : tagWritten k xs = xs.map tag := by
    clear h
    induction xs generalizing k with
    | nil => rw [tagWritten]; rfl
    | cons be rest ih =>
      by_cases hw : isWritten be
      · rw [filter_cons_of_pos hw, length_cons] at hk
        obtain ⟨k, rfl⟩ : ∃ n, k = n + 1 := ⟨k - 1, by omega⟩
        rw [tagWritten_cons_written hw, ih (by omega)]
        simp [htag, hw]
      · rw [filter_cons_of_neg hw] at hk
        rw [tagWritten_cons_other hw, ih hk]
        simp [htag, hw]
  rw [heq]
  exact ⟨extOrdered_map hlo hhi h, fun s => sectorMap_map hlo hhi hmap⟩

theorem sectorMap_settled (h : ExtOrdered bl.rw) :
    sectorMap (extTreeMarkCommitted shape status bl).rw s = (sectorMap bl.rw s).map (settle status) := by
  have hspec := (@extMarkLoop_spec status [] bl.rw (by simpa using h)).2 s
  rw [show (extTreeMarkCommitted shape status bl).rw = extMarkLoop status [] bl.rw from shape.toList_build _, hspec]
  exact sectorMap_map (fun _ => markCommitted_beFOffset) (fun _ => markCommitted_extFEnd) fun _ _ => extMapping_markCommitted

theorem sectorMap_of_mem (h : ExtOrdered xs) (hbe : be ∈ xs) (hlo : be.beFOffset ≤ s) (hhi : s < extFEnd be) :
    sectorMap xs s = some (extMapping be s) := h.valueAt_of_mem hbe hlo hhi

theorem commitExact_iff (h : ExtOrdered bl.rw) (hord : ExtOrdered bl1.rw)
    (htagged : ∀ s, sectorMap bl1.rw s = (sectorMap bl.rw s).map tagged)
    (hupdate : args.layoutupdate =
      BitVec.ofNat 32 bl.written.length :: bl.written.flatMap (encodeCommitted deviceid bl.blScsiLayout))
    (hlength : args.layoutupdateLen = extTreeLayoutupdateSize bl.blScsiLayout bl.written.length)
    (hlast : args.lastbytewritten = bl.blLwb - 1) :
    CommitExact deviceid bl bl1 args ↔ ∀ be ∈ bl.rw, ¬ isCommitting be := by
  constructor
  · intro hexact be hbe hcomm
    obtain ⟨hstate, htag⟩ := isCommitting_iff.1 hcomm
    have hne := h.nonempty be hbe
    have hentry := sectorMap_of_mem h hbe (Nat.le_refl _) hne
    -- The first sector of the extent is not one that was listed.
    have hnot : ¬ Covers bl.written be.beFOffset := by
      rintro ⟨w, hw, hlo, hhi⟩
      obtain ⟨hwmem, hwwritten⟩ := mem_filter.1 hw
      obtain ⟨hwstate, hwtag⟩ := isWritten_iff.1 hwwritten
      have hboth := (sectorMap_of_mem h hwmem hlo hhi).symm.trans hentry
      have htags := congrArg tag (Option.some.inj hboth)
      simp [extMapping, hstate, htag, hwstate, hwtag] at htags
    have hother := hexact.others rightSpine 0 _ hnot
    rw [sectorMap_settled hord, htagged, hentry] at hother
    simp [extMapping, tagged, settle, hstate, htag] at hother
  · intro hnone
    have hsettled : ∀ shape status s, sectorMap (extTreeMarkCommitted shape status bl1).rw s =
        ((sectorMap bl.rw s).map tagged).map (settle status) := by
      intro shape status s
      rw [sectorMap_settled hord, htagged]
    refine ⟨hupdate, hlength, hlast, ?_, ?_⟩
    · rintro shape status s ⟨be, hbe, hlo, hhi⟩
      obtain ⟨hmem, hwritten⟩ := mem_filter.1 hbe
      obtain ⟨hstate, htag⟩ := isWritten_iff.1 hwritten
      rw [hsettled, sectorMap_of_mem h hmem hlo hhi]
      by_cases hstatus : status = 0 <;>
        simp [extMapping, tagged, settle, hstate, htag, hstatus]
    · intro shape status s hnot
      rw [hsettled, htagged]
      cases hs : sectorMap bl.rw s with
      | none => rfl
      | some m =>
        obtain ⟨be, hbe, hlo, hhi, rfl⟩ := exists_of_valueAt hs
        have hwritten : ¬ isWritten be := fun hw => hnot ⟨be, mem_filter.2 ⟨hbe, hw⟩, hlo, hhi⟩
        have hcomm := hnone be hbe
        rw [isWritten_iff] at hwritten
        rw [isCommitting_iff] at hcomm
        by_cases hstate : be.beState = .invalidData
        · simp_all [extMapping, tagged, settle]
        · simp [extMapping, tagged, settle, hstate]

@[simp] theorem tagged_rw : (bl.tagged shape k).rw = tagWritten k bl.rw := shape.toList_build _

theorem tagged_written : (bl.tagged shape k).written = bl.written.drop k := by
  rw [PnfsCommitLayout.written, tagged_rw, filter_tagWritten]
  rfl

theorem prepareLoop_succ {rounds bufferSize : Nat} (hbuf : 4 ≤ bufferSize) :
    prepareLoop shape deviceid again (rounds + 1) bl bufferSize =
      if bl.written.length ≤ commitRoom bl.blScsiLayout bufferSize then
        some (bl.tagged shape (commitRoom bl.blScsiLayout bufferSize), some
          { lastbytewritten := bl.blLwb - 1
            layoutupdate := BitVec.ofNat 32 bl.written.length :: bl.written.flatMap (encodeCommitted deviceid bl.blScsiLayout)
            layoutupdateLen := extTreeLayoutupdateSize bl.blScsiLayout bl.written.length })
      else if again then prepareLoop shape deviceid again rounds (bl.tagged shape (commitRoom bl.blScsiLayout bufferSize))
        (extTreeLayoutupdateSize bl.blScsiLayout bl.written.length)
      else some (bl.tagged shape (commitRoom bl.blScsiLayout bufferSize), none) := by
  have hencode := @encodeLoop_eq deviceid bl.blScsiLayout _ hbuf bl.rw 0
  simp only [Nat.sub_zero, Nat.zero_add, show bl.rw.filter isWritten = bl.written from rfl] at hencode
  rw [prepareLoop, show toList bl.blExtRw = bl.rw from rfl, hencode]
  by_cases hfits : bl.written.length ≤ commitRoom bl.blScsiLayout bufferSize
  · rw [if_pos hfits, if_pos (decide_eq_true (.inr hfits)), take_of_length_le hfits]
    rfl
  rw [if_neg hfits, if_neg]
  · rfl
  rw [decide_eq_true_eq]
  rintro (hnil | hle)
  · rw [hnil] at hfits
    exact hfits (Nat.zero_le _)
  · exact hfits hle

/-- **Exact commits.**  `ext_tree_prepare_commit` ends; the update it returns lists what is committed just when the written
extents fit in a page and no extent was on its way before. -/
theorem prepareCommit_exact (h : ExtOrdered bl.rw) : ∃ bl1 r, extTreePrepareCommit shape deviceid page again bl = some (bl1, r) ∧
    ∀ args, r = some args → (CommitExact deviceid bl bl1 args ↔
      extTreeLayoutupdateSize bl.blScsiLayout bl.written.length ≤ commitPageSize ∧ ∀ be ∈ bl.rw, ¬ isCommitting be) := by
  have hpage : 4 ≤ commitPageSize := by decide
  have hsize := @size_le_iff bl.blScsiLayout _ bl.written.length hpage
  rw [extTreePrepareCommit]
  split
  · rw [prepareLoop_succ hpage]
    split
    · rename_i hfits
      refine ⟨_, _, rfl, fun args hargs => ?_⟩
      cases hargs
      obtain ⟨hord, hmap⟩ := tagWritten_all (k := commitRoom bl.blScsiLayout commitPageSize) hfits h
      rw [and_iff_right (hsize.2 hfits)]
      apply commitExact_iff h
      · rw [tagged_rw]
        exact hord
      · rw [tagged_rw]
        exact hmap
      · rfl
      · rfl
      · rfl
    · rename_i hover
      split
      · -- The second round has room for all, but what the first one listed is tagged already.
        have hroom : 0 < commitRoom bl.blScsiLayout commitPageSize := by
          cases bl.blScsiLayout <;> decide
        have hsecond : (bl.tagged shape (commitRoom bl.blScsiLayout commitPageSize)).written.length ≤
            commitRoom bl.blScsiLayout (extTreeLayoutupdateSize bl.blScsiLayout bl.written.length) := by
          rw [tagged_written, commitRoom_size, length_drop]
          exact Nat.sub_le _ _
        refine ⟨_, _, (prepareLoop_succ (Nat.le_add_right _ _)).trans (if_pos hsecond), fun args hargs => ?_⟩
        cases hargs
        refine iff_of_false (fun hexact => ?_) (fun hfits => hover (hsize.1 hfits.1))
        have hlength := hexact.length
        rw [tagged_written, length_drop] at hlength
        have hunit : 0 < commitUnit bl.blScsiLayout := commitUnit_pos
        have hcount := Nat.eq_of_mul_eq_mul_left hunit (Nat.add_left_cancel hlength)
        omega
      · exact ⟨_, none, rfl, nofun⟩
  · exact ⟨bl, none, rfl, nofun⟩

end

def newExtent (tag : ExtentTag) (f : Nat) : PnfsBlockExtent :=
  { beDevice := 1, beFOffset := f, beLength := 1, beState := .invalidData, beTag := tag }

def layoutOf (xs : List PnfsBlockExtent) (lwb : BitVec 64) : PnfsCommitLayout :=
  { blExtRw := rightSpine.build xs, blLwb := lwb }

theorem layoutOf_singleton_ordered {be : PnfsBlockExtent} {lwb : BitVec 64} (h : be.beFOffset < extFEnd be) :
    ExtOrdered (layoutOf [be] lwb).rw :=
  ordered_cons.2 ⟨h, ordered_nil, nofun⟩

def threeExtents : PnfsCommitLayout := layoutOf [newExtent .written 8, newExtent .none 9, newExtent .written 12] 6656

theorem prepareCommit_exact_three : ∃ bl1 args,
    extTreePrepareCommit rightSpine (fun _ => [0, 0, 0, 0]) true true threeExtents = some (bl1, some args) ∧
      CommitExact (fun _ => [0, 0, 0, 0]) threeExtents bl1 args := by
  have hord : ExtOrdered threeExtents.rw := ordered_cons.2 ⟨by decide, ordered_cons.2 ⟨by decide,
    ordered_cons.2 ⟨by decide, ordered_nil, nofun⟩, by decide⟩, by decide⟩
  obtain ⟨bl1, r, heq, hiff⟩ := @prepareCommit_exact rightSpine (fun _ => [0, 0, 0, 0]) true true threeExtents hord
  cases r with
  | none => cases heq
  | some args => exact ⟨bl1, args, heq, (hiff args rfl).2 ⟨by decide, by decide⟩⟩

/-- Of 94 written extents the second round lists only the last one, with a last byte of its own; and an extent on its way
that an update does not list is settled by its reply. -/
theorem prepareCommit_inexact :
    ((extTreePrepareCommit rightSpine (fun _ => [0, 0, 0, 0]) true true
        (layoutOf ((List.range 94).map fun i => newExtent .written (2 * i)) 95744)).bind Prod.snd).map
      (fun args => (args.layoutupdate.head?, args.layoutupdateLen, args.lastbytewritten)) = some (some 1, 48, -1) ∧
    ((extTreePrepareCommit rightSpine (fun _ => [0, 0, 0, 0]) true true
        (layoutOf [newExtent .committing 8] 4608)).map fun (bl1, args) =>
      (args.map LayoutcommitArgs.layoutupdate, sectorMap (extTreeMarkCommitted rightSpine 0 bl1).rw 8)) =
        some (some [0], some ⟨.readWriteData, 1, some 0, .none⟩) := by
  constructor
  · decide
  · have hsettled := @sectorMap_settled rightSpine (layoutOf [newExtent .committing 8] 0) 8 0
      (layoutOf_singleton_ordered (by decide))
    exact congrArg (fun m => some (some [0], m)) hsettled

end Vastnfs.Nfs
