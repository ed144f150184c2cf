import Vastnfs.Lib.Intervals
import Vastnfs.Lib.SearchTrees
import Vastnfs.Lib.Runs

/-!
# The extent map of a block layout

The red-black trees of `fs/nfs/blocklayout/extent_tree.c`: what the client knows about the sectors of a file, one tree
for reading and one for writing. A tree is searched and changed on the way down from its root; how it is balanced is
left open (`TreeShape`).

* `insertWalk_spec`, `insert_spec`: what an insertion does to every sector.
* `removeOne_spec`: what a removal does to every sector.
* `extTree_maps`: the map of any sequence of insertions, removals and lookups.
-/

namespace Vastnfs.Nfs

open SearchTrees Intervals Runs List

/-! ## Extents -/

/-- `enum pnfs_block_extent_state` -/
inductive ExtentState where
  | readWriteData | readData | invalidData | noneData
  deriving DecidableEq

/-- `be_tag` of an extent that was not written yet; 0, `EXTENT_WRITTEN` and `EXTENT_COMMITTING`. -/
inductive ExtentTag where
  | none | written | committing
  deriving DecidableEq

/-- `struct pnfs_block_extent`. File sectors do not overflow; volume sectors are counted in 64 bits. -/
@[ext] structure PnfsBlockExtent where
  (beDevice beFOffset beLength : Nat)
  beVOffset : BitVec 64 := 0
  beState : ExtentState
  beTag : ExtentTag := .none
  deriving DecidableEq

def extFEnd (be : PnfsBlockExtent) : Nat := be.beFOffset + be.beLength

def extCanMerge (be1 be2 : PnfsBlockExtent) : Bool :=
  be1.beState = be2.beState ∧ be1.beDevice = be2.beDevice ∧ extFEnd be1 = be2.beFOffset ∧
    (be1.beState ≠ .noneData → be1.beVOffset + BitVec.ofNat 64 be1.beLength = be2.beVOffset) ∧
    (be1.beState = .invalidData → be1.beTag = be2.beTag)

/-- The extent moved `diff` sectors to the right, with `len` sectors left. -/
def PnfsBlockExtent.advance (be : PnfsBlockExtent) (diff len : Nat) : PnfsBlockExtent :=
  { be with beFOffset := be.beFOffset + diff, beVOffset := be.beVOffset + BitVec.ofNat 64 diff, beLength := len }

/-- What is left of `new` behind the end of `be`, as `ext_tree_insert` goes on with it. -/
def restBehind (new be : PnfsBlockExtent) : PnfsBlockExtent :=
  new.advance (new.beLength - (extFEnd new - extFEnd be)) (extFEnd new - extFEnd be)

/-! ## Places in a tree -/

/-- A tree with the given extents in order: `rb_insert_color` and `rb_erase` decide which one. -/
structure TreeShape where
  build : List PnfsBlockExtent → BinaryTree PnfsBlockExtent
  toList_build : ∀ xs, toList (build xs) = xs

/-- A node of a tree between the nodes before it, the nearest first, and those after it. -/
structure ExtCursor where
  before : List PnfsBlockExtent
  be : PnfsBlockExtent
  after : List PnfsBlockExtent
  deriving DecidableEq

def ExtCursor.extents (c : ExtCursor) : List PnfsBlockExtent := c.before.reverse ++ c.be :: c.after

def extTreeNext (c : ExtCursor) : Option ExtCursor :=
  match c.after with
  | [] => none
  | be :: rest => some ⟨c.be :: c.before, be, rest⟩

def extTryToMergeLeft (c : ExtCursor) : ExtCursor :=
  match c.before with
  | [] => c
  | left :: rest =>
    if extCanMerge left c.be then ⟨rest, { left with beLength := left.beLength + c.be.beLength }, c.after⟩ else c

def extTryToMergeRight (c : ExtCursor) : ExtCursor :=
  match c.after with
  | [] => c
  | right :: rest =>
    if extCanMerge c.be right then ⟨c.before, { c.be with beLength := c.be.beLength + right.beLength }, rest⟩ else c

/-! ## The functions of the tree -/

/-- How the loop of `__ext_tree_search` ends: at an extent that holds the sector, or after the last one visited. -/
inductive ExtSearch where
  | found (c : ExtCursor)
  | fell (last : Option ExtCursor)
  deriving DecidableEq

/-- The loop of `__ext_tree_search`, below the extents `before` and `after`. -/
def extTreeSearchWalk (start : Nat) :
    BinaryTree PnfsBlockExtent → (before after : List PnfsBlockExtent) → Option ExtCursor → ExtSearch
  | .nil, _, _, last => .fell last
  | .node be l r, before, after, _ =>
    if start < be.beFOffset then
      extTreeSearchWalk start l before (be :: (toList r ++ after)) (some ⟨(toList l).reverse ++ before, be, toList r ++ after⟩)
    else if extFEnd be ≤ start then
      extTreeSearchWalk start r (be :: ((toList l).reverse ++ before)) after
        (some ⟨(toList l).reverse ++ before, be, toList r ++ after⟩)
    else .found ⟨(toList l).reverse ++ before, be, toList r ++ after⟩

def extTreeSearch (root : BinaryTree PnfsBlockExtent) (start : Nat) : Option ExtCursor :=
  match extTreeSearchWalk start root [] [] none with
  | .found c => some c
  | .fell none => none
  | .fell (some c) => if start < c.be.beFOffset then some c else extTreeNext c

/-- `be` grown to the left over the sectors of `new`, as `__ext_tree_insert` does when the two can be merged. -/
def extendFront (be new : PnfsBlockExtent) : PnfsBlockExtent :=
  { be with
    beFOffset := new.beFOffset
    beVOffset := if be.beState ≠ .noneData then new.beVOffset else be.beVOffset
    beLength := be.beLength + new.beLength }

/-- `__ext_tree_insert` below the extents `before` and `after`; `none` is its `BUG()`. -/
def extTreeInsertWalk (new : PnfsBlockExtent) (mergeOk : Bool) :
    BinaryTree PnfsBlockExtent → (before after : List PnfsBlockExtent) → Option (List PnfsBlockExtent)
  | .nil, before, after => some (before.reverse ++ new :: after)
  | .node be l r, before, after =>
    if new.beFOffset < be.beFOffset then
      if mergeOk ∧ extCanMerge new be then
        some (extTryToMergeLeft ⟨(toList l).reverse ++ before, extendFront be new, toList r ++ after⟩).extents
      else extTreeInsertWalk new mergeOk l before (be :: (toList r ++ after))
    else if extFEnd be ≤ new.beFOffset then
      if mergeOk ∧ extCanMerge be new then
        some (extTryToMergeRight ⟨(toList l).reverse ++ before,
          { be with beLength := be.beLength + new.beLength }, toList r ++ after⟩).extents
      else extTreeInsertWalk new mergeOk r (be :: ((toList l).reverse ++ before)) after
    else none

def extTreeLink (shape : TreeShape) (root : BinaryTree PnfsBlockExtent) (new : PnfsBlockExtent) :
    Option (BinaryTree PnfsBlockExtent) :=
  (extTreeInsertWalk new true root [] []).map shape.build

/-- The part of `be` from the sector `f` on; a hole gets the volume sector `hole`. -/
def cutFront (be : PnfsBlockExtent) (f : Nat) (hole : BitVec 64) : PnfsBlockExtent :=
  { be with
    beFOffset := f
    beVOffset := if be.beState ≠ .noneData then
        be.beVOffset + BitVec.ofNat 64 be.beLength - BitVec.ofNat 64 (extFEnd be - f)
      else hole
    beLength := extFEnd be - f }

/-- The end of `__ext_tree_remove`: extents that end by `stop` go, one that reaches over it is cut. -/
def extRemoveRest (stop : Nat) : List PnfsBlockExtent → List PnfsBlockExtent
  | [] => []
  | be :: rest =>
    if extFEnd be ≤ stop then extRemoveRest stop rest
    else if be.beFOffset < stop then cutFront be stop be.beVOffset :: rest
    else be :: rest

/-- `__ext_tree_remove` of the sectors from `start` up to `stop`: the tree it leaves, and whether it returns 0. `alloc`
says whether the extent for a second half can be allocated. -/
def extTreeRemoveOne (shape : TreeShape) (alloc : Bool) (root : BinaryTree PnfsBlockExtent) (start stop : Nat) :
    Option (BinaryTree PnfsBlockExtent × Bool) :=
  match extTreeSearch root start with
  | none => some (root, true)
  | some c =>
    if stop ≤ c.be.beFOffset then some (root, true)
    else if stop < extFEnd c.be then
      if c.be.beFOffset < start then
        if alloc then
          (extTreeLink shape (shape.build (c.before.reverse ++ { c.be with beLength := start - c.be.beFOffset } :: c.after))
            (cutFront c.be stop 0)).map fun root => (root, true)
        else some (root, false)
      else some (shape.build (c.before.reverse ++ cutFront c.be stop c.be.beVOffset :: c.after), true)
    else if c.be.beFOffset < start then
      some (shape.build
        (c.before.reverse ++ { c.be with beLength := start - c.be.beFOffset } :: extRemoveRest stop c.after), true)
    else some (shape.build (c.before.reverse ++ extRemoveRest stop (c.be :: c.after)), true)

/-- The loop of `ext_tree_insert`: the tree it leaves, and whether it returns 0. `alloc f` says whether the copy of an
extent that begins at `f` can be allocated; `none` is a `BUG()`, or a loop that has not ended after `fuel` rounds. -/
def extTreeInsertLoop (shape : TreeShape) (alloc : Nat → Bool) :
    (fuel : Nat) → BinaryTree PnfsBlockExtent → PnfsBlockExtent → Option (BinaryTree PnfsBlockExtent × Bool)
  | 0, _, _ => none
  | fuel + 1, root, new =>
    match extTreeSearch root new.beFOffset with
    | none => (extTreeLink shape root new).map fun root => (root, true)
    | some ⟨_, be, _⟩ =>
      if extFEnd new ≤ be.beFOffset then (extTreeLink shape root new).map fun root => (root, true)
      else if be.beFOffset ≤ new.beFOffset then
        if extFEnd new ≤ extFEnd be then some (root, true)
        else
          extTreeInsertLoop shape alloc fuel root (restBehind new be)
      else if extFEnd new ≤ extFEnd be then
        (extTreeLink shape root { new with beLength := be.beFOffset - new.beFOffset }).map fun root => (root, true)
      else if alloc new.beFOffset then
        (extTreeLink shape root { new with beLength := be.beFOffset - new.beFOffset }).bind fun root =>
          extTreeInsertLoop shape alloc fuel root (restBehind new be)
      else some (root, false)

def extTreeLookupOne (isect : Nat) : BinaryTree PnfsBlockExtent → Option PnfsBlockExtent
  | .nil => none
  | .node be l r =>
    if isect < be.beFOffset then extTreeLookupOne isect l
    else if extFEnd be ≤ isect then extTreeLookupOne isect r
    else some be

/-! ## The layout -/

/-- `struct pnfs_block_layout`: the trees of extents to read and to write. -/
structure PnfsBlockLayout where
  (blExtRo blExtRw : BinaryTree PnfsBlockExtent := .nil)

/-- Extents of this state go to the tree of extents to write. -/
def ExtentState.writable : ExtentState → Bool
  | .readWriteData | .invalidData => true
  | .readData | .noneData => false

def extTreeInsert (shape : TreeShape) (alloc : Nat → Bool) (bl : PnfsBlockLayout) (new : PnfsBlockExtent) :
    Option (PnfsBlockLayout × Bool) :=
  if new.beState.writable then
    (extTreeInsertLoop shape alloc (new.beLength + 1) bl.blExtRw new).map fun (root, ok) => ({ bl with blExtRw := root }, ok)
  else
    (extTreeInsertLoop shape alloc (new.beLength + 1) bl.blExtRo new).map fun (root, ok) => ({ bl with blExtRo := root }, ok)

def extTreeLookup (bl : PnfsBlockLayout) (isect : Nat) (rw : Bool) : Option PnfsBlockExtent :=
  if rw then extTreeLookupOne isect bl.blExtRw
  else (extTreeLookupOne isect bl.blExtRo).or (extTreeLookupOne isect bl.blExtRw)

def extTreeRemove (shape : TreeShape) (allocRo allocRw : Bool) (bl : PnfsBlockLayout) (rw : Bool) (start stop : Nat) :
    Option (PnfsBlockLayout × Bool) :=
  (extTreeRemoveOne shape allocRo bl.blExtRo start stop).bind fun (ro, err) =>
    if rw then
      (extTreeRemoveOne shape allocRw bl.blExtRw start stop).map fun (rw, err2) => (⟨ro, rw⟩, err && err2)
    else some ({ bl with blExtRo := ro }, err)

/-! ## What the extents say about the sectors -/

/-- What is known about a sector. A hole has no volume sector, and only extents not written yet have a tag. -/
structure ExtMapping where
  state : ExtentState
  device : Nat
  volume : Option (BitVec 64)
  tag : ExtentTag
  deriving DecidableEq

def extMapping (be : PnfsBlockExtent) (s : Nat) : ExtMapping where
  state := be.beState
  device := be.beDevice
  volume := if be.beState = .noneData then none else some (be.beVOffset + BitVec.ofNat 64 (s - be.beFOffset))
  tag := if be.beState = .invalidData then be.beTag else .none

def sectorMap : List PnfsBlockExtent → Nat → Option ExtMapping := valueAt PnfsBlockExtent.beFOffset extFEnd extMapping

abbrev ExtOrdered (xs : List PnfsBlockExtent) : Prop := Ordered PnfsBlockExtent.beFOffset extFEnd xs

section

variable {be1 be2 be new : PnfsBlockExtent} {xs ys : List PnfsBlockExtent} {c : ExtCursor} {s : Nat}

theorem extCanMerge_iff : extCanMerge be1 be2 = true ↔
    be1.beState = be2.beState ∧ be1.beDevice = be2.beDevice ∧ extFEnd be1 = be2.beFOffset ∧
      (be1.beState ≠ .noneData → be1.beVOffset + BitVec.ofNat 64 be1.beLength = be2.beVOffset) ∧
      (be1.beState = .invalidData → be1.beTag = be2.beTag) := by
  rw [extCanMerge, decide_eq_true_eq]

theorem extMapping_of_canMerge (h : extCanMerge be1 be2) (hs : be2.beFOffset ≤ s) : extMapping be2 s = extMapping be1 s := by
  obtain ⟨hstate, hdevice, hend, hvolume, htag⟩ := extCanMerge_iff.1 h
  have hsum : s - be1.beFOffset = be1.beLength + (s - be2.beFOffset) := by
    simp only [extFEnd] at hend
    omega
  simp only [extMapping, ← hstate, ← hdevice, ExtMapping.mk.injEq, true_and]
  constructor
  · split_ifs with hne
    · rfl
    · rw [← hvolume hne, hsum, BitVec.ofNat_add, BitVec.add_assoc]
  · split_ifs with hinv
    · exact (htag hinv).symm
    · rfl

/-- **Merging** changes no sector. -/
theorem merged_spec (be : PnfsBlockExtent) (h : extCanMerge be1 be2) (hord : ExtOrdered (xs ++ [be1, be2] ++ ys))
    (hlo : be.beFOffset = be1.beFOffset) (hhi : extFEnd be = extFEnd be2) (hmap : ∀ s, extMapping be s = extMapping be1 s) :
    ExtOrdered (xs ++ [be] ++ ys) ∧ ∀ s, sectorMap (xs ++ [be] ++ ys) s = sectorMap (xs ++ [be1, be2] ++ ys) s := by
  apply hord.join (extCanMerge_iff.1 h).2.2.1 hlo hhi
  · intro s _ _
    exact hmap s
  · intro s hs _
    rw [hmap, extMapping_of_canMerge h hs]

theorem lengthened_spec (h : extCanMerge be1 be2) (hord : ExtOrdered (xs ++ [be1, be2] ++ ys)) :
    ExtOrdered (xs ++ [{ be1 with beLength := be1.beLength + be2.beLength }] ++ ys) ∧
      ∀ s, sectorMap (xs ++ [{ be1 with beLength := be1.beLength + be2.beLength }] ++ ys) s =
        sectorMap (xs ++ [be1, be2] ++ ys) s := by
  have hend := (extCanMerge_iff.1 h).2.2.1
  exact merged_spec _ h hord rfl (by simp only [extFEnd] at hend ⊢; omega) fun s => rfl

theorem extTryToMergeLeft_spec (h : ExtOrdered c.extents) :
    ExtOrdered (extTryToMergeLeft c).extents ∧ ∀ s, sectorMap (extTryToMergeLeft c).extents s = sectorMap c.extents s := by
  obtain ⟨before, be, after⟩ := c
  unfold extTryToMergeLeft
  split
  · exact ⟨h, fun s => rfl⟩
  rename_i left rest hbefore
  obtain rfl : before = left :: rest := hbefore
  split_ifs with hmerge
  · simpa [ExtCursor.extents] using lengthened_spec hmerge (by simpa [ExtCursor.extents] using h)
  · exact ⟨h, fun s => rfl⟩

theorem extTryToMergeRight_spec (h : ExtOrdered c.extents) :
    ExtOrdered (extTryToMergeRight c).extents ∧ ∀ s, sectorMap (extTryToMergeRight c).extents s = sectorMap c.extents s := by
  obtain ⟨before, be, after⟩ := c
  unfold extTryToMergeRight
  split
  · exact ⟨h, fun s => rfl⟩
  rename_i right rest hafter
  obtain rfl : after = right :: rest := hafter
  split_ifs with hmerge
  · simpa [ExtCursor.extents] using lengthened_spec hmerge (by simpa [ExtCursor.extents] using h)
  · exact ⟨h, fun s => rfl⟩

end

/-! ## Searching -/

/-- The last node a walk visited stands next to the place between `before` and `after` where it fell off the tree. -/
def Near (before after : List PnfsBlockExtent) : Option ExtCursor → Prop
  | none => before = [] ∧ after = []
  | some c => c.be :: c.before = before ∧ c.after = after ∨ c.before = before ∧ c.be :: c.after = after

/-- What a walk that began above these extents has found. -/
def ExtSearch.Correct (start : Nat) (xs : List PnfsBlockExtent) : ExtSearch → Prop
  | .found c => c.extents = xs ∧ c.be.beFOffset ≤ start ∧ start < extFEnd c.be
  | .fell last => ∃ before after, before.reverse ++ after = xs ∧ (∀ x ∈ before, extFEnd x ≤ start) ∧
      (∀ x ∈ after, start < x.beFOffset) ∧ Near before after last

section

variable {start s f : Nat} {root : BinaryTree PnfsBlockExtent} {c : ExtCursor} {before after : List PnfsBlockExtent}
  {be : PnfsBlockExtent}

theorem extents_node (be : PnfsBlockExtent) (l r : BinaryTree PnfsBlockExtent) (before after : List PnfsBlockExtent) :
    before.reverse ++ toList (.node be l r) ++ after = ((toList l).reverse ++ before).reverse ++ be :: (toList r ++ after) := by
  simp [toList]

theorem extents_left (be : PnfsBlockExtent) (xs : List PnfsBlockExtent) (before after : List PnfsBlockExtent) :
    (xs.reverse ++ before).reverse ++ be :: after = before.reverse ++ xs ++ be :: after := by simp

theorem extents_right (be : PnfsBlockExtent) (before ys after : List PnfsBlockExtent) :
    before.reverse ++ be :: (ys ++ after) = (be :: before).reverse ++ ys ++ after := by simp

section

variable (h : ExtOrdered (before.reverse ++ be :: after))
include h

theorem le_of_behind (hf : f ≤ be.beFOffset) :
    ∀ x ∈ be :: after, f ≤ x.beFOffset := by
  obtain ⟨-, hne, -, hright⟩ := ordered_middle.1 h
  refine forall_mem_cons.2 ⟨hf, fun x hx => ?_⟩
  have := hright x hx
  omega

theorem le_of_before (hf : extFEnd be ≤ f) :
    ∀ x ∈ be :: before, extFEnd x ≤ f := by
  obtain ⟨-, hne, hleft, -⟩ := ordered_middle.1 h
  refine forall_mem_cons.2 ⟨hf, fun x hx => ?_⟩
  have := hleft x (mem_reverse.2 hx)
  omega

end

theorem searchWalk_spec : ∀ (t : BinaryTree PnfsBlockExtent) (before after : List PnfsBlockExtent)
    (last : Option ExtCursor), ExtOrdered (before.reverse ++ toList t ++ after) → (∀ x ∈ before, extFEnd x ≤ start) →
      (∀ x ∈ after, start < x.beFOffset) → (t = .nil → Near before after last) →
        (extTreeSearchWalk start t before after last).Correct start (before.reverse ++ toList t ++ after) := by
  intro t
  induction t with
  | nil =>
    intro before after last _ hbefore hafter hnear
    exact ⟨before, after, by simp [toList], hbefore, hafter, hnear rfl⟩
  | node be l r ihl ihr =>
    intro before after last hord hbefore hafter _
    rw [extents_node] at hord ⊢
    rw [extTreeSearchWalk]
    split
    · rename_i hlt
      -- To the left: the node and everything right of it come later.
      have hafter' := le_of_behind hord hlt
      rw [extents_left] at hord ⊢
      refine ihl before _ _ hord hbefore hafter' ?_
      rintro rfl
      exact .inr ⟨by simp [toList], rfl⟩
    rename_i hge
    split_ifs with hend
    · have hbefore' := le_of_before hord hend
      rw [extents_right] at hord ⊢
      refine ihr _ after _ hord hbefore' hafter ?_
      rintro rfl
      exact .inl ⟨rfl, by simp [toList]⟩
    · exact ⟨rfl, Nat.le_of_not_lt hge, Nat.lt_of_not_le hend⟩

section

variable (h : ExtOrdered (toList root))
include h

theorem search_correct : (extTreeSearchWalk start root [] [] none).Correct start (toList root) := by
  simpa using @searchWalk_spec start root [] [] none (by simpa using h) nofun
    nofun (fun _ => ⟨rfl, rfl⟩)

/-- **A search** finds the first extent that ends after the sector. -/
theorem search_spec : match extTreeSearch root start with
    | some c => c.extents = toList root ∧ (∀ x ∈ c.before, extFEnd x ≤ start) ∧ start < extFEnd c.be
    | none => ∀ x ∈ toList root, extFEnd x ≤ start := by
  have hspec := @search_correct start root h
  rw [extTreeSearch]
  cases hwalk : extTreeSearchWalk start root [] [] none with
  | found c =>
    rw [hwalk] at hspec
    obtain ⟨hext, hlo, hhi⟩ := hspec
    refine ⟨hext, ?_, hhi⟩
    intro x hx
    rw [← hext] at h
    exact Nat.le_trans ((ordered_middle.1 h).2.2.1 x (mem_reverse.2 hx)) hlo
  | fell near =>
    rw [hwalk] at hspec
    obtain ⟨before, after, hxs, hbefore, hafter, hnear⟩ := hspec
    have hafter_end : ∀ x ∈ after, start < extFEnd x := by
      intro x hx
      have := h.nonempty x (hxs ▸ mem_append_right _ hx)
      have := hafter x hx
      omega
    cases near with
    | none =>
      obtain ⟨rfl, rfl⟩ := hnear
      intro x hx
      rw [← hxs] at hx
      cases hx
    | some d =>
      by_cases hlt : start < d.be.beFOffset
      · simp only [if_pos hlt]
        rcases hnear with ⟨rfl, -⟩ | ⟨rfl, rfl⟩
        · -- The node before the place begins before the sector.
          have hend := hbefore d.be mem_cons_self
          simp only [extFEnd] at hend
          omega
        · exact ⟨hxs, hbefore, hafter_end _ mem_cons_self⟩
      simp only [if_neg hlt, extTreeNext]
      rcases hnear with ⟨rfl, rfl⟩ | ⟨rfl, rfl⟩
      · cases hrest : d.after with
        | nil =>
          intro x hx
          rw [← hxs, hrest, append_nil] at hx
          exact hbefore x (mem_reverse.1 hx)
        | cons be rest =>
          rw [hrest] at hxs hafter_end
          exact ⟨hxs, hbefore, hafter_end _ mem_cons_self⟩
      · exact absurd (hafter d.be mem_cons_self) hlt

theorem search_eq_some (hc : extTreeSearch root start = some c) :
    c.extents = toList root ∧ (∀ x ∈ c.before, extFEnd x ≤ start) ∧ start < extFEnd c.be := by
  simpa only [hc] using @search_spec start root h

theorem search_eq_none (hc : extTreeSearch root start = none) : ∀ x ∈ toList root, extFEnd x ≤ start := by
  simpa only [hc] using @search_spec start root h

theorem lookupOne_spec : (extTreeLookupOne s root).map (extMapping · s) = sectorMap (toList root) s := by
  induction root with
  | nil => rfl
  | node be l r ihl ihr =>
    obtain ⟨hl, hrest, -⟩ := ordered_append.1 h
    obtain ⟨-, hne, hleft, hright⟩ := ordered_middle.1 h
    have hr := (ordered_cons.1 hrest).2.1
    rw [extTreeLookupOne]
    simp only [toList, sectorMap, valueAt_append, valueAt_cons]
    split
    · rename_i hlt
      have hnone : valueAt PnfsBlockExtent.beFOffset extFEnd extMapping (toList r) s = none := by
        rw [valueAt_eq_none]
        intro x hx
        have := hright x hx
        omega
      rw [if_neg (by omega), hnone, Option.or_none]
      exact ihl hl
    rename_i hge
    have hnone : valueAt PnfsBlockExtent.beFOffset extFEnd extMapping (toList l) s = none := by
      rw [valueAt_eq_none]
      intro x hx
      have := hleft x hx
      omega
    rw [hnone]
    split
    · rw [if_neg (by omega)]
      exact ihr hr
    · rw [if_pos (by omega)]
      rfl

end

end

/-! ## Insertion -/

/-- `xs'` says what `xs` says about the sectors it covers, and about the others what `new` says. -/
def Extends (xs : List PnfsBlockExtent) (new : PnfsBlockExtent) (xs' : List PnfsBlockExtent) : Prop :=
  ExtOrdered xs' ∧ ∀ s, sectorMap xs' s = (sectorMap xs s).or (sectorMap [new] s)

section

variable {new be part : PnfsBlockExtent} {xs ys before after xs' : List PnfsBlockExtent} {mergeOk ok : Bool}
  {shape : TreeShape} {alloc : Nat → Bool} {root root' : BinaryTree PnfsBlockExtent} {s start diff len f : Nat}
  {c : ExtCursor}

theorem extends_placed (h : ExtOrdered (xs ++ ys)) (hnew : new.beFOffset < extFEnd new)
    (hxs : ∀ x ∈ xs, extFEnd x ≤ new.beFOffset) (hys : ∀ y ∈ ys, extFEnd new ≤ y.beFOffset) :
    Extends (xs ++ ys) new (xs ++ new :: ys) := by
  have hord := ordered_middle.2 ⟨h, hnew, hxs, hys⟩
  exact ⟨hord, fun s => valueAt_insert hord⟩

theorem Extends.trans {ys' : List PnfsBlockExtent} (h : Extends xs new ys) (hord : ExtOrdered ys')
    (hsame : ∀ s, sectorMap ys' s = sectorMap ys s) : Extends xs new ys' :=
  ⟨hord, fun s => (hsame s).trans (h.2 s)⟩

theorem extMapping_extendFront (hmerge : extCanMerge new be) (s : Nat) :
    extMapping (extendFront be new) s = extMapping new s := by
  obtain ⟨hstate, hdevice, -, -, htag⟩ := extCanMerge_iff.1 hmerge
  simp only [extMapping, extendFront, hstate, hdevice, ExtMapping.mk.injEq, true_and]
  constructor
  · by_cases hnone : be.beState = .noneData <;> simp [hnone]
  · by_cases hinv : be.beState = .invalidData
    · simp [hinv, htag (hstate.trans hinv)]
    · simp [hinv]

theorem extends_mergeLeft (h : Extends xs new (before.reverse ++ new :: be :: after)) (hmerge : extCanMerge new be) :
    Extends xs new (extTryToMergeLeft ⟨before, extendFront be new, after⟩).extents := by
  have hend := (extCanMerge_iff.1 hmerge).2.2.1
  obtain ⟨hord, hsame⟩ := merged_spec (extendFront be new) hmerge
    (by simpa using h.1) rfl (by simp only [extFEnd, extendFront] at hend ⊢; omega) (extMapping_extendFront hmerge)
  rw [append_assoc] at hord
  obtain ⟨hord', hsame'⟩ := extTryToMergeLeft_spec (c := ⟨before, extendFront be new, after⟩) hord
  refine h.trans hord' fun s => (hsame' s).trans ?_
  simpa [ExtCursor.extents] using hsame s

theorem extends_mergeRight (h : Extends xs new (before.reverse ++ be :: new :: after)) (hmerge : extCanMerge be new) :
    Extends xs new (extTryToMergeRight ⟨before, { be with beLength := be.beLength + new.beLength }, after⟩).extents := by
  obtain ⟨hord, hsame⟩ := lengthened_spec hmerge (by simpa using h.1)
  obtain ⟨hord', hsame'⟩ := extTryToMergeRight_spec (c := ⟨before, _, after⟩) (by simpa [ExtCursor.extents] using hord)
  refine h.trans hord' fun s => (hsame' s).trans ?_
  simpa [ExtCursor.extents] using hsame s

/-- **`__ext_tree_insert`** of an extent that overlaps no other one. -/
theorem insertWalk_spec (hnew : new.beFOffset < extFEnd new) : ∀ (t : BinaryTree PnfsBlockExtent)
    (before after : List PnfsBlockExtent), ExtOrdered (before.reverse ++ toList t ++ after) →
      (∀ x ∈ toList t, extFEnd x ≤ new.beFOffset ∨ extFEnd new ≤ x.beFOffset) →
        (∀ x ∈ before, extFEnd x ≤ new.beFOffset) → (∀ x ∈ after, extFEnd new ≤ x.beFOffset) →
          ∃ xs, extTreeInsertWalk new mergeOk t before after = some xs ∧ Extends (before.reverse ++ toList t ++ after) new xs := by
  intro t
  induction t with
  | nil =>
    intro before after hord _ hbefore hafter
    refine ⟨_, rfl, ?_⟩
    simp only [toList, append_nil] at hord ⊢
    exact extends_placed hord hnew (fun x hx => hbefore x (mem_reverse.1 hx)) hafter
  | node be l r ihl ihr =>
    intro before after hord hapart hbefore hafter
    have hbe := hapart be (by simp [toList])
    have hl : ∀ x ∈ toList l, extFEnd x ≤ new.beFOffset ∨ extFEnd new ≤ x.beFOffset :=
      fun x hx => hapart x (by simp [toList, hx])
    have hr : ∀ x ∈ toList r, extFEnd x ≤ new.beFOffset ∨ extFEnd new ≤ x.beFOffset :=
      fun x hx => hapart x (by simp [toList, hx])
    rw [extents_node] at hord ⊢
    obtain ⟨-, hne, hleft, hright⟩ := ordered_middle.1 hord
    rw [extTreeInsertWalk]
    split
    · rename_i hlt
      have hafter' := le_of_behind (f := extFEnd new) hord (by omega)
      split_ifs with hmerge
      · refine ⟨_, rfl, extends_mergeLeft ?_ hmerge.2⟩
        have hadj := (extCanMerge_iff.1 hmerge.2).2.2.1
        apply extends_placed hord hnew _ hafter'
        intro x hx
        -- What lies before `be` lies before the new extent, which ends where `be` begins.
        have hxbe := hleft x hx
        rw [reverse_append, reverse_reverse, mem_append] at hx
        rcases hx with hx | hx
        · exact hbefore x (mem_reverse.1 hx)
        rcases hl x hx with h | h
        · exact h
        · have := hord.nonempty x (by simp [hx])
          omega
      · rw [extents_left] at hord ⊢
        exact ihl before _ hord hl hbefore hafter'
    · rename_i hge
      have hend : extFEnd be ≤ new.beFOffset := by omega
      have hbefore' := le_of_before hord hend
      rw [if_pos hend]
      split_ifs with hmerge
      · refine ⟨_, rfl, extends_mergeRight ?_ hmerge.2⟩
        have hadj := (extCanMerge_iff.1 hmerge.2).2.2.1
        have hplaced := extends_placed
          (by simpa using hord) hnew (fun x hx => hbefore' x (mem_reverse.1 hx)) (by
            intro x hx
            have hxbe := hright x hx
            rcases mem_append.1 hx with hx' | hx'
            · rcases hr x hx' with h | h
              · have := hord.nonempty x (by simp [hx'])
                omega
              · exact h
            · exact hafter x hx')
        simpa using hplaced
      · rw [extents_right] at hord ⊢
        exact ihr _ after hord hr hbefore' hafter

theorem link_spec (hord : ExtOrdered (toList root)) (hnew : new.beFOffset < extFEnd new)
    (hapart : ∀ x ∈ toList root, extFEnd x ≤ new.beFOffset ∨ extFEnd new ≤ x.beFOffset) :
    ∃ root', extTreeLink shape root new = some root' ∧ Extends (toList root) new (toList root') := by
  obtain ⟨xs, hxs, hext⟩ := insertWalk_spec hnew root [] [] (by simpa using hord) hapart
    nofun nofun
  refine ⟨shape.build xs, ?_, ?_⟩
  · rw [extTreeLink, hxs]
    rfl
  · rw [shape.toList_build]
    simpa using hext

/-! ### Parts of an extent -/

theorem sectorMap_inside (hlo : be.beFOffset ≤ s) (hhi : s < extFEnd be) :
    sectorMap [be] s = some (extMapping be s) := by
  rw [sectorMap, valueAt_cons, if_pos ⟨hlo, hhi⟩]

theorem sectorMap_outside (h : s < be.beFOffset ∨ extFEnd be ≤ s) : sectorMap [be] s = none := by
  rw [sectorMap, valueAt_cons, if_neg (by omega), valueAt_nil]

theorem extFEnd_front (hf : be.beFOffset ≤ f) : extFEnd { be with beLength := f - be.beFOffset } = f :=
  Nat.add_sub_of_le hf

theorem sectorMap_front (hlo : be.beFOffset ≤ f) (hhi : f ≤ extFEnd be) (s : Nat) :
    sectorMap [{ be with beLength := f - be.beFOffset }] s = if s < f then sectorMap [be] s else none := by
  have hend := extFEnd_front hlo
  split_ifs with hs
  · by_cases hin : be.beFOffset ≤ s
    · rw [sectorMap_inside hin (by omega)]
      exact sectorMap_inside hin (by omega)
    · rw [sectorMap_outside (.inl (Nat.lt_of_not_le hin))]
      exact sectorMap_outside (.inl (Nat.lt_of_not_le hin))
  · exact sectorMap_outside (.inr (by omega))

theorem sectorMap_back (hlo : be.beFOffset ≤ part.beFOffset) (hend : extFEnd part = extFEnd be)
    (hmap : ∀ s, part.beFOffset ≤ s → extMapping part s = extMapping be s) (s : Nat) :
    sectorMap [part] s = if part.beFOffset ≤ s then sectorMap [be] s else none := by
  split_ifs with hs
  · by_cases hhi : s < extFEnd be
    · rw [sectorMap_inside hs (hend ▸ hhi), hmap s hs, sectorMap_inside (by omega) hhi]
    · rw [sectorMap_outside (.inr (by omega)), sectorMap_outside (.inr (by omega))]
  · exact sectorMap_outside (.inl (Nat.lt_of_not_le hs))

theorem extMapping_advance (hs : be.beFOffset + diff ≤ s) : extMapping (be.advance diff len) s = extMapping be s := by
  have hsum : s - be.beFOffset = diff + (s - (be.beFOffset + diff)) := by omega
  unfold extMapping
  rw [hsum, BitVec.ofNat_add, ← BitVec.add_assoc]
  rfl

section

variable (hlo : new.beFOffset ≤ extFEnd be) (hhi : extFEnd be < extFEnd new)
include hlo hhi

theorem restBehind_bounds : (restBehind new be).beFOffset = extFEnd be ∧ extFEnd (restBehind new be) = extFEnd new ∧
    (restBehind new be).beLength = extFEnd new - extFEnd be := by
  simp only [restBehind, PnfsBlockExtent.advance, extFEnd] at hlo hhi ⊢
  refine ⟨by omega, by omega, trivial⟩

theorem sectorMap_restBehind :
    sectorMap [restBehind new be] s = if extFEnd be ≤ s then sectorMap [new] s else none := by
  obtain ⟨hstart, hstop, -⟩ := restBehind_bounds hlo hhi
  rw [← hstart]
  exact sectorMap_back (hstart ▸ hlo) hstop (fun s hs => extMapping_advance hs) s

end

/-! ### The loop -/

/-- What `ext_tree_insert` leaves: no sector loses its mapping or gets another one than that of `new`; on success
every sector of `new` has one. -/
structure Inserted (xs : List PnfsBlockExtent) (new : PnfsBlockExtent) (xs' : List PnfsBlockExtent) (ok : Bool) : Prop where
  ordered : ExtOrdered xs'
  keeps : ∀ s, sectorMap xs' s = sectorMap xs s ∨ sectorMap xs' s = (sectorMap xs s).or (sectorMap [new] s)
  covers : ok = true → ∀ s, sectorMap xs' s = (sectorMap xs s).or (sectorMap [new] s)

theorem Inserted.of_part (h : Inserted xs part xs' ok)
    (hpart : ∀ s, sectorMap xs s = none → sectorMap [part] s = sectorMap [new] s) : Inserted xs new xs' ok := by
  have hor : ∀ s, (sectorMap xs s).or (sectorMap [part] s) = (sectorMap xs s).or (sectorMap [new] s) := by
    intro s
    cases hs : sectorMap xs s with
    | none => rw [Option.none_or, Option.none_or, hpart s hs]
    | some m => rfl
  exact ⟨h.ordered, fun s => (h.keeps s).imp_right fun hs => hs.trans (hor s), fun hok s => (h.covers hok s).trans (hor s)⟩

theorem Inserted.of_split {rest : PnfsBlockExtent} (hys : Extends xs part ys) (h : Inserted ys rest xs' ok)
    (hcases : ∀ s, sectorMap [part] s = none ∨ sectorMap [part] s = sectorMap [new] s)
    (hboth : ∀ s, sectorMap xs s = none → (sectorMap [part] s).or (sectorMap [rest] s) = sectorMap [new] s) :
    Inserted xs new xs' ok := by
  have hor : ∀ s, (sectorMap ys s).or (sectorMap [rest] s) = (sectorMap xs s).or (sectorMap [new] s) := by
    intro s
    rw [hys.2 s]
    cases hs : sectorMap xs s with
    | none => rw [Option.none_or, Option.none_or, hboth s hs]
    | some m => rfl
  refine ⟨h.ordered, fun s => ?_, fun hok s => (h.covers hok s).trans (hor s)⟩
  rcases h.keeps s with hs | hs
  · rw [hs, hys.2 s]
    rcases hcases s with hpart | hpart
    · exact .inl (by rw [hpart, Option.or_none])
    · exact .inr (by rw [hpart])
  · exact .inr (hs.trans (hor s))

theorem Extends.inserted (h : Extends xs new ys) : Inserted xs new ys true :=
  ⟨h.1, fun s => .inr (h.2 s), fun _ => h.2⟩

theorem apart_of_search {stop : Nat} (hord : ExtOrdered (toList root)) (hc : extTreeSearch root start = some c)
    (hstop : stop ≤ c.be.beFOffset) : ∀ x ∈ toList root, extFEnd x ≤ start ∨ stop ≤ x.beFOffset := by
  obtain ⟨hext, hbefore, -⟩ := search_eq_some hord hc
  rw [← hext] at hord ⊢
  obtain ⟨-, hne, -, hafter⟩ := ordered_middle.1 hord
  refine forall_mem_append.2
    ⟨fun x hx => .inl (hbefore x (mem_reverse.1 hx)), forall_mem_cons.2 ⟨.inr hstop, fun x hx => ?_⟩⟩
  have := hafter x hx
  exact .inr (by omega)

theorem covered_of_search (hord : ExtOrdered (toList root)) (hc : extTreeSearch root start = some c)
    (hs : sectorMap (toList root) s = none) : s < c.be.beFOffset ∨ extFEnd c.be ≤ s := by
  obtain ⟨hext, -, -⟩ := search_eq_some hord hc
  have hmem : c.be ∈ toList root := by
    rw [← hext, ExtCursor.extents]
    simp
  exact valueAt_eq_none.1 hs _ hmem

/-- **The loop of `ext_tree_insert`** ends, without a `BUG()`. -/
theorem insertLoop_spec : ∀ (fuel : Nat) (root : BinaryTree PnfsBlockExtent) (new : PnfsBlockExtent),
    ExtOrdered (toList root) → new.beFOffset < extFEnd new → new.beLength < fuel →
      ∃ root' ok, extTreeInsertLoop shape alloc fuel root new = some (root', ok) ∧
        Inserted (toList root) new (toList root') ok := by
  intro fuel
  induction fuel with
  | zero =>
    intro root new _ _ hfuel
    omega
  | succ fuel ih =>
    intro root new hord hnew hfuel
    rw [extTreeInsertLoop]
    split
    · rename_i hnone
      have hapart := search_eq_none hord hnone
      obtain ⟨root', hlink, hext⟩ := link_spec hord hnew fun x hx => .inl (hapart x hx)
      exact ⟨root', true, by rw [hlink]; rfl, hext.inserted⟩
    rename_i before be after hc
    have hlt : new.beFOffset < extFEnd be := (search_eq_some hord hc).2.2
    have hcover := fun s => covered_of_search (s := s) hord hc
    have hlen : extFEnd new = new.beFOffset + new.beLength := rfl
    have hbe : be.beFOffset ≤ extFEnd be := Nat.le_add_right _ _
    dsimp only at hcover
    split
    · rename_i hend
      obtain ⟨root', hlink, hext⟩ := link_spec hord hnew (apart_of_search hord hc hend)
      exact ⟨root', true, by rw [hlink]; rfl, hext.inserted⟩
    rename_i hend
    split
    · rename_i hle
      split_ifs with hinside
      · refine ⟨root, true, rfl, hord, fun s => .inl rfl, fun _ s => ?_⟩
        cases hs : sectorMap (toList root) s with
        | none =>
          have := hcover s hs
          rw [sectorMap_outside (by omega)]
          rfl
        | some m => rfl
      have hrest := fun s => sectorMap_restBehind (s := s) (Nat.le_of_lt hlt) (Nat.lt_of_not_le hinside)
      obtain ⟨hstart, hstop, hlen'⟩ := restBehind_bounds (Nat.le_of_lt hlt) (Nat.lt_of_not_le hinside)
      obtain ⟨root', ok, hloop, hins⟩ := ih root (restBehind new be) hord (by omega) (by omega)
      refine ⟨root', ok, hloop, hins.of_part fun s hs => ?_⟩
      have := hcover s hs
      rw [hrest]
      split
      · rfl
      · rw [sectorMap_outside (by omega)]
    · rename_i hbefore
      have hfront := @sectorMap_front new be.beFOffset (by omega) (by omega)
      have hstop := @extFEnd_front new be.beFOffset (by omega)
      obtain ⟨root1, hlink, hext⟩ := @link_spec { new with beLength := be.beFOffset - new.beFOffset } _ _ hord
        (hstop.symm ▸ Nat.lt_of_not_le hbefore) (apart_of_search hord hc (Nat.le_of_eq hstop))
      split
      · rename_i hinside
        refine ⟨root1, true, by rw [hlink]; rfl, hext.inserted.of_part fun s hs => ?_⟩
        have := hcover s hs
        rw [hfront]
        split
        · rfl
        · rw [sectorMap_outside (by omega)]
      rename_i hover
      have hrest := fun s => sectorMap_restBehind (s := s) (Nat.le_of_lt hlt) (Nat.lt_of_not_le hover)
      obtain ⟨hstart, hstop, hlen'⟩ := restBehind_bounds (Nat.le_of_lt hlt) (Nat.lt_of_not_le hover)
      split
      · obtain ⟨root', ok, hloop, hins⟩ := ih root1 (restBehind new be) hext.1 (by omega) (by omega)
        refine ⟨root', ok, by rw [hlink]; exact hloop, Inserted.of_split hext hins (fun s => ?_) fun s hs => ?_⟩
        · rw [hfront]
          split
          · exact .inr rfl
          · exact .inl rfl
        · have := hcover s hs
          rw [hfront, hrest]
          by_cases hlow : s < be.beFOffset
          · rw [if_pos hlow, if_neg (by omega), Option.or_none]
          · rw [if_neg hlow, if_pos (by omega), Option.none_or]
      · exact ⟨root, false, rfl, hord, fun s => .inl rfl, nofun⟩

end

/-! ## Removal -/

/-- `xs'` says nothing about the sectors from `start` up to `stop`, and what `xs` says about the others. -/
def Erased (start stop : Nat) (xs xs' : List PnfsBlockExtent) : Prop :=
  ExtOrdered xs' ∧ ∀ s, sectorMap xs' s = if start ≤ s ∧ s < stop then none else sectorMap xs s

section

variable {be : PnfsBlockExtent} {xs ys ys' : List PnfsBlockExtent} {start stop f s : Nat} {hole : BitVec 64}
  {shape : TreeShape} {alloc : Bool} {root : BinaryTree PnfsBlockExtent}

theorem sectorMap_append (s : Nat) : sectorMap (xs ++ ys) s = (sectorMap xs s).or (sectorMap ys s) := valueAt_append

theorem sectorMap_cons (be : PnfsBlockExtent) (s : Nat) : sectorMap (be :: xs) s = (sectorMap [be] s).or (sectorMap xs s) :=
  @sectorMap_append [be] _ s

theorem sectorMap_before (h : ∀ x ∈ xs, s < x.beFOffset) : sectorMap xs s = none :=
  valueAt_eq_none.2 fun x hx => .inl (h x hx)

theorem sectorMap_behind (h : ∀ x ∈ xs, extFEnd x ≤ s) : sectorMap xs s = none :=
  valueAt_eq_none.2 fun x hx => .inr (h x hx)

theorem extMapping_cutFront (hlo : be.beFOffset ≤ f) (hhi : f ≤ extFEnd be) (hs : f ≤ s) :
    extMapping (cutFront be f hole) s = extMapping be s := by
  have hlen : be.beLength = (f - be.beFOffset) + (extFEnd be - f) := by
    simp only [extFEnd] at hhi ⊢
    omega
  have hsum : s - be.beFOffset = (f - be.beFOffset) + (s - f) := by omega
  by_cases hnone : be.beState = .noneData
  · simp [extMapping, cutFront, hnone]
  simp only [extMapping, cutFront, hnone, if_false, ne_eq, not_false_eq_true, if_true, hsum]
  conv_lhs => rw [hlen]
  simp only [BitVec.ofNat_add, ← BitVec.add_assoc, BitVec.add_sub_cancel]

theorem extFEnd_cutFront (hhi : f ≤ extFEnd be) : extFEnd (cutFront be f hole) = extFEnd be := by
  simp only [extFEnd, cutFront] at hhi ⊢
  omega

theorem sectorMap_cutFront (hlo : be.beFOffset ≤ f) (hhi : f ≤ extFEnd be) (s : Nat) :
    sectorMap [cutFront be f hole] s = if f ≤ s then sectorMap [be] s else none :=
  @sectorMap_back be (cutFront be f hole) hlo (extFEnd_cutFront hhi) (fun _ hs => extMapping_cutFront hlo hhi hs) s

theorem extRemoveRest_spec (h : ExtOrdered xs) : ExtOrdered (extRemoveRest stop xs) ∧
    ∀ s, sectorMap (extRemoveRest stop xs) s = if s < stop then none else sectorMap xs s := by
  induction xs with
  | nil => exact ⟨ordered_nil, fun s => by split <;> rfl⟩
  | cons be rest ih =>
    obtain ⟨hne, hrest, hafter⟩ := ordered_cons.1 h
    rw [extRemoveRest]
    split
    · rename_i hend
      obtain ⟨hord, hmap⟩ := ih hrest
      refine ⟨hord, fun s => ?_⟩
      rw [hmap]
      split
      · rfl
      · rw [sectorMap_cons, sectorMap_outside (.inr (by omega)), Option.none_or]
    rename_i hend
    have hbehind : ∀ s, s < stop → sectorMap rest s = none := by
      intro s hs
      apply sectorMap_before
      intro x hx
      have := hafter x hx
      omega
    split_ifs with hlt
    · have hcut := @sectorMap_cutFront be stop be.beVOffset (by omega) (by omega)
      constructor
      · refine ordered_cons.2 ⟨?_, hrest, ?_⟩
        · rw [extFEnd_cutFront (by omega)]
          exact Nat.lt_of_not_le hend
        · rw [extFEnd_cutFront (by omega)]
          exact hafter
      · intro s
        rw [sectorMap_cons, hcut, @sectorMap_cons rest]
        by_cases hs : s < stop
        · rw [if_pos hs, if_neg (by omega), hbehind s hs]
          rfl
        · rw [if_neg hs, if_pos (by omega)]
    · refine ⟨h, fun s => ?_⟩
      split_ifs with hs
      · rw [sectorMap_cons, sectorMap_outside (.inl (by omega)), hbehind s hs]
        rfl
      · rfl

theorem Erased.behind (h : Erased start stop ys ys') (hord : ExtOrdered (xs ++ ys)) (hxs : ∀ x ∈ xs, extFEnd x ≤ start) :
    Erased start stop (xs ++ ys) (xs ++ ys') := by
  constructor
  · have hreplace := @Ordered.replace _ _ _ _ extMapping xs ys [] (by simpa using hord) _ h.1 (by
      intro s hs
      have hmap := h.2 s
      rw [show sectorMap ys s = none from hs, ite_self] at hmap
      exact hmap)
    simpa using hreplace
  · intro s
    rw [sectorMap_append, sectorMap_append, h.2 s]
    split_ifs with hs
    · rw [sectorMap_behind (fun x hx => Nat.le_trans (hxs x hx) hs.1)]
      rfl
    · rfl

section

variable {after : List PnfsBlockExtent} (hord : ExtOrdered (be :: after)) (hle : start ≤ stop)
include hord

theorem sectorMap_after (hs : s < extFEnd be) : sectorMap after s = none := by
  obtain ⟨-, -, hafter⟩ := ordered_cons.1 hord
  apply sectorMap_before
  intro x hx
  have := hafter x hx
  omega

theorem erased_front (hfront : start ≤ be.beFOffset) (hstop : be.beFOffset < stop) (hover : stop < extFEnd be) :
    Erased start stop (be :: after) (cutFront be stop hole :: after) := by
  obtain ⟨-, hrest, hafter⟩ := ordered_cons.1 hord
  have hend := @extFEnd_cutFront _ _ hole (Nat.le_of_lt hover)
  constructor
  · refine ordered_cons.2 ⟨?_, hrest, ?_⟩
    · rw [hend]
      exact hover
    · rw [hend]
      exact hafter
  · intro s
    rw [sectorMap_cons, sectorMap_cutFront (Nat.le_of_lt hstop) (Nat.le_of_lt hover), @sectorMap_cons after]
    by_cases hs : stop ≤ s
    · rw [if_pos hs, if_neg (by omega)]
    rw [if_neg hs, sectorMap_after hord (by omega)]
    split
    · rfl
    · rw [sectorMap_outside (.inl (by omega))]

theorem erased_all (hfront : start ≤ be.beFOffset) : Erased start stop (be :: after) (extRemoveRest stop (be :: after)) := by
  obtain ⟨hord', hmap⟩ := extRemoveRest_spec hord
  obtain ⟨hne, -, hafter⟩ := ordered_cons.1 hord
  refine ⟨hord', fun s => ?_⟩
  rw [hmap]
  by_cases hs : start ≤ s
  · simp [hs]
  rw [if_neg (fun h : start ≤ s ∧ s < stop => hs h.1), sectorMap_before, ite_self]
  refine forall_mem_cons.2 ⟨by omega, fun x hx => ?_⟩
  have := hafter x hx
  omega

theorem erased_rest (hlo : be.beFOffset < start) (hin : start < extFEnd be) (hover : extFEnd be ≤ stop) :
    Erased start stop (be :: after) ({ be with beLength := start - be.beFOffset } :: extRemoveRest stop after) := by
  obtain ⟨-, hrest, hafter⟩ := ordered_cons.1 hord
  obtain ⟨hord', hmap⟩ := extRemoveRest_spec hrest
  have hlow := sectorMap_front (Nat.le_of_lt hlo) (Nat.le_of_lt hin)
  have hend := extFEnd_front (Nat.le_of_lt hlo)
  constructor
  · refine ordered_cons.2 ⟨hend.symm ▸ hlo, hord', ?_⟩
    intro x hx
    -- The first sector of an extent that is left was covered by `after`.
    have hxin := @Ordered.valueAt_of_mem _ _ _ _ extMapping _ _ _ hord' hx (Nat.le_refl _) (hord'.nonempty x hx)
    rw [show valueAt _ _ _ _ _ = sectorMap _ _ from rfl, hmap] at hxin
    split at hxin
    · cases hxin
    · omega
  · intro s
    rw [sectorMap_cons, hlow, hmap, @sectorMap_cons after]
    by_cases hs : s < start
    · rw [if_pos hs, if_pos (by omega), if_neg (by omega), sectorMap_after hord (by omega)]
    rw [if_neg hs, Option.none_or]
    by_cases hs' : s < stop
    · rw [if_pos hs', if_pos (by omega)]
    · rw [if_neg hs', if_neg (by omega), sectorMap_outside (.inr (by omega)), Option.none_or]

include hle

theorem erased_split (hlo : be.beFOffset < start) (hin : stop < extFEnd be) (hxs : ∀ x ∈ xs, extFEnd x ≤ start)
    (h : Extends (xs ++ { be with beLength := start - be.beFOffset } :: after) (cutFront be stop hole) ys') :
    Erased start stop (xs ++ be :: after) ys' := by
  have hlow := @sectorMap_front be start (by omega) (by omega)
  refine ⟨h.1, fun s => ?_⟩
  rw [h.2, sectorMap_append, sectorMap_append, sectorMap_cons, hlow, @sectorMap_cons after,
    sectorMap_cutFront (by omega) (Nat.le_of_lt hin)]
  by_cases hs : s < start
  · rw [if_pos hs, if_neg (by omega), if_neg (by omega), Option.or_none]
  have hbefore : sectorMap xs s = none := sectorMap_behind fun x hx => Nat.le_trans (hxs x hx) (by omega)
  rw [if_neg hs, hbefore, Option.none_or, Option.none_or, Option.none_or]
  by_cases hs' : s < stop
  · rw [if_neg (by omega), if_pos (by omega), sectorMap_after hord (by omega)]
    rfl
  rw [if_pos (by omega), if_neg (by omega)]
  by_cases hend : s < extFEnd be
  · rw [sectorMap_after hord hend, Option.none_or, Option.or_none]
  · rw [sectorMap_outside (.inr (by omega)), Option.or_none, Option.none_or]

end

/-- **`__ext_tree_remove`** never hits the `BUG()`; if it fails nothing has changed. -/
theorem removeOne_spec (hord : ExtOrdered (toList root)) (hle : start ≤ stop) :
    ∃ root' ok, extTreeRemoveOne shape alloc root start stop = some (root', ok) ∧ ExtOrdered (toList root') ∧
      if ok then Erased start stop (toList root) (toList root') else root' = root := by
  rw [extTreeRemoveOne]
  split
  · rename_i hnone
    have hends := search_eq_none hord hnone
    refine ⟨root, true, rfl, hord, hord, fun s => ?_⟩
    split_ifs with hs
    · exact sectorMap_behind fun x hx => Nat.le_trans (hends x hx) hs.1
    · rfl
  rename_i c hc
  obtain ⟨hext, hbefore, hlt⟩ := search_eq_some hord hc
  have hbefore' : ∀ x ∈ c.before.reverse, extFEnd x ≤ start := fun x hx => hbefore x (mem_reverse.1 hx)
  split
  · rename_i hstop
    have hapart := apart_of_search hord hc hstop
    refine ⟨root, true, rfl, hord, hord, fun s => ?_⟩
    split_ifs with hs
    · refine valueAt_eq_none.2 fun x hx => ?_
      have := hapart x hx
      omega
    · rfl
  rename_i hstop
  have hroot := hord
  rw [← hext] at hord ⊢
  obtain ⟨-, hrest, -⟩ := ordered_append.1 hord
  -- In all cases but one the extents from the one found on are exchanged.
  have hdone : ∀ ys', Erased start stop (c.be :: c.after) ys' → ∃ root' ok,
      some (shape.build (c.before.reverse ++ ys'), true) = some (root', ok) ∧ ExtOrdered (toList root') ∧
        if ok then Erased start stop (c.before.reverse ++ c.be :: c.after) (toList root') else root' = root := by
    intro ys' hys'
    have herased := hys'.behind hord hbefore'
    refine ⟨_, true, rfl, ?_⟩
    rw [shape.toList_build]
    exact ⟨herased.1, herased⟩
  split
  · rename_i hover
    split
    · rename_i hfront
      split
      · obtain ⟨hrest', hne, hleft, hafter⟩ := ordered_middle.1 hord
        have hlow := extFEnd_front (Nat.le_of_lt hfront)
        have hend := @extFEnd_cutFront _ _ 0 (Nat.le_of_lt hover)
        obtain ⟨root', hlink, hextends⟩ := @link_spec _ _
          (shape.build (c.before.reverse ++ { c.be with beLength := start - c.be.beFOffset } :: c.after))
          (by
            rw [shape.toList_build]
            refine ordered_middle.2 ⟨hrest', by rw [hlow]; exact hfront, hleft, fun y hy => ?_⟩
            have := hafter y hy
            rw [hlow]
            omega)
          (by rw [hend]; exact hover)
          (by
            rw [shape.toList_build, hend, forall_mem_append, forall_mem_cons, hlow]
            exact ⟨fun x hx => .inl (Nat.le_trans (hbefore' x hx) hle), .inl hle, fun x hx => .inr (hafter x hx)⟩)
        rw [shape.toList_build] at hextends
        exact ⟨root', true, by rw [hlink]; rfl, hextends.1, erased_split hrest hle hfront hover hbefore' hextends⟩
      · exact ⟨root, false, rfl, hroot, rfl⟩
    · rename_i hfront
      exact hdone _ (erased_front hrest (Nat.le_of_not_lt hfront) (Nat.lt_of_not_le hstop) hover)
  · rename_i hover
    split
    · rename_i hfront
      exact hdone _ (erased_rest hrest hfront hlt (Nat.le_of_not_lt hover))
    · rename_i hfront
      exact hdone _ (erased_all hrest (Nat.le_of_not_lt hfront))

end

/-! ## Runs of the layout -/

/-- The operations on a layout: extents are not empty and end inside the sector numbers, a range begins before it ends. -/
inductive ExtTreeOp where
  | insert (shape : TreeShape) (alloc : Nat → Bool) (new : PnfsBlockExtent) (nonempty : new.beFOffset < extFEnd new)
      (fits : extFEnd new < 2 ^ 64)
  | remove (shape : TreeShape) (allocRo allocRw : Bool) (rw : Bool) (start stop : Nat) (range : start ≤ stop)
      (fits : stop < 2 ^ 64)
  | lookup (isect : Nat) (rw : Bool)

def extTreeStep (bl : PnfsBlockLayout) : ExtTreeOp → Option PnfsBlockLayout
  | .insert shape alloc new _ _ => (extTreeInsert shape alloc bl new).map Prod.fst
  | .remove shape allocRo allocRw rw start stop _ _ => (extTreeRemove shape allocRo allocRw bl rw start stop).map Prod.fst
  | .lookup _ _ => some bl

section

variable (bl : PnfsBlockLayout) {shape : TreeShape}

def PnfsBlockLayout.ro : List PnfsBlockExtent := toList bl.blExtRo

def PnfsBlockLayout.rw : List PnfsBlockExtent := toList bl.blExtRw

def PnfsBlockLayout.WellFormed : Prop := ExtOrdered bl.ro ∧ ExtOrdered bl.rw

def ExtTreeOp.Maps : ExtTreeOp → Prop
  | .insert shape alloc new _ _ => ∃ bl' ok, extTreeInsert shape alloc bl new = some (bl', ok) ∧
      if new.beState.writable then Inserted bl.rw new bl'.rw ok ∧ bl'.ro = bl.ro
      else Inserted bl.ro new bl'.ro ok ∧ bl'.rw = bl.rw
  | .remove shape allocRo allocRw rw start stop _ _ =>
      ∃ bl' ok, extTreeRemove shape allocRo allocRw bl rw start stop = some (bl', ok) ∧ bl'.WellFormed ∧
        (ok = true → Erased start stop bl.ro bl'.ro ∧ (rw = true → Erased start stop bl.rw bl'.rw)) ∧
        (rw = false → bl'.rw = bl.rw)
  | .lookup isect rw => (extTreeLookup bl isect rw).map (extMapping · isect) =
      if rw then sectorMap bl.rw isect else (sectorMap bl.ro isect).or (sectorMap bl.rw isect)

variable {bl} {op : ExtTreeOp}

variable (h : bl.WellFormed)
include h

theorem insert_spec {alloc : Nat → Bool} {new : PnfsBlockExtent}
    (hnew : new.beFOffset < extFEnd new) (fits : extFEnd new < 2 ^ 64) :
    (ExtTreeOp.insert shape alloc new hnew fits).Maps bl := by
  rw [ExtTreeOp.Maps, extTreeInsert]
  split
  · obtain ⟨root, ok, hloop, hins⟩ := insertLoop_spec _ bl.blExtRw new h.2 hnew (Nat.lt_succ_self _)
    exact ⟨{ bl with blExtRw := root }, ok, by rw [hloop]; rfl, hins, rfl⟩
  · obtain ⟨root, ok, hloop, hins⟩ := insertLoop_spec _ bl.blExtRo new h.1 hnew (Nat.lt_succ_self _)
    exact ⟨{ bl with blExtRo := root }, ok, by rw [hloop]; rfl, hins, rfl⟩

theorem remove_spec {allocRo allocRw rw : Bool} {start stop : Nat} (hle : start ≤ stop)
    (fits : stop < 2 ^ 64) : (ExtTreeOp.remove shape allocRo allocRw rw start stop hle fits).Maps bl := by
  obtain ⟨ro', ok1, hro, hroOrd, hroSpec⟩ := removeOne_spec h.1 hle
  obtain ⟨rw', ok2, hrw, hrwOrd, hrwSpec⟩ := @removeOne_spec _ _ shape allocRw _ h.2 hle
  rw [ExtTreeOp.Maps, extTreeRemove, hro]
  cases rw with
  | true =>
    refine ⟨⟨ro', rw'⟩, ok1 && ok2, by simp [hrw], ⟨hroOrd, hrwOrd⟩, ?_, nofun⟩
    intro hok
    obtain ⟨rfl, rfl⟩ := Bool.and_eq_true_iff.1 hok
    exact ⟨hroSpec, fun _ => hrwSpec⟩
  | false =>
    refine ⟨{ bl with blExtRo := ro' }, ok1, rfl, ⟨hroOrd, h.2⟩, ?_, fun _ => rfl⟩
    rintro rfl
    exact ⟨hroSpec, nofun⟩

theorem lookup_spec {isect : Nat} {rw : Bool} : (ExtTreeOp.lookup isect rw).Maps bl := by
  rw [ExtTreeOp.Maps, extTreeLookup]
  split
  · exact lookupOne_spec h.2
  · rw [Option.map_or, lookupOne_spec h.1, lookupOne_spec h.2]
    rfl

theorem ExtTreeOp.maps_of_wellFormed : op.Maps bl := by
  cases op with
  | insert shape alloc new nonempty fits => exact insert_spec h nonempty fits
  | remove shape allocRo allocRw rw start stop range fits => exact remove_spec h range fits
  | lookup isect rw => exact lookup_spec h

theorem ExtTreeOp.Maps.step (hop : op.Maps bl) :
    ∃ bl', extTreeStep bl op = some bl' ∧ bl'.WellFormed := by
  cases op with
  | insert shape alloc new nonempty fits =>
    obtain ⟨bl', ok, heq, hspec⟩ := hop
    refine ⟨bl', by rw [extTreeStep, heq]; rfl, ?_⟩
    split at hspec
    · exact ⟨hspec.2 ▸ h.1, hspec.1.ordered⟩
    · exact ⟨hspec.1.ordered, hspec.2 ▸ h.2⟩
  | remove shape allocRo allocRw rw start stop range fits =>
    obtain ⟨bl', ok, heq, hwf, -⟩ := hop
    exact ⟨bl', by rw [extTreeStep, heq]; rfl, hwf⟩
  | lookup isect rw => exact ⟨bl, rfl, h⟩

end

/-- **The extent map.**  Any sequence of operations on empty trees runs through without a `BUG()`, its trees are in order, and
the next operation keeps, adds and erases the sectors it has to. -/
theorem extTree_maps (ops : List ExtTreeOp) : ∃ bl, run extTreeStep {} ops = some bl ∧ bl.WellFormed ∧ ∀ op : ExtTreeOp, op.Maps bl := by
  obtain ⟨bl, hbl, hwf⟩ := run_total (fun bl op h => (@ExtTreeOp.maps_of_wellFormed bl op h).step h)
    (⟨ordered_nil, ordered_nil⟩ : ({} : PnfsBlockLayout).WellFormed) ops
  exact ⟨bl, hbl, hwf, fun op => ExtTreeOp.maps_of_wellFormed hwf⟩

def rightSpine : TreeShape where
  build xs := xs.foldr (fun be t => .node be .nil t) .nil
  toList_build xs := by
    induction xs with
    | nil => rfl
    | cons be xs ih => simp [toList, ih]

/-- A hole merged into another one gets its volume sectors from it, 8 in place of 100; and an insertion that runs out of memory
leaves sectors of the new extent out. -/
theorem extTreeInsert_inexact :
    ((extTreeInsert rightSpine (fun _ => true) {} { beDevice := 1, beFOffset := 0, beLength := 8, beState := .noneData }).bind
      fun (bl, _) => (extTreeInsert rightSpine (fun _ => true) bl
        { beDevice := 1, beFOffset := 8, beLength := 8, beVOffset := 100, beState := .noneData }).bind fun (bl', ok) =>
          (extTreeLookup bl' 8 false).map fun be => (ok, be.beVOffset + BitVec.ofNat 64 (8 - be.beFOffset))) = some (true, 8) ∧
    ((extTreeInsert rightSpine (fun _ => true) {} { beDevice := 1, beFOffset := 8, beLength := 8, beState := .readData }).bind
      fun (bl, _) => (extTreeInsert rightSpine (fun _ => false) bl
        { beDevice := 1, beFOffset := 0, beLength := 24, beState := .readData }).map fun (bl', ok) =>
          (ok, extTreeLookup bl' 0 false)) = some (false, none) := by
  constructor <;> rfl

end Vastnfs.Nfs
