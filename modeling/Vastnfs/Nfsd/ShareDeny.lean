import Vastnfs.Nfsd.ShareAccess

/-!
# Share reservations of an open file on the server

Deny modes are checked against the access counters of the file, accesses against its deny mode. Lock
stateids take their access outside of these checks, and copy the deny bits of their open stateid.

* `shareDeny_exclusive`: two open owners never hold an access and a deny mode that exclude each
  other, but for READ taken by a lock through an open stateid without READ; when the deny mode of the
  file is the union of those of the open stateids.
* `shareDeny_overlaps`: such a lock, and a deny mode that outlives a downgrade in a lock stateid.
* `failedOpen_undone_iff`: when an OPEN that fails takes back all it did.
-/

namespace Vastnfs.Nfsd

open List

/-! ## Modes -/

def unionDeny (l : List Nfs4OlStateid) : BitVec 32 := l.foldl (fun deny s => deny ||| bmapToShareMode s.denyBmap) 0#32

section

variable {share d : BitVec 32} {bmap : BitVec 8} {m : AccMode} {l : List Nfs4OlStateid} {s stp : Nfs4OlStateid} {i : Nat}

def AccMode.bit : AccMode → Nat
  | .rdonly => 0
  | .wronly => 1

theorem hasShare_eq : hasShare share m = share.getLsbD m.bit := by
  have hpow : m.share = BitVec.twoPow 32 m.bit := by
    cases m <;> rfl
  unfold hasShare
  rw [hpow, BitVec.and_twoPow]
  cases m <;> cases h : share.getLsbD _ <;> simp only [if_true, if_false, Bool.false_eq_true] <;> decide

theorem hasShare_mode : ∀ bmap : BitVec 8, hasShare (bmapToShareMode bmap) m = shares bmap m := by
  cases m <;> decide +kernel

theorem mode_set (hd : IsDeny d) : ∀ bmap : BitVec 8, bmapToShareMode (setShare d bmap) = bmapToShareMode bmap ||| d := by
  rcases hd with rfl | rfl | rfl | rfl <;> decide +kernel

theorem mode_and_both : ∀ bmap : BitVec 8, bmapToShareMode bmap &&& shareBoth = bmapToShareMode bmap := by
  decide +kernel

theorem deny_and_both (hd : IsDeny d) : d &&& shareBoth = d := by
  rcases hd with rfl | rfl | rfl | rfl <;> decide

theorem shares_setDeny (hd : IsDeny d) : shares (setShare d bmap) m = (shares bmap m || hasShare d m) := by
  rw [← hasShare_mode, mode_set hd, hasShare_eq, BitVec.getLsbD_or, ← hasShare_eq, ← hasShare_eq, hasShare_mode]

theorem shares_setAccess (hs : IsShare share) :
    shares (setShare share bmap) m = true ↔ shares bmap m = true ∨ hasShare share m = true := by
  rw [shares_setDeny (.inr hs), Bool.or_eq_true]

theorem shares_clear : ∀ {bmap : BitVec 8}, IsShare share → shares (clearShare share bmap) m = true → shares bmap m = true := by
  intro bmap hs
  revert bmap
  rcases hs with rfl | rfl | rfl <;> cases m <;> decide +kernel

theorem shares_zero : shares 0#8 m = false := by
  cases m <;> decide

theorem mode_zero : bmapToShareMode 0#8 = 0#32 := by
  decide

theorem accessBits_eq_zero (h : accessBits m bmap = 0) : shares bmap m = false := by
  unfold accessBits at h
  unfold shares
  cases h1 : testShare m.share bmap <;> cases h2 : testShare shareBoth bmap <;> simp_all

theorem getLsbD_foldl_or (d : BitVec 32) :
    (l.foldl (fun deny s => deny ||| bmapToShareMode s.denyBmap) d).getLsbD i = true ↔
      d.getLsbD i = true ∨ ∃ s ∈ l, (bmapToShareMode s.denyBmap).getLsbD i = true := by
  induction l generalizing d with
  | nil => simp
  | cons s l ih =>
    rw [foldl_cons, ih, BitVec.getLsbD_or, Bool.or_eq_true, or_assoc]
    simp [exists_eq_or_imp]

theorem getLsbD_unionDeny :
    (unionDeny l).getLsbD i = true ↔ ∃ s ∈ l, (bmapToShareMode s.denyBmap).getLsbD i = true := by
  rw [unionDeny, getLsbD_foldl_or]
  simp

theorem unionDeny_congr {l' : List Nfs4OlStateid}
    (h : ∀ i, (∃ s ∈ l, (bmapToShareMode s.denyBmap).getLsbD i = true) ↔
      ∃ s ∈ l', (bmapToShareMode s.denyBmap).getLsbD i = true) : unionDeny l = unionDeny l' := by
  apply BitVec.eq_of_getLsbD_eq
  intro i _
  apply Bool.eq_iff_iff.2
  rw [getLsbD_unionDeny, getLsbD_unionDeny]
  exact h i

theorem hasShare_unionDeny (hs : s ∈ l) (h : shares s.denyBmap m = true) : hasShare (unionDeny l) m = true := by
  rw [hasShare_eq]
  apply getLsbD_unionDeny.2
  rw [← hasShare_mode, hasShare_eq] at h
  exact ⟨s, hs, h⟩

variable (hnodup : (l.map Nfs4OlStateid.id).Nodup)
include hnodup

theorem unionDeny_replace (hs : s ∈ l) (hid : s.id = stp.id)
    (hmode : bmapToShareMode stp.denyBmap = bmapToShareMode s.denyBmap ||| d) :
    unionDeny (Keyed.replace Nfs4OlStateid.id stp l) = unionDeny l ||| d := by
  obtain ⟨l₁, l₂, rfl, -, hreplace⟩ := Keyed.exists_split hnodup hs
  rw [hreplace stp hid]
  apply BitVec.eq_of_getLsbD_eq
  intro i _
  apply Bool.eq_iff_iff.2
  simp only [BitVec.getLsbD_or, Bool.or_eq_true, getLsbD_unionDeny, mem_append, mem_cons, or_and_right, exists_or,
    exists_eq_left, hmode]
  simp [or_assoc, or_comm, or_left_comm]

theorem unionDeny_replace_same (hs : s ∈ l) (hid : s.id = stp.id)
    (hdeny : stp.denyBmap = s.denyBmap) : unionDeny (Keyed.replace Nfs4OlStateid.id stp l) = unionDeny l := by
  rw [@unionDeny_replace 0#32 _ _ _ hnodup hs hid (by rw [hdeny, BitVec.or_zero]), BitVec.or_zero]

end

/-! ## Exclusion -/

def Nfs4OlStateid.root (s : Nfs4OlStateid) : Nat := s.openstp.getD s.id

/-- The accesses under the rule: all of the open stateids, WRITE of the lock stateids, and in the
strict reading also READ of the lock stateids. -/
def InScope (strict : Bool) (s : Nfs4OlStateid) (m : AccMode) : Prop := strict = true ∨ s.openstp = none ∨ m = .wronly

/-- No access of one open stateid and its locks is denied by another one and its locks. -/
def Excl (strict : Bool) (l : List Nfs4OlStateid) : Prop :=
  ∀ a ∈ l, ∀ b ∈ l, a.root ≠ b.root → ∀ m, InScope strict a m → shares a.accessBmap m = true →
    shares b.denyBmap m = false

/-- Every stateid of `l'` is one of `l` with fewer modes. -/
def Within (l' l : List Nfs4OlStateid) : Prop :=
  ∀ t' ∈ l', ∃ t ∈ l, t'.id = t.id ∧ t'.openstp = t.openstp ∧
    (∀ m, shares t'.accessBmap m = true → shares t.accessBmap m = true) ∧
    ∀ m, shares t'.denyBmap m = true → shares t.denyBmap m = true

structure ShareInv (strict : Bool) (f : Nfs4File) : Prop where
  excl : Excl strict f.stateids
  union : f.shareDeny = unionDeny f.stateids

section

variable {strict : Bool} {l l' : List Nfs4OlStateid} {s stp : Nfs4OlStateid}

theorem Within.of_subset (h : ∀ t ∈ l', t ∈ l) : Within l' l :=
  fun t ht => ⟨t, h t ht, rfl, rfl, fun _ hm => hm, fun _ hm => hm⟩

theorem Within.trans {l₂ : List Nfs4OlStateid} (h : Within l₂ l') (h' : Within l' l) : Within l₂ l := by
  intro t ht
  obtain ⟨u, hu, hid, hopen, hacc, hden⟩ := h t ht
  obtain ⟨v, hv, hid', hopen', hacc', hden'⟩ := h' u hu
  exact ⟨v, hv, hid.trans hid', hopen.trans hopen', fun m hm => hacc' m (hacc m hm), fun m hm => hden' m (hden m hm)⟩

theorem Within.replace (hs : s ∈ l) (hid : stp.id = s.id) (hopen : stp.openstp = s.openstp)
    (hacc : ∀ m, shares stp.accessBmap m = true → shares s.accessBmap m = true)
    (hden : ∀ m, shares stp.denyBmap m = true → shares s.denyBmap m = true) :
    Within (Keyed.replace Nfs4OlStateid.id stp l) l := by
  intro t ht
  rcases Keyed.mem_replace ht with rfl | ⟨ht, -⟩
  · exact ⟨s, hs, hid, hopen, hacc, hden⟩
  · exact ⟨t, ht, rfl, rfl, fun _ hm => hm, fun _ hm => hm⟩

theorem Excl.mono (h : Excl strict l) (hsub : Within l' l) : Excl strict l' := by
  intro a ha b hb hroot m hscope hm
  obtain ⟨a', ha', haid, haopen, hacc, -⟩ := hsub a ha
  obtain ⟨b', hb', hbid, hbopen, -, hden⟩ := hsub b hb
  have hroot' : a'.root ≠ b'.root := by
    unfold Nfs4OlStateid.root at hroot ⊢
    rwa [← haopen, ← haid, ← hbopen, ← hbid]
  have hscope' : InScope strict a' m := by
    unfold InScope at hscope ⊢
    rwa [← haopen]
  apply Bool.eq_false_iff.2
  intro hdeny
  exact Bool.eq_false_iff.1 (h a' ha' b' hb' hroot' m hscope' (hacc m hm)) (hden m hdeny)

theorem Excl.replace (h : Excl strict l) (hs : s ∈ l) (hid : stp.id = s.id) (hopen : stp.openstp = s.openstp)
    (hacc : ∀ m, InScope strict s m → shares stp.accessBmap m = true →
      shares s.accessBmap m = true ∨ ∀ b ∈ l, s.root ≠ b.root → shares b.denyBmap m = false)
    (hden : ∀ m, shares stp.denyBmap m = true →
      shares s.denyBmap m = true ∨ ∀ a ∈ l, shares a.accessBmap m = false) :
    Excl strict (Keyed.replace Nfs4OlStateid.id stp l) := by
  have hroot : stp.root = s.root := by
    unfold Nfs4OlStateid.root
    rw [hopen, hid]
  intro a ha b hb hne m hscope hm
  rcases Keyed.mem_replace ha with rfl | ⟨haold, -⟩
  · rcases Keyed.mem_replace hb with rfl | ⟨hbold, -⟩
    · exact absurd rfl hne
    have hscope' : InScope strict s m := by
      unfold InScope at hscope ⊢
      rwa [← hopen]
    rw [hroot] at hne
    rcases hacc m hscope' hm with hold | hfree
    · exact h s hs b hbold hne m hscope' hold
    · exact hfree b hbold hne
  rcases Keyed.mem_replace hb with rfl | ⟨hbold, -⟩
  · apply Bool.eq_false_iff.2
    intro hdeny
    rw [hroot] at hne
    rcases hden m hdeny with hold | hfree
    · exact Bool.eq_false_iff.1 (h a haold s hs hne m hscope hm) hold
    · rw [hfree a haold] at hm
      cases hm
  · exact h a haold b hbold hne m hscope hm

end

/-! ## The deny mode of the file -/

section

variable {strict : Bool} {f f' : Nfs4File} {r : AccMode → Nat} {s stp : Nfs4OlStateid} {d : BitVec 32} {m : AccMode}
  {l : List Nfs4OlStateid}

theorem shares_foldl_clear {l : List (BitVec 32)} (hl : ∀ i ∈ l, IsShare i) :
    ∀ {bmap : BitVec 8}, shares (l.foldl (fun bmap i => clearShare i bmap) bmap) m = true → shares bmap m = true := by
  induction l with
  | nil => exact fun h => h
  | cons i l ih =>
    intro bmap h
    exact shares_clear (hl i mem_cons_self) (ih (fun j hj => hl j (mem_cons_of_mem i hj)) h)

theorem isShare_outside {i : BitVec 32} (h : i ∈ outsideDeny d) : IsShare i := by
  simpa [IsShare] using mem_of_mem_filter h

theorem reset_stateids : (resetUnionBmapDeny f d stp).stateids = Keyed.replace Nfs4OlStateid.id
    { stp with denyBmap := clearOutside d stp.denyBmap } f.stateids := by
  unfold resetUnionBmapDeny
  split <;> rfl

theorem reset_within (hs : stp ∈ f.stateids) : Within (resetUnionBmapDeny f d stp).stateids f.stateids := by
  rw [reset_stateids]
  exact Within.replace hs rfl rfl (fun _ hm => hm) fun _ hm => shares_foldl_clear (fun _ hi => isShare_outside hi) hm

theorem reset_union (hnodup : (f.stateids.map Nfs4OlStateid.id).Nodup) (hs : stp ∈ f.stateids)
    (hunion : f.shareDeny = unionDeny f.stateids) :
    (resetUnionBmapDeny f d stp).shareDeny = unionDeny (resetUnionBmapDeny f d stp).stateids := by
  rw [reset_stateids]
  unfold resetUnionBmapDeny
  split_ifs with hnone
  · rfl
  rw [not_not] at hnone
  rw [clearOutside, hnone]
  exact hunion.trans (unionDeny_replace_same hnodup hs rfl rfl).symm

theorem filePutAccess_shareDeny (a : BitVec 32) : (nfs4FilePutAccess f a).shareDeny = f.shareDeny := by
  unfold nfs4FilePutAccess
  split <;> split <;> rfl

theorem releaseAllAccess_rest : (releaseAllAccess f s).stateids = f.stateids ∧
    (releaseAllAccess f s).shareDeny = if s.denyBmap ≠ 0#8 then unionDeny f.stateids else f.shareDeny := by
  have hput : ∀ (g : Nfs4File) (i : BitVec 32),
      (if testShare i s.accessBmap then nfs4FilePutAccess g i else g).stateids = g.stateids ∧
      (if testShare i s.accessBmap then nfs4FilePutAccess g i else g).shareDeny = g.shareDeny := by
    intro g i
    split
    · exact ⟨filePutAccess_stateids i, filePutAccess_shareDeny i⟩
    · exact ⟨rfl, rfl⟩
  unfold releaseAllAccess
  dsimp only [foldl_cons, foldl_nil]
  constructor
  · rw [(hput _ _).1, (hput _ _).1, (hput _ _).1]
    split <;> rfl
  · rw [(hput _ _).2, (hput _ _).2, (hput _ _).2]
    split <;> rfl

theorem reap_stateids : ∀ {f : Nfs4File}, (freeOlStateidReaplist f l).stateids = f.stateids := by
  induction l with
  | nil => exact rfl
  | cons s l ih => exact (@ih (releaseAllAccess _ s)).trans releaseAllAccess_rest.1

theorem reap_shareDeny : ∀ {f : Nfs4File}, ((∀ s ∈ l, s.denyBmap = 0#8) → f.shareDeny = unionDeny f.stateids) →
    (freeOlStateidReaplist f l).shareDeny = unionDeny f.stateids := by
  induction l with
  | nil => exact fun h => h (fun _ hs => absurd hs not_mem_nil)
  | cons s l ih =>
    intro f h
    obtain ⟨hlist, hdeny⟩ := releaseAllAccess_rest (f := f) (s := s)
    have hrest : (∀ t ∈ l, t.denyBmap = 0#8) → (releaseAllAccess f s).shareDeny = unionDeny (releaseAllAccess f s).stateids := by
      intro hl
      rw [hlist, hdeny]
      split_ifs with hzero
      · rfl
      exact h (forall_mem_cons.2 ⟨not_not.1 hzero, hl⟩)
    exact (ih hrest).trans (congrArg unionDeny hlist)

theorem unionDeny_removed {l' : List Nfs4OlStateid} (hsub : ∀ t ∈ l', t ∈ l)
    (hgone : ∀ t ∈ l, t ∈ l' ∨ t.denyBmap = 0#8) : unionDeny l = unionDeny l' := by
  apply unionDeny_congr
  intro i
  constructor
  · rintro ⟨t, ht, hbit⟩
    rcases hgone t ht with ht | hzero
    · exact ⟨t, ht, hbit⟩
    · rw [hzero, mode_zero] at hbit
      simp at hbit
  · rintro ⟨t, ht, hbit⟩
    exact ⟨t, hsub t ht, hbit⟩

variable (h : ShareInv strict f)
include h

theorem ShareInv.reap (hsub : ∀ t ∈ f'.stateids, t ∈ f.stateids)
    (hgone : ∀ t ∈ f.stateids, t ∈ f'.stateids ∨ t ∈ l) (hdeny : f'.shareDeny = f.shareDeny) :
    ShareInv strict (freeOlStateidReaplist f' l) := by
  have hstale : (∀ s ∈ l, s.denyBmap = 0#8) → f'.shareDeny = unionDeny f'.stateids := by
    intro hzero
    rw [hdeny, h.union]
    exact unionDeny_removed hsub fun t ht => (hgone t ht).imp_right (hzero t)
  constructor
  · rw [reap_stateids]
    exact h.excl.mono (Within.of_subset hsub)
  · rw [reap_stateids]
    exact reap_shareDeny hstale

theorem ShareInv.replace (stp : Nfs4OlStateid)
    (hnodup : (f.stateids.map Nfs4OlStateid.id).Nodup) (hs : s ∈ f.stateids)
    (hid : stp.id = s.id) (hopen : stp.openstp = s.openstp)
    (hacc : ∀ m, InScope strict s m → shares stp.accessBmap m = true →
      shares s.accessBmap m = true ∨ ∀ b ∈ f.stateids, s.root ≠ b.root → shares b.denyBmap m = false)
    (hmode : bmapToShareMode stp.denyBmap = bmapToShareMode s.denyBmap ||| d)
    (hden : ∀ m, hasShare d m = true → ∀ a ∈ f.stateids, shares a.accessBmap m = false)
    (hlist : f'.stateids = Keyed.replace Nfs4OlStateid.id stp f.stateids)
    (hdeny : f'.shareDeny = f.shareDeny ||| d) : ShareInv strict f' := by
  constructor
  · rw [hlist]
    refine h.excl.replace hs hid hopen hacc ?_
    intro m hm
    rw [← hasShare_mode, hmode, hasShare_eq, BitVec.getLsbD_or, ← hasShare_eq, ← hasShare_eq, hasShare_mode,
      Bool.or_eq_true] at hm
    exact hm.imp_right (hden m)
  · rw [hdeny, hlist, unionDeny_replace hnodup hs hid.symm hmode, h.union]

theorem ShareInv.hash (hacc : stp.accessBmap = 0#8) (hden : stp.denyBmap = 0#8 ∨
      ∃ t ∈ f.stateids, t.openstp = none ∧ stp.openstp = some t.id ∧ stp.denyBmap = t.denyBmap) :
    ShareInv strict (hashStateid f stp) := by
  constructor
  · intro a ha b hb hroot m hscope hm
    rcases mem_cons.1 ha with rfl | haold
    · rw [hacc, shares_zero] at hm
      cases hm
    rcases mem_cons.1 hb with rfl | hbold
    · rcases hden with hzero | ⟨t, ht, htopen, hopen, hdeny⟩
      · rw [hzero, shares_zero]
      rw [hdeny]
      refine h.excl a haold t ht ?_ m hscope hm
      simpa [Nfs4OlStateid.root, hopen, htopen] using hroot
    · exact h.excl a haold b hbold hroot m hscope hm
  · show f.shareDeny = unionDeny (stp :: f.stateids)
    rw [h.union]
    apply unionDeny_congr
    intro i
    constructor
    · rintro ⟨t, ht, hbit⟩
      exact ⟨t, mem_cons_of_mem stp ht, hbit⟩
    · rintro ⟨t, ht, hbit⟩
      rcases mem_cons.1 ht with rfl | ht
      · rcases hden with hzero | ⟨u, hu, -, -, hdeny⟩
        · rw [hzero, mode_zero] at hbit
          simp at hbit
        · exact ⟨u, hu, hdeny ▸ hbit⟩
      · exact ⟨t, ht, hbit⟩

end

/-! ## OPEN -/

section

variable {strict : Bool} {f : Nfs4File} {stp s : Nfs4OlStateid} {o : Nfsd4Open} {m : AccMode}
  (ha : IsShare o.shareAccess) (hd : IsDeny o.shareDeny)

theorem shares_of_access_zero (h : AccessInv f fun _ => 0) (hzero : f.access m = 0) :
    ∀ a ∈ f.stateids, shares a.accessBmap m = false := by
  intro a hmem
  apply accessBits_eq_zero
  have hsum := h.counted m
  have hpart := Keyed.sum_erase (fun t => accessBits m t.accessBmap) h.distinct hmem
  omega

theorem access_zero_of_checkDeny {d : BitVec 32} (h : nfs4FileCheckDeny f d = .ok) (hm : hasShare d m = true) :
    f.access m = 0 := by
  unfold nfs4FileCheckDeny at h
  unfold hasShare at hm
  split_ifs at h with hzero _ hread hwrite
  · rw [hzero] at hm
    simp at hm
  cases m with
  | rdonly =>
    by_contra hne
    exact hread ⟨hm, hne⟩
  | wronly =>
    by_contra hne
    exact hwrite ⟨hm, hne⟩

theorem shares_of_getAccess (hinv : ShareInv strict f) (h : (nfs4FileGetAccess f o.shareAccess).2 = .ok)
    (hm : hasShare o.shareAccess m = true) : ∀ b ∈ f.stateids, shares b.denyBmap m = false := by
  intro b hb
  apply Bool.eq_false_iff.2
  intro hdeny
  have hunion := hasShare_unionDeny hb hdeny
  rw [← hinv.union] at hunion
  unfold nfs4FileGetAccess at h
  split at h
  · simp at h
  split at h
  · simp at h
  rename_i hconflict
  have hzero : o.shareAccess &&& f.shareDeny = 0#32 := by simpa using hconflict
  have hbit : (o.shareAccess &&& f.shareDeny).getLsbD m.bit = true := by
    rw [BitVec.getLsbD_and, ← hasShare_eq, ← hasShare_eq, hm, hunion, Bool.and_true]
  rw [hzero] at hbit
  simp at hbit

include ha hd

theorem ShareInv.grant (h : ShareInv strict f) (hcount : AccessInv f fun _ => 0) (hs : stp ∈ f.stateids)
    (hdeny : nfs4FileCheckDeny f o.shareDeny = .ok) (hget : (nfs4FileGetAccess f o.shareAccess).2 = .ok) :
    ShareInv strict (grantShares (nfs4FileGetAccessBits f o.shareAccess) stp o) := by
  obtain ⟨-, -, -, -, hold⟩ := getAccessBits_rest (f := f)
  have hdenyMode : (grantShares (nfs4FileGetAccessBits f o.shareAccess) stp o).shareDeny = f.shareDeny ||| o.shareDeny := by
    unfold grantShares
    rw [hold, deny_and_both hd]
  refine h.replace (withShares stp o) hcount.distinct hs rfl rfl ?_ (mode_set hd stp.denyBmap) ?_ (grantShares_stateids _) hdenyMode
  · intro m _ hm
    rcases (shares_setAccess ha).1 hm with hm' | hm'
    · exact .inl hm'
    · exact .inr fun b hb _ => shares_of_getAccess h hget hm' b hb
  · intro m hm
    exact shares_of_access_zero hcount (access_zero_of_checkDeny hdeny hm)

omit hd in
theorem ShareInv.outPut (h : ShareInv strict f) (hnodup : (f.stateids.map Nfs4OlStateid.id).Nodup)
    (hs : withShares stp o ∈ f.stateids) : ShareInv strict (outPutAccess f stp o) := by
  have hmem : { withShares stp o with accessBmap := stp.accessBmap } ∈
      (f.store { withShares stp o with accessBmap := stp.accessBmap }).stateids := mem_store hs rfl
  have hlist := filePutAccess_stateids (f := f.store { withShares stp o with accessBmap := stp.accessBmap }) o.shareAccess
  rw [← hlist] at hmem
  refine ⟨h.excl.mono ((reset_within hmem).trans ?_), reset_union ?_ hmem ?_⟩
  · rw [hlist]
    refine Within.replace hs rfl rfl ?_ fun _ hm => hm
    intro m hm
    exact (shares_setAccess ha).2 (.inl hm)
  · rw [hlist]
    unfold Nfs4File.store
    rw [Keyed.map_key_replace]
    exact hnodup
  · rw [hlist, filePutAccess_shareDeny]
    refine h.union.trans (Eq.symm ?_)
    exact unionDeny_replace_same hnodup hs rfl rfl

end

/-! ## Release, downgrade and lock -/

section

variable {strict : Bool} {f : Nfs4File} {stp s openStp : Nfs4OlStateid} {o : Nfsd4Open} {l : Nfsd4Lock}

section

variable (h : ShareInv strict f) (hcount : AccessInv f fun _ => 0) (hs : stp ∈ f.stateids)
include h hcount hs

theorem ShareInv.setDeny {d : BitVec 32} (hd : IsDeny d) (hdeny : nfs4FileCheckDeny f d = .ok) :
    ShareInv strict { f.store { stp with denyBmap := setShare d stp.denyBmap } with
      shareDeny := f.shareDeny ||| (d &&& shareBoth) } := by
  refine h.replace { stp with denyBmap := setShare d stp.denyBmap } hcount.distinct hs rfl rfl (fun _ _ hm => .inl hm)
    (mode_set hd stp.denyBmap) ?_ rfl ?_
  · intro m hm
    exact shares_of_access_zero hcount (access_zero_of_checkDeny hdeny hm)
  · dsimp only
    rw [deny_and_both hd]

theorem ShareInv.close {reaplist : List Nfs4OlStateid} (hl : ∀ t, t = stp ∨ t ∈ reapLocks f stp.id → t ∈ reaplist) :
    ShareInv strict (freeOlStateidReaplist (unhashOpenStateid f stp.id) reaplist) := by
  refine h.reap ?_ ?_ rfl
  · intro t ht
    exact (Keyed.mem_erase.1 (mem_of_mem_filter ht)).1
  · intro t ht
    by_cases hid : t.id = stp.id
    · exact .inr (hl t (.inl (inj_on_of_nodup_map hcount.distinct ht hs hid)))
    have hleft : t ∈ (unhashOlStateid f stp.id).stateids := Keyed.mem_erase.2 ⟨ht, hid⟩
    by_cases hopen : t.openstp = some stp.id
    · exact .inr (hl t (.inr (mem_reverse.2 (mem_filter.2 ⟨hleft, decide_eq_true hopen⟩))))
    · exact .inl (mem_filter.2 ⟨hleft, decide_eq_true hopen⟩)

theorem ShareInv.releaseLock : ShareInv strict (releaseLockStateid f stp) := by
  have hreap := @ShareInv.reap _ _ (unhashOlStateid f stp.id) [stp] h ?_ ?_ rfl
  · exact hreap
  · intro t ht
    exact (Keyed.mem_erase.1 ht).1
  · intro t ht
    by_cases hid : t.id = stp.id
    · exact .inr (mem_singleton.2 (inj_on_of_nodup_map hcount.distinct ht hs hid))
    · exact .inl (Keyed.mem_erase.2 ⟨ht, hid⟩)

end

variable (h : ShareInv strict f)
include h

theorem ShareInv.releaseLockowner (lockowner : Nat) :
    ShareInv strict (nfsd4ReleaseLockowner f lockowner) := by
  refine h.reap ?_ ?_ rfl
  · intro t ht
    exact mem_of_mem_filter ht
  · intro t ht
    by_cases howned : t.openstp ≠ none ∧ t.stateowner = lockowner
    · exact .inr (mem_reverse.2 (mem_filter.2 ⟨ht, decide_eq_true howned⟩))
    · exact .inl (mem_filter.2 ⟨ht, decide_eq_true howned⟩)

theorem ShareInv.downgradeBit (hcount : AccessInv f fun _ => 0) (hs : stp ∈ f.stateids)
    {a : BitVec 32} (ha : IsShare a) : ShareInv strict (nfs4StateidDowngradeBit f stp a).1 := by
  unfold nfs4StateidDowngradeBit
  split
  · dsimp only
    rw [filePutAccess_store]
    constructor
    · rw [filePutAccess_stateids]
      exact h.excl.mono (Within.replace hs rfl rfl (fun _ hm => shares_clear ha hm) fun _ hm => hm)
    · rw [filePutAccess_stateids, filePutAccess_shareDeny]
      refine h.union.trans (Eq.symm ?_)
      exact unionDeny_replace_same hcount.distinct hs rfl rfl
  · exact h

theorem ShareInv.getLock (hcount : AccessInv f fun _ => 0) (hs : stp ∈ f.stateids)
    (hopenMem : openStp ∈ f.stateids) (hopen : openStp.openstp = none) (hlink : stp.openstp = some openStp.id) {m : AccMode}
    (hm : strict = true ∨ m = .wronly → shares openStp.accessBmap m = true) :
    ShareInv strict (getLockAccess f stp m.share) := by
  unfold getLockAccess
  split
  · exact h
  obtain ⟨hlist, -, -, -, hdeny⟩ := getAccessBits_rest (f := f)
  refine h.replace { stp with accessBmap := setShare m.share stp.accessBmap } (d := 0#32) hcount.distinct hs rfl rfl ?_
    BitVec.or_zero.symm ?_ ?_ ?_
  · intro k hscope hk
    rcases (shares_setAccess (isShare_mode m)).1 hk with hk' | hk'
    · exact .inl hk'
    have hkm : k = m := by
      revert hk'
      cases k <;> cases m <;> decide
    subst hkm
    right
    intro b hb hroot
    have hroot' : openStp.root ≠ b.root := by
      simpa [Nfs4OlStateid.root, hlink, hopen] using hroot
    refine h.excl openStp hopenMem b hb hroot' k (.inr (.inl hopen)) (hm ?_)
    rcases hscope with hstrict | hnone | hwrite
    · exact .inl hstrict
    · rw [hlink] at hnone
      cases hnone
    · exact .inr hwrite
  · intro k hk
    exact absurd hk (by cases k <;> decide)
  · unfold Nfs4File.store
    rw [← hlist]
  · rw [BitVec.or_zero]
    exact hdeny

end

/-! ## Share reservations -/

/-- No access of one open owner is denied by another one; of the access held through lock stateids
only the bits of `lockModes` count. -/
def Exclusive (lockModes : BitVec 32) (f : Nfs4File) : Prop :=
  ∀ a ∈ f.stateids, ∀ b ∈ f.stateids, a.openstp = none → b.openstp = none → a.stateowner ≠ b.stateowner →
    bmapToShareMode a.accessBmap &&& bmapToShareMode b.denyBmap = 0#32 ∧
      ∀ x ∈ f.stateids, x.openstp = some a.id →
        bmapToShareMode x.accessBmap &&& bmapToShareMode b.denyBmap &&& lockModes = 0#32

/-- The file denies what its open stateids deny. -/
def DenyHeld (f : Nfs4File) : Prop :=
  ∀ s ∈ f.stateids, s.openstp = none → ∀ m, shares s.denyBmap m = true → hasShare f.shareDeny m = true

/-- The deny mode of the file is the union of those of its open stateids. -/
def DenyUnion (f : Nfs4File) : Prop :=
  f.shareDeny = (f.stateids.filter (·.openstp = none)).foldl (fun deny s => deny ||| bmapToShareMode s.denyBmap) 0#32

section

variable {kept : Bool} {f f' : Nfs4File} {s stp : Nfs4OlStateid} {d : BitVec 32}

theorem mode_reset (hd : IsDeny d) :
    ∀ bmap, bmapToShareMode (clearOutside (bmapToShareMode bmap) (setShare d bmap)) = bmapToShareMode bmap := by
  rcases hd with rfl | rfl | rfl | rfl <;> decide +kernel

theorem outPutAccess_stateids {o : Nfsd4Open} : (outPutAccess f stp o).stateids = (f.store { stp with
    denyBmap := clearOutside (bmapToShareMode stp.denyBmap) (setShare o.shareDeny stp.denyBmap) }).stateids := by
  rw [outPutAccess, reset_stateids, filePutAccess_stateids]
  exact Keyed.replace_replace rfl

variable (h : Covered kept f)
include h

theorem Covered.replace (hlist : f'.stateids = Keyed.replace Nfs4OlStateid.id stp f.stateids)
    (hnodup : (f.stateids.map Nfs4OlStateid.id).Nodup) (hs : s ∈ f.stateids) (hid : stp.id = s.id)
    (hopen : stp.openstp = s.openstp) (hdeny : stp.denyBmap = s.denyBmap ∨ LeftTo kept f s stp.denyBmap) : Covered kept f' := by
  have hback : ∀ t ∈ f'.stateids, t = stp ∨ t ∈ f.stateids ∧ t.id ≠ stp.id := fun t ht => Keyed.mem_replace (hlist ▸ ht)
  constructor
  · intro t ht i hi
    have hold : ∃ t' ∈ f.stateids, t'.openstp = some i := by
      rcases hback t ht with rfl | ⟨ht, -⟩
      · exact ⟨s, hs, hopen ▸ hi⟩
      · exact ⟨t, ht, hi⟩
    obtain ⟨t', ht', hi'⟩ := hold
    obtain ⟨u, hu, huid, hunone⟩ := h.linked t' ht' i hi'
    rw [hlist]
    by_cases heq : u.id = stp.id
    · cases inj_on_of_nodup_map hnodup hu hs (heq.trans hid)
      exact ⟨stp, Keyed.mem_replace_self hs hid.symm, hid.trans huid, hopen.trans hunone⟩
    · exact ⟨u, mem_map.2 ⟨u, hu, if_neg heq⟩, huid, hunone⟩
  · intro hk
    have hkept := h.kept hk
    unfold LeftTo KeptBy at *
    grind

theorem Covered.filter (p : Nfs4OlStateid → Prop) [DecidablePred p] (hlist : f'.stateids = f.stateids.filter fun t => p t)
    (hp : ∀ u ∈ f.stateids, ∀ t, u.openstp = none → t.openstp = some u.id → p t → p u) : Covered kept f' := by
  have hmem : ∀ t, t ∈ f'.stateids ↔ t ∈ f.stateids ∧ p t := by simp [hlist]
  constructor
  · intro t ht i hi
    obtain ⟨ht, hpt⟩ := (hmem t).1 ht
    obtain ⟨u, hu, rfl, hunone⟩ := h.linked t ht i hi
    exact ⟨u, (hmem u).2 ⟨hu, hp u hu t hunone hi hpt⟩, rfl, hunone⟩
  · exact fun hk u hu t ht => h.kept hk u ((hmem u).1 hu).1 t ((hmem t).1 ht).1

theorem Covered.hash {r : AccMode → Nat} (hcount : AccessInv f r) (hfresh : stp.id = f.nextId)
    (hopen : stp.openstp = none ∨ ∃ u ∈ f.stateids, u.openstp = none ∧ stp.openstp = some u.id ∧ stp.denyBmap = u.denyBmap) :
    Covered kept (hashStateid f stp) := by
  have hlinked := h.linked
  have hkept := h.kept
  have hlt := hcount.fresh
  have hinj : ∀ u ∈ f.stateids, ∀ v ∈ f.stateids, u.id = v.id → u = v := fun u hu v hv => inj_on_of_nodup_map hcount.distinct hu hv
  have hmem : ∀ t, t ∈ (hashStateid f stp).stateids ↔ t = stp ∨ t ∈ f.stateids := fun _ => mem_cons
  unfold KeptBy at *
  constructor
  · grind
  · unfold KeptBy
    grind

theorem Covered.move {strict : Bool} (hcount : AccessInv f fun _ => 0) (hmove : ShareMove strict kept f f') : Covered kept f' := by
  have hset : ∀ {t : Nfs4OlStateid} {d : BitVec 32}, IsDeny d → LeftTo kept f t t.denyBmap →
      LeftTo kept f t (setShare d t.denyBmap) := by
    intro t d hd hkept hk
    refine (hkept hk).imp_right fun hold u hu hlink m hm => ?_
    rw [shares_setDeny hd, hold u hu hlink m hm, Bool.true_or]
  cases hmove with
  | grant _ hd _ hs _ _ hkept =>
    exact h.replace (grantShares_stateids _) hcount.distinct hs rfl rfl (.inr (hset hd hkept))
  | @outPut stp o _ hd _ hs hkept =>
    refine h.replace outPutAccess_stateids hcount.distinct hs rfl rfl (.inr fun hk => ?_)
    refine (hkept hk).imp_right fun hold t ht hlink m hm => ?_
    rw [← hasShare_mode, mode_reset hd, hasShare_mode]
    exact hold t ht hlink m hm
  | keep => exact ⟨h.linked, h.kept⟩
  | setDeny hd hs _ hkept => exact h.replace rfl hcount.distinct hs rfl rfl (.inr (hset hd hkept))
  | reset hs deny hkept => exact h.replace reset_stateids hcount.distinct hs rfl rfl (.inr hkept)
  | hashOpen => exact h.hash hcount rfl (.inl rfl)
  | hashLock hs hopen => exact h.hash hcount rfl (.inr ⟨_, hs, hopen, rfl, rfl⟩)
  | @close stp _ hs _ =>
    refine h.filter (fun t => ¬ t.openstp = some stp.id ∧ t.id ≠ stp.id) ?_ fun u _ t hnone hlink ht => ?_
    · rw [reap_stateids, unhashOpenStateid, unhashOlStateid, Keyed.erase, filter_filter]
      simp
    · exact ⟨by simp [hnone], fun hid => ht.1 (hid ▸ hlink)⟩
  | @releaseLock stp hs hlock =>
    refine h.filter (·.id ≠ stp.id) releaseAllAccess_rest.1 fun u hu _ hnone _ _ hid => ?_
    cases inj_on_of_nodup_map hcount.distinct hu hs hid
    exact hlock hnone
  | releaseLockowner lockowner =>
    exact h.filter (fun t => ¬ (t.openstp ≠ none ∧ t.stateowner = lockowner)) reap_stateids fun u _ _ hnone _ _ hu => hu.1 hnone
  | downgradeBit hs ha =>
    unfold nfs4StateidDowngradeBit
    split
    · dsimp only
      rw [filePutAccess_store]
      exact h.replace (filePutAccess_stateids _) hcount.distinct hs rfl rfl (.inl rfl)
    · exact h
  | getLock hs =>
    unfold getLockAccess
    split
    · exact h
    · exact h.replace (congrArg _ getAccessBits_rest.1) hcount.distinct hs rfl rfl (.inl rfl)

end

section

variable {strict kept : Bool} {f : Nfs4File} {modes : BitVec 32}

/-- What is known of the file in every run. -/
structure Reserved (strict kept : Bool) (f : Nfs4File) : Prop where
  counted : AccessInv f fun _ => 0
  shared : ShareInv strict f
  covered : Covered kept f

theorem Reserved.init : Reserved strict kept nfsd4InitFile :=
  ⟨.init, ⟨fun _ ha => absurd ha not_mem_nil, rfl⟩, fun _ hs => absurd hs not_mem_nil, fun _ _ hs => absurd hs not_mem_nil⟩

section

variable (hr : Reserved strict kept f)
include hr

theorem Reserved.move {f' : Nfs4File} (hmove : ShareMove strict kept f f') : Reserved strict kept f' := by
  obtain ⟨hcount, h, hcovered⟩ := hr
  refine ⟨hcount.move hmove, ?_, hcovered.move hcount hmove⟩
  cases hmove with
  | grant ha hd _ hs hdeny hget _ => exact h.grant ha hd hcount hs hdeny hget
  | outPut ha _ _ hs => exact h.outPut ha hcount.distinct hs
  | keep => exact ⟨h.excl, h.union⟩
  | setDeny hd hs hdeny _ => exact h.setDeny hcount hs hd hdeny
  | reset hs deny => exact ⟨h.excl.mono (reset_within hs), reset_union hcount.distinct hs h.union⟩
  | hashOpen => exact h.hash rfl (.inl rfl)
  | hashLock hs hopen => exact h.hash rfl (.inr ⟨_, hs, hopen, rfl, rfl⟩)
  | close hs hreap => exact h.close hcount hs fun t ht => hreap.mem_iff.2 (mem_cons.2 ht)
  | releaseLock hs => exact h.releaseLock hcount hs
  | releaseLockowner lockowner => exact h.releaseLockowner lockowner
  | downgradeBit hs ha => exact h.downgradeBit hcount hs ha
  | getLock hs hopen hlink hm =>
    obtain ⟨u, hu, hid, hnone⟩ := hcovered.linked _ hs _ hlink
    cases inj_on_of_nodup_map hcount.distinct hu hopen hid
    exact h.getLock hcount hs hopen hnone hlink hm

theorem Reserved.moves {f' : Nfs4File} (hmoves : ShareMoves strict kept f f') : Reserved strict kept f' := by
  induction hmoves with
  | refl => exact hr
  | tail _ hmove ih => exact ih.move hmove

/-- Every operation keeps the reservations, under the conditions on locks and deny modes that are asked for. -/
theorem Reserved.step {f' : Nfs4File} {op : ShareOp} (hread : strict = true → ReadLockCovered f op)
    (hkept : kept = true → DenyKept f op) (hstep : shareStep f op = some f') : Reserved strict kept f' := by
  cases hstep
  exact hr.moves (shareOp_moves op hr.counted.fresh hread fun hk => ⟨hr.covered, hkept hk⟩)

end

theorem mode_lt : ∀ bmap : BitVec 8, (bmapToShareMode bmap).toNat < 2 ^ 2 := by
  decide +kernel

theorem exists_mode {bmap : BitVec 8} {i : Nat} (h : (bmapToShareMode bmap).getLsbD i = true) : ∃ m : AccMode, m.bit = i := by
  match i with
  | 0 => exact ⟨.rdonly, rfl⟩
  | 1 => exact ⟨.wronly, rfl⟩
  | i + 2 =>
    have hhigh : (bmapToShareMode bmap).getLsbD (i + 2) = false :=
      Nat.testBit_lt_two_pow (Nat.lt_of_lt_of_le (mode_lt bmap) (Nat.pow_le_pow_right (by decide) (Nat.le_add_left 2 i)))
    cases hhigh.symm.trans h

theorem mode_and_eq_zero {x y : BitVec 8} (h : ∀ m, hasShare modes m = true → shares x m = true → shares y m = false) :
    bmapToShareMode x &&& bmapToShareMode y &&& modes = 0#32 := by
  apply BitVec.eq_of_getLsbD_eq
  intro i _
  rw [BitVec.getLsbD_zero]
  apply Bool.eq_false_iff.2
  intro hbit
  rw [BitVec.getLsbD_and, BitVec.getLsbD_and, Bool.and_eq_true, Bool.and_eq_true] at hbit
  obtain ⟨⟨hx, hy⟩, hmodes⟩ := hbit
  obtain ⟨m, rfl⟩ := exists_mode hx
  rw [← hasShare_eq] at hx hy hmodes
  rw [hasShare_mode] at hx hy
  cases (h m hmodes hx).symm.trans hy

theorem Reserved.exclusive (hr : Reserved strict kept f)
    (hmodes : strict = true ∨ hasShare modes .rdonly = false) : Exclusive modes f := by
  obtain ⟨hcount, h, -⟩ := hr
  intro a ha b hb haopen hbopen hne
  have hids : a.id ≠ b.id := fun hid => hne (congrArg _ (inj_on_of_nodup_map hcount.distinct ha hb hid))
  constructor
  · have hboth := @mode_and_eq_zero shareBoth a.accessBmap b.denyBmap fun m _ hm =>
      h.excl a ha b hb (by simpa [Nfs4OlStateid.root, haopen, hbopen] using hids) m (.inr (.inl haopen)) hm
    rw [BitVec.and_assoc, mode_and_both] at hboth
    exact hboth
  · intro x hx hlock
    apply mode_and_eq_zero
    intro m hm hacc
    refine h.excl x hx b hb (by simpa [Nfs4OlStateid.root, hlock, hbopen] using hids) m ?_ hacc
    rcases hmodes with hstrict | hread
    · exact .inl hstrict
    cases m with
    | rdonly =>
      rw [hread] at hm
      cases hm
    | wronly => exact .inr (.inr rfl)

theorem Reserved.denyUnion (hr : Reserved strict true f) : DenyUnion f := by
  refine hr.shared.union.trans (unionDeny_congr fun i => ⟨?_, ?_⟩)
  · rintro ⟨t, ht, hbit⟩
    cases hopen : t.openstp with
    | none => exact ⟨t, mem_filter.2 ⟨ht, decide_eq_true hopen⟩, hbit⟩
    | some j =>
      obtain ⟨u, hu, rfl, hunone⟩ := hr.covered.linked t ht j hopen
      obtain ⟨m, rfl⟩ := exists_mode hbit
      rw [← hasShare_eq, hasShare_mode] at hbit
      refine ⟨u, mem_filter.2 ⟨hu, decide_eq_true hunone⟩, ?_⟩
      rw [← hasShare_eq, hasShare_mode]
      exact hr.covered.kept rfl u hu t ht hopen m hbit
  · rintro ⟨t, ht, hbit⟩
    exact ⟨t, mem_of_mem_filter ht, hbit⟩

end

theorem reservations_run (ops : List ShareOp) : Runs.Always shareStep (Reserved false false) nfsd4InitFile ops :=
  Runs.always_of_invariant (fun _ _ _ hr hstep => hr.step nofun nofun hstep) .init

/-- **Share reservations exclude each other**, access through an open stateid and WRITE through a lock
stateid in every run, READ through a lock stateid where locks for reading go through opens with READ. The file denies
what its open stateids deny, and nothing else where no deny mode is cleared in them that a lock stateid has. -/
theorem shareDeny_exclusive (ops : List ShareOp) :
    Runs.Always shareStep (fun f => Exclusive shareWrite f ∧ DenyHeld f) nfsd4InitFile ops ∧
      (Runs.EachStep shareStep ReadLockCovered nfsd4InitFile ops →
        Runs.Always shareStep (Exclusive shareBoth) nfsd4InitFile ops) ∧
      (Runs.EachStep shareStep DenyKept nfsd4InitFile ops → Runs.Always shareStep DenyUnion nfsd4InitFile ops) := by
  refine ⟨?_, ?_, ?_⟩
  · refine Runs.always_imp (fun f hr => ?_) (reservations_run ops)
    refine ⟨hr.exclusive (.inr (by decide)), fun s hs _ m hm => ?_⟩
    rw [hr.shared.union]
    exact hasShare_unionDeny hs hm
  · exact Runs.always_of_eachStep (J := Reserved true false) (fun hr hread hstep => hr.step (fun _ => hread) nofun hstep)
      (fun hr => hr.exclusive (.inl rfl)) .init
  · exact Runs.always_of_eachStep (J := Reserved false true) (fun hr hkept hstep => hr.step nofun (fun _ => hkept) hstep)
      Reserved.denyUnion .init

def plainOpen (openowner : Nat) (access deny : BitVec 32) : ShareOp :=
  .open 0 access deny ⟨openowner, access, deny, false, .ok, .ok, .ok, .ok⟩

def plainLock (id lockowner : Nat) (type : LockType) : ShareOp := .lockNew id lockowner true .ok ⟨type, .ok, .ok⟩

/-- A lock for reading through an open for writing overlaps another owner's DENY READ; and a lock
stateid keeps a deny mode its open stateid has given up. -/
theorem shareDeny_overlaps :
    (∃ f, Runs.run shareStep nfsd4InitFile
        [plainOpen 1 shareWrite 0#32, plainOpen 2 shareRead shareRead, plainLock 0 3 .read] = some f ∧
      ∃ a ∈ f.stateids, ∃ b ∈ f.stateids, ∃ x ∈ f.stateids, a.openstp = none ∧ b.openstp = none ∧
        a.stateowner ≠ b.stateowner ∧ x.openstp = some a.id ∧
        bmapToShareMode x.accessBmap &&& bmapToShareMode b.denyBmap = shareRead) ∧
    ∃ f, Runs.run shareStep nfsd4InitFile
        [plainOpen 1 shareRead shareWrite, plainOpen 1 shareRead 0#32, plainLock 0 3 .read,
          .openDowngrade 0 0 shareRead 0#32 .ok] = some f ∧
      f.shareDeny = shareWrite ∧ unionDeny (f.stateids.filter fun s => s.openstp = none) = 0#32 := by
  refine ⟨⟨_, rfl, ?_⟩, ⟨_, rfl, ?_⟩⟩
  · refine ⟨_, mem_of_find?_eq_some (p := fun s => s.id = 0) rfl, _, mem_of_find?_eq_some (p := fun s => s.id = 1) rfl,
      _, mem_of_find?_eq_some (p := fun s => s.id = 2) rfl, ?_⟩
    decide +kernel
  · decide +kernel

/-! ## Failed OPENs -/

/-- The modes of the stateid, the counters and the deny mode of the file are what they were. -/
structure Undone (f f' : Nfs4File) (stp : Nfs4OlStateid) : Prop where
  stateid : ∃ s ∈ f'.stateids, s.id = stp.id ∧ s.accessBmap = stp.accessBmap ∧
    bmapToShareMode s.denyBmap = bmapToShareMode stp.denyBmap
  access : f'.access = f.access
  shareDeny : f'.shareDeny = f.shareDeny

/-- When the bitmap itself is taken for the mode, the bits that are left deny what it denied. -/
def DenyRestored (bmap : BitVec 8) (deny : BitVec 32) : Prop :=
  shares bmap .rdonly = (testShare 0#32 bmap && (testShare 1#32 bmap || deny == 1#32)) ∧
    shares bmap .wronly = (testShare 1#32 bmap &&
      (testShare 2#32 bmap || deny == 2#32 || testShare 0#32 bmap && (testShare 3#32 bmap || deny == 3#32)))

section

variable {f f' : Nfs4File} {stp s : Nfs4OlStateid} {o : Nfsd4Open} {deny : BitVec 32}

theorem mode_reset_bmap (hd : IsDeny deny) : ∀ bmap,
    bmapToShareMode (clearOutside (bmap.setWidth 32) (setShare deny bmap)) = bmapToShareMode bmap ↔ DenyRestored bmap deny := by
  unfold DenyRestored
  rcases hd with rfl | rfl | rfl | rfl <;> decide +kernel

theorem breakAndTruncate_failed (hfail : (breakAndTruncate f stp o).2 ≠ .ok) :
    (breakAndTruncate f stp o).1 = outPutAccess f stp o := by
  unfold breakAndTruncate at hfail ⊢
  split_ifs at hfail ⊢
  · rfl
  · rfl
  · exact absurd rfl hfail

theorem getVfsFile_failed : (nfs4GetVfsFile f stp o).2 ≠ .ok → (nfs4GetVfsFile f stp o).1 = f ∨
    ∃ g, g.stateids = (f.store (withShares stp o)).stateids ∧ (nfs4GetVfsFile f stp o).1 = outPutAccess g stp o := by
  unfold nfs4GetVfsFile
  split
  · exact fun _ => .inl rfl
  split
  · exact fun _ => .inl rfl
  rename_i hget
  rw [getAccess_ok (not_not.1 hget)]
  dsimp only
  split
  · exact fun hfail => .inr ⟨_, grantShares_stateids _, breakAndTruncate_failed hfail⟩
  split
  · exact fun _ => .inr ⟨_, grantShares_stateids _, rfl⟩
  · refine fun hfail => .inr ⟨_, ?_, breakAndTruncate_failed hfail⟩
    exact grantShares_stateids _

theorem undone_iff (hr : Reserved false false f) (hr' : Reserved false false f') (hs : stp ∈ f.stateids)
    (hlist : f'.stateids = (f.store s).stateids) (hid : stp.id = s.id) (haccess : stp.accessBmap = s.accessBmap) :
    Undone f f' stp ↔ bmapToShareMode s.denyBmap = bmapToShareMode stp.denyBmap := by
  have hdistinct := hr.counted.distinct
  constructor
  · rintro ⟨⟨t, ht, htid, -, hmode⟩, -, -⟩
    rw [hlist] at ht
    rcases Keyed.mem_replace ht with rfl | ⟨-, hne⟩
    · exact hmode
    · exact absurd (htid.trans hid) hne
  · intro hmode
    refine ⟨⟨s, hlist ▸ mem_store hs hid, hid.symm, haccess.symm, hmode⟩, funext fun m => ?_, ?_⟩
    · have hsum := Keyed.sum_replace (fun t => accessBits m t.accessBmap) hdistinct hs hid
      rw [haccess] at hsum
      rw [hr.counted.counted, hr'.counted.counted, hlist]
      exact congrArg _ (Nat.add_right_cancel hsum)
    · rw [hr.shared.union, hr'.shared.union, hlist]
      exact (unionDeny_replace hdistinct hs hid (by rw [hmode, BitVec.or_zero])).trans BitVec.or_zero

end

/-- **A failed OPEN of an open file changes nothing**, unless it fails to truncate with an access the stateid had
already: then the bits of its deny modes must be right as a mode. -/
theorem failedOpen_undone_iff (ops : List ShareOp) :
    Runs.Always shareStep (fun f => ∀ stp ∈ f.stateids, ∀ o : Nfsd4Open, IsShare o.shareAccess → IsDeny o.shareDeny →
      (nfs4UpgradeOpen f stp o).2 ≠ .ok →
        (Undone f (nfs4UpgradeOpen f stp o).1 stp ↔
          (testShare o.shareAccess stp.accessBmap = true → nfs4FileCheckDeny f o.shareDeny = .ok →
            DenyRestored stp.denyBmap o.shareDeny))) nfsd4InitFile ops := by
  refine Runs.always_imp ?_ (reservations_run ops)
  intro f hr stp hs o ha hd hfail
  have hr' := hr.moves (upgradeOpen_moves ha hd hs nofun fun _ _ _ => nofun)
  have hsame : Undone f f stp := ⟨⟨stp, hs, rfl, rfl, rfl⟩, rfl, rfl⟩
  have hiff {s : Nfs4OlStateid} := @undone_iff f _ stp s hr hr' hs
  unfold nfs4UpgradeOpen at hfail hiff ⊢
  split_ifs at hfail hiff ⊢ with htest hdeny htrunc
  · exact iff_of_true hsame fun _ h => absurd h hdeny
  · rw [hiff (reset_stateids.trans (Keyed.replace_replace rfl)) rfl rfl]
    refine (mode_reset_bmap hd _).trans ⟨fun hrestored _ _ => hrestored, fun hrestored => ?_⟩
    exact hrestored htest (not_not.1 hdeny)
  · exact absurd rfl hfail
  -- the rollback of `nfs4_get_vfs_file`
  refine iff_of_true ?_ fun h => absurd h htest
  rcases getVfsFile_failed hfail with heq | ⟨g, hg, heq⟩
  · rw [heq]
    exact hsame
  have hlist : (outPutAccess g stp o).stateids = (f.store { stp with
      denyBmap := clearOutside (bmapToShareMode stp.denyBmap) (setShare o.shareDeny stp.denyBmap) }).stateids := by
    rw [outPutAccess_stateids, Nfs4File.store, hg]
    exact Keyed.replace_replace rfl
  rw [heq] at hiff ⊢
  exact (hiff hlist rfl rfl).2 (mode_reset hd _)

/-- An OPEN with an access its owner has, whose truncation fails. -/
def failedTruncate : ShareOp := .open 0 shareWrite 0#32 ⟨1, shareWrite, 0#32, true, .ok, .ok, .ok, .inval⟩

/-- DENY READ of the open before it is gone. -/
theorem failedOpen_loses_deny : ∃ f, Runs.run shareStep nfsd4InitFile [plainOpen 1 shareWrite shareRead] = some f ∧
    (shareOp f failedTruncate).2 ≠ .ok ∧ f.shareDeny = shareRead ∧ (shareOp f failedTruncate).1.shareDeny = 0#32 :=
  ⟨_, rfl, by decide +kernel⟩

end Vastnfs.Nfsd
