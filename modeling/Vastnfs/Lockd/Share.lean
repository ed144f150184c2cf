import Mathlib.Data.List.Nodup
import Vastnfs.Lib.Runs

/-!
# DOS shares of the lock manager

`nlmsvc_share_file` and `nlmsvc_unshare_file` (`fs/lockd/svcshare.c`) keep the shares of a file in a list. One loop looks for
the share of the caller and for shares that are in its way.

* `shareLoop_cases`: how the loop ends.
* `Exclusive`: one share for each host and owner, and no access that another one denies.
* `shares_exclusive`: when shares stay exclusive.
-/

namespace Vastnfs.Lockd

open Runs List

section

variable {Host : Type}

/-- `struct nlm_share`; `s_mode` is what is denied to others. -/
structure NlmShare (Host : Type) where
  sHost : Host
  sOwner : List (BitVec 8)
  (sAccess sMode : BitVec 32)
deriving DecidableEq

def NlmShare.key (share : NlmShare Host) : Host × List (BitVec 8) := (share.sHost, share.sOwner)

inductive NlmStatus
  | granted | lckDenied | lckDeniedNolocks
deriving DecidableEq

def Conflicts (a b : NlmShare Host) : Prop := a.sAccess &&& b.sMode ≠ 0 ∨ a.sMode &&& b.sAccess ≠ 0
deriving Decidable

variable [DecidableEq Host]

/-- How the loop of `nlmsvc_share_file` ends: a share is in the way, the share of the caller has been changed, or it has
none. -/
inductive LoopEnd (Host : Type)
  | denied
  | updated (shares : List (NlmShare Host))
  | absent

/-- The loop of `nlmsvc_share_file`; `new` has the host, the owner and the modes of the call. -/
def shareLoop (new : NlmShare Host) : List (NlmShare Host) → LoopEnd Host
  | [] => .absent
  | share :: shares =>
    if share.key = new.key then .updated ({ share with sAccess := new.sAccess, sMode := new.sMode } :: shares)
    else if Conflicts new share then .denied
    else
      match shareLoop new shares with
      | .denied => .denied
      | .updated shares => .updated (share :: shares)
      | .absent => .absent

/-- `memory` says whether there is some for a new share. -/
def nlmsvcShareFile (memory : Bool) (new : NlmShare Host) (fShares : List (NlmShare Host)) :
    List (NlmShare Host) × NlmStatus :=
  match shareLoop new fShares with
  | .denied => (fShares, .lckDenied)
  | .updated shares => (shares, .granted)
  | .absent => if memory then (new :: fShares, .granted) else (fShares, .lckDeniedNolocks)

def nlmsvcUnshareFile (key : Host × List (BitVec 8)) (fShares : List (NlmShare Host)) : List (NlmShare Host) × NlmStatus :=
  (fShares.eraseP (·.key = key), .granted)

def nlmsvcTraverseShares (gone : Host → Bool) (fShares : List (NlmShare Host)) : List (NlmShare Host) :=
  fShares.filter fun share => !gone share.sHost

inductive ShareEvent (Host : Type)
  | share (memory : Bool) (new : NlmShare Host)
  | unshare (key : Host × List (BitVec 8))
  | traverse (gone : Host → Bool)

def shareStep (fShares : List (NlmShare Host)) : ShareEvent Host → Option (List (NlmShare Host))
  | .share memory new => some (nlmsvcShareFile memory new fShares).1
  | .unshare key => some (nlmsvcUnshareFile key fShares).1
  | .traverse gone => some (nlmsvcTraverseShares gone fShares)

end

/-! ## How the loop ends -/

section

variable {Host : Type}

theorem Conflicts.symm {a b : NlmShare Host} (h : Conflicts a b) : Conflicts b a := by
  unfold Conflicts at h ⊢
  rw [BitVec.and_comm b.sAccess, BitVec.and_comm b.sMode]
  exact h.symm

variable [DecidableEq Host]

/-- Nobody in front of the share that was found is in the way, nobody at all if none was found. -/
theorem shareLoop_cases (new : NlmShare Host) (fShares : List (NlmShare Host)) :
    shareLoop new fShares = .denied ∨
      (shareLoop new fShares = .absent ∧ ∀ share ∈ fShares, share.key ≠ new.key ∧ ¬ Conflicts new share) ∨
      ∃ front share behind, fShares = front ++ share :: behind ∧ share.key = new.key ∧
        (∀ other ∈ front, other.key ≠ new.key ∧ ¬ Conflicts new other) ∧
        shareLoop new fShares = .updated (front ++ { share with sAccess := new.sAccess, sMode := new.sMode } :: behind) := by
  induction fShares with
  | nil => exact .inr (.inl ⟨rfl, nofun⟩)
  | cons share shares ih =>
    rw [shareLoop]
    split
    · rename_i hown
      exact .inr (.inr ⟨[], share, shares, rfl, hown, nofun, rfl⟩)
    rename_i hown
    by_cases hway : Conflicts new share
    · exact .inl (if_pos hway)
    rw [if_neg hway]
    rcases ih with hd | ⟨ha, hfree⟩ | ⟨front, own, behind, rfl, hkey, hfree, hu⟩
    · rw [hd]
      exact .inl rfl
    · rw [ha]
      exact .inr (.inl ⟨rfl, forall_mem_cons.2 ⟨⟨hown, hway⟩, hfree⟩⟩)
    · rw [hu]
      exact .inr (.inr ⟨share :: front, own, behind, rfl, hkey, forall_mem_cons.2 ⟨⟨hown, hway⟩, hfree⟩, rfl⟩)

end

/-! ## Exclusive shares -/

variable {Host : Type} {fShares shares front behind : List (NlmShare Host)} {e : ShareEvent Host}
  {key : Host × List (BitVec 8)} {share : NlmShare Host}

def OneEach (fShares : List (NlmShare Host)) : Prop := (fShares.map NlmShare.key).Nodup

/-- No access of one owner meets the deny mode of another one. -/
def Apart (fShares : List (NlmShare Host)) : Prop :=
  ∀ a ∈ fShares, ∀ b ∈ fShares, a.key ≠ b.key → ¬ Conflicts a b

structure Exclusive (fShares : List (NlmShare Host)) : Prop where
  oneEach : OneEach fShares
  apart : Apart fShares

theorem OneEach.sublist (h : OneEach fShares) (hsub : shares.Sublist fShares) : OneEach shares :=
  List.Nodup.sublist (hsub.map _) h

theorem Apart.sublist (h : Apart fShares) (hsub : shares.Sublist fShares) : Apart shares :=
  fun a ha b hb => h a (hsub.subset ha) b (hsub.subset hb)

theorem apart_middle (h : Apart (front ++ behind)) (hshare : ∀ other ∈ front ++ behind, ¬ Conflicts share other) :
    Apart (front ++ share :: behind) := by
  have hmem : ∀ a, a ∈ front ++ share :: behind ↔ a = share ∨ a ∈ front ++ behind := fun a => by
    simp only [mem_append, mem_cons]
    tauto
  intro a ha b hb hne
  rcases (hmem a).1 ha with rfl | ha' <;> rcases (hmem b).1 hb with rfl | hb'
  · exact absurd rfl hne
  · exact hshare b hb'
  · exact fun hconf => hshare a ha' hconf.symm
  · exact h a ha' b hb' hne

variable [DecidableEq Host]

def behindOwn (key : Host × List (BitVec 8)) : List (NlmShare Host) → List (NlmShare Host)
  | [] => []
  | share :: shares => if share.key = key then shares else behindOwn key shares

/-- A share that is changed gets modes that are in nobody's way behind it in the list. -/
def Considerate (fShares : List (NlmShare Host)) : ShareEvent Host → Prop
  | .share memory new => (nlmsvcShareFile memory new fShares).2 = .granted →
      ∀ other ∈ behindOwn new.key fShares, ¬ Conflicts new other
  | _ => True

theorem behindOwn_append (hkey : share.key = key) (hfront : ∀ other ∈ front, other.key ≠ key) :
    behindOwn key (front ++ share :: behind) = behind := by
  induction front with
  | nil => exact if_pos hkey
  | cons other front ih =>
    obtain ⟨hother, hfront⟩ := forall_mem_cons.1 hfront
    rw [cons_append, behindOwn, if_neg hother, ih hfront]

theorem behindOwn_of_absent (h : ∀ share ∈ fShares, share.key ≠ key) : behindOwn key fShares = [] := by
  induction fShares with
  | nil => rfl
  | cons share shares ih =>
    obtain ⟨hshare, hshares⟩ := forall_mem_cons.1 h
    rw [behindOwn, if_neg hshare, ih hshares]

/-- **What a call leaves**: the list, the list with a new share in nobody's way, or a changed share that is in the way of
nobody in front of it. -/
theorem nlmsvcShareFile_cases (memory : Bool) (new : NlmShare Host) (fShares : List (NlmShare Host)) :
    ((nlmsvcShareFile memory new fShares).1 = fShares ∧ (nlmsvcShareFile memory new fShares).2 ≠ .granted) ∨
      ((nlmsvcShareFile memory new fShares).1 = new :: fShares ∧
        ∀ share ∈ fShares, share.key ≠ new.key ∧ ¬ Conflicts new share) ∨
      ∃ front share behind, fShares = front ++ share :: behind ∧ share.key = new.key ∧
        (∀ other ∈ front, other.key ≠ new.key ∧ ¬ Conflicts new other) ∧
        nlmsvcShareFile memory new fShares = (front ++ new :: behind, .granted) := by
  unfold nlmsvcShareFile
  rcases shareLoop_cases new fShares with hd | ⟨ha, hfree⟩ | ⟨front, share, behind, heq, hkey, hfree, hu⟩
  · rw [hd]
    exact .inl ⟨rfl, nofun⟩
  · rw [ha]
    cases memory with
    | true => exact .inr (.inl ⟨rfl, hfree⟩)
    | false => exact .inl ⟨rfl, nofun⟩
  have hnew : { share with sAccess := new.sAccess, sMode := new.sMode } = new := by
    obtain ⟨hhost, howner⟩ := Prod.mk.inj hkey
    cases new
    simp_all
  rw [hu, hnew]
  exact .inr (.inr ⟨front, share, behind, heq, hkey, hfree, rfl⟩)

theorem OneEach.step (h : OneEach fShares) (hstep : shareStep fShares e = some shares) : OneEach shares := by
  cases e with
  | share memory new =>
    cases hstep
    rcases nlmsvcShareFile_cases memory new fShares with ⟨heq, -⟩ | ⟨heq, hfree⟩ | ⟨front, share, behind, rfl, hkey, -, heq⟩
    · rwa [heq]
    · rw [heq, OneEach, map_cons, nodup_cons]
      refine ⟨fun hmem => ?_, h⟩
      obtain ⟨share, hshare, hkey⟩ := mem_map.1 hmem
      exact (hfree share hshare).1 hkey
    rw [heq]
    have hmap : (front ++ new :: behind).map NlmShare.key = (front ++ share :: behind).map NlmShare.key := by
      simp [hkey]
    rwa [OneEach, hmap]
  | unshare key =>
    cases hstep
    exact h.sublist eraseP_sublist
  | traverse gone =>
    cases hstep
    exact h.sublist filter_sublist

theorem Apart.step (h : Apart fShares) (hcons : Considerate fShares e) (hstep : shareStep fShares e = some shares) :
    Apart shares := by
  cases e with
  | share memory new =>
    cases hstep
    rcases nlmsvcShareFile_cases memory new fShares with ⟨heq, -⟩ | ⟨heq, hfree⟩ | ⟨front, share, behind, rfl, hkey, hfree, heq⟩
    · rwa [heq]
    · rw [heq]
      exact @apart_middle _ [] fShares new h fun other hother => (hfree other hother).2
    have hbehind := hcons (by rw [heq])
    rw [behindOwn_append hkey fun other hother => (hfree other hother).1] at hbehind
    rw [heq]
    exact apart_middle (h.sublist (by simp)) (forall_mem_append.2 ⟨fun other hother => (hfree other hother).2, hbehind⟩)
  | unshare key =>
    cases hstep
    exact h.sublist eraseP_sublist
  | traverse gone =>
    cases hstep
    exact h.sublist filter_sublist

theorem not_apart_step (hone : OneEach fShares) (hcons : ¬ Considerate fShares e)
    (hstep : shareStep fShares e = some shares) : ¬ Apart shares := by
  cases e with
  | share memory new =>
    cases hstep
    rw [Considerate, Classical.not_imp] at hcons
    obtain ⟨hgranted, hbehind⟩ := hcons
    rcases nlmsvcShareFile_cases memory new fShares with ⟨-, hnot⟩ | ⟨heq, hfree⟩ | ⟨front, share, behind, rfl, hkey, hfree, heq⟩
    · exact absurd hgranted hnot
    · rw [behindOwn_of_absent fun share hshare => (hfree share hshare).1] at hbehind
      exact absurd nofun hbehind
    rw [behindOwn_append hkey fun other hother => (hfree other hother).1] at hbehind
    rw [heq]
    intro hapart
    refine hbehind fun other hother => ?_
    refine hapart new (by simp) other (by simp [hother]) fun hsame => ?_
    -- the keys of the old list are different
    rw [OneEach, map_append, map_cons, nodup_append, nodup_cons] at hone
    exact hone.2.1.1 (mem_map.2 ⟨other, hother, hsame.symm.trans hkey.symm⟩)
  | unshare key | traverse gone => exact absurd trivial hcons

/-- **Shares stay exclusive** in a run of calls just when every share that is changed is in nobody's way behind it in the
list. There is never more than one share for a host and owner. -/
theorem shares_exclusive (es : List (ShareEvent Host)) :
    Always shareStep OneEach [] es ∧ (Always shareStep Exclusive [] es ↔ EachStep shareStep Considerate [] es) := by
  have hone : Always shareStep OneEach ([] : List (NlmShare Host)) es :=
    always_of_invariant (fun _ _ _ h hstep => h.step hstep) nodup_nil
  refine ⟨hone, ?_⟩
  refine always_iff_eachStep (J := OneEach) (fun _ _ _ h hstep => h.step hstep) ?_ ?_ nodup_nil ⟨nodup_nil, nofun⟩
  · exact fun _ _ _ hs h hcons hstep => ⟨hs.step hstep, h.apart.step hcons hstep⟩
  · exact fun _ _ _ hs _ hcons hstep h => not_apart_step hs hcons hstep h.apart

/-- Two owners on host 0 read, and then the one that came last denies reading. -/
theorem shares_conflict : ¬ Always shareStep Exclusive ([] : List (NlmShare Nat))
    [.share true ⟨0, [1], 1, 0⟩, .share true ⟨0, [2], 1, 0⟩, .share true ⟨0, [2], 1, 1⟩] := by
  rintro h
  have hlast := run_of_always h rfl
  exact hlast.apart ⟨0, [2], 1, 1⟩ (by decide) ⟨0, [1], 1, 0⟩ (by decide) (by decide) (by decide)

end Vastnfs.Lockd
