import Vastnfs.Nfsd.Acl

/-!
# Reporting POSIX ACLs

`_posix_to_nfsv4_one` turns a POSIX ACL into NFSv4 ACEs for GETATTR (`fs/nfsd/nfs4acl.c`). An entry becomes a DENY of
what later ACEs might grant and an ALLOW; for the group class all ALLOWs stand before the DENYs.

* `posixToNfsv4One`: the function of the source.
* `posixToNfsv4One_entries`: the ACEs of a valid ACL, class by class.
* `findSome?_userAces`, `findSome?_groupAllows`, `findSome?_groupDenies`: what the ACEs of a class decide.
* `posixToNfsv4One_faithful`: the ACEs grant what the POSIX access check grants.
-/

namespace Vastnfs.Nfsd

open List Option BitVec

/-! ## The translation -/

structure PosixAclSummary where
  (owner users group groups other : BitVec 16 := 0)
  mask : BitVec 16 := 7

def PosixAclSummary.add (pas : PosixAclSummary) (pa : PosixAclEntry) : PosixAclSummary :=
  match pa.tag with
  | .userObj => { pas with owner := pa.perm }
  | .groupObj => { pas with group := pa.perm }
  | .user => { pas with users := pas.users ||| pa.perm }
  | .group => { pas with groups := pas.groups ||| pa.perm }
  | .other => { pas with other := pa.perm }
  | .mask => { pas with mask := pa.perm }

def summarizePosixAcl (pacl : List PosixAclEntry) : PosixAclSummary :=
  let pas := pacl.foldl PosixAclSummary.add {}
  { pas with users := pas.users &&& pas.mask, group := pas.group &&& pas.mask, groups := pas.groups &&& pas.mask }

def aceFlag (flags : AclFlags) : BitVec 32 := if flags.typeDefault then inheritanceFlags ||| inheritOnlyAce else 0

/-- The `who` of the ACEs for an entry, with its flag. -/
def aceWho (flags : AclFlags) (pa : PosixAclEntry) : Nfs4Ace :=
  match pa.tag with
  | .userObj => { type := .allowed, flag := aceFlag flags, accessMask := 0, whotype := .owner }
  | .user => { type := .allowed, flag := aceFlag flags, accessMask := 0, whotype := .named, who := pa.id }
  | .groupObj => { type := .allowed, flag := aceFlag flags, accessMask := 0, whotype := .group }
  | .group =>
    { type := .allowed, flag := aceFlag flags ||| identifierGroup, accessMask := 0, whotype := .named, who := pa.id }
  | _ => { type := .allowed, flag := aceFlag flags, accessMask := 0, whotype := .everyone }

def allowAce (flags : AclFlags) (perm : BitVec 16) (ace : Nfs4Ace) : Nfs4Ace :=
  { ace with type := .allowed, accessMask := maskFromPosix perm flags }

def denyAces (flags : AclFlags) (deny : BitVec 16) (ace : Nfs4Ace) : List Nfs4Ace :=
  if deny ≠ 0 then [{ ace with type := .denied, accessMask := denyMaskFromPosix deny flags }] else []

def ownerAces (pas : PosixAclSummary) (flags : AclFlags) (pa : PosixAclEntry) : List Nfs4Ace :=
  denyAces flags (~~~pas.owner &&& (pas.users ||| pas.group ||| pas.groups ||| pas.other)) (aceWho flags pa) ++
    [allowAce { flags with owner := true } pa.perm (aceWho flags pa)]

def userAces (pas : PosixAclSummary) (flags : AclFlags) (pa : PosixAclEntry) : List Nfs4Ace :=
  denyAces flags (~~~(pa.perm &&& pas.mask) &&& (pas.groups ||| pas.group ||| pas.other)) (aceWho flags pa) ++
    [allowAce flags (pa.perm &&& pas.mask) (aceWho flags pa)]

def groupAllow (pas : PosixAclSummary) (flags : AclFlags) (pa : PosixAclEntry) : Nfs4Ace :=
  allowAce flags (pa.perm &&& pas.mask) (aceWho flags pa)

def groupDeny (pas : PosixAclSummary) (flags : AclFlags) (pa : PosixAclEntry) : List Nfs4Ace :=
  denyAces flags (~~~(pa.perm &&& pas.mask) &&& pas.other) (aceWho flags pa)

/-- `_posix_to_nfsv4_one`: the ACEs it adds. The first two cases are the `BUG_ON` and an ACL without its owning group. -/
def posixToNfsv4One (pacl : List PosixAclEntry) (flags : AclFlags) : List Nfs4Ace :=
  let pas := summarizePosixAcl pacl
  match pacl with
  | [] => []
  | owner :: rest =>
    let users := rest.takeWhile (·.tag = .user)
    match rest.dropWhile (·.tag = .user) with
    | [] => []
    | groupOwner :: rest =>
      let groups := rest.takeWhile (·.tag = .group)
      let rest := rest.dropWhile (·.tag = .group)
      let rest := if (rest.map (·.tag)).head? = some .mask then rest.tail else rest
      let other := (rest.head?.map (·.perm)).getD 0
      ownerAces pas flags owner ++ users.flatMap (userAces pas flags) ++
        -- `pas.group` is masked already
        (allowAce flags pas.group (aceWho flags groupOwner) :: groups.map (groupAllow pas flags)) ++
        (denyAces flags (~~~pas.group &&& pas.other) (aceWho flags groupOwner) ++ groups.flatMap (groupDeny pas flags)) ++
        [allowAce flags other { type := .allowed, flag := aceFlag flags, accessMask := 0, whotype := .everyone }]

/-! ## The ACEs of a valid ACL -/

section

theorem foldl_add_users {l : List PosixAclEntry} (hl : ∀ pa ∈ l, pa.tag = .user) (pas : PosixAclSummary) :
    l.foldl PosixAclSummary.add pas = { pas with users := l.foldl (fun acc pa => acc ||| pa.perm) pas.users } := by
  induction l generalizing pas with
  | nil => rfl
  | cons pa l ih =>
    rw [foldl_cons, foldl_cons, ih fun pa' h => hl pa' (mem_cons_of_mem _ h)]
    simp [PosixAclSummary.add, hl pa mem_cons_self]

theorem foldl_add_groups {l : List PosixAclEntry} (hl : ∀ pa ∈ l, pa.tag = .group) (pas : PosixAclSummary) :
    l.foldl PosixAclSummary.add pas = { pas with groups := l.foldl (fun acc pa => acc ||| pa.perm) pas.groups } := by
  induction l generalizing pas with
  | nil => rfl
  | cons pa l ih =>
    rw [foldl_cons, foldl_cons, ih fun pa' h => hl pa' (mem_cons_of_mem _ h)]
    simp [PosixAclSummary.add, hl pa mem_cons_self]

theorem getLsbD_foldl_perm (l : List PosixAclEntry) (p : Nat) (init : BitVec 16) :
    (l.foldl (fun acc pa => acc ||| pa.perm) init).getLsbD p = (init.getLsbD p || l.any (·.perm.getLsbD p)) := by
  induction l generalizing init with
  | nil => simp
  | cons pa l ih => simp [ih, Bool.or_assoc]

theorem summarizePosixAcl_entries (acl : PosixAcl) :
    summarizePosixAcl acl.entries =
      { owner := acl.owner.perm
        users := acl.users.foldl (fun acc pa => acc ||| pa.perm) 0 &&& acl.maskPerm
        group := acl.group.perm &&& acl.maskPerm
        groups := acl.groups.foldl (fun acc pa => acc ||| pa.perm) 0 &&& acl.maskPerm
        other := acl.other.perm
        mask := acl.maskPerm } := by
  unfold summarizePosixAcl PosixAcl.entries PosixAcl.tail PosixAcl.maskPerm
  simp only [foldl_cons, foldl_append, foldl_add_users acl.users_tag, foldl_add_groups acl.groups_tag]
  cases hmask : acl.mask with
  | none => simp [PosixAclSummary.add, acl.owner_tag, acl.group_tag, acl.other_tag]
  | some pa =>
    simp [PosixAclSummary.add, acl.owner_tag, acl.group_tag, acl.other_tag, acl.mask_tag pa (by simp [hmask])]

end

/-- The ACEs of a valid ACL by classes; the owning group is treated as the named ones. -/
def PosixAcl.aces (acl : PosixAcl) (flags : AclFlags) : List Nfs4Ace :=
  let pas := summarizePosixAcl acl.entries
  ownerAces pas flags acl.owner ++ (acl.users.flatMap (userAces pas flags) ++
    ((acl.group :: acl.groups).map (groupAllow pas flags) ++ ((acl.group :: acl.groups).flatMap (groupDeny pas flags) ++
      [allowAce flags acl.other.perm (aceWho flags acl.other)])))

theorem posixToNfsv4One_entries (acl : PosixAcl) (flags : AclFlags) :
    posixToNfsv4One acl.entries flags = acl.aces flags := by
  have husers : ∀ pa ∈ acl.users, decide (pa.tag = .user) = true := fun pa h => decide_eq_true (acl.users_tag pa h)
  have hgroups : ∀ pa ∈ acl.groups, decide (pa.tag = .group) = true := fun pa h => decide_eq_true (acl.groups_tag pa h)
  have hmask : acl.mask = none ∨ ∃ pa, acl.mask = some pa ∧ pa.tag = .mask := by
    cases hm : acl.mask with
    | none => exact .inl rfl
    | some pa => exact .inr ⟨pa, rfl, acl.mask_tag pa (by simp [hm])⟩
  unfold posixToNfsv4One PosixAcl.aces
  generalize hpas : summarizePosixAcl acl.entries = pas
  have hgroup : pas.group = acl.group.perm &&& pas.mask := by
    rw [← hpas, summarizePosixAcl_entries]
  unfold PosixAcl.entries PosixAcl.tail at hpas ⊢
  simp only [takeWhile_append_of_pos husers, dropWhile_append_of_pos husers, takeWhile_cons,
    dropWhile_cons, acl.group_tag, reduceCtorEq, decide_false, Bool.false_eq_true, if_false, append_nil]
  obtain hm | ⟨pa, hm, htag⟩ := hmask
  · simp [hm, takeWhile_append_of_pos hgroups, dropWhile_append_of_pos hgroups, acl.other_tag, hgroup,
      groupAllow, groupDeny, aceWho]
  · simp [hm, takeWhile_append_of_pos hgroups, dropWhile_append_of_pos hgroups, acl.other_tag, hgroup,
      groupAllow, groupDeny, aceWho, htag]

/-! ## What the ACEs decide -/

/-- What a DENY of what later ACEs might grant and an ALLOW decide. -/
def pairVerdict (perm later : Bool) : Option Bool := if perm then some true else if later then some false else none

theorem pairVerdict_or {perm later : Bool} {rest : Option Bool} (h : later = false → rest ≠ some true) :
    ((pairVerdict perm later).or rest == some true) = perm := by
  cases perm <;> cases later <;> simp_all [pairVerdict]

section

variable {r : Requester} {m : AclMode} {k : Nat} {flags flags' : AclFlags} {pas : PosixAclSummary} {pa : PosixAclEntry}

theorem getLsbD_not_place (perm : BitVec 16) : (~~~perm).getLsbD m.place = !perm.getLsbD m.place := by
  have hlt : m.place < 16 := by cases m <;> decide
  simp [hlt]

theorem verdict_allowAce (hk : k ∈ m.bits flags.dir) (perm : BitVec 16) (ace : Nfs4Ace) :
    (allowAce flags perm ace).verdict r k = if ace.isAbout r && perm.getLsbD m.place then some true else none := by
  have habout : (allowAce flags perm ace).isAbout r = ace.isAbout r := rfl
  rw [Nfs4Ace.verdict, habout]
  simp [allowAce, maskFromPosix_getLsbD hk]

theorem findSome?_denyAces (hk : k ∈ m.bits flags.dir) (deny : BitVec 16) (ace : Nfs4Ace) :
    (denyAces flags deny ace).findSome? (·.verdict r k) =
      if ace.isAbout r && deny.getLsbD m.place then some false else none := by
  unfold denyAces
  split
  · have habout : ∀ mask, ({ ace with type := .denied, accessMask := mask } : Nfs4Ace).isAbout r = ace.isAbout r :=
      fun _ => rfl
    simp only [findSome?_cons, findSome?_nil, Nfs4Ace.verdict, habout, denyMaskFromPosix_getLsbD hk]
    split <;> simp_all
  · rename_i hzero
    rw [not_not.1 hzero]
    simp

theorem isAbout_owner (htag : pa.tag = .userObj) : (aceWho flags pa).isAbout r = decide (r.iUid = r.fsuid) := by
  simp [aceWho, htag, Nfs4Ace.isAbout]

theorem aceFlag_and (flags : AclFlags) : aceFlag flags &&& identifierGroup = 0 := by
  unfold aceFlag
  split <;> decide

theorem isAbout_user (htag : pa.tag = .user) : (aceWho flags pa).isAbout r = decide (pa.id = r.fsuid) := by
  simp [aceWho, htag, Nfs4Ace.isAbout, aceFlag_and]

theorem isAbout_group (htag : pa.tag = .groupObj ∨ pa.tag = .group) :
    (aceWho flags pa).isAbout r = PosixAcl.groupMatches r pa := by
  have hflag : (aceFlag flags ||| identifierGroup) &&& identifierGroup ≠ 0 := by
    unfold aceFlag
    split <;> decide
  obtain htag | htag := htag
  · simp [aceWho, htag, Nfs4Ace.isAbout, PosixAcl.groupMatches]
  · simpa [aceWho, htag, Nfs4Ace.isAbout, PosixAcl.groupMatches] using fun h => absurd h hflag

theorem findSome?_pair (hk : k ∈ m.bits flags.dir) (hk' : k ∈ m.bits flags'.dir) (perm later : BitVec 16) (ace : Nfs4Ace) :
    (denyAces flags (~~~perm &&& later) ace ++ [allowAce flags' perm ace]).findSome? (·.verdict r k) =
      if ace.isAbout r then pairVerdict (perm.getLsbD m.place) (later.getLsbD m.place) else none := by
  rw [findSome?_append, findSome?_denyAces hk, findSome?_cons, verdict_allowAce hk', getLsbD_and, getLsbD_not_place]
  cases ace.isAbout r <;> cases perm.getLsbD m.place <;> cases later.getLsbD m.place <;> rfl

theorem findSome?_userAces (hk : k ∈ m.bits flags.dir) (users : List PosixAclEntry) (htag : ∀ pa ∈ users, pa.tag = .user)
    (hnodup : (users.map (·.id)).Nodup) :
    (users.flatMap (userAces pas flags)).findSome? (·.verdict r k) =
      (users.find? (·.id = r.fsuid)).bind fun pa => pairVerdict ((pa.perm &&& pas.mask).getLsbD m.place)
        ((pas.groups ||| pas.group ||| pas.other).getLsbD m.place) := by
  induction users with
  | nil => rfl
  | cons pa users ih =>
    obtain ⟨hnew, hnodup⟩ := nodup_cons.1 hnodup
    rw [flatMap_cons, findSome?_append, ih (fun pa' h => htag pa' (mem_cons_of_mem _ h)) hnodup,
      userAces, findSome?_pair hk hk, isAbout_user (htag pa mem_cons_self), find?_cons]
    by_cases hid : pa.id = r.fsuid
    · have hnone : users.find? (·.id = r.fsuid) = none := by
        rw [find?_eq_none]
        intro pa' hpa' hid'
        exact hnew (mem_map.2 ⟨pa', hpa', (of_decide_eq_true hid').trans hid.symm⟩)
      simp [hid, hnone]
    · simp [hid]

theorem findSome?_flatMap_ite {l : List PosixAclEntry} {f : PosixAclEntry → List Nfs4Ace} {p : PosixAclEntry → Bool} {b : Bool}
    (h : ∀ pa ∈ l, (f pa).findSome? (·.verdict r k) = if PosixAcl.groupMatches r pa && p pa then some b else none) :
    (l.flatMap f).findSome? (·.verdict r k) =
      if (l.filter (PosixAcl.groupMatches r)).any p then some b else none := by
  induction l with
  | nil => rfl
  | cons pa l ih =>
    rw [flatMap_cons, findSome?_append, h pa mem_cons_self, ih fun pa' h' => h pa' (mem_cons_of_mem _ h'), filter_cons]
    cases PosixAcl.groupMatches r pa <;> cases hp : p pa <;> simp [hp]

section

variable (hk : k ∈ m.bits flags.dir) (groups : List PosixAclEntry)
  (htag : ∀ pa ∈ groups, pa.tag = .groupObj ∨ pa.tag = .group)
include hk htag

theorem findSome?_groupAllows :
    (groups.map (groupAllow pas flags)).findSome? (·.verdict r k) =
      if (groups.filter (PosixAcl.groupMatches r)).any fun pa => (pa.perm &&& pas.mask).getLsbD m.place then some true
      else none := by
  rw [map_eq_flatMap]
  refine findSome?_flatMap_ite fun pa hpa => ?_
  rw [findSome?_singleton, groupAllow, verdict_allowAce hk, isAbout_group (htag pa hpa)]

theorem findSome?_groupDenies :
    (groups.flatMap (groupDeny pas flags)).findSome? (·.verdict r k) =
      if (groups.filter (PosixAcl.groupMatches r)).any fun pa =>
        (~~~(pa.perm &&& pas.mask) &&& pas.other).getLsbD m.place then some false
      else none :=
  findSome?_flatMap_ite fun pa hpa => by rw [groupDeny, findSome?_denyAces hk, isAbout_group (htag pa hpa)]

end

end

/-! ## The reported ACL -/

namespace PosixAcl

variable (acl : PosixAcl) (r : Requester) (m : AclMode)

def gives (pa : PosixAclEntry) : Bool := pa.perm.getLsbD m.place && acl.maskPerm.getLsbD m.place

theorem any_gives (l : List PosixAclEntry) :
    (l.foldl (fun acc pa => acc ||| pa.perm) 0 &&& acl.maskPerm).getLsbD m.place = l.any (acl.gives m) := by
  rw [getLsbD_and, getLsbD_foldl_perm]
  unfold gives
  cases acl.maskPerm.getLsbD m.place <;> simp

/-- Whether an ACE behind those of the users might grant the permission. -/
def behindUsers : Bool := acl.groups.any (acl.gives m) || acl.gives m acl.group || acl.other.perm.getLsbD m.place

/-- What the ACEs behind those of the users decide. -/
def classVerdict : Option Bool :=
  if (acl.matchedGroups r).any (acl.gives m) then some true
  else if acl.other.perm.getLsbD m.place then some (acl.matchedGroups r).isEmpty else none

theorem classVerdict_silent (h : acl.behindUsers m = false) : acl.classVerdict r m = none := by
  simp only [behindUsers, Bool.or_eq_false_iff] at h
  have hnone : (acl.matchedGroups r).any (acl.gives m) = false := by
    refine any_eq_false.2 fun pa hpa => ?_
    obtain rfl | hmem := mem_cons.1 (mem_of_mem_filter hpa)
    · simp [h.1.2]
    · exact any_eq_false.1 h.1.1 pa hmem
  simp [classVerdict, hnone, h.2]

theorem findSome?_aces {k : Nat} {flags : AclFlags} (hk : k ∈ m.bits flags.dir) :
    (acl.aces flags).findSome? (·.verdict r k) =
      (if r.iUid = r.fsuid then
        pairVerdict (acl.owner.perm.getLsbD m.place) (acl.users.any (acl.gives m) || acl.behindUsers m) else none).or
      (((acl.users.find? (·.id = r.fsuid)).bind fun pa => pairVerdict (acl.gives m pa) (acl.behindUsers m)).or
        (acl.classVerdict r m)) := by
  have hgives : ∀ pa : PosixAclEntry, (pa.perm &&& acl.maskPerm).getLsbD m.place = acl.gives m pa :=
    fun pa => getLsbD_and
  have hdeny : ∀ pa : PosixAclEntry, (~~~(pa.perm &&& acl.maskPerm) &&& acl.other.perm).getLsbD m.place =
      (!acl.gives m pa && acl.other.perm.getLsbD m.place) := by
    intro pa
    rw [getLsbD_and, getLsbD_not_place, hgives]
  have hlater : (acl.users.any (acl.gives m) || acl.gives m acl.group || acl.groups.any (acl.gives m) ||
      acl.other.perm.getLsbD m.place) = (acl.users.any (acl.gives m) || acl.behindUsers m) := by
    rw [behindUsers, Bool.or_comm (acl.groups.any _), Bool.or_assoc, Bool.or_assoc, Bool.or_assoc]
  have heveryone : (aceWho flags acl.other).isAbout r = true := by simp [aceWho, acl.other_tag, Nfs4Ace.isAbout]
  have hclass : ((if (acl.matchedGroups r).any (acl.gives m) then some true else none).or
      ((if (acl.matchedGroups r).any fun pa => !acl.gives m pa && acl.other.perm.getLsbD m.place then some false else none).or
        (if acl.other.perm.getLsbD m.place then some true else none))) = acl.classVerdict r m := by
    unfold classVerdict
    cases hany : (acl.matchedGroups r).any (acl.gives m) <;> cases acl.other.perm.getLsbD m.place <;>
      cases hm : acl.matchedGroups r <;> simp_all
  have hpair := @findSome?_pair r m k flags { flags with owner := true } hk hk acl.owner.perm
  rw [aces, findSome?_append, findSome?_append, findSome?_append, findSome?_append,
    findSome?_userAces hk _ acl.users_tag acl.users_nodup, findSome?_groupAllows hk _ groupClass_tag,
    findSome?_groupDenies hk _ groupClass_tag, findSome?_singleton, verdict_allowAce hk, heveryone, ownerAces,
    summarizePosixAcl_entries, hpair, isAbout_owner acl.owner_tag, ← hclass]
  simp only [getLsbD_or, any_gives, hgives, hdeny, hlater, decide_eq_true_eq, Bool.true_and]
  rfl

/-- **The ACEs of a valid ACL grant what the access check grants.** -/
theorem granted_aces {k : Nat} {flags : AclFlags} (hk : k ∈ m.bits flags.dir) :
    granted r k (acl.aces flags) = acl.permission r m := by
  rw [granted, findSome?_aces acl r m hk]
  unfold permission
  split
  · refine pairVerdict_or fun hlater => ?_
    obtain ⟨husers, hbehind⟩ := Bool.or_eq_false_iff.1 hlater
    rw [classVerdict_silent acl r m hbehind, hbehind]
    cases hfind : acl.users.find? (·.id = r.fsuid) with
    | none => nofun
    | some pa =>
      have hno : acl.gives m pa = false := by
        simpa using any_eq_false.1 husers pa (mem_of_find?_eq_some hfind)
      simp [hno, pairVerdict]
  rw [none_or]
  cases hfind : acl.users.find? (·.id = r.fsuid) with
  | some pa =>
    refine pairVerdict_or fun hbehind => ?_
    rw [classVerdict_silent acl r m hbehind]
    nofun
  | none =>
    have hclass : ((acl.matchedGroups r).any (·.perm.getLsbD m.place) && acl.maskPerm.getLsbD m.place) =
        (acl.matchedGroups r).any (acl.gives m) := by
      unfold gives
      cases acl.maskPerm.getLsbD m.place <;> simp
    rw [hclass, bind_none, none_or, classVerdict]
    cases hany : (acl.matchedGroups r).any (acl.gives m) <;> cases acl.other.perm.getLsbD m.place <;>
      cases hm : acl.matchedGroups r <;> simp_all

end PosixAcl

/-- **POSIX ACLs are reported faithfully.**  For every valid ACL and every requester, each bit of the access mask that
stands for a permission is granted by the ACEs of `_posix_to_nfsv4_one` just when the POSIX access check grants the
permission. -/
theorem posixToNfsv4One_faithful {pacl : List PosixAclEntry} (hvalid : posixAclValid pacl) (r : Requester) (m : AclMode)
    (flags : AclFlags) {k : Nat} (hk : k ∈ m.bits flags.dir) :
    granted r k (posixToNfsv4One pacl flags) = posixAclPermission r m.want false pacl := by
  obtain ⟨acl, rfl⟩ := exists_of_posixAclValid hvalid
  rw [posixToNfsv4One_entries, PosixAcl.permission_eq, PosixAcl.granted_aces acl r m hk]

/-- An ACL with a named user, a named group and a mask, asked by a member of two groups. -/
theorem posixToNfsv4One_faithful_sample :
    granted ⟨5, fun g => g = 1 || g = 2, 0, 1⟩ 0
        (posixToNfsv4One [⟨.userObj, 6, 0⟩, ⟨.user, 7, 9⟩, ⟨.groupObj, 2, 0⟩, ⟨.group, 4, 2⟩, ⟨.mask, 5, 0⟩, ⟨.other, 7, 0⟩]
          {}) =
      posixAclPermission ⟨5, fun g => g = 1 || g = 2, 0, 1⟩ AclMode.read.want false
        [⟨.userObj, 6, 0⟩, ⟨.user, 7, 9⟩, ⟨.groupObj, 2, 0⟩, ⟨.group, 4, 2⟩, ⟨.mask, 5, 0⟩, ⟨.other, 7, 0⟩] :=
  posixToNfsv4One_faithful ⟨by decide, by decide⟩ _ .read {} (by decide)

end Vastnfs.Nfsd
