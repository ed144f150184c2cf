import Mathlib.Data.List.Basic
import Mathlib.Tactic.SplitIfs

/-!
# Access control lists

POSIX ACLs with the access check of the file system, and NFSv4 ACLs with the evaluation RFC 7530 prescribes, as
`fs/nfsd/nfs4acl.c` translates between them.

* `posixAclValid`, `posixAclPermission`: what `fs/posix_acl.c` accepts and grants.
* `PosixAcl`: a valid ACL by its classes; `exists_of_posixAclValid` says that every valid ACL is one.
* `PosixAcl.permission_eq`: the access check by classes, for one permission.
* `Nfs4Ace.verdict`, `granted`: the first matching ACE that names a bit decides it.
* `maskFromPosix_getLsbD`, `lowModeFromNfs4_getLsbD`: the translations of permissions, bit by bit.
-/

namespace Vastnfs.Nfsd

open List Option BitVec

/-! ## POSIX ACLs -/

/-- `e_tag`. -/
inductive AclTag
  | userObj | user | groupObj | group | mask | other
deriving DecidableEq

/-- `struct posix_acl_entry`; `id` is the `e_uid` or `e_gid` of a named entry. -/
structure PosixAclEntry where
  tag : AclTag
  perm : BitVec 16
  id : Nat := 0
deriving DecidableEq

inductive AclMode
  | read | write | execute
deriving DecidableEq

def AclMode.place : AclMode → Nat
  | .read => 2
  | .write => 1
  | .execute => 0

def AclMode.want : AclMode → BitVec 16
  | .read => 4
  | .write => 2
  | .execute => 1

/-- Who asks for access to what. -/
structure Requester where
  fsuid : Nat
  inGroupP : Nat → Bool
  (iUid iGid : Nat)

/-- The end of `posix_acl_permission` for an entry that `ACL_MASK` applies to. -/
def maskedPermission (want perm : BitVec 16) (rest : List PosixAclEntry) : Bool :=
  match rest.find? (·.tag = .mask) with
  | some mask => perm &&& mask.perm &&& want == want
  | none => perm &&& want == want

def posixAclPermission (r : Requester) (want : BitVec 16) (found : Bool) : List PosixAclEntry → Bool
  | [] => false
  | pa :: rest =>
    match pa.tag with
    | .userObj => if r.iUid = r.fsuid then pa.perm &&& want == want else posixAclPermission r want found rest
    | .user => if pa.id = r.fsuid then maskedPermission want pa.perm rest else posixAclPermission r want found rest
    | .groupObj =>
      if r.inGroupP r.iGid then
        if pa.perm &&& want == want then maskedPermission want pa.perm rest else posixAclPermission r want true rest
      else posixAclPermission r want found rest
    | .group =>
      if r.inGroupP pa.id then
        if pa.perm &&& want == want then maskedPermission want pa.perm rest else posixAclPermission r want true rest
      else posixAclPermission r want found rest
    | .mask => posixAclPermission r want found rest
    | .other => if found then false else pa.perm &&& want == want

/-- The state of `posix_acl_valid`: what may come next. -/
inductive AclState
  | userObj | user | group | other | done
deriving DecidableEq

/-- One entry in `posix_acl_valid`, with its `needs_mask`. -/
def aclNext (needsMask : Bool) : AclState → AclTag → Option (AclState × Bool)
  | .userObj, .userObj => some (.user, needsMask)
  | .user, .user => some (.user, true)
  | .user, .groupObj => some (.group, needsMask)
  | .group, .group => some (.group, true)
  | .group, .mask => some (.other, needsMask)
  | .group, .other => if needsMask then none else some (.done, needsMask)
  | .other, .other => some (.done, needsMask)
  | _, _ => none

def aclValidFrom (needsMask : Bool) (state : AclState) : List PosixAclEntry → Bool
  | [] => state == .done
  | pa :: rest =>
    pa.perm &&& ~~~7 == 0 &&
      match aclNext needsMask state pa.tag with
      | some (state, needsMask) => aclValidFrom needsMask state rest
      | none => false

/-- A valid ACL: `posix_acl_valid`, and no user is named twice. -/
def posixAclValid (acl : List PosixAclEntry) : Prop :=
  aclValidFrom false .userObj acl = true ∧ ((acl.filter (·.tag = .user)).map (·.id)).Nodup

/-! ## POSIX ACLs by classes -/

structure PosixAcl where
  owner : PosixAclEntry
  users : List PosixAclEntry
  group : PosixAclEntry
  groups : List PosixAclEntry
  mask : Option PosixAclEntry
  other : PosixAclEntry
  owner_tag : owner.tag = .userObj
  users_tag : ∀ pa ∈ users, pa.tag = .user
  group_tag : group.tag = .groupObj
  groups_tag : ∀ pa ∈ groups, pa.tag = .group
  mask_tag : ∀ pa ∈ mask, pa.tag = .mask
  other_tag : other.tag = .other
  users_nodup : (users.map (·.id)).Nodup

namespace PosixAcl

variable (acl : PosixAcl)

def tail : List PosixAclEntry := acl.mask.toList ++ [acl.other]

def entries : List PosixAclEntry :=
  acl.owner :: (acl.users ++ acl.group :: (acl.groups ++ acl.tail))

def maskPerm : BitVec 16 := (acl.mask.map (·.perm)).getD 7

end PosixAcl

section

variable {l : List PosixAclEntry} {needsMask : Bool}

theorem aclValidFrom_cons {state : AclState} {pa : PosixAclEntry} {rest : List PosixAclEntry}
    (h : aclValidFrom needsMask state (pa :: rest) = true) :
    ∃ state' needsMask', aclNext needsMask state pa.tag = some (state', needsMask') ∧
      aclValidFrom needsMask' state' rest = true := by
  rw [aclValidFrom, Bool.and_eq_true] at h
  obtain ⟨-, h⟩ := h
  split at h
  · exact ⟨_, _, by assumption, h⟩
  · cases h

theorem aclValidFrom_done : ∀ {l : List PosixAclEntry}, aclValidFrom needsMask .done l = true → l = []
  | [], _ => rfl
  | pa :: rest, h => by
    obtain ⟨_, _, hnext, -⟩ := aclValidFrom_cons h
    cases htag : pa.tag <;> rw [htag] at hnext <;> cases hnext

theorem aclValidFrom_other (h : aclValidFrom needsMask .other l = true) :
    ∃ other, l = [other] ∧ other.tag = .other := by
  cases l with
  | nil => cases h
  | cons pa rest =>
    obtain ⟨_, _, hnext, hrest⟩ := aclValidFrom_cons h
    cases htag : pa.tag <;> rw [htag] at hnext <;> cases hnext
    exact ⟨pa, by rw [aclValidFrom_done hrest], htag⟩

theorem aclValidFrom_group (h : aclValidFrom needsMask .group l = true) :
    ∃ groups mask other, l = groups ++ (Option.toList mask ++ [other]) ∧ (∀ pa ∈ groups, pa.tag = .group) ∧
      (∀ pa ∈ mask, pa.tag = .mask) ∧ other.tag = .other := by
  induction l generalizing needsMask with
  | nil => cases h
  | cons pa rest ih =>
    obtain ⟨_, _, hnext, hrest⟩ := aclValidFrom_cons h
    cases htag : pa.tag <;> rw [htag] at hnext
    case group =>
      cases hnext
      obtain ⟨groups, mask, other, rfl, hgroups, htags⟩ := ih hrest
      exact ⟨pa :: groups, mask, other, rfl, forall_mem_cons.2 ⟨htag, hgroups⟩, htags⟩
    case mask =>
      cases hnext
      obtain ⟨other, rfl, hother⟩ := aclValidFrom_other hrest
      exact ⟨[], some pa, other, rfl, nofun, fun _ hpa => Option.some.inj hpa ▸ htag, hother⟩
    case other =>
      cases needsMask with
      | true => cases hnext
      | false =>
        cases hnext
        exact ⟨[], none, pa, by rw [aclValidFrom_done hrest]; rfl, nofun, nofun, htag⟩
    all_goals cases hnext

theorem aclValidFrom_user (h : aclValidFrom needsMask .user l = true) :
    ∃ users group groups mask other, l = users ++ group :: (groups ++ (Option.toList mask ++ [other])) ∧
      (∀ pa ∈ users, pa.tag = .user) ∧ group.tag = .groupObj ∧ (∀ pa ∈ groups, pa.tag = .group) ∧
      (∀ pa ∈ mask, pa.tag = .mask) ∧ other.tag = .other := by
  induction l generalizing needsMask with
  | nil => cases h
  | cons pa rest ih =>
    obtain ⟨_, _, hnext, hrest⟩ := aclValidFrom_cons h
    cases htag : pa.tag <;> rw [htag] at hnext
    case user =>
      cases hnext
      obtain ⟨users, group, groups, mask, other, rfl, husers, htags⟩ := ih hrest
      exact ⟨pa :: users, group, groups, mask, other, rfl, forall_mem_cons.2 ⟨htag, husers⟩, htags⟩
    case groupObj =>
      cases hnext
      obtain ⟨groups, mask, other, rfl, htags⟩ := aclValidFrom_group hrest
      exact ⟨[], pa, groups, mask, other, rfl, nofun, htag, htags⟩
    all_goals cases hnext

theorem filter_eq_nil_of_tag {t u : AclTag} (h : ∀ pa ∈ l, pa.tag = t) (hne : t ≠ u) : l.filter (·.tag = u) = [] := by
  rw [filter_eq_nil_iff]
  intro pa hpa
  simp [h pa hpa, hne]

theorem filter_user_eq {owner group other : PosixAclEntry} {users groups : List PosixAclEntry} {mask : Option PosixAclEntry}
    (howner : owner.tag = .userObj) (husers : ∀ pa ∈ users, pa.tag = .user) (hgroup : group.tag = .groupObj)
    (hgroups : ∀ pa ∈ groups, pa.tag = .group) (hmask : ∀ pa ∈ mask, pa.tag = .mask) (hother : other.tag = .other) :
    (owner :: (users ++ group :: (groups ++ (mask.toList ++ [other])))).filter (·.tag = .user) = users := by
  have hall : users.filter (·.tag = .user) = users := filter_eq_self.2 fun pa hpa => by simp [husers pa hpa]
  have hno : mask.toList.filter (·.tag = .user) = [] :=
    filter_eq_nil_of_tag (fun pa hpa => hmask pa (mem_toList.1 hpa)) (by decide)
  simp only [filter_cons, filter_append, howner, hgroup, hother, hall, hno,
    filter_eq_nil_of_tag hgroups (by decide : AclTag.group ≠ .user)]
  simp

/-- **Every valid ACL has its classes.** -/
theorem exists_of_posixAclValid (h : posixAclValid l) : ∃ acl : PosixAcl, l = acl.entries := by
  obtain ⟨hvalid, hnodup⟩ := h
  cases l with
  | nil => cases hvalid
  | cons owner rest =>
    obtain ⟨_, _, hnext, hrest⟩ := aclValidFrom_cons hvalid
    cases htag : owner.tag <;> rw [htag] at hnext <;> cases hnext
    obtain ⟨users, group, groups, mask, other, rfl, husers, hgroup, hgroups, hmask, hother⟩ := aclValidFrom_user hrest
    rw [filter_user_eq htag husers hgroup hgroups hmask hother] at hnodup
    exact ⟨⟨owner, users, group, groups, mask, other, htag, husers, hgroup, hgroups, hmask, hother, hnodup⟩, rfl⟩

end

/-! ## The access check for one permission -/

theorem want_ne_zero (m : AclMode) : m.want ≠ 0#16 := by
  cases m <;> decide

theorem and_want (perm : BitVec 16) (m : AclMode) : perm &&& m.want = if perm.getLsbD m.place then m.want else 0#16 := by
  have hwant : m.want = BitVec.twoPow 16 m.place := by cases m <;> decide
  rw [hwant, and_twoPow]

theorem and_want_eq (perm : BitVec 16) (m : AclMode) : (perm &&& m.want == m.want) = perm.getLsbD m.place := by
  rw [and_want]
  cases perm.getLsbD m.place <;> simp [(want_ne_zero m).symm]

theorem and_want_ne_zero (perm : BitVec 16) (m : AclMode) : (perm &&& m.want ≠ 0) ↔ perm.getLsbD m.place = true := by
  rw [and_want]
  cases perm.getLsbD m.place <;> simp [want_ne_zero]

theorem want_seven (m : AclMode) : (7#16).getLsbD m.place = true := by
  cases m <;> decide

namespace PosixAcl

variable (acl : PosixAcl) (r : Requester) (m : AclMode)

/-- Whether an entry of the owning group or of a named one is about the requester. -/
def groupMatches (pa : PosixAclEntry) : Bool :=
  match pa.tag with
  | .groupObj => r.inGroupP r.iGid
  | _ => r.inGroupP pa.id

/-- The entries of the group class that are about the requester. -/
def matchedGroups : List PosixAclEntry := (acl.group :: acl.groups).filter (groupMatches r)

def permission : Bool :=
  if r.iUid = r.fsuid then acl.owner.perm.getLsbD m.place
  else match acl.users.find? (·.id = r.fsuid) with
    | some pa => pa.perm.getLsbD m.place && acl.maskPerm.getLsbD m.place
    | none =>
      if (acl.matchedGroups r).isEmpty then acl.other.perm.getLsbD m.place
      else (acl.matchedGroups r).any (·.perm.getLsbD m.place) && acl.maskPerm.getLsbD m.place

theorem find?_tail : acl.tail.find? (·.tag = .mask) = acl.mask := by
  have hother := acl.other_tag
  cases hmask : acl.mask with
  | none => simp [tail, hmask, hother]
  | some pa => simp [tail, hmask, acl.mask_tag pa (by simp [hmask])]

variable {acl}

theorem groupClass_tag (pa : PosixAclEntry) (hpa : pa ∈ acl.group :: acl.groups) :
    pa.tag = .groupObj ∨ pa.tag = .group := by
  obtain rfl | hpa := mem_cons.1 hpa
  · exact .inl acl.group_tag
  · exact .inr (acl.groups_tag pa hpa)

theorem ne_mask_of_groupClass {pa : PosixAclEntry} (h : pa.tag = .groupObj ∨ pa.tag = .group) : pa.tag ≠ .mask := by
  obtain htag | htag := h <;> rw [htag] <;> decide

theorem maskedPermission_eq {perm : BitVec 16} {l : List PosixAclEntry} (hl : ∀ pa ∈ l, pa.tag ≠ .mask) :
    maskedPermission m.want perm (l ++ acl.tail) = (perm.getLsbD m.place && acl.maskPerm.getLsbD m.place) := by
  have hnone : l.find? (·.tag = .mask) = none := find?_eq_none.2 fun pa hpa => by simp [hl pa hpa]
  rw [maskedPermission, find?_append, hnone, none_or, find?_tail, maskPerm]
  cases acl.mask with
  | none =>
    rw [map_none, getD_none, show (7 : BitVec 16) = 7#16 from rfl, want_seven, Bool.and_true]
    exact and_want_eq perm m
  | some pa =>
    simp [getD_some, and_want_eq, getLsbD_and]

theorem permission_tail (found : Bool) :
    posixAclPermission r m.want found acl.tail = (!found && acl.other.perm.getLsbD m.place) := by
  have hend : posixAclPermission r m.want found [acl.other] = (!found && acl.other.perm.getLsbD m.place) := by
    simp only [posixAclPermission, acl.other_tag, and_want_eq]
    cases found <;> rfl
  cases hmask : acl.mask with
  | none => simpa [tail, hmask] using hend
  | some pa => simpa [tail, hmask, posixAclPermission, acl.mask_tag pa (by simp [hmask])] using hend

theorem permission_groups (l : List PosixAclEntry) (hl : ∀ pa ∈ l, pa.tag = .groupObj ∨ pa.tag = .group) (found : Bool) :
    posixAclPermission r m.want found (l ++ acl.tail) =
      if (l.filter (groupMatches r)).any (·.perm.getLsbD m.place) then acl.maskPerm.getLsbD m.place
      else !found && (l.filter (groupMatches r)).isEmpty && acl.other.perm.getLsbD m.place := by
  induction l generalizing found with
  | nil => simp [permission_tail]
  | cons pa l ih =>
    have hrest : ∀ pa ∈ l, pa.tag = .groupObj ∨ pa.tag = .group := fun pa' h => hl pa' (mem_cons_of_mem _ h)
    have hmask : ∀ pa ∈ l, pa.tag ≠ .mask := fun pa' h => ne_mask_of_groupClass (hrest pa' h)
    have hstep : posixAclPermission r m.want found (pa :: (l ++ acl.tail)) =
        if groupMatches r pa then
          if pa.perm.getLsbD m.place then maskedPermission m.want pa.perm (l ++ acl.tail)
          else posixAclPermission r m.want true (l ++ acl.tail)
        else posixAclPermission r m.want found (l ++ acl.tail) := by
      obtain htag | htag := hl pa mem_cons_self <;> simp [posixAclPermission, htag, groupMatches, and_want_eq]
    rw [List.cons_append, hstep, maskedPermission_eq m hmask, ih hrest, ih hrest]
    cases hmatch : groupMatches r pa with
    | false => simp [hmatch]
    | true => cases hperm : pa.perm.getLsbD m.place <;> simp [hmatch, hperm]

theorem permission_users (l : List PosixAclEntry) (hl : ∀ pa ∈ l, pa.tag = .user) :
    posixAclPermission r m.want false (l ++ acl.group :: (acl.groups ++ acl.tail)) =
      match l.find? (·.id = r.fsuid) with
      | some pa => pa.perm.getLsbD m.place && acl.maskPerm.getLsbD m.place
      | none => posixAclPermission r m.want false (acl.group :: (acl.groups ++ acl.tail)) := by
  induction l with
  | nil => rfl
  | cons pa l ih =>
    have htag := hl pa List.mem_cons_self
    have hmask : ∀ pa' ∈ l ++ acl.group :: acl.groups, pa'.tag ≠ .mask := by
      intro pa' hpa'
      obtain h | h := List.mem_append.1 hpa'
      · rw [hl pa' (List.mem_cons_of_mem _ h)]
        decide
      · exact ne_mask_of_groupClass (groupClass_tag pa' h)
    by_cases hid : pa.id = r.fsuid
    · have heq : l ++ acl.group :: (acl.groups ++ acl.tail) = l ++ acl.group :: acl.groups ++ acl.tail := by simp
      simp only [List.cons_append, posixAclPermission, htag, hid, if_true, List.find?_cons, decide_true]
      rw [heq, maskedPermission_eq m hmask]
    · simp only [List.cons_append, posixAclPermission, htag, hid, if_false, List.find?_cons, decide_false]
      exact ih fun pa' h => hl pa' (List.mem_cons_of_mem _ h)

/-- **The access check by classes.** -/
theorem permission_eq : posixAclPermission r m.want false acl.entries = acl.permission r m := by
  have hclass := @permission_groups acl r m (acl.group :: acl.groups) groupClass_tag false
  simp only [entries, posixAclPermission, acl.owner_tag, permission, and_want_eq]
  split
  · rfl
  rw [permission_users r m acl.users acl.users_tag]
  split
  · rfl
  rw [← List.cons_append, hclass, matchedGroups]
  cases hg : (acl.group :: acl.groups).filter (groupMatches r) with
  | nil => simp
  | cons pa l =>
    generalize (pa :: l).any (·.perm.getLsbD m.place) = any
    cases any <;> rfl

end PosixAcl

/-! ## NFSv4 ACLs -/

/-- `NFS4_ACE_ACCESS_ALLOWED_ACE_TYPE`, `NFS4_ACE_ACCESS_DENIED_ACE_TYPE`, or another type. -/
inductive AceType
  | allowed | denied | other
deriving DecidableEq

/-- `NFS4_ACL_WHO_NAMED` and so on. -/
inductive Whotype
  | named | owner | group | everyone
deriving DecidableEq

/-- `struct nfs4_ace`; `who` is its `who_uid` or `who_gid`. -/
structure Nfs4Ace where
  type : AceType
  (flag accessMask : BitVec 32)
  whotype : Whotype
  who : Nat := 0
deriving DecidableEq

def inheritanceFlags : BitVec 32 := 3

def inheritOnlyAce : BitVec 32 := 8

def identifierGroup : BitVec 32 := 0x40

def Nfs4Ace.isAbout (ace : Nfs4Ace) (r : Requester) : Bool :=
  match ace.whotype with
  | .named => if ace.flag &&& identifierGroup ≠ 0 then r.inGroupP ace.who else ace.who = r.fsuid
  | .owner => r.iUid = r.fsuid
  | .group => r.inGroupP r.iGid
  | .everyone => true

/-- What an ACE says about a bit of the access mask, if anything. -/
def Nfs4Ace.verdict (r : Requester) (k : Nat) (ace : Nfs4Ace) : Option Bool :=
  if ace.isAbout r && ace.accessMask.getLsbD k then
    match ace.type with
    | .allowed => some true
    | .denied => some false
    | .other => none
  else none

/-- Whether the ACEs grant a bit: the first that says anything about it decides. -/
def granted (r : Requester) (k : Nat) (aces : List Nfs4Ace) : Bool := aces.findSome? (·.verdict r k) == some true

/-! ## Permissions -/

/-- `NFS4_ACL_TYPE_DEFAULT`, `NFS4_ACL_DIR` and `NFS4_ACL_OWNER`. -/
structure AclFlags where
  (typeDefault dir owner : Bool := false)

/-- The bits of the access mask a permission stands for: `NFS4_READ_MODE`, `NFS4_WRITE_MODE` with
`NFS4_ACE_DELETE_CHILD` for a directory, and `NFS4_EXECUTE_MODE`. -/
def AclMode.bits (dir : Bool) : AclMode → List Nat
  | .read => [0]
  | .write => if dir then [1, 2, 6] else [1, 2]
  | .execute => [5]

def readMode : BitVec 32 := 0x1

def writeMode : BitVec 32 := 0x6

def deleteChild : BitVec 32 := 0x40

def executeMode : BitVec 32 := 0x20

def anyoneMode : BitVec 32 := 0x120080

def ownerMode : BitVec 32 := 0x40100

/-- The part `mask_from_posix` and `deny_mask_from_posix` share. -/
def addModes (perm : BitVec 16) (dir : Bool) (mask : BitVec 32) : BitVec 32 :=
  let mask := if perm &&& AclMode.read.want ≠ 0 then mask ||| readMode else mask
  let mask := if perm &&& AclMode.write.want ≠ 0 then mask ||| writeMode else mask
  let mask := if perm &&& AclMode.write.want ≠ 0 ∧ dir = true then mask ||| deleteChild else mask
  if perm &&& AclMode.execute.want ≠ 0 then mask ||| executeMode else mask

def maskFromPosix (perm : BitVec 16) (flags : AclFlags) : BitVec 32 :=
  addModes perm flags.dir (if flags.owner then anyoneMode ||| ownerMode else anyoneMode)

def denyMaskFromPosix (perm : BitVec 16) (flags : AclFlags) : BitVec 32 := addModes perm flags.dir 0

def lowModeFromNfs4 (perm : BitVec 32) (flags : AclFlags) : BitVec 16 :=
  let writeMode := if flags.dir then writeMode ||| deleteChild else writeMode
  let mode := 0#16
  let mode := if perm &&& readMode = readMode then mode ||| AclMode.read.want else mode
  let mode := if perm &&& writeMode = writeMode then mode ||| AclMode.write.want else mode
  if perm &&& executeMode = executeMode then mode ||| AclMode.execute.want else mode

variable {m : AclMode} {k : Nat} {flags : AclFlags} {dir : Bool}

theorem AclMode.mem_bits (hk : k ∈ m.bits dir) :
    m = .read ∧ k = 0 ∨ m = .write ∧ (k = 1 ∨ k = 2 ∨ dir = true ∧ k = 6) ∨ m = .execute ∧ k = 5 := by
  cases m with
  | read => exact .inl ⟨rfl, mem_singleton.1 hk⟩
  | write => cases dir <;> simpa [bits] using hk
  | execute => exact .inr (.inr ⟨rfl, mem_singleton.1 hk⟩)

theorem addModes_getLsbD (hk : k ∈ m.bits dir) (perm : BitVec 16) {mask : BitVec 32} (hmask : mask.getLsbD k = false) :
    (addModes perm dir mask).getLsbD k = perm.getLsbD m.place := by
  have hbits : ∀ (c : Prop) [Decidable c] (a b : BitVec 32),
      (if c then a ||| b else a).getLsbD k = (a.getLsbD k || (decide c && b.getLsbD k)) := by
    intro c _ a b
    by_cases hc : c <;> simp [hc]
  unfold addModes
  simp only [hbits, hmask, and_want_ne_zero, Bool.decide_eq_true, Bool.decide_and]
  obtain ⟨rfl, rfl⟩ | ⟨rfl, rfl | rfl | ⟨rfl, rfl⟩⟩ | ⟨rfl, rfl⟩ := AclMode.mem_bits hk <;>
    simp [readMode, writeMode, deleteChild, executeMode]

theorem maskFromPosix_getLsbD (hk : k ∈ m.bits flags.dir) (perm : BitVec 16) :
    (maskFromPosix perm flags).getLsbD k = perm.getLsbD m.place := by
  refine addModes_getLsbD hk perm ?_
  obtain ⟨-, rfl⟩ | ⟨-, rfl | rfl | ⟨-, rfl⟩⟩ | ⟨-, rfl⟩ := AclMode.mem_bits hk <;> split <;> decide

theorem denyMaskFromPosix_getLsbD (hk : k ∈ m.bits flags.dir) (perm : BitVec 16) :
    (denyMaskFromPosix perm flags).getLsbD k = perm.getLsbD m.place :=
  addModes_getLsbD hk perm getLsbD_zero

theorem getLsbD_of_and_eq {a b : BitVec 32} (h : a &&& b = b) (hk : b.getLsbD k = true) : a.getLsbD k = true := by
  have := congrArg (·.getLsbD k) h
  simpa [hk] using this

theorem lowModeFromNfs4_getLsbD {perm : BitVec 32} (h : (lowModeFromNfs4 perm flags).getLsbD m.place = true)
    (hk : k ∈ m.bits flags.dir) : perm.getLsbD k = true := by
  have hbits : ∀ (c : Prop) [Decidable c] (a b : BitVec 16),
      (if c then a ||| b else a).getLsbD m.place = (a.getLsbD m.place || (decide c && b.getLsbD m.place)) := by
    intro c _ a b
    by_cases hc : c <;> simp [hc]
  unfold lowModeFromNfs4 at h
  simp only [hbits] at h
  obtain ⟨rfl, rfl⟩ | ⟨rfl, hw⟩ | ⟨rfl, rfl⟩ := AclMode.mem_bits hk
  · exact getLsbD_of_and_eq (by simpa [AclMode.want, AclMode.place] using h) (by decide)
  · refine getLsbD_of_and_eq (by simpa [AclMode.want, AclMode.place] using h) ?_
    obtain rfl | rfl | ⟨hdir, rfl⟩ := hw
    · split <;> decide
    · split <;> decide
    · rw [if_pos hdir]
      decide
  · exact getLsbD_of_and_eq (by simpa [AclMode.want, AclMode.place] using h) (by decide)

end Vastnfs.Nfsd
