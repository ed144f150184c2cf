import Vastnfs.Lib.BubbleSort
import Vastnfs.Nfsd.Acl

/-!
# Setting NFSv4 ACLs

SETATTR with an NFSv4 ACL sets POSIX ACLs (`nfs4_acl_nfsv4_to_posix` in `fs/nfsd/nfs4acl.c`). The ACEs are processed in
their order into the bits allowed and denied to the owner, the group, others and the named users and groups; a DENY is
spread over everybody it might be about.

* `processOneV4Ace`, `posixStateToAcl`, `nfs4AclNfsv4ToPosix`: the functions of the source.
* `Entity`, `spread`: the same on all users and groups, named or not; `PosixAclState.of_processOneV4Ace` says that the
  lists of the source are such a function.
* `Fair`: what the states know of the verdict the ACEs have given so far; `Fair.spread` is its step.
* `nfs4AclNfsv4ToPosix_restrictive`: when the effective ACEs grant whatever the POSIX ACL grants.
* `nfs4AclNfsv4ToPosix_valid`: the POSIX ACL is valid.
-/

namespace Vastnfs.Nfsd

open BubbleSort List Option

/-! ## The translation -/

structure PosixAceState where
  (allow deny : BitVec 32 := 0)

def PosixAceState.allowBits (astate : PosixAceState) (mask : BitVec 32) : PosixAceState :=
  { astate with allow := astate.allow ||| (mask &&& ~~~astate.deny) }

def PosixAceState.denyBits (astate : PosixAceState) (mask : BitVec 32) : PosixAceState :=
  { astate with deny := astate.deny ||| (mask &&& ~~~astate.allow) }

abbrev PosixAceStateArray := List (Nat × PosixAceState)

/-- `struct posix_acl_state`; the mask is computed at the end. -/
structure PosixAclState where
  empty : Bool := true
  (owner group other everyone : PosixAceState := {})
  (users groups : PosixAceStateArray := [])

/-- `find_uid` and `find_gid`: the array with the id in it, and its index. -/
def findId (everyone : PosixAceState) (a : PosixAceStateArray) (id : Nat) : PosixAceStateArray × Nat :=
  (if a.any (·.1 = id) then a else a ++ [(id, everyone)], a.findIdx (·.1 = id))

def updateAt (a : PosixAceStateArray) (i : Nat) (f : PosixAceState → PosixAceState) : PosixAceStateArray :=
  a.modify i fun e => (e.1, f e.2)

def stateAt (a : PosixAceStateArray) (i : Nat) : PosixAceState := (a[i]?.map (·.2)).getD {}

def denyBitsArray (a : PosixAceStateArray) (mask : BitVec 32) : PosixAceStateArray := a.map fun e => (e.1, e.2.denyBits mask)

def allowBitsArray (a : PosixAceStateArray) (mask : BitVec 32) : PosixAceStateArray :=
  a.map fun e => (e.1, e.2.allowBits mask)

def ace2type (ace : Nfs4Ace) : AclTag :=
  match ace.whotype with
  | .named => if ace.flag &&& identifierGroup ≠ 0 then .group else .user
  | .owner => .userObj
  | .group => .groupObj
  | .everyone => .other

def processOneV4Ace (state : PosixAclState) (ace : Nfs4Ace) : PosixAclState :=
  let state := { state with empty := false }
  let mask := ace.accessMask
  match ace2type ace with
  | .userObj =>
    if ace.type = .allowed then { state with owner := state.owner.allowBits mask }
    else { state with owner := state.owner.denyBits mask }
  | .user =>
    let (users, i) := findId state.everyone state.users ace.who
    if ace.type = .allowed then { state with users := updateAt users i (·.allowBits mask) }
    else
      let users := updateAt users i (·.denyBits mask)
      let mask := (stateAt users i).deny
      { state with users := users, owner := state.owner.denyBits mask }
  | .groupObj =>
    if ace.type = .allowed then { state with group := state.group.allowBits mask }
    else
      let group := state.group.denyBits mask
      let mask := group.deny
      { state with
        group := group
        owner := state.owner.denyBits mask
        everyone := state.everyone.denyBits mask
        users := denyBitsArray state.users mask
        groups := denyBitsArray state.groups mask }
  | .group =>
    let (groups, i) := findId state.everyone state.groups ace.who
    if ace.type = .allowed then { state with groups := updateAt groups i (·.allowBits mask) }
    else
      let groups := updateAt groups i (·.denyBits mask)
      let mask := (stateAt groups i).deny
      { state with
        owner := state.owner.denyBits mask
        group := state.group.denyBits mask
        everyone := state.everyone.denyBits mask
        users := denyBitsArray state.users mask
        groups := denyBitsArray groups mask }
  | _ =>
    if ace.type = .allowed then
      { state with
        owner := state.owner.allowBits mask
        group := state.group.allowBits mask
        other := state.other.allowBits mask
        everyone := state.everyone.allowBits mask
        users := allowBitsArray state.users mask
        groups := allowBitsArray state.groups mask }
    else
      { state with
        owner := state.owner.denyBits mask
        group := state.group.denyBits mask
        other := state.other.denyBits mask
        everyone := state.everyone.denyBits mask
        users := denyBitsArray state.users mask
        groups := denyBitsArray state.groups mask }

def PosixAclState.mask (state : PosixAclState) : BitVec 32 :=
  let mask := state.users.foldl (fun mask e => mask ||| e.2.allow) 0
  let mask := mask ||| state.group.allow
  state.groups.foldl (fun mask e => mask ||| e.2.allow) mask

/-- `posix_state_to_acl`, where there is memory. -/
def posixStateToAcl (state : PosixAclState) (flags : AclFlags) : Option (List PosixAclEntry) :=
  if state.empty ∧ flags.typeDefault then none
  else some <|
    ⟨.userObj, lowModeFromNfs4 state.owner.allow flags, 0⟩ ::
      (state.users.map (fun e => ⟨.user, lowModeFromNfs4 e.2.allow flags, e.1⟩) ++
        ⟨.groupObj, lowModeFromNfs4 state.group.allow flags, 0⟩ ::
          (state.groups.map (fun e => ⟨.group, lowModeFromNfs4 e.2.allow flags, e.1⟩) ++
            ((if state.users ≠ [] ∨ state.groups ≠ [] then [⟨.mask, lowModeFromNfs4 state.mask flags, 0⟩] else []) ++
              [⟨.other, lowModeFromNfs4 state.other.allow flags, 0⟩])))

/-- The value of `e_tag`. -/
def AclTag.value : AclTag → Nat
  | .userObj => 1
  | .user => 2
  | .groupObj => 4
  | .group => 8
  | .mask => 16
  | .other => 32

def paceGt (pace1 pace2 : PosixAclEntry) : Bool :=
  if pace1.tag ≠ pace2.tag then pace2.tag.value < pace1.tag.value
  else if pace1.tag = .user then pace2.id < pace1.id
  else if pace1.tag = .group then pace2.id < pace1.id
  else false

def sortPacl (pacl : List PosixAclEntry) : List PosixAclEntry :=
  if pacl.length ≤ 4 then pacl
  else match pacl with
    | [] => []
    | owner :: rest =>
      owner :: (bubbleSort paceGt (rest.takeWhile (·.tag = .user)) ++
        match rest.dropWhile (·.tag = .user) with
        | [] => []
        | group :: rest =>
          group :: (bubbleSort paceGt (rest.takeWhile (·.tag = .group)) ++ rest.dropWhile (·.tag = .group)))

def supportedFlags : BitVec 32 := inheritanceFlags ||| inheritOnlyAce ||| identifierGroup

/-- The loop of `nfs4_acl_nfsv4_to_posix`: the effective and the default state, `none` for `-EINVAL`. -/
def nfsv4ToPosixLoop (dir : Bool) :
    List Nfs4Ace → PosixAclState → PosixAclState → Option (PosixAclState × PosixAclState)
  | [], effective, default => some (effective, default)
  | ace :: aces, effective, default =>
    if ace.type ≠ .allowed ∧ ace.type ≠ .denied then none
    else if ace.flag &&& ~~~supportedFlags ≠ 0 then none
    else if ace.flag &&& inheritanceFlags = 0 then
      nfsv4ToPosixLoop dir aces (processOneV4Ace effective ace) default
    else if dir = false then none
    else
      nfsv4ToPosixLoop dir aces
        (if ace.flag &&& inheritOnlyAce = 0 then processOneV4Ace effective ace else effective)
        (processOneV4Ace default ace)

def nfs4AclNfsv4ToPosix (acl : List Nfs4Ace) (dir : Bool) :
    Option (Option (List PosixAclEntry) × Option (List PosixAclEntry)) :=
  (nfsv4ToPosixLoop dir acl {} {}).map fun (effective, default) =>
    ((posixStateToAcl effective { dir := dir }).map sortPacl,
      (posixStateToAcl default { dir := dir, typeDefault := true }).map sortPacl)

/-- The loop takes the ACE for an effective one. -/
def Nfs4Ace.processed (ace : Nfs4Ace) : Bool :=
  ace.flag &&& inheritanceFlags = 0 || ace.flag &&& inheritOnlyAce = 0

def Nfs4Ace.effective (ace : Nfs4Ace) : Bool := ace.flag &&& inheritOnlyAce = 0

/-! ## The states of all users and groups -/

/-- Those whose permissions are kept apart. -/
inductive Entity
  | owner | group | other | everyone
  | user (uid : Nat)
  | namedGroup (gid : Nat)
deriving DecidableEq

abbrev EntityState := Entity → PosixAceState

def Nfs4Ace.entity (ace : Nfs4Ace) : Entity :=
  match ace.whotype with
  | .named => if ace.flag &&& identifierGroup ≠ 0 then .namedGroup ace.who else .user ace.who
  | .owner => .owner
  | .group => .group
  | .everyone => .everyone

/-- Whether a DENY for an entity is spread to another. -/
def Entity.spreadsTo : Entity → Entity → Bool
  | .user _, e => e = .owner
  | .group, e => e ≠ .other
  | .namedGroup _, e => e ≠ .other
  | _, _ => false

/-- What an ACE does to everybody. -/
def spread (f : EntityState) (ace : Nfs4Ace) : EntityState := fun e =>
  let mask := ace.accessMask
  if ace.entity = .everyone ∨ e = ace.entity then
    if ace.type = .allowed then (f e).allowBits mask else (f e).denyBits mask
  else if ace.type ≠ .allowed ∧ ace.entity.spreadsTo e = true then (f e).denyBits ((f ace.entity).denyBits mask).deny
  else f e

def lookupId (everyone : PosixAceState) (a : PosixAceStateArray) (id : Nat) : PosixAceState :=
  ((a.find? (·.1 = id)).map (·.2)).getD everyone

def PosixAclState.of (state : PosixAclState) : EntityState
  | .owner => state.owner
  | .group => state.group
  | .other => state.other
  | .everyone => state.everyone
  | .user uid => lookupId state.everyone state.users uid
  | .namedGroup gid => lookupId state.everyone state.groups gid

section

variable {everyone : PosixAceState} {a : PosixAceStateArray} {id : Nat} {g : PosixAceState → PosixAceState}

/-- Finds an id, adding it if need be, and changes its state. -/
def updateId (everyone : PosixAceState) (a : PosixAceStateArray) (id : Nat) (f : PosixAceState → PosixAceState) :
    PosixAceStateArray :=
  updateAt (findId everyone a id).1 (findId everyone a id).2 f

theorem updateId_nil : updateId everyone [] id g = [(id, g everyone)] := by
  simp [updateId, findId, updateAt]

theorem updateId_cons (e : Nat × PosixAceState) :
    updateId everyone (e :: a) id g = if e.1 = id then (e.1, g e.2) :: a else e :: updateId everyone a id g := by
  by_cases he : e.1 = id
  · simp [updateId, findId, updateAt, he, findIdx_cons]
  · simp only [updateId, findId, updateAt, any_cons, he, decide_false, Bool.false_or, findIdx_cons, cond_false]
    split <;> simp

theorem lookupId_cons (e : Nat × PosixAceState) (x : Nat) :
    lookupId everyone (e :: a) x = if e.1 = x then e.2 else lookupId everyone a x := by
  by_cases he : e.1 = x <;> simp [lookupId, he]

theorem lookupId_updateId (x : Nat) :
    lookupId everyone (updateId everyone a id g) x = if x = id then g (lookupId everyone a x) else lookupId everyone a x := by
  induction a with
  | nil =>
    rw [updateId_nil]
    by_cases hx : x = id
    · simp [lookupId, hx]
    · have hne : ¬ id = x := fun h => hx h.symm
      simp [lookupId, hx, hne]
  | cons e a ih =>
    rw [updateId_cons, lookupId_cons]
    by_cases he : e.1 = id
    · rw [if_pos he, lookupId_cons]
      by_cases hx : e.1 = x
      · simp [hx, hx.symm.trans he]
      · have hne : ¬ x = id := fun h => hx (he.trans h.symm)
        simp [hx, hne]
    rw [if_neg he, lookupId_cons, ih]
    by_cases hx : e.1 = x
    · have hne : ¬ x = id := fun h => he (hx.trans h)
      simp [hx, hne]
    · simp [hx]

theorem stateAt_updateId : stateAt (updateId everyone a id g) (findId everyone a id).2 = g (lookupId everyone a id) := by
  induction a with
  | nil => simp [updateId_nil, findId, stateAt, lookupId]
  | cons e a ih =>
    rw [updateId_cons, lookupId_cons]
    by_cases he : e.1 = id
    · simp [findId, stateAt, he, findIdx_cons]
    · simpa [findId, stateAt, he, findIdx_cons] using ih

theorem lookupId_map (h : PosixAceState → PosixAceState) (x : Nat) :
    lookupId (h everyone) (a.map fun e => (e.1, h e.2)) x = h (lookupId everyone a x) := by
  induction a with
  | nil => rfl
  | cons e a ih =>
    rw [map_cons, lookupId_cons, lookupId_cons, ih]
    split <;> rfl

@[simp]
theorem lookupId_denyBitsArray (mask : BitVec 32) (x : Nat) :
    lookupId (everyone.denyBits mask) (denyBitsArray a mask) x = (lookupId everyone a x).denyBits mask :=
  lookupId_map (·.denyBits mask) x

@[simp]
theorem lookupId_allowBitsArray (mask : BitVec 32) (x : Nat) :
    lookupId (everyone.allowBits mask) (allowBitsArray a mask) x = (lookupId everyone a x).allowBits mask :=
  lookupId_map (·.allowBits mask) x

theorem map_fst_updateId : (updateId everyone a id g).map (·.1) =
    if id ∈ a.map (·.1) then a.map (·.1) else a.map (·.1) ++ [id] := by
  induction a with
  | nil => simp [updateId_nil]
  | cons e a ih =>
    rw [updateId_cons]
    by_cases he : e.1 = id
    · simp [he]
    have hne : id ≠ e.1 := fun h => he h.symm
    rw [if_neg he, map_cons, ih]
    simp only [map_cons, mem_cons, hne, false_or]
    split <;> rfl

theorem PosixAceState.denyBits_deny (astate : PosixAceState) : astate.denyBits astate.deny = astate := by
  have : astate.deny ||| (astate.deny &&& ~~~astate.allow) = astate.deny := by
    ext i hi
    simp
    exact fun h _ => h
  rw [PosixAceState.denyBits, this]

end

theorem Nfs4Ace.entity_cases (ace : Nfs4Ace) :
    ace2type ace = .userObj ∧ ace.entity = .owner ∨ ace2type ace = .user ∧ ace.entity = .user ace.who ∨
      ace2type ace = .groupObj ∧ ace.entity = .group ∨ ace2type ace = .group ∧ ace.entity = .namedGroup ace.who ∨
      ace2type ace = .other ∧ ace.entity = .everyone := by
  unfold ace2type entity
  cases ace.whotype with
  | named =>
    by_cases hgroup : ace.flag &&& identifierGroup ≠ 0
    · exact .inr (.inr (.inr (.inl ⟨if_pos hgroup, if_pos hgroup⟩)))
    · exact .inr (.inl ⟨if_neg hgroup, if_neg hgroup⟩)
  | _ => simp

/-- **The arrays are a state for everybody**: an id that is not in them has the state of everyone. -/
theorem PosixAclState.of_processOneV4Ace (state : PosixAclState) (ace : Nfs4Ace) :
    (processOneV4Ace state ace).of = spread state.of ace := by
  have hupdate : ∀ ev a id f, updateAt (findId ev a id).1 (findId ev a id).2 f = updateId ev a id f := fun _ _ _ _ => rfl
  funext e
  unfold processOneV4Ace spread
  obtain ⟨htag, hentity⟩ | ⟨htag, hentity⟩ | ⟨htag, hentity⟩ | ⟨htag, hentity⟩ | ⟨htag, hentity⟩ := ace.entity_cases <;>
    simp only [htag, hentity, hupdate, stateAt_updateId] <;>
    by_cases htype : ace.type = .allowed <;> cases e <;>
    simp [htype, Entity.spreadsTo, PosixAclState.of, lookupId_updateId]

  -- the array of groups is denied the bits once more
  split_ifs with hgid
  · rw [hgid, PosixAceState.denyBits_deny]
  · rfl

/-! ## What the states know of the verdict -/

def Entity.isAbout (r : Requester) : Entity → Bool
  | .owner => r.iUid = r.fsuid
  | .group => r.inGroupP r.iGid
  | .other => true
  | .everyone => true
  | .user uid => uid = r.fsuid
  | .namedGroup gid => r.inGroupP gid

theorem Nfs4Ace.entity_isAbout (ace : Nfs4Ace) (r : Requester) : ace.entity.isAbout r = ace.isAbout r := by
  unfold entity Nfs4Ace.isAbout
  cases ace.whotype with
  | named =>
    split_ifs with hgroup
    · simp only [Entity.isAbout]
    · simp only [Entity.isAbout]
  | _ => simp [Entity.isAbout]

/-- The entities whose POSIX entry may decide for the requester, behind some ACEs. -/
def Decides (r : Requester) (aces : List Nfs4Ace) (e : Entity) : Prop :=
  if r.iUid = r.fsuid then e = .owner
  else e = .user r.fsuid ∨
    (∀ ace ∈ aces, ace.entity ≠ .user r.fsuid) ∧
      (e.isAbout r = true ∧ (e = .group ∨ ∃ gid, e = .namedGroup gid) ∨
        e = .other ∧ r.inGroupP r.iGid = false ∧ ∀ ace ∈ aces, ∀ gid, ace.entity = .namedGroup gid → r.inGroupP gid = false)

variable {aces : List Nfs4Ace} {r : Requester} {e : Entity} {ace : Nfs4Ace}

theorem Decides.isAbout (h : Decides r aces e) : e.isAbout r = true := by
  unfold Decides at h
  split_ifs at h with howner
  · rw [h]
    exact decide_eq_true howner
  obtain rfl | ⟨-, ⟨habout, -⟩ | ⟨rfl, -⟩⟩ := h
  · exact decide_eq_true rfl
  · exact habout
  · rfl

theorem Decides.of_append (h : Decides r (aces ++ [ace]) e) : Decides r aces e := by
  unfold Decides at h ⊢
  split at h
  · rw [if_pos (by assumption)]
    exact h
  rw [if_neg (by assumption)]
  obtain h | ⟨hnamed, h | ⟨rfl, hgroup, hgroups⟩⟩ := h
  · exact .inl h
  · exact .inr ⟨fun a ha => hnamed a (mem_append_left _ ha), .inl h⟩
  · exact .inr ⟨fun a ha => hnamed a (mem_append_left _ ha),
      .inr ⟨rfl, hgroup, fun a ha => hgroups a (mem_append_left _ ha)⟩⟩

theorem Decides.reached (h : Decides r (aces ++ [ace]) e) (habout : ace.entity.isAbout r = true) :
    (ace.entity = .everyone ∨ e = ace.entity) ∨ ace.entity.spreadsTo e = true := by
  have hlast : ace ∈ aces ++ [ace] := mem_append_right _ (mem_singleton_self _)
  unfold Decides at h
  obtain ⟨-, hentity⟩ | ⟨-, hentity⟩ | ⟨-, hentity⟩ | ⟨-, hentity⟩ | ⟨-, hentity⟩ := ace.entity_cases <;>
    rw [hentity] at habout ⊢
  · -- the owner
    rw [if_pos (of_decide_eq_true habout)] at h
    exact .inl (.inr h)
  · -- a named user
    have huser : ace.who = r.fsuid := of_decide_eq_true habout
    split at h
    · rw [h]
      exact .inr rfl
    obtain rfl | ⟨hnamed, -⟩ := h
    · rw [huser]
      exact .inl (.inr rfl)
    · exact absurd (hentity.trans (by rw [huser])) (hnamed ace hlast)
  · -- the owning group
    split at h
    · rw [h]
      exact .inr rfl
    obtain rfl | ⟨-, ⟨-, rfl | ⟨gid, rfl⟩⟩ | ⟨rfl, hgroup, -⟩⟩ := h
    · exact .inr rfl
    · exact .inl (.inr rfl)
    · exact .inr rfl
    · exact absurd (hgroup.symm.trans habout) (by simp)
  · -- a named group
    split at h
    · rw [h]
      exact .inr rfl
    obtain rfl | ⟨-, ⟨-, rfl | ⟨gid, rfl⟩⟩ | ⟨rfl, -, hgroups⟩⟩ := h
    · exact .inr rfl
    · exact .inr rfl
    · exact .inr rfl
    · exact absurd ((hgroups ace hlast _ hentity).symm.trans habout) (by simp)
  · exact .inl (.inl rfl)

/-- What the states know of the verdict on a bit: a bit allowed to an entity about the requester has been decided; one
denied to the requester is denied to every entity that decides for it; no bit is both allowed and denied. -/
structure Fair (r : Requester) (k : Nat) (aces : List Nfs4Ace) (f : EntityState) : Prop where
  apart : ∀ e, (f e).allow.getLsbD k = true → (f e).deny.getLsbD k = false
  settled : ∀ e, e.isAbout r = true → (f e).allow.getLsbD k = true → aces.findSome? (·.verdict r k) ≠ none
  barred : ∀ e, Decides r aces e → aces.findSome? (·.verdict r k) = some false → (f e).deny.getLsbD k = true

section

variable {r : Requester} {k : Nat} {st : PosixAceState} {mask : BitVec 32} {aces : List Nfs4Ace} {f : EntityState}

section

variable (hk : k < 32)
include hk

theorem getLsbD_allowBits : (st.allowBits mask).allow.getLsbD k =
    (st.allow.getLsbD k || (mask.getLsbD k && !st.deny.getLsbD k)) := by
  simp [PosixAceState.allowBits, hk]

theorem getLsbD_denyBits : (st.denyBits mask).deny.getLsbD k =
    (st.deny.getLsbD k || (mask.getLsbD k && !st.allow.getLsbD k)) := by
  simp [PosixAceState.denyBits, hk]

section

variable (h : st.allow.getLsbD k = true → st.deny.getLsbD k = false)
include h

theorem apart_allowBits :
    (st.allowBits mask).allow.getLsbD k = true → (st.allowBits mask).deny.getLsbD k = false := by
  rw [getLsbD_allowBits hk]
  change _ → st.deny.getLsbD k = false
  intro hallow
  cases hdeny : st.deny.getLsbD k with
  | false => rfl
  | true =>
    rw [hdeny] at h hallow
    simp at hallow
    exact absurd (h hallow) (by simp)

theorem apart_denyBits :
    (st.denyBits mask).allow.getLsbD k = true → (st.denyBits mask).deny.getLsbD k = false := by
  rw [getLsbD_denyBits hk]
  change st.allow.getLsbD k = true → _
  intro hallow
  rw [hallow, h hallow]
  simp

end

/-- **One ACE keeps the states fair.** -/
theorem Fair.spread {ace : Nfs4Ace} (h : Fair r k aces f)
    (htype : ace.type = .allowed ∨ ace.type = .denied) : Fair r k (aces ++ [ace]) (spread f ace) := by
  have hverdict : (aces ++ [ace]).findSome? (·.verdict r k) =
      (aces.findSome? (·.verdict r k)).or (ace.verdict r k) := by
    rw [findSome?_append, findSome?_cons]
    cases ace.verdict r k <;> rfl
  constructor
  · intro e
    unfold Nfsd.spread
    split
    · split
      · exact apart_allowBits hk (h.apart e)
      · exact apart_denyBits hk (h.apart e)
    split
    · exact apart_denyBits hk (h.apart e)
    · exact h.apart e
  · intro e habout hallow
    rw [hverdict]
    -- a bit that was allowed before has been decided before
    have hold : (f e).allow.getLsbD k = true → (aces.findSome? (·.verdict r k)).or (ace.verdict r k) ≠ none := by
      intro hold
      have := h.settled e habout hold
      cases hdec : aces.findSome? (·.verdict r k) with
      | none => exact absurd hdec this
      | some b => simp
    unfold Nfsd.spread at hallow
    split at hallow
    · rename_i hfor
      split_ifs at hallow with hallowed
      · rw [getLsbD_allowBits hk, Bool.or_eq_true, Bool.and_eq_true] at hallow
        obtain hallow | ⟨hmask, -⟩ := hallow
        · exact hold hallow
        have hace : ace.isAbout r = true := by
          rw [← ace.entity_isAbout]
          obtain heveryone | rfl := hfor
          · rw [heveryone]
            rfl
          · exact habout
        have : ace.verdict r k = some true := by simp [Nfs4Ace.verdict, hace, hmask, hallowed]
        rw [this]
        simp
      · exact hold hallow
    · split at hallow
      · exact hold hallow
      · exact hold hallow
  · intro e hdecides hdec
    rw [hverdict] at hdec
    cases hbefore : aces.findSome? (·.verdict r k) with
    | some b =>
      rw [hbefore] at hdec
      cases hdec
      have hdeny := h.barred e hdecides.of_append hbefore
      unfold Nfsd.spread
      split
      · split
        · exact hdeny
        · rw [getLsbD_denyBits hk, hdeny, Bool.true_or]
      split
      · rw [getLsbD_denyBits hk, hdeny, Bool.true_or]
      · exact hdeny
    | none =>
      rw [hbefore] at hdec
      -- the ACE decides, so it is a DENY about the requester that names the bit
      have hace : ace.isAbout r = true ∧ ace.accessMask.getLsbD k = true ∧ ace.type = .denied := by
        unfold Nfs4Ace.verdict at hdec
        split_ifs at hdec with hboth
        · rw [Bool.and_eq_true] at hboth
          obtain hallowed | hdenied := htype
          · rw [hallowed] at hdec
            cases hdec
          · exact ⟨hboth.1, hboth.2, hdenied⟩
        · cases hdec
      obtain ⟨habout, hmask, hdenied⟩ := hace
      have hentity : ace.entity.isAbout r = true := ace.entity_isAbout r ▸ habout
      have hunset : ∀ e, e.isAbout r = true → (f e).allow.getLsbD k = false := by
        intro e he
        by_contra hallow
        exact h.settled e he (Bool.not_eq_false _ ▸ hallow) hbefore
      have hnot : ¬ ace.type = .allowed := by
        rw [hdenied]
        decide
      unfold Nfsd.spread
      obtain hfor | hspreads := hdecides.reached hentity
      · rw [if_pos hfor, if_neg hnot, getLsbD_denyBits hk, hmask, hunset e hdecides.isAbout]
        simp
      split
      · rw [getLsbD_denyBits hk, hmask, hunset e hdecides.isAbout]
        simp
      rw [if_pos ⟨hnot, hspreads⟩, getLsbD_denyBits hk, getLsbD_denyBits hk, hmask, hunset e hdecides.isAbout,
        hunset _ hentity]
      simp

end

theorem Fair.granted {e : Entity} (h : Fair r k aces f) (hdecides : Decides r aces e)
    (hallow : (f e).allow.getLsbD k = true) : granted r k aces = true := by
  unfold Nfsd.granted
  cases hdec : aces.findSome? (·.verdict r k) with
  | none => exact absurd hdec (h.settled e hdecides.isAbout hallow)
  | some b =>
    cases b with
    | true => rfl
    | false =>
      have hdeny := h.barred e hdecides hdec
      exact absurd ((h.apart e hallow).symm.trans hdeny) (by simp)

end

/-! ## The ids in the arrays -/

/-- The arrays hold each id that some ACE names, once. -/
structure Listed (aces : List Nfs4Ace) (state : PosixAclState) : Prop where
  users_nodup : (state.users.map (·.1)).Nodup
  groups_nodup : (state.groups.map (·.1)).Nodup
  users : ∀ uid, uid ∈ state.users.map (·.1) ↔ ∃ ace ∈ aces, ace.entity = .user uid
  groups : ∀ gid, gid ∈ state.groups.map (·.1) ↔ ∃ ace ∈ aces, ace.entity = .namedGroup gid

section

variable {aces : List Nfs4Ace} {state : PosixAclState} {ace : Nfs4Ace} {l : List Nat} {id : Nat}

theorem map_fst_denyBitsArray (a : PosixAceStateArray) (mask : BitVec 32) :
    (denyBitsArray a mask).map (·.1) = a.map (·.1) := by
  simp [denyBitsArray]

theorem map_fst_allowBitsArray (a : PosixAceStateArray) (mask : BitVec 32) :
    (allowBitsArray a mask).map (·.1) = a.map (·.1) := by
  simp [allowBitsArray]

def withId (l : List Nat) (id : Nat) : List Nat := if id ∈ l then l else l ++ [id]

theorem nodup_withId (h : l.Nodup) : (withId l id).Nodup := by
  unfold withId
  split_ifs with hnew
  · exact h
  rw [nodup_append]
  refine ⟨h, pairwise_singleton _ id, fun x hx y hy hxy => hnew ?_⟩
  rw [← mem_singleton.1 hy, ← hxy]
  exact hx

theorem mem_withId {x : Nat} : x ∈ withId l id ↔ x ∈ l ∨ x = id := by
  unfold withId
  split_ifs with hmem
  · exact ⟨.inl, fun h => h.elim (fun h => h) fun h => h ▸ hmem⟩
  · simp

theorem ids_processOneV4Ace (state : PosixAclState) (ace : Nfs4Ace) :
    ((processOneV4Ace state ace).users.map (·.1) =
        match ace.entity with
        | .user uid => withId (state.users.map (·.1)) uid
        | _ => state.users.map (·.1)) ∧
      (processOneV4Ace state ace).groups.map (·.1) =
        match ace.entity with
        | .namedGroup gid => withId (state.groups.map (·.1)) gid
        | _ => state.groups.map (·.1) := by
  have hids : ∀ ev a id f, (updateAt (findId ev a id).1 (findId ev a id).2 f).map (·.1) = withId (a.map (·.1)) id :=
    fun ev a id f => map_fst_updateId
  unfold processOneV4Ace
  obtain ⟨htag, hentity⟩ | ⟨htag, hentity⟩ | ⟨htag, hentity⟩ | ⟨htag, hentity⟩ | ⟨htag, hentity⟩ := ace.entity_cases <;>
    simp only [htag, hentity] <;> by_cases htype : ace.type = .allowed <;>
    simp [htype, hids, map_fst_denyBitsArray, map_fst_allowBitsArray]

theorem Listed.process (h : Listed aces state) : Listed (aces ++ [ace]) (processOneV4Ace state ace) := by
  obtain ⟨husers, hgroups⟩ := ids_processOneV4Ace state ace
  have hone : ∀ P : Nfs4Ace → Prop, (∃ a ∈ aces ++ [ace], P a) ↔ (∃ a ∈ aces, P a) ∨ P ace := by
    intro P
    simp [or_and_right, exists_or]
  constructor
  · rw [husers]
    split
    · exact nodup_withId h.users_nodup
    · exact h.users_nodup
  · rw [hgroups]
    split
    · exact nodup_withId h.groups_nodup
    · exact h.groups_nodup
  · intro uid
    rw [husers, hone, ← h.users]
    cases hentity : ace.entity <;> simp [mem_withId, eq_comm]
  · intro gid
    rw [hgroups, hone, ← h.groups]
    cases hentity : ace.entity <;> simp [mem_withId, eq_comm]

theorem lookupId_of_mem {everyone : PosixAceState} {a : PosixAceStateArray} {e : Nat × PosixAceState}
    (hnodup : (a.map (·.1)).Nodup) (he : e ∈ a) : lookupId everyone a e.1 = e.2 := by
  induction a with
  | nil => cases he
  | cons e' a ih =>
    obtain ⟨hnew, hnodup⟩ := nodup_cons.1 hnodup
    rw [lookupId_cons]
    obtain rfl | he := mem_cons.1 he
    · rw [if_pos rfl]
    · have hne : ¬ e'.1 = e.1 := fun h => hnew (mem_map.2 ⟨e, he, h.symm⟩)
      rw [if_neg hne, ih hnodup he]

end

/-! ## The POSIX ACL -/

section

variable {dir : Bool} {state : PosixAclState} {aces : List Nfs4Ace} {acl : PosixAcl} {r : Requester} {k : Nat}

/-- What the loop leaves: the ACEs it takes for effective have been processed in their order. -/
theorem nfsv4ToPosixLoop_eq {effective default : PosixAclState} {out : PosixAclState × PosixAclState}
    (h : nfsv4ToPosixLoop dir aces effective default = some out) :
    out.1 = (aces.filter Nfs4Ace.processed).foldl processOneV4Ace effective ∧
      ∀ ace ∈ aces, ace.type = .allowed ∨ ace.type = .denied := by
  induction aces generalizing effective default with
  | nil =>
    cases h
    exact ⟨rfl, nofun⟩
  | cons ace aces ih =>
    rw [nfsv4ToPosixLoop] at h
    split at h
    · cases h
    rename_i htype
    have htype : ace.type = .allowed ∨ ace.type = .denied := by
      by_contra hnot
      exact htype (not_or.1 hnot)
    split at h
    · cases h
    split at h
    · rename_i hflag
      obtain ⟨heq, htypes⟩ := ih h
      refine ⟨?_, forall_mem_cons.2 ⟨htype, htypes⟩⟩
      rw [filter_cons_of_pos (by simp [Nfs4Ace.processed, hflag]), foldl_cons, heq]
    rename_i hflag
    split at h
    · cases h
    obtain ⟨heq, htypes⟩ := ih h
    refine ⟨?_, forall_mem_cons.2 ⟨htype, htypes⟩⟩
    by_cases honly : ace.flag &&& inheritOnlyAce = 0
    · rw [filter_cons_of_pos (by simp [Nfs4Ace.processed, honly]), foldl_cons, heq, if_pos honly]
    · rw [filter_cons_of_neg (by rw [Nfs4Ace.processed, decide_eq_false hflag, decide_eq_false honly]; simp), heq, if_neg honly]

theorem fair_foldl (hk : k < 32) (aces : List Nfs4Ace) (htypes : ∀ ace ∈ aces, ace.type = .allowed ∨ ace.type = .denied)
    {done : List Nfs4Ace} (hfair : Fair r k done state.of) (hlisted : Listed done state) :
    Fair r k (done ++ aces) (aces.foldl processOneV4Ace state).of ∧
      Listed (done ++ aces) (aces.foldl processOneV4Ace state) := by
  induction aces generalizing done state with
  | nil =>
    rw [append_nil]
    exact ⟨hfair, hlisted⟩
  | cons ace aces ih =>
    obtain ⟨htype, htypes⟩ := forall_mem_cons.1 htypes
    have hnext := hfair.spread hk htype
    rw [← state.of_processOneV4Ace ace] at hnext
    rw [append_cons]
    exact ih htypes hnext hlisted.process

theorem fair_init (r : Requester) (k : Nat) : Fair r k [] ({} : PosixAclState).of ∧ Listed [] ({} : PosixAclState) := by
  have hzero : ∀ e, ({} : PosixAclState).of e = {} := by
    intro e
    cases e <;> rfl
  refine ⟨⟨fun e => ?_, fun e _ => ?_, fun e _ hdec => ?_⟩, ⟨nodup_nil, nodup_nil, by simp, by simp⟩⟩
  · rw [hzero]
    simp
  · rw [hzero]
    simp
  · cases hdec

theorem sortPacl_eq {owner group : PosixAclEntry} {users groups tail : List PosixAclEntry}
    (husers : ∀ pa ∈ users, pa.tag = .user) (hgroup : group.tag = .groupObj) (hgroups : ∀ pa ∈ groups, pa.tag = .group)
    (htail : ∀ pa ∈ tail, pa.tag ≠ .group) :
    ∃ users' groups', sortPacl (owner :: (users ++ group :: (groups ++ tail))) =
        owner :: (users' ++ group :: (groups' ++ tail)) ∧ users'.Perm users ∧ groups'.Perm groups := by
  unfold sortPacl
  split
  · exact ⟨users, groups, rfl, List.Perm.refl _, List.Perm.refl _⟩
  have husers : ∀ pa ∈ users, decide (pa.tag = .user) = true := fun pa h => decide_eq_true (husers pa h)
  have hgroups : ∀ pa ∈ groups, decide (pa.tag = .group) = true := fun pa h => decide_eq_true (hgroups pa h)
  have htakeTail : tail.takeWhile (·.tag = .group) = [] ∧ tail.dropWhile (·.tag = .group) = tail := by
    cases tail with
    | nil => exact ⟨rfl, rfl⟩
    | cons pa tail => simp [htail pa mem_cons_self]
  refine ⟨bubbleSort paceGt users, bubbleSort paceGt groups, ?_, bubbleSort_perm _, bubbleSort_perm _⟩
  simp [takeWhile_append_of_pos husers, dropWhile_append_of_pos husers, hgroup,
    takeWhile_append_of_pos hgroups, dropWhile_append_of_pos hgroups, htakeTail.1, htakeTail.2]

structure Shows (dir : Bool) (state : PosixAclState) (acl : PosixAcl) : Prop where
  owner : acl.owner.perm = lowModeFromNfs4 state.owner.allow { dir := dir }
  users : acl.users.Perm (state.users.map fun e => ⟨.user, lowModeFromNfs4 e.2.allow { dir := dir }, e.1⟩)
  group : acl.group.perm = lowModeFromNfs4 state.group.allow { dir := dir }
  groups : acl.groups.Perm (state.groups.map fun e => ⟨.group, lowModeFromNfs4 e.2.allow { dir := dir }, e.1⟩)
  other : acl.other.perm = lowModeFromNfs4 state.other.allow { dir := dir }
  mask : acl.mask.map (·.perm) =
    if state.users ≠ [] ∨ state.groups ≠ [] then some (lowModeFromNfs4 state.mask { dir := dir }) else none

theorem exists_posixAcl (state : PosixAclState) (hnodup : (state.users.map (·.1)).Nodup) :
    ∃ acl : PosixAcl, (posixStateToAcl state { dir := dir }).map sortPacl = some acl.entries ∧ Shows dir state acl := by
  generalize husers : state.users.map (fun e => (⟨.user, lowModeFromNfs4 e.2.allow { dir := dir }, e.1⟩ : PosixAclEntry)) =
    users
  generalize hgroups : state.groups.map
    (fun e => (⟨.group, lowModeFromNfs4 e.2.allow { dir := dir }, e.1⟩ : PosixAclEntry)) = groups
  generalize hmask : (if state.users ≠ [] ∨ state.groups ≠ [] then
    some (⟨.mask, lowModeFromNfs4 state.mask { dir := dir }, 0⟩ : PosixAclEntry) else none) = mask
  have husersTag : ∀ pa ∈ users, pa.tag = .user := by
    intro pa hpa
    rw [← husers] at hpa
    obtain ⟨e, -, rfl⟩ := mem_map.1 hpa
    rfl
  have hgroupsTag : ∀ pa ∈ groups, pa.tag = .group := by
    intro pa hpa
    rw [← hgroups] at hpa
    obtain ⟨e, -, rfl⟩ := mem_map.1 hpa
    rfl
  have hmaskTag : ∀ pa ∈ mask, pa.tag = .mask := by
    intro pa hpa
    rw [← hmask] at hpa
    split at hpa <;> cases hpa
    rfl
  have htail : ∀ pa ∈ mask.toList ++ [(⟨.other, lowModeFromNfs4 state.other.allow { dir := dir }, 0⟩ : PosixAclEntry)],
      pa.tag ≠ .group := by
    intro pa hpa
    obtain h | h := mem_append.1 hpa
    · rw [hmaskTag pa (mem_toList.1 h)]
      decide
    · rw [mem_singleton.1 h]
      simp
  obtain ⟨users', groups', heq, hu, hg⟩ := @sortPacl_eq ⟨.userObj, lowModeFromNfs4 state.owner.allow { dir := dir }, 0⟩
    ⟨.groupObj, lowModeFromNfs4 state.group.allow { dir := dir }, 0⟩ users groups _ husersTag rfl hgroupsTag htail
  have hids : users.map (·.id) = state.users.map (·.1) := by
    rw [← husers, List.map_map]
    rfl
  refine ⟨⟨⟨.userObj, lowModeFromNfs4 state.owner.allow { dir := dir }, 0⟩, users',
    ⟨.groupObj, lowModeFromNfs4 state.group.allow { dir := dir }, 0⟩, groups', mask,
    ⟨.other, lowModeFromNfs4 state.other.allow { dir := dir }, 0⟩, rfl, fun pa h => husersTag pa (hu.mem_iff.1 h), rfl,
    fun pa h => hgroupsTag pa (hg.mem_iff.1 h), hmaskTag, rfl, ?_⟩, ?_, ⟨rfl, husers ▸ hu, rfl, hgroups ▸ hg, rfl, ?_⟩⟩
  · exact (hu.map _).nodup_iff.2 (hids ▸ hnodup)
  · have htoList : (if state.users ≠ [] ∨ state.groups ≠ [] then
        [(⟨.mask, lowModeFromNfs4 state.mask { dir := dir }, 0⟩ : PosixAclEntry)] else []) = mask.toList := by
      rw [← hmask]
      split <;> rfl
    unfold posixStateToAcl
    rw [if_neg (by simp), map_some, husers, hgroups, htoList, heq]
    rfl
  · change mask.map (·.perm) = _
    rw [← hmask]
    split <;> rfl

theorem lowModeFromNfs4_and (perm : BitVec 32) (flags : AclFlags) : lowModeFromNfs4 perm flags &&& ~~~7 = 0 := by
  have hor : ∀ (c : Prop) [Decidable c] (a b : BitVec 16), a &&& ~~~7 = 0 → b &&& ~~~7 = 0 →
      (if c then a ||| b else a) &&& ~~~7 = 0 := by
    intro c _ a b ha hb
    split
    · rw [BitVec.and_or_distrib_right, ha, hb]
      rfl
    · exact ha
  exact hor _ _ _ (hor _ _ _ (hor _ _ _ (by decide) (by decide)) (by decide)) (by decide)

theorem aclValidFrom_named {needsMask : Bool} {state : AclState} {tag : AclTag} {l rest : List PosixAclEntry}
    (hnext : ∀ b, aclNext b state tag = some (state, true)) (hl : ∀ pa ∈ l, pa.tag = tag ∧ pa.perm &&& ~~~7 = 0) :
    aclValidFrom needsMask state (l ++ rest) = aclValidFrom (needsMask || !l.isEmpty) state rest := by
  induction l generalizing needsMask with
  | nil => simp
  | cons pa l ih =>
    obtain ⟨⟨htag, hperm⟩, hl⟩ := forall_mem_cons.1 hl
    rw [cons_append, aclValidFrom, htag, hnext, hperm]
    simp [ih hl]

theorem Shows.valid (h : Shows dir state acl) : posixAclValid acl.entries := by
  have hentry : ∀ {l : List PosixAclEntry} {a : PosixAceStateArray} {tag : AclTag},
      l.Perm (a.map fun e => ⟨tag, lowModeFromNfs4 e.2.allow { dir := dir }, e.1⟩) →
        (∀ pa ∈ l, pa.tag = tag ∧ pa.perm &&& ~~~7 = 0) ∧ (l.isEmpty = a.isEmpty) := by
    intro l a tag hperm
    refine ⟨fun pa hpa => ?_, ?_⟩
    · obtain ⟨e, -, rfl⟩ := mem_map.1 (hperm.mem_iff.1 hpa)
      exact ⟨rfl, lowModeFromNfs4_and _ _⟩
    · rw [hperm.isEmpty_eq, isEmpty_map]
  obtain ⟨husers, husersEmpty⟩ := hentry h.users
  obtain ⟨hgroups, hgroupsEmpty⟩ := hentry h.groups
  refine ⟨?_, ?_⟩
  · have howner : acl.owner.perm &&& ~~~7 = 0 := h.owner ▸ lowModeFromNfs4_and _ _
    have hgroup : acl.group.perm &&& ~~~7 = 0 := h.group ▸ lowModeFromNfs4_and _ _
    have hother : acl.other.perm &&& ~~~7 = 0 := h.other ▸ lowModeFromNfs4_and _ _
    rw [PosixAcl.entries, aclValidFrom, acl.owner_tag, howner]
    simp only [aclNext, beq_self_eq_true, Bool.true_and]
    rw [aclValidFrom_named (fun _ => rfl) husers, aclValidFrom, acl.group_tag, hgroup]
    simp only [aclNext, beq_self_eq_true, Bool.true_and]
    rw [aclValidFrom_named (fun _ => rfl) hgroups, husersEmpty, hgroupsEmpty, PosixAcl.tail]
    have hmask := h.mask
    cases hm : acl.mask with
    | none =>
      rw [hm] at hmask
      have hnone : state.users = [] ∧ state.groups = [] := by
        by_contra hnot
        rw [if_pos (by
          by_contra hno
          exact hnot (by simpa using hno))] at hmask
        cases hmask
      simp only [hnone.1, hnone.2, toList_none, nil_append, aclValidFrom, acl.other_tag, hother]
      rfl
    | some pa =>
      have hperm : pa.perm &&& ~~~7 = 0 := by
        rw [hm, map_some] at hmask
        split at hmask
        · rw [Option.some.inj hmask]
          exact lowModeFromNfs4_and _ _
        · cases hmask
      simp only [toList_some, cons_append, nil_append, aclValidFrom, acl.mask_tag pa hm, acl.other_tag, hother, hperm]
      rfl
  · rw [PosixAcl.entries, PosixAcl.tail,
      filter_user_eq acl.owner_tag acl.users_tag acl.group_tag acl.groups_tag acl.mask_tag acl.other_tag]
    exact acl.users_nodup

theorem Shows.exists_decides {m : AclMode} (h : Shows dir state acl) (hlisted : Listed aces state) (hk : k ∈ m.bits dir)
    (hgrants : acl.permission r m = true) : ∃ e, Decides r aces e ∧ (state.of e).allow.getLsbD k = true := by
  have hallow : ∀ {perm : BitVec 32}, (lowModeFromNfs4 perm { dir := dir }).getLsbD m.place = true →
      perm.getLsbD k = true := fun h => lowModeFromNfs4_getLsbD h hk
  unfold PosixAcl.permission at hgrants
  unfold Decides
  split at hgrants
  · rename_i howner
    rw [h.owner] at hgrants
    exact ⟨.owner, by rw [if_pos howner], hallow hgrants⟩
  rename_i howner
  simp only [if_neg howner]
  split at hgrants
  · -- a named user
    rename_i pa hfind
    have hid : pa.id = r.fsuid := by simpa using find?_some hfind
    obtain ⟨e, he, rfl⟩ := mem_map.1 (h.users.mem_iff.1 (mem_of_find?_eq_some hfind))
    refine ⟨.user r.fsuid, .inl rfl, ?_⟩
    rw [PosixAclState.of, ← hid, lookupId_of_mem hlisted.users_nodup he]
    exact hallow (Bool.and_eq_true_iff.1 hgrants).1
  rename_i hfind
  have hnamed : ∀ ace ∈ aces, ace.entity ≠ .user r.fsuid := by
    intro ace hace hentity
    obtain ⟨e, he, hid⟩ := mem_map.1 ((hlisted.users _).2 ⟨ace, hace, hentity⟩)
    exact find?_eq_none.1 hfind _ (h.users.mem_iff.2 (mem_map_of_mem he)) (decide_eq_true hid)
  split at hgrants
  · -- nobody in the group class
    rename_i hempty
    have hnone := filter_eq_nil_iff.1 (isEmpty_iff.1 hempty)
    have hgroup : r.inGroupP r.iGid = false := by
      have := hnone _ mem_cons_self
      simpa [PosixAcl.groupMatches, acl.group_tag] using this
    refine ⟨.other, .inr ⟨hnamed, .inr ⟨rfl, hgroup, fun ace hace gid hentity => ?_⟩⟩, hallow (h.other ▸ hgrants)⟩
    obtain ⟨e, he, rfl⟩ := mem_map.1 ((hlisted.groups _).2 ⟨ace, hace, hentity⟩)
    have := hnone _ (mem_cons_of_mem _ (h.groups.mem_iff.2 (mem_map_of_mem he)))
    simpa [PosixAcl.groupMatches] using this
  -- an entry of the group class
  obtain ⟨pa, hpa, hperm⟩ := any_eq_true.1 (Bool.and_eq_true_iff.1 hgrants).1
  obtain ⟨hpa, hmatch⟩ := mem_filter.1 hpa
  obtain rfl | hpa := mem_cons.1 hpa
  · rw [PosixAcl.groupMatches, acl.group_tag] at hmatch
    exact ⟨.group, .inr ⟨hnamed, .inl ⟨hmatch, .inl rfl⟩⟩, hallow (h.group ▸ hperm)⟩
  obtain ⟨e, he, rfl⟩ := mem_map.1 (h.groups.mem_iff.1 hpa)
  refine ⟨.namedGroup e.1, .inr ⟨hnamed, .inl ⟨hmatch, .inr ⟨e.1, rfl⟩⟩⟩, ?_⟩
  rw [PosixAclState.of, lookupId_of_mem hlisted.groups_nodup he]
  exact hallow hperm

theorem exists_of_accepted {acl : List Nfs4Ace} {pacl dpacl : Option (List PosixAclEntry)}
    (haccepted : nfs4AclNfsv4ToPosix acl dir = some (pacl, dpacl)) :
    ∃ (state : PosixAclState) (pa : PosixAcl), pacl = some pa.entries ∧ Shows dir state pa ∧
      Listed (acl.filter Nfs4Ace.processed) state ∧
      ∀ r k, k < 32 → Fair r k (acl.filter Nfs4Ace.processed) state.of := by
  obtain ⟨out, hloop, hout⟩ := map_eq_some_iff.1 haccepted
  obtain ⟨heff, htypes⟩ := nfsv4ToPosixLoop_eq hloop
  have hboth : ∀ r k, k < 32 → Fair r k (acl.filter Nfs4Ace.processed) out.1.of ∧
      Listed (acl.filter Nfs4Ace.processed) out.1 := by
    intro r k hk
    obtain ⟨hfair, hlisted⟩ := fair_init r k
    rw [heff]
    exact fair_foldl hk _ (fun ace h => htypes ace (mem_of_mem_filter h)) hfair hlisted
  have hlisted := (hboth ⟨0, fun _ => false, 0, 0⟩ 0 (by decide)).2
  obtain ⟨pa, hentries, hshows⟩ := @exists_posixAcl dir out.1 hlisted.users_nodup
  exact ⟨out.1, pa, (Prod.mk.inj hout).1.symm.trans hentries, hshows, hlisted, fun r k hk => (hboth r k hk).1⟩

end

/-- An ACE that is only inherited, but by nothing, is taken for an effective one. Those that deny grant nothing. -/
theorem granted_of_processed {r : Requester} {k : Nat} {acl : List Nfs4Ace}
    (hclean : ∀ ace ∈ acl, ace.type = .allowed → ace.processed = true → ace.effective = true)
    (h : granted r k (acl.filter Nfs4Ace.processed) = true) : granted r k (acl.filter Nfs4Ace.effective) = true := by
  induction acl with
  | nil => exact h
  | cons ace acl ih =>
    obtain ⟨hace, hacl⟩ := forall_mem_cons.1 hclean
    have hsub : ace.effective = true → ace.processed = true := by simp +contextual [Nfs4Ace.effective, Nfs4Ace.processed]
    cases heff : ace.effective with
    | true =>
      rw [filter_cons_of_pos (hsub heff), granted, findSome?_cons] at h
      rw [filter_cons_of_pos heff, granted, findSome?_cons]
      cases hv : ace.verdict r k with
      | some b => rwa [hv] at h
      | none =>
        rw [hv] at h
        exact ih hacl h
    | false =>
      rw [filter_cons_of_neg (by simp [heff])]
      cases hproc : ace.processed with
      | false => exact ih hacl (by rwa [filter_cons_of_neg (by simp [hproc])] at h)
      | true =>
        have htype : ace.type ≠ .allowed := fun ht => by simp [hace ht hproc] at heff
        rw [filter_cons_of_pos hproc, granted, findSome?_cons] at h
        cases hv : ace.verdict r k with
        | none =>
          rw [hv] at h
          exact ih hacl h
        | some b =>
          rw [hv] at h
          unfold Nfs4Ace.verdict at hv
          split_ifs at hv
          split at hv <;> simp_all

/-- **Setting an NFSv4 ACL is not more permissive** when every ACE that allows is inherited by something if it is only
inherited: a permission the POSIX access ACL grants to any requester is granted by the effective ACEs, in all the bits it
stands for. -/
theorem nfs4AclNfsv4ToPosix_restrictive {acl : List Nfs4Ace} {dir : Bool} {pacl : List PosixAclEntry}
    {dpacl : Option (List PosixAclEntry)} (haccepted : nfs4AclNfsv4ToPosix acl dir = some (some pacl, dpacl))
    (hclean : ∀ ace ∈ acl, ace.type = .allowed → ace.flag &&& inheritOnlyAce ≠ 0 → ace.flag &&& inheritanceFlags ≠ 0)
    (r : Requester) (m : AclMode) (hgrants : posixAclPermission r m.want false pacl = true) {k : Nat}
    (hk : k ∈ m.bits dir) : granted r k (acl.filter Nfs4Ace.effective) = true := by
  have hlt : k < 32 := by
    obtain ⟨-, rfl⟩ | ⟨-, rfl | rfl | ⟨-, rfl⟩⟩ | ⟨-, rfl⟩ := AclMode.mem_bits hk <;> decide
  obtain ⟨state, pa, hpacl, hshows, hlisted, hfair⟩ := exists_of_accepted haccepted
  cases hpacl
  rw [PosixAcl.permission_eq] at hgrants
  obtain ⟨e, hdecides, hallow⟩ := hshows.exists_decides hlisted hk hgrants
  refine granted_of_processed (fun ace hace htype hproc => ?_) ((hfair r k hlt).granted hdecides hallow)
  by_contra honly
  simp [Nfs4Ace.processed, Nfs4Ace.effective] at hproc honly
  exact hclean ace hace htype honly (hproc.resolve_right honly)

/-- A user and a group may not write; one who is neither still may. -/
def sampleAces : List Nfs4Ace :=
  [⟨.denied, 0, 0x6, .named, 5⟩, ⟨.denied, 0x40, 0x6, .named, 4⟩, ⟨.allowed, 0, 0x7, .everyone, 0⟩]

theorem nfs4AclNfsv4ToPosix_restrictive_sample :
    granted ⟨8, fun gid => gid = 3, 1, 2⟩ 1 (sampleAces.filter Nfs4Ace.effective) = true :=
  @nfs4AclNfsv4ToPosix_restrictive sampleAces false
    [⟨.userObj, 4, 0⟩, ⟨.user, 4, 5⟩, ⟨.groupObj, 4, 0⟩, ⟨.group, 4, 4⟩, ⟨.mask, 4, 0⟩, ⟨.other, 6, 0⟩] none (by decide) (by decide)
    ⟨8, fun gid => gid = 3, 1, 2⟩ .write (by decide) 1 (by decide)

/-- Everybody may read the file, by an ACE that is only inherited. -/
theorem nfs4AclNfsv4ToPosix_permissive :
    let acl : List Nfs4Ace := [⟨.allowed, 8, 1, .everyone, 0⟩]
    let pacl : List PosixAclEntry := [⟨.userObj, 4, 0⟩, ⟨.groupObj, 4, 0⟩, ⟨.other, 4, 0⟩]
    nfs4AclNfsv4ToPosix acl false = some (some pacl, none) ∧
      posixAclPermission ⟨8, fun _ => false, 1, 2⟩ AclMode.read.want false pacl = true ∧
      granted ⟨8, fun _ => false, 1, 2⟩ 0 (acl.filter Nfs4Ace.effective) = false := by
  decide

theorem nfs4AclNfsv4ToPosix_valid {acl : List Nfs4Ace} {dir : Bool} {pacl dpacl : Option (List PosixAclEntry)}
    (haccepted : nfs4AclNfsv4ToPosix acl dir = some (pacl, dpacl)) : ∃ l, pacl = some l ∧ posixAclValid l := by
  obtain ⟨state, pa, hpacl, hshows, -, -⟩ := exists_of_accepted haccepted
  exact ⟨pa.entries, hpacl, hshows.valid⟩

theorem nfs4AclNfsv4ToPosix_valid_sample :
    ∃ l, some [⟨.userObj, 4, 0⟩, ⟨.user, 4, 5⟩, ⟨.groupObj, 4, 0⟩, ⟨.group, 4, 4⟩, ⟨.mask, 4, 0⟩, ⟨.other, 6, 0⟩] = some l ∧
      posixAclValid l :=
  @nfs4AclNfsv4ToPosix_valid sampleAces false _ none (by decide)

end Vastnfs.Nfsd
