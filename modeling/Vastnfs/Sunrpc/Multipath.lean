import Vastnfs.Lib.Cyclic
import Vastnfs.Sunrpc.Xprt

/-!
# The transport switch

`net/sunrpc/xprtmultipath.c`: the list of transports of a client, the list of each remote port,
and the scans that choose a transport for a request.

* `roundrobin_eq_next`: one move of the round robin is the cyclic successor of `Lib.Cyclic`.
* `SwitchInv.add`, `SwitchInv.remove`: what the two list operations keep.
-/

namespace Vastnfs.Sunrpc

open List

/-! ## Configurations -/

/-- `enum rpc_xprt_iter_flags`, one field for each bit. -/
structure IterFlags where
  (skipUnconnected localGpu remotePortIdx ignoreCongestion split marked : Bool := false)
  deriving DecidableEq

def IterFlags.isZero (f : IterFlags) : Bool := f == {}

/-- `struct rpc_xprt_iter_conf`. -/
structure IterConf where
  flags : IterFlags := {}
  (bestPriority gpuIdx remotePortIdx : Nat := 0)
  deriving DecidableEq

theorem IterFlags.isZero_eq_false {f : IterFlags}
    (h : f.skipUnconnected = true ∨ f.remotePortIdx = true) : f.isZero = false := by
  rw [isZero, beq_eq_false_iff_ne]
  rintro rfl
  rcases h with h | h <;> cases h

def xprtIsActive (xprt : RpcXprt) (conf : IterConf) : Bool :=
  if conf.flags.skipUnconnected && (xprt.nDiversion || xprt.nRecovery) then false
  else if conf.flags.localGpu && (xprt.gpuPriority conf.gpuIdx != 0 &&
      xprt.gpuPriority conf.gpuIdx != uintMax) &&
      decide (xprt.gpuPriority conf.gpuIdx > conf.bestPriority) then false
  else if conf.flags.remotePortIdx && xprt.remotePortIdx != conf.remotePortIdx then false
  -- a regular transport is turned down for marked requests, and an `MD` one for the others
  else if conf.flags.split && (xprt.role == .reg) == conf.flags.marked then false
  else xprt.kref != 0 && !xprt.offline

/-! ## The switch -/

/-- The two policies `xps_iter_ops` takes. -/
inductive IterOps where
  | singular | roundrobin
  deriving DecidableEq

structure RpcXprtSwitch where
  (xpsNxprts xpsNactive : Nat := 0)
  /-- `atomic_long_t xps_queuelen`. -/
  xpsQueuelen : Int := 0
  xpsXprtList : List XprtPtr := []
  xpsRemoteportXprtList : Nat → List XprtPtr := fun _ => []
  xpsIterOps : IterOps := .singular

/-- The transports `list_for_each_xprt` goes through. -/
def RpcXprtSwitch.listByConf (xps : RpcXprtSwitch) (conf : IterConf) : List XprtPtr :=
  if conf.flags.remotePortIdx then xps.xpsRemoteportXprtList conf.remotePortIdx
  else xps.xpsXprtList

def xprtSwitchAddXprtLocked (h : XprtHeap) (xps : RpcXprtSwitch) (xprt : XprtPtr) :
    XprtHeap × RpcXprtSwitch :=
  match xprtGet h xprt with
  | (h, none) => (h, xps)
  | (h, some xprt) =>
    (h, { xps with
      xpsXprtList := xps.xpsXprtList ++ [xprt]
      xpsRemoteportXprtList := fun i =>
        if i = (h xprt).remotePortIdx then xps.xpsRemoteportXprtList i ++ [xprt]
        else xps.xpsRemoteportXprtList i
      xpsNxprts := xps.xpsNxprts + 1
      xpsNactive := xps.xpsNactive + 1 })

def xprtSwitchRemoveXprtLocked (h : XprtHeap) (xps : RpcXprtSwitch) (xprt : XprtPtr) :
    RpcXprtSwitch :=
  { xps with
    xpsNactive := if (h xprt).offline then xps.xpsNactive else xps.xpsNactive - 1
    xpsNxprts := xps.xpsNxprts - 1
    xpsXprtList := xps.xpsXprtList.erase xprt
    xpsRemoteportXprtList := fun i =>
      if i = (h xprt).remotePortIdx then (xps.xpsRemoteportXprtList i).erase xprt
      else xps.xpsRemoteportXprtList i }

/-- The list gives up its reference too. -/
def rpcXprtSwitchRemoveXprt (h : XprtHeap) (xps : RpcXprtSwitch) (xprt : XprtPtr) :
    XprtHeap × RpcXprtSwitch :=
  (xprtPut h xprt, xprtSwitchRemoveXprtLocked h xps xprt)

/-! ## The scans -/

section

variable (h : XprtHeap) (conf : IterConf)

def xprtSwitchFindFirstEntry (xps : RpcXprtSwitch) : Option XprtPtr :=
  go (xps.listByConf conf)
where
  go : List XprtPtr → Option XprtPtr
    | [] => none
    | pos :: rest => if xprtIsActive (h pos) conf then some pos else go rest

def xprtSwitchFindNextEntry (xps : RpcXprtSwitch) (cur : Option XprtPtr) : Option XprtPtr :=
  go none false (xps.listByConf conf)
where
  go : Option XprtPtr → Bool → List XprtPtr → Option XprtPtr
    | _, _, [] => none
    | prev, found, pos :: rest =>
      let found := found || cur == prev
      if found && xprtIsActive (h pos) conf then some pos else go (some pos) found rest

def xprtSwitchFindNextEntryRoundrobin' (xps : RpcXprtSwitch) (cur : Option XprtPtr) :
    Option XprtPtr :=
  match xprtSwitchFindNextEntry h conf xps cur with
  | some ret => some ret
  | none => xprtSwitchFindFirstEntry h conf xps

/-- An `atomic_long_t` read into an `unsigned long`. -/
def toUlong (n : Int) : Nat := (n % 2 ^ 64).toNat

/-- The transport is no busier than the average of the switch, in `unsigned long` arithmetic. -/
def belowAverage (xps : RpcXprtSwitch) (xprt : XprtPtr) : Bool :=
  decide (toUlong (h xprt).queuelen * xps.xpsNactive % 2 ^ 64 ≤ toUlong xps.xpsQueuelen)

/-- The loop has no bound of its own: `none` says that it is still running after `fuel` rounds. -/
def xprtSwitchFindNextEntryRoundrobin (xps : RpcXprtSwitch) (fuel : Nat) (cur : Option XprtPtr) :
    Option (Option XprtPtr) :=
  go fuel cur 0
where
  go : Nat → Option XprtPtr → Nat → Option (Option XprtPtr)
    | 0, _, _ => none
    | fuel + 1, cur, count =>
      match xprtSwitchFindNextEntryRoundrobin' h conf xps cur with
      | none => some none
      | some xprt =>
        if !conf.flags.ignoreCongestion && belowAverage h xps xprt then some (some xprt)
        else if !conf.flags.isZero && decide (count + 1 > xps.xpsNactive) then some (some xprt)
        else go fuel (some xprt) (count + 1)

/-- `none` is the `false` answer, which leaves the GPU out of the conf. -/
def xprtFindBestPriority (xps : RpcXprtSwitch) (gpuIdx : Nat) : Option Nat :=
  go none xps.xpsXprtList
where
  go : Option Nat → List XprtPtr → Option Nat
    | best, [] => best
    | best, pos :: rest =>
      let priority := (h pos).gpuPriority gpuIdx
      if !xprtIsActive (h pos) { flags := { skipUnconnected := true, ignoreCongestion := true } } then
        go best rest
      else if priority = 0 ∨ priority = uintMax then go best rest
      else if priority < best.getD uintMax then go (some priority) rest
      else go best rest

end

/-! ## Iterators -/

section

variable (h : XprtHeap) (xps : RpcXprtSwitch) (conf : IterConf)

/-- `xpi_next` of the switch's policy: the new cursor and the entry. -/
def xpiNext (fuel : Nat) (cursor : Option XprtPtr) : Option (Option XprtPtr × Option XprtPtr) :=
  match xps.xpsIterOps with
  | .singular => some (cursor, xprtSwitchFindFirstEntry h conf xps)
  | .roundrobin =>
    (xprtSwitchFindNextEntryRoundrobin h conf xps fuel cursor).map fun pos => (pos, pos)

/-- Entries whose last reference is gone are passed over. The result is the heap, the cursor and the transport with a
reference taken. -/
def xprtIterGetNext : Nat → Option XprtPtr → Option (XprtHeap × Option XprtPtr × Option XprtPtr)
  | 0, _ => none
  | fuel + 1, cursor =>
    match xpiNext h xps conf (fuel + 1) cursor with
    | none => none
    | some (cursor, none) => some (h, cursor, none)
    | some (cursor, some pos) =>
      match xprtGet h pos with
      | (h, some xprt) => some (h, cursor, some xprt)
      | (_, none) => xprtIterGetNext fuel cursor

end

/-! ## What the scans find -/

section

variable {h : XprtHeap} {conf : IterConf} {xps : RpcXprtSwitch} {x : XprtPtr}

/-- The transports of the conf's list that the conf accepts, in list order. -/
def eligible (h : XprtHeap) (conf : IterConf) (xps : RpcXprtSwitch) : List XprtPtr :=
  (xps.listByConf conf).filter fun x => xprtIsActive (h x) conf

theorem mem_eligible : x ∈ eligible h conf xps ↔ x ∈ xps.listByConf conf ∧ xprtIsActive (h x) conf = true :=
  mem_filter

theorem findFirstEntry_eq :
    xprtSwitchFindFirstEntry h conf xps =
      (xps.listByConf conf).find? fun x => xprtIsActive (h x) conf := by
  unfold xprtSwitchFindFirstEntry
  induction xps.listByConf conf with
  | nil => rfl
  | cons pos rest ih =>
    rw [xprtSwitchFindFirstEntry.go, List.find?_cons, ih]
    cases xprtIsActive (h pos) conf <;> rfl

theorem findNextEntry_go_found (cur : Option XprtPtr) : ∀ (prev : Option XprtPtr) (l : List XprtPtr),
    xprtSwitchFindNextEntry.go h conf cur prev true l = l.find? fun x => xprtIsActive (h x) conf
  | _, [] => rfl
  | _, pos :: rest => by
    rw [xprtSwitchFindNextEntry.go, List.find?_cons]
    cases hact : xprtIsActive (h pos) conf with
    | true => simp
    | false => simp [findNextEntry_go_found cur (some pos) rest]

theorem findNextEntry_go_searching (c : XprtPtr) : ∀ (prev : Option XprtPtr) (l : List XprtPtr),
    prev ≠ some c → xprtSwitchFindNextEntry.go h conf (some c) prev false l =
      (Cyclic.behind c l).find? fun x => xprtIsActive (h x) conf
  | _, [], _ => rfl
  | prev, pos :: rest, hprev => by
    have hmiss : (some c == prev) = false := beq_false_of_ne (Ne.symm hprev)
    simp only [xprtSwitchFindNextEntry.go, hmiss, Bool.or_false, Bool.false_and, Cyclic.behind,
      Bool.false_eq_true, if_false]
    by_cases hpos : pos = c
    · subst hpos
      rw [if_pos rfl, ← findNextEntry_go_found (some pos) (some pos)]
      cases rest with
      | nil => rfl
      | cons pos' rest => simp [xprtSwitchFindNextEntry.go]
    · rw [if_neg hpos]
      exact findNextEntry_go_searching c (some pos) rest (by simpa using hpos)

theorem findNextEntry_eq (cur : Option XprtPtr) :
    xprtSwitchFindNextEntry h conf xps cur =
      (Cyclic.after cur (xps.listByConf conf)).find? fun x => xprtIsActive (h x) conf := by
  unfold xprtSwitchFindNextEntry
  cases cur with
  | some c => exact findNextEntry_go_searching c none _ (by simp)
  | none =>
    rw [Cyclic.after, ← findNextEntry_go_found none none]
    cases xps.listByConf conf <;> rfl

/-- **One move of the round robin is the cyclic successor on the conf's list.** -/
theorem roundrobin_eq_next (cur : Option XprtPtr) :
    xprtSwitchFindNextEntryRoundrobin' h conf xps cur =
      Cyclic.next (fun x => xprtIsActive (h x) conf) (xps.listByConf conf) cur := by
  rw [xprtSwitchFindNextEntryRoundrobin', findNextEntry_eq, findFirstEntry_eq, Cyclic.next]
  cases (Cyclic.after cur (xps.listByConf conf)).find? fun x => xprtIsActive (h x) conf <;> rfl

theorem kref_ne_zero_of_active (hact : xprtIsActive (h x) conf = true) : (h x).kref ≠ 0 := by
  intro hk
  simp [xprtIsActive, hk] at hact

end

/-! ## What the list operations keep -/

/-- The shape of a switch: its list holds a reference on each member, and the list of a remote
port has just the members with that index, in the same order. -/
structure SwitchInv (h : XprtHeap) (xps : RpcXprtSwitch) : Prop where
  nodup : xps.xpsXprtList.Nodup
  referenced : ∀ x ∈ xps.xpsXprtList, (h x).kref ≠ 0
  byPort : ∀ i, xps.xpsRemoteportXprtList i =
    xps.xpsXprtList.filter fun x => (h x).remotePortIdx = i
  nxprts : xps.xpsNxprts = xps.xpsXprtList.length

variable {h : XprtHeap} {xps : RpcXprtSwitch} {x : XprtPtr}

theorem SwitchInv.empty (h : XprtHeap) : SwitchInv h {} where
  nodup := nodup_nil
  referenced := fun _ hx => absurd hx not_mem_nil
  byPort := fun _ => rfl
  nxprts := rfl

variable (hinv : SwitchInv h xps)
include hinv

theorem SwitchInv.of_kref {h' : XprtHeap}
    (hport : ∀ y, (h' y).remotePortIdx = (h y).remotePortIdx)
    (hkref : ∀ y ∈ xps.xpsXprtList, (h' y).kref ≠ 0) : SwitchInv h' xps where
  __ := hinv
  referenced := hkref
  byPort := fun i => by
    rw [hinv.byPort]
    exact filter_congr fun y _ => by rw [hport]

theorem SwitchInv.add (hx : x ∉ xps.xpsXprtList) :
    SwitchInv (xprtSwitchAddXprtLocked h xps x).1 (xprtSwitchAddXprtLocked h xps x).2 := by
  unfold xprtSwitchAddXprtLocked
  by_cases hk : (h x).kref = 0
  · simpa only [xprtGet, if_pos hk] using hinv
  simp only [get_of_ne_zero hk]
  refine ⟨?_, ?_, fun i => ?_, by simp [hinv.nxprts]⟩
  · refine nodup_append.2 ⟨hinv.nodup, nodup_singleton x, ?_⟩
    rintro a ha b hb rfl
    exact hx (mem_singleton.1 hb ▸ ha)
  · exact forall_mem_append.2 ⟨fun y hy => XprtHeap.addRef_kref_ne_zero x (hinv.referenced y hy),
      forall_mem_singleton.2 (XprtHeap.addRef_kref_ne_zero x hk)⟩
  · simp only [XprtHeap.addRef_apply, filter_append, hinv.byPort]
    by_cases hi : i = (h x).remotePortIdx
    · simp [hi]
    · simp [hi, Ne.symm hi]

theorem SwitchInv.remove (hx : x ∈ xps.xpsXprtList) :
    SwitchInv (rpcXprtSwitchRemoveXprt h xps x).1 (rpcXprtSwitchRemoveXprt h xps x).2 := by
  refine ⟨hinv.nodup.erase x, ?_, fun i => ?_, ?_⟩
  · intro y hy
    obtain ⟨hyx, hmem⟩ := (List.Nodup.mem_erase_iff hinv.nodup).1 hy
    simp only [rpcXprtSwitchRemoveXprt, put_apply, if_neg hyx]
    exact hinv.referenced y hmem
  · simp only [rpcXprtSwitchRemoveXprt, put_apply, xprtSwitchRemoveXprtLocked, hinv.byPort]
    by_cases hi : i = (h x).remotePortIdx
    · rw [if_pos hi, List.Nodup.erase_eq_filter (hinv.nodup.filter _), hinv.nodup.erase_eq_filter,
        filter_filter, filter_filter]
      exact filter_congr fun y _ => Bool.and_comm _ _
    rw [if_neg hi, hinv.nodup.erase_eq_filter, filter_filter]
    refine filter_congr fun y _ => ?_
    by_cases hyx : y = x
    · subst hyx
      simp [Ne.symm hi]
    · simp [hyx]
  · simp only [rpcXprtSwitchRemoveXprt, xprtSwitchRemoveXprtLocked, hinv.nxprts]
    rw [length_erase_of_mem hx]

theorem SwitchInv.nodup_listByConf (conf : IterConf) : (xps.listByConf conf).Nodup := by
  unfold RpcXprtSwitch.listByConf
  split
  · rw [hinv.byPort]
    exact hinv.nodup.filter _
  · exact hinv.nodup

end Vastnfs.Sunrpc
