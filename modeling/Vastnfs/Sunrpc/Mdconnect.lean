import Vastnfs.Sunrpc.Clnt

/-!
# Separate transports for metadata

With `mdconnect` a client has transports of two roles. `xprt_is_active` compares the role with
the mark of the request, and only does so for requests that are spread over remote ports.

* `role_of_active`: a role-aware conf accepts `MD` for marked requests and `REG` for the others.
* `splitTask_opposite_role`: so every role-aware task gets the transport of the other kind.
* `select_blind`: without remote ports the choice does not depend on the mark at all.
* `mdconnect_never_isolates`: no client keeps its data and its metadata apart.
-/

namespace Vastnfs.Sunrpc

open Option

/-! ## The role filter -/

section

variable {xprt : RpcXprt} {conf : IterConf}

/-- **The role filter.**  It lets through the role that the mark does not ask for. -/
theorem role_of_active (hsplit : conf.flags.split = true) (hact : xprtIsActive xprt conf = true) :
    xprt.role = if conf.flags.marked then .md else .reg := by
  have hrole : ((xprt.role == .reg) == conf.flags.marked) = false := by
    by_contra h
    simp [xprtIsActive, hsplit, Bool.eq_true_of_not_eq_false h] at hact
  cases hr : xprt.role <;> cases hm : conf.flags.marked <;> simp [hr, hm] at hrole ⊢

theorem active_of_usable (hkref : xprt.kref ≠ 0) (honline : xprt.offline = false)
    (hdiv : xprt.nDiversion = false) (hrec : xprt.nRecovery = false)
    (hgpu : conf.flags.localGpu = false) (hport : conf.flags.remotePortIdx = false)
    (hrole : xprt.role = if conf.flags.marked then .md else .reg) : xprtIsActive xprt conf = true := by
  cases hm : conf.flags.marked <;> simp [xprtIsActive, hkref, honline, hdiv, hrec, hgpu, hport, hrole, hm]

end

/-! ## Tasks and clients -/

/-- The role the documentation promises: `REG` for requests with the data mark, `MD` for others. -/
def wantedRole (task : RpcTask) : RpcXprtRole :=
  if task.tkMultipathHash &&& sunrpcMultipathDataHashMark ≠ 0 then .reg else .md

/-- A task as NFSv3 starts it: no transport yet, free to use any, with a 16 bit hash. -/
structure IsNfs3Task (task : RpcTask) : Prop where
  noXprt : task.tkXprt = none
  roundRobin : task.noRoundRobin = false
  hash : task.tkMultipathHash < 2 ^ 16

/-- A connected and online transport of the role is on the client's switch. -/
def HasUsable (w : RpcWorld) (clnt : ClntPtr) (role : RpcXprtRole) : Prop :=
  ∃ x ∈ (w.switches (w.switchOf clnt)).xpsXprtList, (w.xprts x).role = role ∧ (w.xprts x).connected = true ∧
    (w.xprts x).offline = false ∧ (w.xprts x).nDiversion = false ∧ (w.xprts x).nRecovery = false

/-- `rpc_task_set_transport` returns and gives the task a transport of the role. -/
def Gets (w : RpcWorld) (t : TaskPtr) (clnt : ClntPtr) (role : RpcXprtRole) : Prop :=
  ∃ n, ∀ fuel, n ≤ fuel → ∃ w' x, rpcTaskSetTransport fuel w t clnt = some w' ∧
    (w'.tasks t).tkXprt = some x ∧ (w.xprts x).role = role

theorem Gets.unique {w : RpcWorld} {t : TaskPtr} {clnt : ClntPtr} {r r' : RpcXprtRole}
    (h : Gets w t clnt r) (h' : Gets w t clnt r') : r = r' := by
  obtain ⟨n, hn⟩ := h
  obtain ⟨n', hn'⟩ := h'
  obtain ⟨w₁, x, hset, hx, rfl⟩ := hn (max n n') (le_max_left _ _)
  obtain ⟨w₁', x', hset', hx', rfl⟩ := hn' (max n n') (le_max_right _ _)
  obtain rfl := Option.some.inj (hset.symm.trans hset')
  obtain rfl := Option.some.inj (hx.symm.trans hx')
  rfl

/-- The client keeps data and metadata apart, whatever tasks it is given. -/
def Isolates (w : RpcWorld) (clnt : ClntPtr) : Prop :=
  ∀ tasks t, IsNfs3Task (tasks t) → Gets { w with tasks := tasks } t clnt (wantedRole (tasks t))

section

variable {w w₁ : RpcWorld} {task : RpcTask} {clnt : ClntPtr} {conf : IterConf} {fuel nr : Nat} {x : XprtPtr}
  {t : TaskPtr}

/-- An attempt for a remote port finds somebody as soon as the switch has a transport that the
conf accepts without regard to the port. -/
theorem tryXprtSelections_some (hskip : (rpcTaskConf w task clnt conf).flags.skipUnconnected = true)
    (hport : (rpcTaskConf w task clnt conf).flags.remotePortIdx = true)
    (hfuel : (w.switches (w.switchOf clnt)).xpsNactive < fuel)
    {y : XprtPtr} (hy : y ∈ (w.switches (w.switchOf clnt)).xpsXprtList)
    (hact : xprtIsActive (w.xprts y) (rpcTaskConf w task clnt conf).anyPort = true) :
    ∃ w₁ x, rpcTaskTryXprtSelections fuel w task clnt conf = some (w₁, some x) ∧
      (xprtIsActive (w.xprts x) (rpcTaskConf w task clnt conf) = true ∨
        xprtIsActive (w.xprts x) (rpcTaskConf w task clnt conf).anyPort = true) := by
  obtain ⟨⟨w₁, r⟩, hfirst⟩ := isSome_iff_exists.1 (getNextXprt_isSome (IterFlags.isZero_eq_false (.inr hport)) hfuel)
  rw [rpcTaskTryXprtSelections, hfirst, bind_some]
  obtain ⟨cur, ⟨rfl, -, rfl⟩ | ⟨x, hx, rfl, rfl⟩⟩ := getNextXprt_cases hfirst
  · -- nobody on the port: the second attempt sees the same transports
    have hfuel' : ((w.setCursor clnt cur).switches ((w.setCursor clnt cur).switchOf clnt)).xpsNactive < fuel := by
      rw [setCursor_switchOf]
      exact hfuel
    have hsome : (rpcTaskGetNextXprt fuel (w.setCursor clnt cur) clnt
        (rpcTaskConf w task clnt conf).anyPort).isSome = true :=
      getNextXprt_isSome (IterFlags.isZero_eq_false (.inl hskip)) hfuel'
    obtain ⟨⟨w₂, r⟩, hsecond⟩ := isSome_iff_exists.1 hsome
    simp only [hport, if_true, hsecond, Option.some.injEq, Prod.mk.injEq]
    obtain ⟨cur', ⟨rfl, hnil, -⟩ | ⟨x, hx, rfl, -⟩⟩ := getNextXprt_cases hsecond
    · rw [setCursor_switchOf] at hnil
      have hmem : y ∈ eligible w.xprts (rpcTaskConf w task clnt conf).anyPort (w.switches (w.switchOf clnt)) :=
        mem_eligible.2 ⟨hy, hact⟩
      exact absurd hmem (List.eq_nil_iff_forall_not_mem.1 hnil y)
    · exact ⟨w₂, x, ⟨rfl, rfl⟩, .inr (mem_eligible.1 hx).2⟩
  · exact ⟨_, x, rfl, .inl (mem_eligible.1 hx).2⟩

theorem conf_split (hgpu : task.tkGpuIdx = none) (hports : (w.clnts clnt).clRemoteports = some nr) (hnr : 0 < nr)
    (hhash : task.tkMultipathHash ≠ 0) (hmd : 0 < (w.clnts clnt).clMdconnect) :
    (rpcTaskConf w task clnt { flags := { skipUnconnected := true } }).flags =
      { skipUnconnected := true, remotePortIdx := true, split := true,
        marked := task.tkMultipathHash &&& sunrpcMultipathDataHashMark != 0 } := by
  have hmd' : ((w.clnts clnt).clMdconnect != 0) = true := bne_iff_ne.2 (ne_of_gt hmd)
  simp [rpcTaskConf, rpcTaskGpuConf, rpcTaskPortConf, hgpu, hports, if_pos (And.intro hhash hnr), hmd', Bool.false_or]

def RpcXprtRole.other : RpcXprtRole → RpcXprtRole
  | .reg => .md
  | .md => .reg

theorem RpcXprtRole.other_ne (r : RpcXprtRole) : r.other ≠ r := by
  cases r <;> simp [other]

theorem other_wantedRole (task : RpcTask) :
    (wantedRole task).other =
      if (task.tkMultipathHash &&& sunrpcMultipathDataHashMark != 0) = true then .md else .reg := by
  unfold wantedRole
  by_cases h : task.tkMultipathHash &&& sunrpcMultipathDataHashMark = 0
  · simp [h, RpcXprtRole.other]
  · simp [h, RpcXprtRole.other]

theorem setTransport_fresh (hnone : (w.tasks t).tkXprt = none) :
    rpcTaskSetTransport fuel w t clnt =
      (rpcTaskSelect fuel w (w.tasks t) clnt).map fun r => r.1.setXprt t r.2 := by
  rw [rpcTaskSetTransport, hnone]

theorem select_of_set (hnone : (w.tasks t).tkXprt = none) (hset : rpcTaskSetTransport fuel w t clnt = some w₁)
    (hx : (w₁.tasks t).tkXprt = some x) : ∃ w₂, rpcTaskSelect fuel w (w.tasks t) clnt = some (w₂, some x) := by
  rw [setTransport_fresh hnone, map_eq_some_iff] at hset
  obtain ⟨⟨w₂, r⟩, hsel, rfl⟩ := hset
  obtain rfl : r = some x := by simpa [RpcWorld.setXprt] using hx
  exact ⟨w₂, hsel⟩

/-- **Every role-aware task gets a transport of the role it should not get.** -/
theorem splitTask_opposite_role (hinv : SwitchInv w.xprts (w.switches (w.switchOf clnt)))
    (hmd : 0 < (w.clnts clnt).clMdconnect) (hports : (w.clnts clnt).clRemoteports = some nr) (hnr : 0 < nr)
    (husable : ∀ role, HasUsable w clnt role) (htask : IsNfs3Task (w.tasks t)) (hgpu : (w.tasks t).tkGpuIdx = none)
    (hhash : (w.tasks t).tkMultipathHash ≠ 0) : Gets w t clnt (wantedRole (w.tasks t)).other := by
  have hflags := conf_split hgpu hports hnr hhash hmd
  obtain ⟨y, hy, hrole, -, honline, hdiv, hrec⟩ := husable (wantedRole (w.tasks t)).other
  refine ⟨(w.switches (w.switchOf clnt)).xpsNactive + 1, fun fuel hfuel => ?_⟩
  have hact : xprtIsActive (w.xprts y)
      (rpcTaskConf w (w.tasks t) clnt { flags := { skipUnconnected := true } }).anyPort = true := by
    refine active_of_usable (hinv.referenced y hy) honline hdiv hrec ?_ rfl ?_
    · simp [IterConf.anyPort, hflags]
    · rw [hrole, other_wantedRole]
      simp [IterConf.anyPort, hflags]
  obtain ⟨w₁, x, htry, hx⟩ := tryXprtSelections_some (by rw [hflags]) (by rw [hflags]) hfuel hy hact
  refine ⟨w₁.setXprt t (some x), x, ?_, by simp [RpcWorld.setXprt], ?_⟩
  · rw [setTransport_fresh htask.noXprt, rpcTaskSelect, htask.roundRobin, htry]
    rfl
  · rw [other_wantedRole]
    rcases hx with hx | hx
    · rw [role_of_active (by rw [hflags]) hx, hflags]
    · rw [role_of_active (by simp [IterConf.anyPort, hflags]) hx]
      simp [IterConf.anyPort, hflags]

def NoRemoteports (w : RpcWorld) (clnt : ClntPtr) : Prop :=
  ∀ nr, (w.clnts clnt).clRemoteports = some nr → nr = 0

variable (hports : NoRemoteports w clnt)
include hports

theorem conf_blind (task : RpcTask) (hash : Nat) (conf : IterConf) :
    rpcTaskConf w { task with tkMultipathHash := hash } clnt conf = rpcTaskConf w task clnt conf := by
  unfold rpcTaskConf rpcTaskPortConf
  cases hnr : (w.clnts clnt).clRemoteports with
  | none => rfl
  | some nr =>
    obtain rfl := hports nr hnr
    simp [rpcTaskGpuConf]

theorem tryXprtSelections_blind (task : RpcTask) (hash : Nat) (conf : IterConf) :
    rpcTaskTryXprtSelections fuel w { task with tkMultipathHash := hash } clnt conf =
      rpcTaskTryXprtSelections fuel w task clnt conf := by
  rw [rpcTaskTryXprtSelections, conf_blind hports, rpcTaskTryXprtSelections]

/-- **Without remote ports the choice is blind to the mark.** -/
theorem select_blind (task : RpcTask) (hash : Nat) :
    rpcTaskSelect fuel w { task with tkMultipathHash := hash } clnt = rpcTaskSelect fuel w task clnt := by
  rw [rpcTaskSelect, rpcTaskSelect, tryXprtSelections_blind hports]
  by_cases hrr : task.noRoundRobin = true
  · rw [if_pos hrr, if_pos hrr]
  rw [if_neg hrr, if_neg hrr]
  cases htry : rpcTaskTryXprtSelections fuel w task clnt { flags := { skipUnconnected := true } } with
  | none => rw [bind_none, bind_none]
  | some r =>
    obtain ⟨w₁, ret⟩ := r
    have hports₁ : NoRemoteports w₁ clnt := fun nr hnr =>
      hports nr ((tryXprtSelections_took htry).remoteports clnt ▸ hnr)
    simp [tryXprtSelections_blind hports₁]

end

/-! ## No client isolates -/

def dataTask : RpcTask := { tkMultipathHash := sunrpcMultipathDataHashMark }

/-- **`mdconnect` isolates nobody.**  With remote ports every task that carries a hash and no GPU
gets a transport of the other role; without them data and metadata share their transports. -/
theorem mdconnect_never_isolates (w : RpcWorld) (clnt : ClntPtr)
    (hinv : SwitchInv w.xprts (w.switches (w.switchOf clnt))) (hmd : 0 < (w.clnts clnt).clMdconnect)
    (husable : ∀ role, HasUsable w clnt role) :
    (∀ nr tasks t, (w.clnts clnt).clRemoteports = some nr → 0 < nr → IsNfs3Task (tasks t) →
        (tasks t).tkGpuIdx = none → (tasks t).tkMultipathHash ≠ 0 →
        Gets { w with tasks := tasks } t clnt (wantedRole (tasks t)).other) ∧
      ¬ Isolates w clnt := by
  have hopposite : ∀ nr tasks t, (w.clnts clnt).clRemoteports = some nr → 0 < nr → IsNfs3Task (tasks t) →
      (tasks t).tkGpuIdx = none → (tasks t).tkMultipathHash ≠ 0 →
      Gets { w with tasks := tasks } t clnt (wantedRole (tasks t)).other :=
    fun nr tasks t hports hnr htask hgpu hhash =>
      splitTask_opposite_role (w := { w with tasks := tasks }) hinv hmd hports hnr husable htask hgpu hhash
  refine ⟨hopposite, fun hiso => ?_⟩
  have hdata : IsNfs3Task dataTask := ⟨rfl, rfl, by decide⟩
  by_cases hports : NoRemoteports w clnt
  · -- the same choice for a data and a metadata task from the same state
    let tasks : TaskPtr → RpcTask := fun t => if t = 0 then dataTask else {}
    obtain ⟨n₀, h₀⟩ := hiso tasks 0 hdata
    obtain ⟨n₁, h₁⟩ := hiso tasks 1 ⟨rfl, rfl, by decide⟩
    obtain ⟨w₀, x₀, hset₀, hx₀, hrole₀⟩ := h₀ (max n₀ n₁) (le_max_left _ _)
    obtain ⟨w₁, x₁, hset₁, hx₁, hrole₁⟩ := h₁ (max n₀ n₁) (le_max_right _ _)
    obtain ⟨w₀', hsel₀⟩ := select_of_set rfl hset₀ hx₀
    obtain ⟨w₁', hsel₁⟩ := select_of_set rfl hset₁ hx₁
    have hblind : rpcTaskSelect (max n₀ n₁) { w with tasks := tasks } dataTask clnt =
        rpcTaskSelect (max n₀ n₁) { w with tasks := tasks } {} clnt :=
      select_blind (w := { w with tasks := tasks }) hports {} sunrpcMultipathDataHashMark
    have hsame := Option.some.inj (hsel₀.symm.trans (hblind.trans hsel₁))
    obtain rfl : x₀ = x₁ := Option.some.inj (Prod.mk.inj hsame).2
    exact absurd (hrole₀.symm.trans hrole₁) (by decide)
  · simp only [NoRemoteports, not_forall] at hports
    obtain ⟨nr, hports, hnr⟩ := hports
    have hright := hiso (fun _ => dataTask) 0 hdata
    have hwrong := hopposite nr (fun _ => dataTask) 0 hports (pos_of_ne_zero hnr) hdata rfl (by decide)
    exact RpcXprtRole.other_ne _ (hwrong.unique hright)

def mdWorld : RpcWorld where
  xprts := fun x => { role := if x = 1 then .md else .reg, main := x == 0, connected := true }
  switches := fun _ =>
    { xpsNxprts := 2
      xpsNactive := 2
      xpsXprtList := [0, 1]
      xpsRemoteportXprtList := fun i => if i = 0 then [0, 1] else []
      xpsIterOps := .roundrobin }
  clnts := fun _ => { clMdconnect := 1, clRemoteports := some 1 }
  tasks := fun _ => dataTask
  live := {0}

theorem mdWorld_inv : SwitchInv mdWorld.xprts (mdWorld.switches (mdWorld.switchOf 0)) where
  nodup := by decide
  referenced := by decide
  byPort := fun i => by
    by_cases hi : i = 0
    · simp [mdWorld, hi]
    · simp [mdWorld, hi, Ne.symm hi]
  nxprts := rfl

theorem mdWorld_usable : ∀ role, HasUsable mdWorld 0 role
  | .reg => ⟨0, by decide, by decide, by decide, by decide, by decide, by decide⟩
  | .md => ⟨1, by decide, by decide, by decide, by decide, by decide, by decide⟩

theorem mdconnect_never_isolates_mdWorld :
    (∀ nr tasks t, (mdWorld.clnts 0).clRemoteports = some nr → 0 < nr → IsNfs3Task (tasks t) →
        (tasks t).tkGpuIdx = none → (tasks t).tkMultipathHash ≠ 0 →
        Gets { mdWorld with tasks := tasks } t 0 (wantedRole (tasks t)).other) ∧
      ¬ Isolates mdWorld 0 :=
  mdconnect_never_isolates mdWorld 0 mdWorld_inv (by decide) mdWorld_usable

/-- A read on that client is sent over the `MD` transport. -/
theorem mdconnect_read_not_isolated :
    SwitchInv mdWorld.xprts (mdWorld.switches (mdWorld.switchOf 0)) ∧ 0 < (mdWorld.clnts 0).clMdconnect ∧
      (∀ role, HasUsable mdWorld 0 role) ∧ IsNfs3Task (mdWorld.tasks 0) ∧
      wantedRole (mdWorld.tasks 0) = .reg ∧ ¬ Gets mdWorld 0 0 (wantedRole (mdWorld.tasks 0)) := by
  have htask : IsNfs3Task (mdWorld.tasks 0) := ⟨rfl, rfl, by decide⟩
  refine ⟨mdWorld_inv, by decide, mdWorld_usable, htask, by decide, fun hright => ?_⟩
  have hwrong := splitTask_opposite_role (w := mdWorld) (t := 0) mdWorld_inv (by decide) rfl (by decide)
    mdWorld_usable htask rfl (by decide)
  exact RpcXprtRole.other_ne _ (hwrong.unique hright)

end Vastnfs.Sunrpc
