import Vastnfs.Lib.Runs
import Vastnfs.Lib.Tally
import Vastnfs.Sunrpc.Clnt

/-!
# Queue accounting

Every place that moves a task on or off a transport also moves two counters, the `queuelen` of the
transport and the `xps_queuelen` of the client's switch.

* `Accounted`: both counters count the live tasks that hold a transport.
* `accounted_iff_balanced`: a step on one task keeps that just when it moves the counters with it.
* `accounted_iff_keepsAccounts`: over whole runs the accounts are right just as long as no task
  leaves an offline transport and none is taken off a transport in `call_connect_status`.
-/

namespace Vastnfs.Sunrpc

open Runs Tally Function Option RpcWorld

/-! ## Steps -/

def xprtGetOpt (h : XprtHeap) : Option XprtPtr → XprtHeap × Option XprtPtr
  | none => (h, none)
  | some x => xprtGet h x

/-- A transport without a client would be a `NULL` dereference. -/
def rpcInitTask (w : RpcWorld) (t : TaskPtr) (setup : RpcTaskSetup) : Option RpcWorld :=
  let r := xprtGetOpt w.xprts setup.rpcXprt
  let w := { w with xprts := r.1, tasks := Function.update w.tasks t (setup.task r.2), live := insert t w.live }
  match r.2, setup.rpcClient with
  | none, _ => some w
  | some xprt, some clnt => some (rpcTaskGetXprt w clnt (some xprt))
  | some _, none => none

def RpcWorld.setClient (w : RpcWorld) (t : TaskPtr) (clnt : ClntPtr) : RpcWorld :=
  { w with tasks := Function.update w.tasks t { w.tasks t with tkClient := some clnt } }

def rpcTaskSetClient (fuel : Nat) (w : RpcWorld) (t : TaskPtr) : Option ClntPtr → Option RpcWorld
  | none => some w
  | some clnt =>
    (rpcTaskSetTransport fuel w t clnt).map fun w => w.setClient t clnt

/-- `rpc_build_task`, on a task structure that is not in use. -/
def rpcBuildTask (fuel : Nat) (w : RpcWorld) (t : TaskPtr) (setup : RpcTaskSetup) : Option RpcWorld :=
  if t ∈ w.live then none
  else (rpcInitTask w t setup).bind fun w => rpcTaskSetClient fuel w t setup.rpcClient

/-- The errors that `call_connect_status` tells apart. -/
inductive ConnectError where
  | econnrefused | econnreset | econnaborted | enetdown | enetunreach | ehostunreach | epipe | eproto
  | eaddrinuse | enotconn | eagain | etimedout | eaddrnotavail | enobufs | other
  deriving DecidableEq

/-- The errors after which `call_connect_status` gets as far as looking at `XPRT_REMOVE`. -/
def ConnectError.looksAtRemove (softconn autobind : Bool) : ConnectError → Bool
  | .econnrefused | .econnreset => !softconn && !autobind
  | .econnaborted | .enetdown | .enetunreach | .ehostunreach | .epipe | .eproto => !softconn
  | .eaddrinuse | .enotconn | .eagain | .etimedout => true
  | .eaddrnotavail | .enobufs | .other => false

/-- `call_connect_status` takes the task off a transport that is being removed. -/
def leavesRemoved (w : RpcWorld) (task : RpcTask) (xprt : XprtPtr) (clnt : ClntPtr) (transmitted : Bool)
    (status : Option ConnectError) : Bool :=
  match status with
  | none => false
  | some err =>
    !transmitted && !(w.xprts xprt).connected && err.looksAtRemove task.softconn (w.clnts clnt).clAutobind &&
      (!task.noRoundRobin && task.moveable && (w.xprts xprt).remove) &&
      decide ((w.switches (w.switchOf clnt)).xpsNxprts > 1)

/-- How a transport that is being removed gives up a task: its `queuelen` drops, and with the last
task it leaves the switch. -/
def dropRemoved (w : RpcWorld) (xprt : XprtPtr) (clnt : ClntPtr) : RpcWorld :=
  let w := w.addQueuelen xprt (-1)
  let w := if (w.xprts xprt).queuelen = 0 then
      let r := rpcXprtSwitchRemoveXprt w.xprts (w.switches (w.switchOf clnt)) xprt
      { w with xprts := r.1, switches := Function.update w.switches (w.switchOf clnt) r.2 }
    else w
  { w with xprts := xprtPut w.xprts xprt }

/-- `call_connect_status`, as far as it changes who holds which transport. -/
def callConnectStatus (w : RpcWorld) (t : TaskPtr) (transmitted : Bool) (status : Option ConnectError) :
    Option RpcWorld :=
  match (w.tasks t).tkXprt, (w.tasks t).tkClient with
  | some xprt, some clnt =>
    if leavesRemoved w (w.tasks t) xprt clnt transmitted status then
      some ((dropRemoved w xprt clnt).setXprt t none)
    else some w
  | _, _ => none

/-- The three words that can be written to a transport's `xprt_state` file. -/
inductive SysfsState where
  | offline | online
  | remove (idle : Bool)
  deriving DecidableEq

/-- `idle` says that nothing waits in the transport's queues. -/
def rpcSysfsXprtStateChange (w : RpcWorld) (s : SwitchPtr) (x : XprtPtr) (state : SysfsState) : RpcWorld :=
  let xps := w.switches s
  if (w.xprts x).main then w
  else match state with
  | .offline =>
    if (w.xprts x).offline then w
    else { w with
      xprts := w.xprts.modify x fun r => { r with offline := true }
      switches := Function.update w.switches s { xps with xpsNactive := xps.xpsNactive - 1 } }
  | .online =>
    if (w.xprts x).offline then { w with
      xprts := w.xprts.modify x fun r => { r with offline := false }
      switches := Function.update w.switches s { xps with xpsNactive := xps.xpsNactive + 1 } }
    else w
  | .remove idle =>
    if (w.xprts x).offline && !(w.xprts x).remove then
      let h := w.xprts.modify x fun r => { r with remove := true }
      if (h x).connected && idle && (h x).queuelen == 0 then
        let r := rpcXprtSwitchRemoveXprt h xps x
        { w with xprts := r.1, switches := Function.update w.switches s r.2 }
      else { w with xprts := h }
    else w

/-- What can happen to tasks and transports. An event that chooses a transport carries the rounds
that the choice is given. -/
inductive RpcEvent where
  | buildTask (t : TaskPtr) (setup : RpcTaskSetup) (fuel : Nat)
  | callStart (t : TaskPtr) (fuel : Nat)
  | releaseTransport (t : TaskPtr)
  | releaseClient (t : TaskPtr)
  | connectStatus (t : TaskPtr) (transmitted : Bool) (status : Option ConnectError)
  | stateChange (s : SwitchPtr) (x : XprtPtr) (state : SysfsState)

def rpcStep (w : RpcWorld) : RpcEvent → Option RpcWorld
  | .buildTask t setup fuel => rpcBuildTask fuel w t setup
  | .callStart t fuel =>
    if t ∈ w.live then (w.tasks t).tkClient.bind fun clnt => rpcTaskSetTransport fuel w t clnt else none
  | .releaseTransport t => if t ∈ w.live then some (rpcTaskReleaseTransport w t) else none
  | .releaseClient t => if t ∈ w.live then some (rpcTaskReleaseClient w t) else none
  | .connectStatus t transmitted status =>
    if t ∈ w.live then callConnectStatus w t transmitted status else none
  | .stateChange s x state => some (rpcSysfsXprtStateChange w s x state)

/-- A task is built for a given transport that is offline, and may move. -/
def leavesAtBuild (w : RpcWorld) (setup : RpcTaskSetup) : Bool :=
  match setup.rpcXprt with
  | none => false
  | some x => decide ((w.xprts x).kref ≠ 0) && (w.xprts x).offline && setup.moveable

/-- The step neither moves a task off an offline transport nor takes one off a transport that is
being removed. -/
def KeepsAccounts (w : RpcWorld) : RpcEvent → Prop
  | .buildTask _ setup _ => leavesAtBuild w setup = false
  | .callStart t _ => leavesTransport w (w.tasks t) = false
  | .connectStatus t transmitted status => ∀ xprt clnt, (w.tasks t).tkXprt = some xprt →
      (w.tasks t).tkClient = some clnt → leavesRemoved w (w.tasks t) xprt clnt transmitted status = false
  | .releaseTransport _ | .releaseClient _ | .stateChange _ _ _ => True

/-! ## Accounts -/

/-- The task holds a transport on behalf of a client of the switch. -/
def RpcWorld.onSwitch (w : RpcWorld) (s : SwitchPtr) (task : RpcTask) : Bool :=
  task.tkXprt.isSome && task.tkClient.any fun c => w.switchOf c == s

/-- Every transport counts the live tasks that hold it, and every switch the live tasks of its
clients that hold any. -/
def Accounted (w : RpcWorld) : Prop :=
  (∀ x, (w.xprts x).queuelen = tally w.live fun t => (w.tasks t).tkXprt = some x) ∧
    ∀ s, (w.switches s).xpsQueuelen = tally w.live fun t => w.onSwitch s (w.tasks t) = true

/-- Nothing but the task `t` has changed in the account books. -/
structure TaskChange (w w' : RpcWorld) (t : TaskPtr) : Prop where
  live : w'.live.erase t = w.live.erase t
  tasks : ∀ j, j ≠ t → w'.tasks j = w.tasks j
  switchOf : ∀ c, w'.switchOf c = w.switchOf c

/-- The counters have moved with the task `t`. -/
def Balanced (w w' : RpcWorld) (t : TaskPtr) : Prop :=
  (∀ x, (w'.xprts x).queuelen + one (t ∈ w.live ∧ (w.tasks t).tkXprt = some x) =
      (w.xprts x).queuelen + one (t ∈ w'.live ∧ (w'.tasks t).tkXprt = some x)) ∧
    ∀ s, (w'.switches s).xpsQueuelen + one (t ∈ w.live ∧ w.onSwitch s (w.tasks t) = true) =
      (w.switches s).xpsQueuelen + one (t ∈ w'.live ∧ w'.onSwitch s (w'.tasks t) = true)

/-- If the task is live and holds a transport, it has a client to account it to. -/
def ClientAt (w : RpcWorld) (t : TaskPtr) : Prop :=
  t ∈ w.live → (w.tasks t).tkXprt.isSome = true → (w.tasks t).tkClient.isSome = true

section

variable {w w' : RpcWorld} {t : TaskPtr}

theorem TaskChange.clientAt (hch : TaskChange w w' t) (ht : ClientAt w' t) (hJ : ∀ j, ClientAt w j) (j : TaskPtr) :
    ClientAt w' j := by
  by_cases hj : j = t
  · exact hj ▸ ht
  intro hlive
  rw [hch.tasks j hj]
  have hmem : j ∈ w'.live.erase t := Finset.mem_erase.2 ⟨hj, hlive⟩
  rw [hch.live] at hmem
  exact hJ j (Finset.mem_of_mem_erase hmem)

theorem onSwitch_congr (h : ∀ c, w'.switchOf c = w.switchOf c) (s : SwitchPtr) (task : RpcTask) :
    w'.onSwitch s task = w.onSwitch s task := by
  unfold onSwitch
  simp [h]

/-- **The accounts stay right just when the counters move with the task.** -/
theorem accounted_iff_balanced (hch : TaskChange w w' t) (hacc : Accounted w) : Accounted w' ↔ Balanced w w' t := by
  refine and_congr (forall_congr' fun x => ?_) (forall_congr' fun s => ?_)
  · have hcount := tally_change (P := fun j => (w.tasks j).tkXprt = some x) (Q := fun j => (w'.tasks j).tkXprt = some x)
      hch.live fun j hj => by rw [hch.tasks j hj]
    have hbefore := hacc.1 x
    omega
  · have hcount := tally_change (P := fun j => w.onSwitch s (w.tasks j) = true)
      (Q := fun j => w'.onSwitch s (w'.tasks j) = true) hch.live fun j hj => by
        rw [hch.tasks j hj, onSwitch_congr hch.switchOf]
    have hbefore := hacc.2 s
    omega

theorem taskChange_refl (w : RpcWorld) (t : TaskPtr) : TaskChange w w t := ⟨rfl, fun _ _ => rfl, fun _ => rfl⟩

theorem TaskChange.trans {w₁ : RpcWorld} (h₁ : TaskChange w w₁ t) (h₂ : TaskChange w₁ w' t) : TaskChange w w' t where
  live := h₂.live.trans h₁.live
  tasks := fun j hj => (h₂.tasks j hj).trans (h₁.tasks j hj)
  switchOf := fun c => (h₂.switchOf c).trans (h₁.switchOf c)

theorem taskChange_setClient (w : RpcWorld) (t : TaskPtr) (clnt : ClntPtr) : TaskChange w (w.setClient t clnt) t :=
  ⟨rfl, fun _ hj => update_of_ne hj _ _, fun _ => rfl⟩

theorem balanced_refl (w : RpcWorld) (t : TaskPtr) : Balanced w w t := ⟨fun _ => rfl, fun _ => rfl⟩

end

/-! ## The steps, one by one -/

section

variable {w w' w₁ : RpcWorld} {t : TaskPtr} {clnt : ClntPtr} {fuel : Nat} {ret : Option XprtPtr} {setup : RpcTaskSetup}

@[simp] theorem setXprt_tasks_same (w : RpcWorld) (t : TaskPtr) (x : Option XprtPtr) :
    (w.setXprt t x).tasks t = { w.tasks t with tkXprt := x } := by
  simp [setXprt]

theorem setXprt_tkXprt (w : RpcWorld) (t : TaskPtr) (x : Option XprtPtr) : ((w.setXprt t x).tasks t).tkXprt = x := by
  rw [setXprt_tasks_same]

theorem setXprt_tasks_other (w : RpcWorld) {t j : TaskPtr} (x : Option XprtPtr) (hj : j ≠ t) :
    (w.setXprt t x).tasks j = w.tasks j := by
  simp [setXprt, hj]

/-- What `rpc_task_set_transport` does: the task stays where it is, or it gets a transport chosen
for it, having had none or leaving one that went offline. -/
theorem setTransport_cases (hset : rpcTaskSetTransport fuel w t clnt = some w') :
    (leavesTransport w (w.tasks t) = false ∧ (w.tasks t).tkXprt.isSome = true ∧ w' = w) ∨
      ∃ w₁ ret, Took w w₁ clnt ret ∧ w' = w₁.setXprt t ret ∧
        ((w.tasks t).tkXprt = none ∨ leavesTransport w (w.tasks t) = true) := by
  unfold rpcTaskSetTransport at hset
  cases hx : (w.tasks t).tkXprt with
  | some xprt =>
    simp only [hx] at hset
    cases hleave : leavesTransport w (w.tasks t) with
    | true =>
      rw [hleave, if_pos rfl, map_eq_some_iff] at hset
      obtain ⟨⟨w₁, ret⟩, hsel, rfl⟩ := hset
      have hrefs : ∀ y, (xprtPut w.xprts xprt y).queuelen = (w.xprts y).queuelen := fun y => by
        rw [put_apply]
      exact .inr ⟨w₁, ret, (took_of_xprts _ hrefs clnt).trans (select_took hsel), rfl, .inr rfl⟩
    | false =>
      rw [hleave, if_neg Bool.false_ne_true, Option.some.injEq] at hset
      exact .inl ⟨rfl, rfl, hset.symm⟩
  | none =>
    simp only [hx, map_eq_some_iff] at hset
    obtain ⟨⟨w₁, ret⟩, hsel, rfl⟩ := hset
    exact .inr ⟨w₁, ret, select_took hsel, rfl, .inl rfl⟩

section

variable (htook : Took w w₁ clnt ret)
include htook

theorem Took.taskChange (x : Option XprtPtr) : TaskChange w (w₁.setXprt t x) t where
  live := congrArg (fun l => l.erase t) htook.live
  tasks := fun j hj => by rw [setXprt_tasks_other w₁ x hj, htook.tasks]
  switchOf := htook.switchOf

theorem Took.onSwitch_setXprt (hclnt : (w.tasks t).tkClient = some clnt) (s : SwitchPtr) :
    (w₁.setXprt t ret).onSwitch s ((w₁.setXprt t ret).tasks t) = true ↔
      ret.isSome = true ∧ s = w.switchOf clnt := by
  have hsw : (w₁.setXprt t ret).switchOf clnt = w.switchOf clnt := htook.switchOf clnt
  rw [setXprt_tasks_same, htook.tasks]
  simp only [onSwitch, hclnt, any_some, Bool.and_eq_true, beq_iff_eq, hsw]
  exact and_congr_right fun _ => eq_comm

theorem Took.balanced (hlive : t ∈ w.live) (hclnt : (w.tasks t).tkClient = some clnt)
    (hnone : (w.tasks t).tkXprt = none) : Balanced w (w₁.setXprt t ret) t := by
  have hlive' : t ∈ (w₁.setXprt t ret).live := htook.live.symm ▸ hlive
  refine ⟨fun x => ?_, fun s => ?_⟩
  · have hq : ((w₁.setXprt t ret).xprts x).queuelen = _ := htook.queuelen x
    simp only [hq, hnone, hlive', setXprt_tasks_same, true_and, reduceCtorEq, and_false, one_neg not_false]
    omega
  · have hxq : ((w₁.setXprt t ret).switches s).xpsQueuelen = _ := htook.xpsQueuelen s
    have hoff : w.onSwitch s (w.tasks t) = false := by simp [onSwitch, hnone]
    simp only [hxq, hoff, hlive', htook.onSwitch_setXprt hclnt, true_and, Bool.false_eq_true, and_false,
      one_neg not_false]
    omega

theorem Took.not_balanced (hlive : t ∈ w.live) {x : XprtPtr} (hx : (w.tasks t).tkXprt = some x) :
    ¬ Balanced w (w₁.setXprt t ret) t := by
  rintro ⟨hbal, -⟩
  have hq : ((w₁.setXprt t ret).xprts x).queuelen = _ := htook.queuelen x
  have hlive' : t ∈ (w₁.setXprt t ret).live := htook.live.symm ▸ hlive
  have := hbal x
  simp only [hq, hlive, hlive', hx, setXprt_tasks_same, true_and, one_pos trivial] at this
  omega

end

theorem balanced_setClient (hnew : t ∉ w.live) (hlive : t ∈ w₁.live)
    (hsw : w₁.switchOf clnt = w.switchOf clnt) : Balanced w (w₁.setClient t clnt) t ↔
      (∀ x, (w₁.xprts x).queuelen = (w.xprts x).queuelen + one ((w₁.tasks t).tkXprt = some x)) ∧
      ∀ s, (w₁.switches s).xpsQueuelen = (w.switches s).xpsQueuelen +
        one ((w₁.tasks t).tkXprt.isSome = true ∧ s = w.switchOf clnt) := by
  have htask : (w₁.setClient t clnt).tasks t = { w₁.tasks t with tkClient := some clnt } := by
    simp [setClient]
  have hon : ∀ s, (w₁.setClient t clnt).onSwitch s ((w₁.setClient t clnt).tasks t) = true ↔
      (w₁.tasks t).tkXprt.isSome = true ∧ s = w.switchOf clnt := by
    intro s
    have hsw' : (w₁.setClient t clnt).switchOf clnt = w.switchOf clnt := hsw
    simp only [onSwitch, htask, any_some, Bool.and_eq_true, beq_iff_eq, hsw']
    exact and_congr_right fun _ => eq_comm
  have hlive' : t ∈ (w₁.setClient t clnt).live := hlive
  have hxprt : ((w₁.setClient t clnt).tasks t).tkXprt = (w₁.tasks t).tkXprt := by rw [htask]
  simp only [Balanced, hnew, hlive', hxprt, hon, false_and, true_and, one_neg not_false, Nat.cast_zero, add_zero]
  rfl

theorem initTask_spec (hinit : rpcInitTask w t setup = some w₁) :
    TaskChange w w₁ t ∧ t ∈ w₁.live ∧ ∃ r, w₁.tasks t = setup.task r ∧ (setup.rpcClient = none → r = none) ∧
      (∀ x, (w₁.xprts x).queuelen = (w.xprts x).queuelen + one (r = some x)) ∧
      (∀ s, (w₁.switches s).xpsQueuelen =
        (w.switches s).xpsQueuelen + one (r.isSome = true ∧ setup.rpcClient.map w.switchOf = some s)) ∧
      leavesTransport w₁ (setup.task r) = leavesAtBuild w setup := by
  unfold rpcInitTask at hinit
  have hch : ∀ (h : XprtHeap) (task : RpcTask),
      TaskChange w { w with xprts := h, tasks := Function.update w.tasks t task, live := insert t w.live } t :=
    fun h task => ⟨Finset.erase_insert_eq_erase _ _, fun j hj => update_of_ne hj _ _, fun _ => rfl⟩
  have hlive := Finset.mem_insert_self t w.live
  unfold leavesAtBuild
  cases hx : setup.rpcXprt with
  | none =>
    simp only [hx, xprtGetOpt] at hinit
    cases hinit
    exact ⟨hch _ _, hlive, none, update_self .., fun _ => rfl, by simp, by simp, rfl⟩
  | some x =>
    by_cases hk : (w.xprts x).kref = 0
    · simp only [hx, xprtGetOpt, xprtGet, if_pos hk] at hinit
      cases hinit
      exact ⟨hch _ _, hlive, none, update_self .., fun _ => rfl, by simp, by simp,
        by simp [hk, leavesTransport, RpcTaskSetup.task]⟩
    cases hclnt : setup.rpcClient with
    | none => simp only [hx, hclnt, xprtGetOpt, get_of_ne_zero hk, reduceCtorEq] at hinit
    | some clnt =>
      simp only [hx, hclnt, xprtGetOpt, get_of_ne_zero hk] at hinit
      cases hinit
      refine ⟨{ hch w.xprts (setup.task (some x)) with }, hlive, some x, update_self .., by simp, fun y => ?_, fun s => ?_, ?_⟩
      · rw [(getXprt_took _ clnt (some x)).queuelen]
        simp [XprtHeap.addRef_apply]
      · rw [(getXprt_took _ clnt (some x)).xpsQueuelen]
        simp only [map_some, Option.some.injEq, @eq_comm _ s]
        rfl
      · simp [leavesTransport, RpcTaskSetup.task, rpcTaskGetXprt, addQueuelen,
          addXpsQueuelen, XprtHeap.addRef_apply, hk]

theorem buildTask_noClient (hclnt : setup.rpcClient = none) (hnew : t ∉ w.live)
    (hinit : rpcInitTask w t setup = some w₁) :
    TaskChange w w₁ t ∧ ClientAt w₁ t ∧ (Balanced w w₁ t ↔ leavesAtBuild w setup = false) := by
  obtain ⟨hch, -, r, htask, hr, hq, hxq, hleave⟩ := initTask_spec hinit
  cases hr hclnt
  refine ⟨hch, fun _ hx => by simp [htask, RpcTaskSetup.task] at hx, iff_of_true ⟨fun x => ?_, fun s => ?_⟩ hleave.symm⟩
  · simp [hnew, hq, htask, RpcTaskSetup.task]
  · simp [hnew, hxq, htask, RpcTaskSetup.task, onSwitch]

/-- Building a task for a client: the books are wrong just if the task is moved off the transport
it was given. -/
theorem buildTask_client {w₀ : RpcWorld} (hclnt : setup.rpcClient = some clnt) (hnew : t ∉ w.live)
    (hinit : rpcInitTask w t setup = some w₀) (hset : rpcTaskSetTransport fuel w₀ t clnt = some w₁) :
    TaskChange w (w₁.setClient t clnt) t ∧ ClientAt (w₁.setClient t clnt) t ∧
      (Balanced w (w₁.setClient t clnt) t ↔ leavesAtBuild w setup = false) := by
  have hclient : ClientAt (w₁.setClient t clnt) t := fun _ _ => by simp [setClient]
  obtain ⟨hch, hmem, r, htask, -, hq, hxq, hleave⟩ := initTask_spec hinit
  simp only [hclnt, map_some, Option.some.injEq, @eq_comm _ (w.switchOf clnt)] at hxq
  rw [← htask] at hleave
  rw [← hleave]
  rcases setTransport_cases hset with ⟨hstay, -, rfl⟩ | ⟨w₂, ret, htook, rfl, hleft⟩
  · refine ⟨hch.trans (taskChange_setClient _ t clnt), hclient, iff_of_true ?_ hstay⟩
    rw [balanced_setClient hnew hmem (hch.switchOf clnt), htask]
    exact ⟨hq, hxq⟩
  have hch' := hch.trans (htook.taskChange ret)
  have hmem' : t ∈ (w₂.setXprt t ret).live := htook.live.symm ▸ hmem
  refine ⟨hch'.trans (taskChange_setClient _ t clnt), hclient, ?_⟩
  rw [balanced_setClient hnew hmem' (hch'.switchOf clnt), setXprt_tkXprt]
  have hq' : ∀ x, ((w₂.setXprt t ret).xprts x).queuelen =
      (w.xprts x).queuelen + one (r = some x) + one (ret = some x) :=
    fun x => (htook.queuelen x).trans (by rw [hq])
  cases r with
  | none =>
    -- nothing was given, so nothing had been counted before the choice
    have hstay : leavesTransport w₀ (w₀.tasks t) = false := by rw [htask]; rfl
    refine iff_of_true ⟨fun x => ?_, fun s => ?_⟩ hstay
    · rw [hq']
      simp
    · refine (htook.xpsQueuelen s).trans ?_
      rw [hxq, hch.switchOf]
      simp
  | some x₀ =>
    have hleaves : leavesTransport w₀ (w₀.tasks t) = true := by
      refine hleft.resolve_left ?_
      rw [htask]
      simp [RpcTaskSetup.task]
    refine iff_of_false (fun hbal => ?_) (by simp [hleaves])
    have h₁ := hbal.1 x₀
    rw [hq', one_pos rfl] at h₁
    omega

theorem buildTask_balanced (hbuild : rpcBuildTask fuel w t setup = some w') :
    TaskChange w w' t ∧ ClientAt w' t ∧ (Balanced w w' t ↔ leavesAtBuild w setup = false) := by
  unfold rpcBuildTask at hbuild
  split at hbuild
  · rename_i hnew
    cases hbuild
  rename_i hnew
  rw [bind_eq_some_iff] at hbuild
  obtain ⟨w₀, hinit, hset⟩ := hbuild
  cases hclnt : setup.rpcClient with
  | none =>
    rw [hclnt, rpcTaskSetClient, Option.some.injEq] at hset
    exact hset ▸ buildTask_noClient hclnt hnew hinit
  | some clnt =>
    simp only [hclnt, rpcTaskSetClient, map_eq_some_iff] at hset
    obtain ⟨w₁, hset, rfl⟩ := hset
    exact buildTask_client hclnt hnew hinit hset

theorem setTransport_balanced (hlive : t ∈ w.live) (hclnt : (w.tasks t).tkClient = some clnt)
    (hset : rpcTaskSetTransport fuel w t clnt = some w') :
    TaskChange w w' t ∧ ClientAt w' t ∧ (Balanced w w' t ↔ leavesTransport w (w.tasks t) = false) := by
  rcases setTransport_cases hset with ⟨hstay, -, rfl⟩ | ⟨w₁, ret, htook, rfl, hnone | hleave⟩
  · exact ⟨taskChange_refl w' t, fun _ _ => by simp [hclnt], iff_of_true (balanced_refl w' t) hstay⟩
  · have hstay : leavesTransport w (w.tasks t) = false := by simp [leavesTransport, hnone]
    exact ⟨htook.taskChange ret, fun _ _ => by simp [htook.tasks, hclnt],
      iff_of_true (htook.balanced hlive hclnt hnone) hstay⟩
  obtain ⟨x, hx⟩ : ∃ x, (w.tasks t).tkXprt = some x := by
    cases hx : (w.tasks t).tkXprt with
    | none => simp [leavesTransport, hx] at hleave
    | some x => exact ⟨x, rfl⟩
  exact ⟨htook.taskChange ret, fun _ _ => by simp [htook.tasks, hclnt],
    iff_of_false (htook.not_balanced hlive hx) (by simp [hleave])⟩

theorem releaseTransport_balanced (hlive : t ∈ w.live) (hclnt : ClientAt w t) :
    TaskChange w (rpcTaskReleaseTransport w t) t ∧ Balanced w (rpcTaskReleaseTransport w t) t ∧
      (rpcTaskReleaseTransport w t).live = w.live ∧
      ((rpcTaskReleaseTransport w t).tasks t).tkXprt = none := by
  unfold rpcTaskReleaseTransport
  cases hx : (w.tasks t).tkXprt with
  | none => exact ⟨taskChange_refl w t, balanced_refl w t, rfl, hx⟩
  | some x =>
    obtain ⟨clnt, hc⟩ := isSome_iff_exists.1 (hclnt hlive (by rw [hx]; rfl))
    have hc' : ((w.setXprt t none).tasks t).tkClient = some clnt := by rw [setXprt_tasks_same]; exact hc
    have htx : ((rpcTaskReleaseXprt (w.setXprt t none) clnt x).tasks t).tkXprt = none := setXprt_tkXprt w t none
    simp only [hc']
    refine ⟨⟨rfl, fun j hj => setXprt_tasks_other w none hj, fun _ => rfl⟩, ⟨fun y => ?_, fun s => ?_⟩, rfl, htx⟩
    · have hq : ((rpcTaskReleaseXprt (w.setXprt t none) clnt x).xprts y).queuelen =
          (w.xprts y).queuelen + if y = x then -1 else 0 := by
        unfold rpcTaskReleaseXprt
        simp only [put_apply]
        exact addQueuelen_queuelen (w.setXprt t none) x y (-1)
      rw [hq]
      by_cases hyx : y = x
      · simp [hyx, hlive, hx, htx]
      · simp [hyx, hx, htx, Ne.symm hyx]
    · have hxq : ((rpcTaskReleaseXprt (w.setXprt t none) clnt x).switches s).xpsQueuelen =
          (w.switches s).xpsQueuelen + if s = w.switchOf clnt then -1 else 0 :=
        addXpsQueuelen_xpsQueuelen ((w.setXprt t none).addQueuelen x (-1)) (w.switchOf clnt) s (-1)
      rw [hxq]
      by_cases hs : s = w.switchOf clnt
      · simp [onSwitch, hs, hlive, hx, hc, htx]
      · simp [onSwitch, hs, hx, hc, htx, Ne.symm hs]

theorem releaseClient_balanced (hlive : t ∈ w.live) (hclnt : ClientAt w t) :
    TaskChange w (rpcTaskReleaseClient w t) t ∧ ClientAt (rpcTaskReleaseClient w t) t ∧
      Balanced w (rpcTaskReleaseClient w t) t := by
  obtain ⟨hch, hbal, hl, hnone⟩ := releaseTransport_balanced hlive hclnt
  have hgone : t ∉ (rpcTaskReleaseClient w t).live := Finset.notMem_erase t _
  set w' := rpcTaskReleaseTransport w t
  refine ⟨⟨?_, fun j hj => ?_, hch.switchOf⟩, fun h => absurd h hgone, fun x => ?_, fun s => ?_⟩
  · rw [← hch.live]
    exact Finset.erase_idem
  · exact (update_of_ne hj _ _).trans (hch.tasks j hj)
  · have hbefore : one (t ∈ w'.live ∧
        (w'.tasks t).tkXprt = some x) = 0 := one_neg (by simp [hnone])
    refine (hbal.1 x).trans ?_
    rw [hbefore, one_neg (fun h => hgone h.1)]
  · have hbefore : one (t ∈ w'.live ∧
        w'.onSwitch s (w'.tasks t) = true) = 0 :=
      one_neg (by simp [onSwitch, hnone])
    refine (hbal.2 s).trans ?_
    rw [hbefore, one_neg (fun h => hgone h.1)]

theorem update_xpsQueuelen (switches : SwitchPtr → RpcXprtSwitch) {xps : RpcXprtSwitch} {s : SwitchPtr}
    (h : xps.xpsQueuelen = (switches s).xpsQueuelen) (s' : SwitchPtr) :
    (Function.update switches s xps s').xpsQueuelen = (switches s').xpsQueuelen := by
  by_cases hs : s' = s
  · rw [hs, update_self, h]
  · rw [update_of_ne hs]

theorem dropRemoved_frame (w : RpcWorld) (x : XprtPtr) (clnt : ClntPtr) :
    (dropRemoved w x clnt).tasks = w.tasks ∧ (dropRemoved w x clnt).live = w.live ∧
      (dropRemoved w x clnt).clnts = w.clnts ∧
      ∀ s, ((dropRemoved w x clnt).switches s).xpsQueuelen = (w.switches s).xpsQueuelen := by
  unfold dropRemoved
  simp only
  split
  · exact ⟨rfl, rfl, rfl, update_xpsQueuelen w.switches (by rfl)⟩
  · exact ⟨rfl, rfl, rfl, fun _ => rfl⟩

theorem callConnectStatus_balanced {transmitted : Bool} {status : Option ConnectError} (hlive : t ∈ w.live)
    (hstep : callConnectStatus w t transmitted status = some w') :
    TaskChange w w' t ∧ ClientAt w' t ∧
      (Balanced w w' t ↔ KeepsAccounts w (.connectStatus t transmitted status)) := by
  unfold callConnectStatus at hstep
  cases hx : (w.tasks t).tkXprt with
  | none => simp [hx] at hstep
  | some x =>
    cases hc : (w.tasks t).tkClient with
    | none => simp [hx, hc] at hstep
    | some clnt =>
      simp only [hx, hc] at hstep
      have hkeeps : KeepsAccounts w (.connectStatus t transmitted status) ↔
          leavesRemoved w (w.tasks t) x clnt transmitted status = false := by
        refine ⟨fun h => h x clnt hx hc, fun h y c hy hc' => ?_⟩
        cases hx.symm.trans hy
        cases hc.symm.trans hc'
        exact h
      rw [hkeeps]
      cases hleave : leavesRemoved w (w.tasks t) x clnt transmitted status with
      | false =>
        rw [hleave, if_neg Bool.false_ne_true] at hstep
        cases hstep
        exact ⟨taskChange_refl w t, fun _ _ => by simp [hc], iff_of_true (balanced_refl w t) rfl⟩
      | true =>
        rw [hleave, if_pos rfl] at hstep
        cases hstep
        obtain ⟨htasks, hl, hclnts, hxq⟩ := dropRemoved_frame w x clnt
        refine ⟨⟨congrArg (fun l => l.erase t) hl, fun j hj => ?_, fun c => congrArg (fun f => (f c).xpiXpswitch) hclnts⟩,
          fun _ h => by simp at h, iff_of_false (fun hbal => ?_) (by decide)⟩
        · rw [setXprt_tasks_other _ none hj, htasks]
        · have hs := hbal.2 (w.switchOf clnt)
          have hon : w.onSwitch (w.switchOf clnt) (w.tasks t) = true := by simp [onSwitch, hx, hc]
          have hoff : ((dropRemoved w x clnt).setXprt t none).onSwitch (w.switchOf clnt)
              (((dropRemoved w x clnt).setXprt t none).tasks t) = false := by
            simp [onSwitch]
          have hsame : (((dropRemoved w x clnt).setXprt t none).switches (w.switchOf clnt)).xpsQueuelen = _ :=
            hxq (w.switchOf clnt)
          rw [one_pos ⟨hlive, hon⟩, one_neg (fun h => Bool.false_ne_true (hoff.symm.trans h.2))] at hs
          omega

/-- Nothing in the account books has changed. -/
structure SameBooks (w w' : RpcWorld) : Prop where
  tasks : w'.tasks = w.tasks
  live : w'.live = w.live
  clnts : w'.clnts = w.clnts
  queuelen : ∀ x, (w'.xprts x).queuelen = (w.xprts x).queuelen
  xpsQueuelen : ∀ s, (w'.switches s).xpsQueuelen = (w.switches s).xpsQueuelen

theorem sameBooks_refl (w : RpcWorld) : SameBooks w w := ⟨rfl, rfl, rfl, fun _ => rfl, fun _ => rfl⟩

theorem xprtStateChange_frame (w : RpcWorld) (s : SwitchPtr) (x : XprtPtr) (state : SysfsState) :
    SameBooks w (rpcSysfsXprtStateChange w s x state) := by
  have hq : ∀ (h : XprtHeap) (f : RpcXprt → RpcXprt) (y : XprtPtr), (∀ r, (f r).queuelen = r.queuelen) →
      (h.modify x f y).queuelen = (h y).queuelen := by
    intro h f y hf
    unfold XprtHeap.modify
    split
    · exact hf _
    · rfl
  unfold rpcSysfsXprtStateChange
  split
  · exact sameBooks_refl w
  cases state with
  | offline =>
    dsimp only
    split
    · exact sameBooks_refl w
    · exact ⟨rfl, rfl, rfl, fun y => hq _ _ y fun _ => rfl, update_xpsQueuelen w.switches (by rfl)⟩
  | online =>
    dsimp only
    split
    · exact ⟨rfl, rfl, rfl, fun y => hq _ _ y fun _ => rfl, update_xpsQueuelen w.switches (by rfl)⟩
    · exact sameBooks_refl w
  | remove idle =>
    dsimp only
    split
    · split
      · refine ⟨rfl, rfl, rfl, fun y => ?_, update_xpsQueuelen w.switches (by rfl)⟩
        simp only [rpcXprtSwitchRemoveXprt, put_apply]
        exact hq _ _ y fun _ => rfl
      · exact ⟨rfl, rfl, rfl, fun y => hq _ _ y fun _ => rfl, fun _ => rfl⟩
    · exact sameBooks_refl w

end

/-! ## Runs -/

section

variable {w w' : RpcWorld} {e : RpcEvent}

/-- **One step.**  It changes the books of one task, and the counters move with it just when the
step keeps the accounts. -/
theorem rpcStep_balanced (hJ : ∀ j, ClientAt w j) (hstep : rpcStep w e = some w') :
    ∃ t, TaskChange w w' t ∧ ClientAt w' t ∧ (Balanced w w' t ↔ KeepsAccounts w e) := by
  cases e with
  | buildTask t setup fuel => exact ⟨t, buildTask_balanced hstep⟩
  | callStart t fuel =>
    simp only [rpcStep, ite_none_right_eq_some, bind_eq_some_iff] at hstep
    obtain ⟨hlive, clnt, hclnt, hset⟩ := hstep
    exact ⟨t, setTransport_balanced hlive hclnt hset⟩
  | releaseTransport t =>
    obtain ⟨hlive, rfl⟩ := of_guarded hstep
    obtain ⟨hch, hbal, -, hnone⟩ := releaseTransport_balanced hlive (hJ t)
    exact ⟨t, hch, fun _ h => by simp [hnone] at h, iff_of_true hbal trivial⟩
  | releaseClient t =>
    obtain ⟨hlive, rfl⟩ := of_guarded hstep
    obtain ⟨hch, hclient, hbal⟩ := releaseClient_balanced hlive (hJ t)
    exact ⟨t, hch, hclient, iff_of_true hbal trivial⟩
  | connectStatus t transmitted status =>
    simp only [rpcStep, ite_none_right_eq_some] at hstep
    obtain ⟨hlive, hstep⟩ := hstep
    exact ⟨t, callConnectStatus_balanced hlive hstep⟩
  | stateChange s x state =>
    cases hstep
    obtain ⟨htasks, hlive, hclnts, hq, hxq⟩ := xprtStateChange_frame w s x state
    have hsw : ∀ c, (rpcSysfsXprtStateChange w s x state).switchOf c = w.switchOf c := fun c => by
      rw [switchOf, switchOf, hclnts]
    refine ⟨0, ⟨by rw [hlive], fun j _ => by rw [htasks], hsw⟩, ?_, iff_of_true ⟨fun y => ?_, fun s' => ?_⟩ trivial⟩
    · rw [ClientAt, htasks, hlive]
      exact hJ 0
    · rw [hq, htasks, hlive]
    · rw [hxq, htasks, hlive, onSwitch_congr hsw]

/-- Nobody has a transport yet and nothing is counted. -/
structure RpcWorld.Fresh (w : RpcWorld) : Prop where
  live : w.live = ∅
  queuelen : ∀ x, (w.xprts x).queuelen = 0
  xpsQueuelen : ∀ s, (w.switches s).xpsQueuelen = 0

theorem RpcWorld.Fresh.accounted (hw : w.Fresh) : Accounted w := by
  refine ⟨fun x => ?_, fun s => ?_⟩
  · rw [hw.queuelen, hw.live]
    rfl
  · rw [hw.xpsQueuelen, hw.live]
    rfl

/-- **Queue accounting over whole runs.**  Both counters are right in every state just when no step
moves a task off an offline transport or takes one off a transport that is being removed. -/
theorem accounted_iff_keepsAccounts (w : RpcWorld) (es : List RpcEvent) (hw : w.Fresh) :
    Always rpcStep Accounted w es ↔ EachStep rpcStep KeepsAccounts w es := by
  have hJ₀ : ∀ j, ClientAt w j := fun j hj => by simp [hw.live] at hj
  refine always_iff_eachStep (J := fun w => ∀ j, ClientAt w j) ?_ ?_ ?_ hJ₀ hw.accounted
  · intro w e w' hJ hstep
    obtain ⟨t, hch, hclient, -⟩ := rpcStep_balanced hJ hstep
    exact hch.clientAt hclient hJ
  · intro w e w' hJ hacc hkeeps hstep
    obtain ⟨t, hch, -, hbal⟩ := rpcStep_balanced hJ hstep
    exact (accounted_iff_balanced hch hacc).2 (hbal.2 hkeeps)
  · intro w e w' hJ hacc hkeeps hstep hacc'
    obtain ⟨t, hch, -, hbal⟩ := rpcStep_balanced hJ hstep
    exact hkeeps (hbal.1 ((accounted_iff_balanced hch hacc).1 hacc'))

end

def duoWorld : RpcWorld where
  xprts := fun x => { main := x == 0 }
  switches := fun _ =>
    { xpsNxprts := 2
      xpsNactive := 2
      xpsXprtList := [0, 1]
      xpsRemoteportXprtList := fun i => if i = 0 then [0, 1] else []
      xpsIterOps := .roundrobin }
  clnts := fun _ => {}
  tasks := fun _ => {}
  live := ∅

/-- Two tasks, one on each transport, of which the second may move. -/
def duoTasks : List RpcEvent :=
  [.buildTask 0 { rpcClient := some 0 } 1, .buildTask 1 { rpcClient := some 0, moveable := true } 1]

theorem duoWorld_fresh : duoWorld.Fresh := ⟨rfl, fun _ => rfl, fun _ => rfl⟩

theorem accounted_iff_keepsAccounts_duo :
    Always rpcStep Accounted duoWorld (duoTasks ++ [.releaseClient 0]) ↔
      EachStep rpcStep KeepsAccounts duoWorld (duoTasks ++ [.releaseClient 0]) :=
  accounted_iff_keepsAccounts duoWorld _ duoWorld_fresh

/-- The second transport goes offline, its task moves to the first one, and both stay counted. -/
theorem accounted_fails_after_move :
    duoWorld.Fresh ∧
      ¬ Always rpcStep Accounted duoWorld (duoTasks ++ [.stateChange 0 1 .offline, .callStart 1 1]) := by
  refine ⟨duoWorld_fresh, fun hall => ?_⟩
  have hacc := run_of_always hall rfl
  exact absurd (hacc.1 1) (by decide)

end Vastnfs.Sunrpc
