import Vastnfs.Sunrpc.Selection

/-!
# Clients, tasks and the choice of a transport

The part of `net/sunrpc/clnt.c` that gives a task its transport and takes it back.

* `rpcTaskConf`: the conf a task asks the switch with.
* `rpcTaskSelect`, `rpcTaskSetTransport`: the chain of weaker and weaker attempts.
* `select_took`: whatever attempt succeeds, exactly one unit is added to the queue of the
  chosen transport and to the queue of the switch.
-/

namespace Vastnfs.Sunrpc

open Option

/-! ## Data -/

abbrev SwitchPtr := Nat
abbrev ClntPtr := Nat
abbrev TaskPtr := Nat

structure RpcClnt where
  clXprt : XprtPtr := 0
  /-- `cl_xpi.xpi_xpswitch`. -/
  xpiXpswitch : SwitchPtr := 0
  /-- `cl_xpi.xpi_cursor`. -/
  xpiCursor : Option XprtPtr := none
  clMdconnect : Nat := 0
  /-- `cl_remoteports_usage->nr`, if there is a table. -/
  clRemoteports : Option Nat := none
  (clAutobind clSpreadReads clSpreadWrites : Bool := false)

/-- `struct rpc_task`, with the flags that the transport code looks at. -/
structure RpcTask where
  tkClient : Option ClntPtr := none
  tkXprt : Option XprtPtr := none
  /-- `unsigned short tk_multipath_hash`. -/
  tkMultipathHash : Nat := 0
  /-- `tk_gpu_idx`, if `tk_gpu_advised`. -/
  tkGpuIdx : Option Nat := none
  (moveable noRoundRobin softconn : Bool := false)
  deriving DecidableEq

structure RpcTaskSetup where
  rpcClient : Option ClntPtr := none
  rpcXprt : Option XprtPtr := none
  multipathHash : Nat := 0
  gpuIdx : Option Nat := none
  (moveable noRoundRobin softconn : Bool := false)

/-- The task that `rpc_init_task` fills in, with the transport it was given. -/
def RpcTaskSetup.task (setup : RpcTaskSetup) (xprt : Option XprtPtr) : RpcTask where
  tkXprt := xprt
  tkMultipathHash := setup.multipathHash
  tkGpuIdx := setup.gpuIdx
  moveable := setup.moveable
  noRoundRobin := setup.noRoundRobin
  softconn := setup.softconn

/-- Everything the transport code can reach. -/
structure RpcWorld where
  xprts : XprtHeap
  switches : SwitchPtr → RpcXprtSwitch
  clnts : ClntPtr → RpcClnt
  tasks : TaskPtr → RpcTask
  /-- The tasks that are built and not yet released. -/
  live : Finset TaskPtr

def RpcWorld.switchOf (w : RpcWorld) (clnt : ClntPtr) : SwitchPtr := (w.clnts clnt).xpiXpswitch

def RpcWorld.setCursor (w : RpcWorld) (clnt : ClntPtr) (cur : Option XprtPtr) : RpcWorld :=
  { w with clnts := Function.update w.clnts clnt { w.clnts clnt with xpiCursor := cur } }

def RpcWorld.setXprt (w : RpcWorld) (t : TaskPtr) (x : Option XprtPtr) : RpcWorld :=
  { w with tasks := Function.update w.tasks t { w.tasks t with tkXprt := x } }

def RpcWorld.addQueuelen (w : RpcWorld) (x : XprtPtr) (n : Int) : RpcWorld :=
  { w with xprts := w.xprts.modify x fun r => { r with queuelen := r.queuelen + n } }

def RpcWorld.addXpsQueuelen (w : RpcWorld) (s : SwitchPtr) (n : Int) : RpcWorld :=
  let xps := { w.switches s with xpsQueuelen := (w.switches s).xpsQueuelen + n }
  { w with switches := Function.update w.switches s xps }

/-! ## Taking and releasing -/

def rpcTaskGetXprt (w : RpcWorld) (clnt : ClntPtr) : Option XprtPtr → RpcWorld
  | none => w
  | some xprt => (w.addXpsQueuelen (w.switchOf clnt) 1).addQueuelen xprt 1

def rpcTaskReleaseXprt (w : RpcWorld) (clnt : ClntPtr) (xprt : XprtPtr) : RpcWorld :=
  let w := (w.addQueuelen xprt (-1)).addXpsQueuelen (w.switchOf clnt) (-1)
  { w with xprts := xprtPut w.xprts xprt }

def rpcTaskReleaseTransport (w : RpcWorld) (t : TaskPtr) : RpcWorld :=
  match (w.tasks t).tkXprt with
  | none => w
  | some xprt =>
    let w := w.setXprt t none
    match (w.tasks t).tkClient with
    | some clnt => rpcTaskReleaseXprt w clnt xprt
    | none => { w with xprts := xprtPut w.xprts xprt }

def rpcTaskReleaseClient (w : RpcWorld) (t : TaskPtr) : RpcWorld :=
  let w := rpcTaskReleaseTransport w t
  { w with
    tasks := Function.update w.tasks t { w.tasks t with tkClient := none }
    live := w.live.erase t }

/-! ## Choosing -/

def clntIterGetNext (fuel : Nat) (w : RpcWorld) (clnt : ClntPtr) (conf : IterConf) :
    Option (RpcWorld × Option XprtPtr) :=
  (xprtIterGetNext w.xprts (w.switches (w.switchOf clnt)) conf fuel (w.clnts clnt).xpiCursor).map fun r =>
    ({ w.setCursor clnt r.2.1 with xprts := r.1 }, r.2.2)

/-- `rpc_task_get_xprt(clnt, xprt_iter_get_next(&clnt->cl_xpi, conf))`. -/
def rpcTaskGetNextXprt (fuel : Nat) (w : RpcWorld) (clnt : ClntPtr) (conf : IterConf) :
    Option (RpcWorld × Option XprtPtr) :=
  (clntIterGetNext fuel w clnt conf).map fun r => (rpcTaskGetXprt r.1 clnt r.2, r.2)

def sunrpcMultipathDataHashMark : Nat := 0x8000

/-- `rpc_task_try_xprt_selections` prefers the transports near the GPU of the task. The fields of
the conf are 22 and 28 bits wide. -/
def rpcTaskGpuConf (w : RpcWorld) (task : RpcTask) (clnt : ClntPtr) (conf : IterConf) : IterConf :=
  match task.tkGpuIdx with
  | none => conf
  | some gpuIdx =>
    match xprtFindBestPriority w.xprts (w.switches (w.switchOf clnt)) gpuIdx with
    | none => conf
    | some best =>
      { conf with
        flags := { conf.flags with localGpu := true }
        gpuIdx := gpuIdx % 2 ^ 22
        bestPriority := best % 2 ^ 28 }

/-- It ties a task with a hash to one remote port, and with `mdconnect` also to a role. -/
def rpcTaskPortConf (clnt : RpcClnt) (task : RpcTask) (conf : IterConf) : IterConf :=
  match clnt.clRemoteports with
  | none => conf
  | some nr =>
    if task.tkMultipathHash ≠ 0 ∧ nr > 0 then
      { conf with
        flags := { conf.flags with
          remotePortIdx := true
          split := conf.flags.split || clnt.clMdconnect != 0
          marked := conf.flags.marked ||
            (clnt.clMdconnect != 0 && task.tkMultipathHash &&& sunrpcMultipathDataHashMark != 0) }
        remotePortIdx := (task.tkMultipathHash - 1) % nr % 2 ^ 8 }
    else conf

/-- The conf that `rpc_task_try_xprt_selections` makes of the one it is given. -/
def rpcTaskConf (w : RpcWorld) (task : RpcTask) (clnt : ClntPtr) (conf : IterConf) : IterConf :=
  rpcTaskPortConf (w.clnts clnt) task (rpcTaskGpuConf w task clnt conf)

def IterConf.anyPort (conf : IterConf) : IterConf :=
  { conf with flags := { conf.flags with remotePortIdx := false } }

def rpcTaskTryXprtSelections (fuel : Nat) (w : RpcWorld) (task : RpcTask) (clnt : ClntPtr)
    (conf : IterConf) : Option (RpcWorld × Option XprtPtr) :=
  let conf := rpcTaskConf w task clnt conf
  (rpcTaskGetNextXprt fuel w clnt conf).bind fun r =>
    match r.2 with
    | some xprt => some (r.1, some xprt)
    | none =>
      if conf.flags.remotePortIdx then
        rpcTaskGetNextXprt fuel r.1 clnt conf.anyPort
      else some (r.1, none)

def rpcTaskGetFirstXprt (w : RpcWorld) (clnt : ClntPtr) : RpcWorld × Option XprtPtr :=
  let r := xprtGet w.xprts (w.clnts clnt).clXprt
  (rpcTaskGetXprt { w with xprts := r.1 } clnt r.2, r.2)

/-- The part of `rpc_task_set_transport` that chooses: first among the connected transports, then
without regard to congestion, and at last anything that is online. -/
def rpcTaskSelect (fuel : Nat) (w : RpcWorld) (task : RpcTask) (clnt : ClntPtr) :
    Option (RpcWorld × Option XprtPtr) :=
  if task.noRoundRobin then some (rpcTaskGetFirstXprt w clnt)
  else
    (rpcTaskTryXprtSelections fuel w task clnt { flags := { skipUnconnected := true } }).bind fun r =>
      match r.2 with
      | some xprt => some (r.1, some xprt)
      | none =>
        (rpcTaskTryXprtSelections fuel r.1 task clnt
            { flags := { skipUnconnected := true, ignoreCongestion := true } }).bind fun r =>
          match r.2 with
          | some xprt => some (r.1, some xprt)
          | none => rpcTaskGetNextXprt fuel r.1 clnt {}

/-- A task leaves its transport at `rpc_task_set_transport`: the transport went offline under a
task that may move. -/
def leavesTransport (w : RpcWorld) (task : RpcTask) : Bool :=
  match task.tkXprt with
  | none => false
  | some xprt => (w.xprts xprt).offline && task.moveable

def rpcTaskSetTransport (fuel : Nat) (w : RpcWorld) (t : TaskPtr) (clnt : ClntPtr) : Option RpcWorld :=
  match (w.tasks t).tkXprt with
  | some xprt =>
    if leavesTransport w (w.tasks t) then
      -- only the reference is given back here
      (rpcTaskSelect fuel { w with xprts := xprtPut w.xprts xprt } (w.tasks t) clnt).map fun r =>
        r.1.setXprt t r.2
    else some w
  | none => (rpcTaskSelect fuel w (w.tasks t) clnt).map fun r => r.1.setXprt t r.2

/-! ## What a choice changes -/

open Tally (one one_pos one_neg)

variable {w w₁ w₂ : RpcWorld} {clnt : ClntPtr} {ret : Option XprtPtr} {conf : IterConf} {fuel : Nat} {task : RpcTask}

@[simp] theorem setCursor_switchOf (w : RpcWorld) (clnt : ClntPtr) (cur : Option XprtPtr) (c : ClntPtr) :
    (w.setCursor clnt cur).switchOf c = w.switchOf c := by
  unfold RpcWorld.switchOf RpcWorld.setCursor
  by_cases hc : c = clnt
  · subst hc
    simp
  · simp [hc]

/-- `w₂` is `w₁` after a task of `clnt` took the transport `ret`, if there is one: cursors and
references apart, only the two queue lengths have grown. -/
structure Took (w₁ w₂ : RpcWorld) (clnt : ClntPtr) (ret : Option XprtPtr) : Prop where
  tasks : w₂.tasks = w₁.tasks
  live : w₂.live = w₁.live
  switchOf : ∀ c, w₂.switchOf c = w₁.switchOf c
  remoteports : ∀ c, (w₂.clnts c).clRemoteports = (w₁.clnts c).clRemoteports
  queuelen : ∀ x, (w₂.xprts x).queuelen = (w₁.xprts x).queuelen + one (ret = some x)
  xpsQueuelen : ∀ s, (w₂.switches s).xpsQueuelen =
    (w₁.switches s).xpsQueuelen + one (ret.isSome = true ∧ s = w₁.switchOf clnt)

theorem took_setCursor (w : RpcWorld) (clnt : ClntPtr) (cur : Option XprtPtr) :
    Took w (w.setCursor clnt cur) clnt none where
  tasks := rfl
  live := rfl
  switchOf := fun c => setCursor_switchOf w clnt cur c
  remoteports := fun c => by
    by_cases hc : c = clnt
    · subst hc
      simp [RpcWorld.setCursor]
    · simp [RpcWorld.setCursor, hc]
  queuelen := fun x => by simp [RpcWorld.setCursor]
  xpsQueuelen := fun s => by simp [RpcWorld.setCursor]

theorem took_of_xprts (h : XprtHeap) (hq : ∀ x, (h x).queuelen = (w.xprts x).queuelen) (clnt : ClntPtr) :
    Took w { w with xprts := h } clnt none where
  tasks := rfl
  live := rfl
  switchOf := fun _ => rfl
  remoteports := fun _ => rfl
  queuelen := fun x => by simp [hq]
  xpsQueuelen := fun s => by simp

theorem Took.trans (h₁ : Took w w₁ clnt none) (h₂ : Took w₁ w₂ clnt ret) : Took w w₂ clnt ret where
  tasks := h₂.tasks.trans h₁.tasks
  live := h₂.live.trans h₁.live
  switchOf := fun c => (h₂.switchOf c).trans (h₁.switchOf c)
  remoteports := fun c => (h₂.remoteports c).trans (h₁.remoteports c)
  queuelen := fun x => by
    rw [h₂.queuelen, h₁.queuelen]
    simp
  xpsQueuelen := fun s => by
    rw [h₂.xpsQueuelen, h₁.xpsQueuelen, h₁.switchOf]
    simp

theorem addQueuelen_queuelen (w : RpcWorld) (x y : XprtPtr) (n : Int) :
    ((w.addQueuelen x n).xprts y).queuelen = (w.xprts y).queuelen + if y = x then n else 0 := by
  unfold RpcWorld.addQueuelen XprtHeap.modify
  by_cases hyx : y = x
  · simp [hyx]
  · simp [hyx]

theorem addXpsQueuelen_xpsQueuelen (w : RpcWorld) (s s' : SwitchPtr) (n : Int) :
    ((w.addXpsQueuelen s n).switches s').xpsQueuelen =
      (w.switches s').xpsQueuelen + if s' = s then n else 0 := by
  unfold RpcWorld.addXpsQueuelen
  by_cases hs : s' = s
  · subst hs
    simp
  · simp [hs]

theorem getXprt_took (w : RpcWorld) (clnt : ClntPtr) : ∀ ret, Took w (rpcTaskGetXprt w clnt ret) clnt ret
  | none => took_of_xprts w.xprts (fun _ => rfl) clnt
  | some xprt =>
    { tasks := rfl
      live := rfl
      switchOf := fun _ => rfl
      remoteports := fun _ => rfl
      queuelen := fun x => by
        rw [rpcTaskGetXprt, addQueuelen_queuelen]
        by_cases hx : x = xprt
        · simp [hx, RpcWorld.addXpsQueuelen]
        · simp [hx, Ne.symm hx, RpcWorld.addXpsQueuelen]
      xpsQueuelen := fun s => by
        show ((w.addXpsQueuelen (w.switchOf clnt) 1).switches s).xpsQueuelen = _
        rw [addXpsQueuelen_xpsQueuelen]
        by_cases hs : s = w.switchOf clnt
        · simp [hs]
        · simp [hs] }

/-- **One attempt.**  Nothing is eligible and only the cursor moves, or an eligible transport is
taken. -/
theorem getNextXprt_cases (hget : rpcTaskGetNextXprt fuel w clnt conf = some (w₁, ret)) :
    ∃ cur, (ret = none ∧ eligible w.xprts conf (w.switches (w.switchOf clnt)) = [] ∧
        w₁ = w.setCursor clnt cur) ∨
      ∃ x ∈ eligible w.xprts conf (w.switches (w.switchOf clnt)), ret = some x ∧
        w₁ = rpcTaskGetXprt { w.setCursor clnt cur with xprts := w.xprts.addRef x } clnt (some x) := by
  simp only [rpcTaskGetNextXprt, clntIterGetNext, map_map, map_eq_some_iff, Function.comp_apply, Prod.mk.injEq] at hget
  obtain ⟨⟨h, cur, r⟩, hnext, rfl, rfl⟩ := hget
  refine ⟨cur, ?_⟩
  rcases (iterGetNext_cases hnext).2 with ⟨rfl, rfl, hnil⟩ | ⟨x, hx, rfl, rfl⟩
  · exact Or.inl ⟨rfl, hnil, rfl⟩
  · exact Or.inr ⟨x, hx, rfl, rfl⟩

theorem getNextXprt_isSome (hflags : conf.flags.isZero = false)
    (hle : (w.switches (w.switchOf clnt)).xpsNactive < fuel) :
    (rpcTaskGetNextXprt fuel w clnt conf).isSome = true := by
  rw [rpcTaskGetNextXprt, clntIterGetNext, isSome_map, isSome_map]
  exact iterGetNext_isSome hflags hle

theorem getNextXprt_took (hget : rpcTaskGetNextXprt fuel w clnt conf = some (w₁, ret)) : Took w w₁ clnt ret := by
  obtain ⟨cur, ⟨rfl, -, rfl⟩ | ⟨x, -, rfl, rfl⟩⟩ := getNextXprt_cases hget
  · exact took_setCursor w clnt cur
  have hrefs : ∀ y, (w.xprts.addRef x y).queuelen = (w.xprts y).queuelen := fun y => by
    rw [XprtHeap.addRef_apply]
  exact (took_setCursor w clnt cur).trans
    ((took_of_xprts (w := w.setCursor clnt cur) _ hrefs clnt).trans (getXprt_took _ clnt (some x)))

theorem tryXprtSelections_took (htry : rpcTaskTryXprtSelections fuel w task clnt conf = some (w₁, ret)) :
    Took w w₁ clnt ret := by
  obtain ⟨⟨w', r⟩, hfirst, hrest⟩ := bind_eq_some_iff.1 htry
  have htook := getNextXprt_took hfirst
  cases r with
  | some xprt =>
    obtain ⟨rfl, rfl⟩ := Prod.mk.inj (Option.some.inj hrest)
    exact htook
  | none =>
    simp only at hrest
    split at hrest
    · exact htook.trans (getNextXprt_took hrest)
    · obtain ⟨rfl, rfl⟩ := Prod.mk.inj (Option.some.inj hrest)
      exact htook

theorem getFirstXprt_took (w : RpcWorld) (clnt : ClntPtr) :
    Took w (rpcTaskGetFirstXprt w clnt).1 clnt (rpcTaskGetFirstXprt w clnt).2 := by
  have hrefs : ∀ y, ((xprtGet w.xprts (w.clnts clnt).clXprt).1 y).queuelen = (w.xprts y).queuelen := by
    intro y
    unfold xprtGet
    split
    · rfl
    · show (w.xprts.addRef _ y).queuelen = _
      rw [XprtHeap.addRef_apply]
  exact (took_of_xprts _ hrefs clnt).trans (getXprt_took _ clnt _)

/-- **A choice adds one unit to one transport and to the switch of the client.** -/
theorem select_took (hsel : rpcTaskSelect fuel w task clnt = some (w₁, ret)) : Took w w₁ clnt ret := by
  unfold rpcTaskSelect at hsel
  split at hsel
  · obtain ⟨rfl, rfl⟩ := Prod.mk.inj (Option.some.inj hsel)
    exact getFirstXprt_took w clnt
  obtain ⟨⟨w', r⟩, hfirst, hrest⟩ := bind_eq_some_iff.1 hsel
  have htook := tryXprtSelections_took hfirst
  cases r with
  | some xprt =>
    obtain ⟨rfl, rfl⟩ := Prod.mk.inj (Option.some.inj hrest)
    exact htook
  | none =>
    obtain ⟨⟨w'', r'⟩, hsecond, hlast⟩ := bind_eq_some_iff.1 hrest
    have htook' := htook.trans (tryXprtSelections_took hsecond)
    cases r' with
    | some xprt =>
      obtain ⟨rfl, rfl⟩ := Prod.mk.inj (Option.some.inj hlast)
      exact htook'
    | none => exact htook'.trans (getNextXprt_took hlast)

end Vastnfs.Sunrpc
