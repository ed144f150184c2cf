import Vastnfs.Lib.Runs
import Vastnfs.Sunrpc.Clnt
import Vastnfs.Sunrpc.PortAccounts

/-!
# Local port failover

An RDMA transport whose local port is dead connects over another one: it is diverted. The last
task that leaves a diverted transport starts a recovery, an asynchronous NULL call that connects
over the original port and is made again for as long as it fails. A transport added to a mount
later is tried in the same way. Here are the transports together with the tasks on them:
`xprt_rdma_free` of `net/sunrpc/xprtrdma/transport.c`, `xprt_diversion_recovery_kickoff` and
`rpc_cb_nconnect_revive_done` of `net/sunrpc/xprt.c`, `rpc_cb_add_xprt_done` and
`rpc_clnt_test_and_add_xprt` of `net/sunrpc/clnt.c`.
-/

namespace Vastnfs.Sunrpc

open Runs Tally

inductive CallKind where
  | request
  /-- `rpc_cb_nconnect_revive_call_ops`. -/
  | revive
  /-- `rpc_cb_add_xprt_call_ops` with `keep_and_divert_on_error`. -/
  | addXprt
  deriving DecidableEq

inductive TaskStage where
  | active
  /-- `rpc_call_done` has run. -/
  | done
  /-- `xprt_release` has run as well. -/
  | released
  deriving DecidableEq

structure XprtTask where
  tkXprt : XprtPtr
  kind : CallKind := .request
  /-- `rq_buffer` is there. -/
  rqBuffer : Bool := false
  /-- The request has been sent. -/
  transmitted : Bool := false
  stage : TaskStage := .active
  deriving DecidableEq

/-- The transports of a mount and the tasks on them. -/
structure FailoverWorld where
  ports : PortWorld
  tasks : TaskPtr → XprtTask
  running : Finset TaskPtr

namespace FailoverWorld

def xprt (s : FailoverWorld) (x : XprtPtr) : RpcXprt := s.ports.xprts x

def modifyXprt (s : FailoverWorld) (x : XprtPtr) (f : RpcXprt → RpcXprt) : FailoverWorld :=
  { s with ports := s.ports.modifyXprt x f }

def modifyTask (s : FailoverWorld) (t : TaskPtr) (f : XprtTask → XprtTask) : FailoverWorld :=
  { s with tasks := fun j => if j = t then f (s.tasks j) else s.tasks j }

def setStage (s : FailoverWorld) (t : TaskPtr) (stage : TaskStage) : FailoverWorld :=
  s.modifyTask t fun task => { task with stage := stage }

def tasksOn (s : FailoverWorld) (x : XprtPtr) : Finset TaskPtr := s.running.filter fun t => (s.tasks t).tkXprt = x

/-- The revival and add calls on a transport that have not ended. -/
def calls (s : FailoverWorld) (x : XprtPtr) : Finset TaskPtr :=
  (s.tasksOn x).filter fun t => (s.tasks t).kind ≠ .request ∧ (s.tasks t).stage = .active

end FailoverWorld

/-! ## The code -/

/-- A task that starts on a transport, with its share of `queuelen`. -/
def startTask (s : FailoverWorld) (t : TaskPtr) (x : XprtPtr) (kind : CallKind) : FailoverWorld where
  ports := s.ports.modifyXprt x fun r => { r with queuelen := r.queuelen + 1 }
  tasks := fun j => if j = t then { tkXprt := x, kind := kind } else s.tasks j
  running := insert t s.running

def rpcCallNullHelper (s : FailoverWorld) (x : XprtPtr) (kind : CallKind) (created : Option TaskPtr) : FailoverWorld :=
  match created with
  | some t => startTask s t x kind
  | none => s

def xprtDiversionRecoveryKickoff (s : FailoverWorld) (x : XprtPtr) (created : Option TaskPtr) : FailoverWorld :=
  rpcCallNullHelper s x .revive created

inductive CallStatus where
  | ok
  | failed (signalled : Bool)
  deriving DecidableEq

def rpcCbNconnectReviveDone (s : FailoverWorld) (x : XprtPtr) (status : CallStatus) (created : Option TaskPtr) :
    FailoverWorld :=
  match status with
  | .ok => s.modifyXprt x fun r => { r with nRecovery := false, nDiversion := false }
  | .failed true => s
  | .failed false => rpcCallNullHelper s x .revive created

/-- `rpc_cb_add_xprt_done` with `keep_and_divert_on_error`. -/
def rpcCbAddXprtDone (s : FailoverWorld) (x : XprtPtr) (status : CallStatus) (created : Option TaskPtr) :
    FailoverWorld :=
  match status with
  | .ok => s.modifyXprt x fun r => { r with nRecovery := false }
  | .failed _ => xprtDiversionRecoveryKickoff s x created

def rpcCallDone (s : FailoverWorld) (t : TaskPtr) (status : CallStatus) (created : Option TaskPtr) : FailoverWorld :=
  let task := s.tasks t
  let s := s.setStage t .done
  match task.kind with
  | .request => s
  | .revive => rpcCbNconnectReviveDone s task.tkXprt status created
  | .addXprt => rpcCbAddXprtDone s task.tkXprt status created

/-- `xprt_rdma_free`, for a transport that is not being shut down. -/
def xprtRdmaFree (s : FailoverWorld) (x : XprtPtr) (created : Option TaskPtr) : FailoverWorld :=
  if !(s.xprt x).nDiversion then s
  else if (s.xprt x).nRecovery then s
  else if (s.xprt x).queuelen ≠ 1 then s
  else
    let s := s.modifyXprt x fun r => { r with nRecovery := true }
    -- xprt_force_disconnect
    let s := s.modifyXprt x fun r => { r with closeWait := true }
    xprtDiversionRecoveryKickoff s x created

/-- `xprt_release`, which asks the transport to free the buffer of the request. -/
def xprtRelease (s : FailoverWorld) (t : TaskPtr) (created : Option TaskPtr) : FailoverWorld :=
  let s := if (s.tasks t).rqBuffer then xprtRdmaFree s (s.tasks t).tkXprt created else s
  s.setStage t .released

def exitTask (s : FailoverWorld) (t : TaskPtr) : FailoverWorld :=
  { s.modifyXprt (s.tasks t).tkXprt fun r => { r with queuelen := r.queuelen - 1 } with
    running := s.running.erase t }

/-- `rpc_clnt_test_and_add_xprt` with `keep_and_divert_on_error`. -/
def rpcClntTestAndAddXprt (s : FailoverWorld) (x : XprtPtr) (t : TaskPtr) : FailoverWorld :=
  startTask (s.modifyXprt x fun r => { r with nRecovery := true }) t x .addXprt

def xprtRdmaClose (w : PortWorld) (x : XprtPtr) : PortWorld := xprtDisconnectDone w x

def xprtAutoclose (w : PortWorld) (x : XprtPtr) : PortWorld :=
  xprtRdmaClose (w.modifyXprt x fun r => { r with closeWait := false }) x

def xprtConnect (w : PortWorld) (x : XprtPtr) : PortWorld :=
  let w := if (w.xprts x).closeWait then xprtAutoclose w x else w
  if (w.xprts x).connected then w
  else xprtRdmaConnect (w.modifyXprt x fun r => { r with connecting := true }) x

/-! ## The steps -/

/-- What can happen. `created` is the task of the NULL call the step may make. -/
inductive FailoverEvent where
  | start (t : TaskPtr) (x : XprtPtr)
  | allocate (t : TaskPtr)
  | connect (t : TaskPtr)
  | connectWorker (x : XprtPtr) (outcome : RdmaConnectOutcome)
  | forceDisconnect (x : XprtPtr)
  | close (x : XprtPtr)
  | transmit (t : TaskPtr)
  | callDone (t : TaskPtr) (status : CallStatus) (created : Option TaskPtr)
  | release (t : TaskPtr) (created : Option TaskPtr)
  | restart (t : TaskPtr)
  | exit (t : TaskPtr)
  | testAndAdd (x : XprtPtr) (t : TaskPtr)
  deriving DecidableEq

def FailoverEvent.xprt (s : FailoverWorld) : FailoverEvent → XprtPtr
  | .start _ x | .connectWorker x _ | .forceDisconnect x | .close x | .testAndAdd x _ => x
  | .allocate t | .connect t | .transmit t | .callDone t _ _ | .release t _ | .restart t | .exit t => (s.tasks t).tkXprt

/-- The task a NULL call gets is a new one. -/
def FreshTask (s : FailoverWorld) (created : Option TaskPtr) : Prop := ∀ t ∈ created, t ∉ s.running
deriving Decidable

/-- The event can happen. A connection attempt and a close hold the send lock, and with
`XPRT_CLOSE_WAIT` set the lock goes to `xprt_autoclose` before anybody can send. -/
def FailoverEvent.Enabled (s : FailoverWorld) : FailoverEvent → Prop
  | .start t x => t ∉ s.running ∧ x ∈ s.ports.live
  | .allocate t => t ∈ s.running ∧ (s.tasks t).stage = .active
  | .connect t => t ∈ s.running ∧ (s.tasks t).stage = .active ∧ (s.xprt (s.tasks t).tkXprt).connecting = false
  | .connectWorker x _ => x ∈ s.ports.live ∧ (s.xprt x).connecting = true
  | .forceDisconnect x => x ∈ s.ports.live
  | .close x => x ∈ s.ports.live ∧ (s.xprt x).connecting = false
  | .transmit t => t ∈ s.running ∧ (s.tasks t).stage = .active ∧ (s.tasks t).rqBuffer = true ∧
      (s.xprt (s.tasks t).tkXprt).connecting = false ∧ (s.xprt (s.tasks t).tkXprt).connected = true ∧
      (s.xprt (s.tasks t).tkXprt).closeWait = false
  | .callDone t status created => t ∈ s.running ∧ (s.tasks t).stage = .active ∧ FreshTask s created ∧
      ((s.tasks t).kind ≠ .request → status = .ok → (s.tasks t).transmitted = true)
  | .release t created => t ∈ s.running ∧ (s.tasks t).stage = .done ∧ FreshTask s created
  | .restart t => t ∈ s.running ∧ (s.tasks t).stage = .released ∧ (s.tasks t).kind = .request
  | .exit t => t ∈ s.running ∧ (s.tasks t).stage = .released
  | .testAndAdd x t => x ∈ s.ports.live ∧ t ∉ s.running ∧ s.tasksOn x = ∅ ∧ (s.xprt x).connected = false ∧
      (s.xprt x).nDiversion = false ∧ (s.xprt x).nRecovery = false

instance (s : FailoverWorld) (e : FailoverEvent) : Decidable (e.Enabled s) := by
  cases e <;> dsimp only [FailoverEvent.Enabled] <;> infer_instance

def FailoverEvent.apply (s : FailoverWorld) : FailoverEvent → FailoverWorld
  | .start t x => startTask s t x .request
  | .allocate t => s.modifyTask t fun task => { task with rqBuffer := true }
  | .connect t => { s with ports := xprtConnect s.ports (s.tasks t).tkXprt }
  | .connectWorker x outcome => { s with ports := xprtRdmaConnectWorker s.ports x outcome }
  | .forceDisconnect x => s.modifyXprt x fun r => { r with closeWait := true }
  | .close x => { s with ports := xprtAutoclose s.ports x }
  | .transmit t => s.modifyTask t fun task => { task with transmitted := true }
  | .callDone t status created => rpcCallDone s t status created
  | .release t created => xprtRelease s t created
  | .restart t => s.modifyTask t fun task => { tkXprt := task.tkXprt }
  | .exit t => exitTask s t
  | .testAndAdd x t => rpcClntTestAndAddXprt s x t

def failoverStep (s : FailoverWorld) (e : FailoverEvent) : Option FailoverWorld :=
  if e.Enabled s then some (e.apply s) else none

theorem failoverStep_eq_some {s s' : FailoverWorld} {e : FailoverEvent} :
    failoverStep s e = some s' ↔ e.Enabled s ∧ e.apply s = s' := by
  unfold failoverStep
  split_ifs with hen
  · simp [hen]
  · simp [hen]

end Vastnfs.Sunrpc
