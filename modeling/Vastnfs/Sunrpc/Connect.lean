import Mathlib.Data.Finset.Card
import Vastnfs.Sunrpc.PortUsage
import Vastnfs.Sunrpc.Xprt

/-!
# Connecting and disconnecting

The places where a transport becomes connected or disconnected: the helpers of
`include/linux/sunrpc/xprt.h`, which also keep the table of local ports, the socket transports of
`net/sunrpc/xprtsock.c`, which change the bit by themselves when the state of a TCP socket changes,
and the RDMA transports of `net/sunrpc/xprtrdma/transport.c`, which change their local port to
get around a dead one.
-/

namespace Vastnfs.Sunrpc

/-- The transports in existence, and the tables of local ports they share. -/
structure PortWorld where
  xprts : XprtHeap
  usages : UsagePtr → XprtPortusage
  live : Finset XprtPtr

def PortWorld.modifyXprt (w : PortWorld) (x : XprtPtr) (f : RpcXprt → RpcXprt) : PortWorld :=
  { w with xprts := w.xprts.modify x f }

def PortWorld.setUsage (w : PortWorld) (u : UsagePtr) (usage : XprtPortusage) : PortWorld :=
  { w with usages := fun v => if v = u then usage else w.usages v }

section

variable (w : PortWorld) (x : XprtPtr) (f : RpcXprt → RpcXprt) (u : UsagePtr) (usage : XprtPortusage)

@[simp] theorem PortWorld.modifyXprt_same : (w.modifyXprt x f).xprts x = f (w.xprts x) := w.xprts.modify_same x f

theorem PortWorld.modifyXprt_other {y : XprtPtr} (hy : y ≠ x) : (w.modifyXprt x f).xprts y = w.xprts y :=
  w.xprts.modify_other f hy

theorem PortWorld.modifyXprt_modifyXprt (g : RpcXprt → RpcXprt) :
    (w.modifyXprt x f).modifyXprt x g = w.modifyXprt x fun r => g (f r) := by
  unfold PortWorld.modifyXprt
  congr 1
  funext y
  by_cases hy : y = x
  · subst hy
    simp
  · simp [XprtHeap.modify_other, hy]

@[simp] theorem PortWorld.modifyXprt_usages : (w.modifyXprt x f).usages = w.usages := rfl

@[simp] theorem PortWorld.setUsage_same : (w.setUsage u usage).usages u = usage := if_pos rfl

theorem PortWorld.setUsage_other {v : UsagePtr} (hv : v ≠ u) : (w.setUsage u usage).usages v = w.usages v := if_neg hv

@[simp] theorem PortWorld.setUsage_xprts : (w.setUsage u usage).xprts = w.xprts := rfl

end

/-! ## The helpers -/

def xprtSetConnected (w : PortWorld) (x : XprtPtr) : PortWorld :=
  let xprt := w.xprts x
  let w := w.modifyXprt x fun r => { r with connected := true }
  match xprt.connected, xprt.localportUsage, xprt.localport with
  | false, some u, some localport =>
    let connect := xprtPortusageConnect (w.usages u) localport xprt.localportDiversion
    (w.setUsage u connect.1).modifyXprt x fun r => { r with localportDiversion := connect.2 }
  | _, _, _ => w

def xprtClearConnected (w : PortWorld) (x : XprtPtr) : PortWorld :=
  let xprt := w.xprts x
  let w := w.modifyXprt x fun r => { r with connected := false }
  match xprt.connected, xprt.localportUsage, xprt.localport with
  | true, some u, some localport => w.setUsage u (xprtPortusageDisconnect (w.usages u) localport)
  | _, _, _ => w

/-- The transport has a table and a local port to look up there. -/
def RpcXprt.bookedPort (xprt : RpcXprt) : Option (UsagePtr × SockAddr) :=
  match xprt.localportUsage, xprt.localport with
  | some u, some localport => some (u, localport)
  | _, _ => none

section

variable {w : PortWorld} {x : XprtPtr} {localport : SockAddr} {u : UsagePtr}

theorem bookedPort_eq_some {xprt : RpcXprt} :
    xprt.bookedPort = some (u, localport) ↔ xprt.localportUsage = some u ∧ xprt.localport = some localport := by
  unfold RpcXprt.bookedPort
  cases xprt.localportUsage <;> cases xprt.localport <;> simp

theorem bit_or_booked (w : PortWorld) (x : XprtPtr) (b : Bool) :
    ((w.xprts x).connected = b ∨ (w.xprts x).bookedPort = none) ∨
      (w.xprts x).connected = !b ∧ ∃ u localport, (w.xprts x).bookedPort = some (u, localport) := by
  by_cases hconn : (w.xprts x).connected = b
  · exact .inl (.inl hconn)
  cases hbook : (w.xprts x).bookedPort with
  | none => exact .inl (.inr rfl)
  | some booked => exact .inr ⟨Bool.eq_not.2 hconn, booked.1, booked.2, rfl⟩

theorem setConnected_bit (h : (w.xprts x).connected = true ∨ (w.xprts x).bookedPort = none) :
    xprtSetConnected w x = w.modifyXprt x fun r => { r with connected := true } := by
  unfold RpcXprt.bookedPort at h
  unfold xprtSetConnected
  cases hconn : (w.xprts x).connected <;> cases hu : (w.xprts x).localportUsage <;>
    cases hport : (w.xprts x).localport <;> simp_all

theorem setConnected_table (hconn : (w.xprts x).connected = false)
    (hbook : (w.xprts x).bookedPort = some (u, localport)) :
    let connect := xprtPortusageConnect (w.usages u) localport (w.xprts x).localportDiversion
    xprtSetConnected w x = (w.setUsage u connect.1).modifyXprt x fun r =>
      { r with connected := true, localportDiversion := connect.2 } := by
  obtain ⟨hu, hport⟩ := bookedPort_eq_some.1 hbook
  simp only [xprtSetConnected, hconn, hu, hport, PortWorld.modifyXprt, PortWorld.setUsage]
  congr 1
  funext y
  by_cases hy : y = x
  · subst hy
    simp
  · simp [XprtHeap.modify_other, hy]

theorem clearConnected_bit (h : (w.xprts x).connected = false ∨ (w.xprts x).bookedPort = none) :
    xprtClearConnected w x = w.modifyXprt x fun r => { r with connected := false } := by
  unfold RpcXprt.bookedPort at h
  unfold xprtClearConnected
  cases hconn : (w.xprts x).connected <;> cases hu : (w.xprts x).localportUsage <;>
    cases hport : (w.xprts x).localport <;> simp_all

theorem clearConnected_table (hconn : (w.xprts x).connected = true)
    (hbook : (w.xprts x).bookedPort = some (u, localport)) :
    xprtClearConnected w x = (w.setUsage u (xprtPortusageDisconnect (w.usages u) localport)).modifyXprt x fun r =>
      { r with connected := false } := by
  obtain ⟨hu, hport⟩ := bookedPort_eq_some.1 hbook
  simp only [xprtClearConnected, hconn, hu, hport]
  rfl

end

def xprtDisconnectDone (w : PortWorld) (x : XprtPtr) : PortWorld := xprtClearConnected w x

/-! ## Socket transports -/

inductive TcpState where
  | established | synSent | synRecv | finWait1 | finWait2 | timeWait | close | closeWait | lastAck
  | listen | closing
  deriving DecidableEq

/-- `xs_tcp_state_change`, for the bits of `xprt->state` it changes by itself. -/
def xsTcpStateChange (state : TcpState) (xprt : RpcXprt) : RpcXprt :=
  match state with
  | .established => { xprt with connected := true }
  | .finWait1 => { xprt with closing := true, connected := false, closeWait := false }
  | .closeWait => { xprt with connected := false }
  | .lastAck => { xprt with closing := true, connected := false }
  | .close => { xprt with closing := false }
  | _ => xprt

def xsResetTransport (w : PortWorld) (x : XprtPtr) : PortWorld :=
  if (w.xprts x).inet then
    let w := w.modifyXprt x fun r => { r with inet := false }
    let w := xprtClearConnected w x
    -- xs_sock_reset_connection_flags
    let w := w.modifyXprt x fun r => { r with closeWait := false, closing := false }
    xprtDisconnectDone w x
  else w

/-- `xs_tcp_finish_connecting`, up to the start of the connection. -/
def xsTcpFinishConnecting (w : PortWorld) (x : XprtPtr) : PortWorld :=
  if (w.xprts x).inet then w
  else (xprtClearConnected w x).modifyXprt x fun r => { r with inet := true }

def xsUdpFinishConnecting (w : PortWorld) (x : XprtPtr) : PortWorld :=
  if (w.xprts x).inet then w
  else (xprtSetConnected w x).modifyXprt x fun r => { r with inet := true }

/-- `xs_local_setup_socket`, with the success of the connection. -/
def xsLocalSetupSocket (w : PortWorld) (x : XprtPtr) (connected : Bool) : PortWorld :=
  let w :=
    if (w.xprts x).inet then w
    else (xprtClearConnected w x).modifyXprt x fun r => { r with inet := true }
  if connected then xprtSetConnected w x else w

/-! ## RDMA transports -/

def xprtRdmaReconnectRestore (w : PortWorld) (x : XprtPtr) : PortWorld :=
  w.modifyXprt x fun r => { r with localport := r.origLocalport }

def undivertXprt (w : PortWorld) (x : XprtPtr) (u : UsagePtr) : PortWorld :=
  let undivert := xprtPortusageUndivert (w.usages u) (w.xprts x).localportDiversion
  (w.setUsage u undivert.1).modifyXprt x fun r => { r with localportDiversion := undivert.2 }

/-- `xprt_portusage_divert` for a transport, and what becomes of its local port. -/
def divertXprt (w : PortWorld) (x : XprtPtr) (u : UsagePtr) (origLocalport : SockAddr) : PortWorld :=
  let divert := xprtPortusageDivert (w.usages u) origLocalport
  match divert.2 with
  | some (i, addr) =>
    (w.setUsage u divert.1).modifyXprt x fun r =>
      { r with localportDiversion := some i, localport := some addr, nDiversion := true }
  | none =>
    xprtRdmaReconnectRestore ((w.setUsage u divert.1).modifyXprt x fun r => { r with localportDiversion := none }) x

def xprtRdmaReconnectDivert (w : PortWorld) (x : XprtPtr) (tryDivert : Bool) : PortWorld :=
  match (w.xprts x).origLocalport, (w.xprts x).localportUsage with
  | some origLocalport, some u =>
    if !(w.usages u).diversionEnabled then w
    else if !tryDivert then xprtRdmaReconnectRestore (undivertXprt w x u) x
    else divertXprt (undivertXprt w x u) x u origLocalport
  | _, _ => w

def xprtRdmaConnect (w : PortWorld) (x : XprtPtr) : PortWorld :=
  let w := w.modifyXprt x fun r => { r with reconnectionAttempts := r.reconnectionAttempts + 1 }
  xprtRdmaReconnectDivert w x (decide (1 < (w.xprts x).reconnectionAttempts) && !(w.xprts x).nRecovery)

/-- How an attempt of `rpcrdma_xprt_connect` ends. -/
inductive RdmaConnectOutcome where
  | noEndpoint | refused | connected
  deriving DecidableEq

/-- `rpcrdma_xprt_connect` clears the bit once it has an endpoint. -/
def xprtRdmaConnectWorker (w : PortWorld) (x : XprtPtr) (outcome : RdmaConnectOutcome) : PortWorld :=
  let w :=
    match outcome with
    | .noEndpoint => w
    | .refused | .connected => xprtClearConnected w x
  let w := w.modifyXprt x fun r => { r with connecting := false }
  match outcome with
  | .noEndpoint | .refused => w
  | .connected => xprtSetConnected (w.modifyXprt x fun r => { r with reconnectionAttempts := 0 }) x

/-! ## The steps -/

inductive PortEvent where
  /-- The socket of a TCP transport changes its state. -/
  | tcpStateChange (x : XprtPtr) (state : TcpState)
  | tcpFinishConnecting (x : XprtPtr)
  | udpFinishConnecting (x : XprtPtr)
  | localSetupSocket (x : XprtPtr) (connected : Bool)
  | resetTransport (x : XprtPtr)
  | disconnectDone (x : XprtPtr)
  /-- `xprt_connect` asks an unconnected RDMA transport to connect. -/
  | rdmaConnect (x : XprtPtr)
  | rdmaConnectWorker (x : XprtPtr) (outcome : RdmaConnectOutcome)
  deriving DecidableEq

def PortEvent.xprt : PortEvent → XprtPtr
  | .tcpStateChange x _ | .tcpFinishConnecting x | .udpFinishConnecting x | .localSetupSocket x _
  | .resetTransport x | .disconnectDone x | .rdmaConnect x | .rdmaConnectWorker x _ => x

def PortEvent.enabled (xprt : RpcXprt) : PortEvent → Bool
  | .tcpStateChange _ _ => xprt.xprtClass == .tcp && xprt.inet
  | .tcpFinishConnecting _ => xprt.xprtClass == .tcp
  | .udpFinishConnecting _ => xprt.xprtClass == .udp
  | .localSetupSocket _ _ => xprt.xprtClass == .unix
  | .resetTransport _ => xprt.xprtClass != .rdma
  | .disconnectDone _ => true
  | .rdmaConnect _ => xprt.xprtClass == .rdma && !xprt.connected
  | .rdmaConnectWorker _ _ => xprt.xprtClass == .rdma

def PortEvent.apply (w : PortWorld) : PortEvent → PortWorld
  | .tcpStateChange x state => w.modifyXprt x (xsTcpStateChange state)
  | .tcpFinishConnecting x => xsTcpFinishConnecting w x
  | .udpFinishConnecting x => xsUdpFinishConnecting w x
  | .localSetupSocket x connected => xsLocalSetupSocket w x connected
  | .resetTransport x => xsResetTransport w x
  | .disconnectDone x => xprtDisconnectDone w x
  | .rdmaConnect x => xprtRdmaConnect w x
  | .rdmaConnectWorker x outcome => xprtRdmaConnectWorker w x outcome

def portStep (w : PortWorld) (e : PortEvent) : Option PortWorld :=
  if e.xprt ∈ w.live ∧ e.enabled (w.xprts e.xprt) = true then some (e.apply w) else none

end Vastnfs.Sunrpc
