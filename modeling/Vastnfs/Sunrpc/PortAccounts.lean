import Vastnfs.Lib.Runs
import Vastnfs.Lib.Tally
import Vastnfs.Sunrpc.Connect

/-!
# The accounts of the local ports

The table of local ports is to show how many connected transports use a port and how many are
diverted to it. The helpers of `include/linux/sunrpc/xprt.h` and the diversions of RDMA transports
book every change; a TCP socket that changes its state does not.

* `Booked`: the table follows the transport that changed.
* `apply_booked`: every event but a change of the `XPRT_CONNECTED` bit by a TCP socket is booked.
* `portsAccounted_iff`: the table is right along a run just when no TCP socket with an entry in the
  table changes the bit.
-/

namespace Vastnfs.Sunrpc

open Runs Tally

/-! ## What the table is to show -/

def RpcXprt.usesPort (xprt : RpcXprt) (u : UsagePtr) (addr : SockAddr) : Bool :=
  xprt.connected && xprt.bookedPort.any fun booked => booked.1 == u && rpcCmpAddrPort addr booked.2

/-- The transport is diverted to entry `i` of table `u`. -/
def RpcXprt.divertedTo (xprt : RpcXprt) (u : UsagePtr) (i : Nat) : Bool :=
  xprt.localportUsage == some u && xprt.localportDiversion == some i

section

variable {r : RpcXprt} {u v : UsagePtr} {localport addr : SockAddr} {i : Nat}

theorem usesPort_booked (hbook : r.bookedPort = some (u, localport)) :
    r.usesPort u addr = (r.connected && decide (rpcCmpAddrPort addr localport = true)) := by
  simp [RpcXprt.usesPort, hbook]

theorem usesPort_unconnected (hconn : r.connected = false) : r.usesPort u addr = false := by
  simp [RpcXprt.usesPort, hconn]

variable (hu : r.localportUsage = some u)
include hu

theorem divertedTo_table :
    r.divertedTo u i = decide (r.localportDiversion = some i) := by
  rw [RpcXprt.divertedTo, hu, beq_self_eq_true, Bool.true_and, beq_eq_decide]

theorem usesPort_foreign (hv : v ≠ u) : r.usesPort v addr = false := by
  cases hport : r.localport <;> simp [RpcXprt.usesPort, RpcXprt.bookedPort, hu, hport, Ne.symm hv]

theorem divertedTo_foreign (hv : v ≠ u) : r.divertedTo v i = false := by
  simp [RpcXprt.divertedTo, hu, Ne.symm hv]

end

/-- Every entry shows the number of transports connected over it and diverted to it. -/
def PortsAccounted (w : PortWorld) : Prop :=
  ∀ (u : UsagePtr) (i : Nat) (port : XprtPort), (w.usages u).ports[i]? = some port →
    port.xprtConnections.toNat = tally w.live (fun x => (w.xprts x).usesPort u port.addr = true) ∧
    port.xprtDiversions.toNat = tally w.live (fun x => (w.xprts x).divertedTo u i = true)

/-- What holds whatever happens: no address has two entries, and the transports can be counted. -/
structure TablesOk (w : PortWorld) : Prop where
  distinct : ∀ u, (w.usages u).Distinct
  few : w.live.card < 2 ^ 32

/-- The table follows what happened to transport `x`. -/
structure Booked (w w' : PortWorld) (x : XprtPtr) : Prop where
  live : w'.live = w.live
  others : ∀ y, y ≠ x → w'.xprts y = w.xprts y
  samePorts : ∀ u, (w.usages u).SamePorts (w'.usages u)
  connections : ∀ (u : UsagePtr) (i : Nat) (port port' : XprtPort), (w.usages u).ports[i]? = some port →
    (w'.usages u).ports[i]? = some port' →
    port'.xprtConnections + unit ((w.xprts x).usesPort u port.addr) =
      port.xprtConnections + unit ((w'.xprts x).usesPort u port.addr)
  diversions : ∀ (u : UsagePtr) (i : Nat) (port port' : XprtPort), (w.usages u).ports[i]? = some port →
    (w'.usages u).ports[i]? = some port' →
    port'.xprtDiversions + unit ((w.xprts x).divertedTo u i) =
      port.xprtDiversions + unit ((w'.xprts x).divertedTo u i)

section

variable {w w' w'' : PortWorld} {x : XprtPtr} {f : RpcXprt → RpcXprt}

theorem Booked.of_entries (hlive : w'.live = w.live) (hothers : ∀ y, y ≠ x → w'.xprts y = w.xprts y)
    (hsame : ∀ u, (w.usages u).SamePorts (w'.usages u))
    (hentry : ∀ u i port, (w.usages u).ports[i]? = some port → ∃ port', (w'.usages u).ports[i]? = some port' ∧
      port'.xprtConnections + unit ((w.xprts x).usesPort u port.addr) =
        port.xprtConnections + unit ((w'.xprts x).usesPort u port.addr) ∧
      port'.xprtDiversions + unit ((w.xprts x).divertedTo u i) =
        port.xprtDiversions + unit ((w'.xprts x).divertedTo u i)) : Booked w w' x := by
  refine ⟨hlive, hothers, hsame, fun u i port port' hport hport' => ?_, fun u i port port' hport hport' => ?_⟩ <;>
    obtain ⟨_, hentry', hconn, hdiv⟩ := hentry u i port hport <;>
    cases hentry'.symm.trans hport'
  · exact hconn
  · exact hdiv

theorem Booked.refl (w : PortWorld) (x : XprtPtr) : Booked w w x :=
  .of_entries rfl (fun _ _ => rfl) (fun _ => .refl _) fun _ _ port hport => ⟨port, hport, rfl, rfl⟩

theorem Booked.trans (h : Booked w w' x) (h' : Booked w' w'' x) : Booked w w'' x where
  live := h'.live.trans h.live
  others y hy := (h'.others y hy).trans (h.others y hy)
  samePorts u := (h.samePorts u).trans (h'.samePorts u)
  connections u i port port'' hport hport'' := by
    obtain ⟨port', hport', haddr'⟩ := (h'.samePorts u).getElem? hport''
    obtain ⟨port₀, hport₀, haddr⟩ := (h.samePorts u).getElem? hport'
    rw [hport] at hport₀
    cases hport₀
    have hstep' := h'.connections u i port' port'' hport' hport''
    rw [← haddr] at hstep'
    exact counter_trans (h.connections u i port port' hport hport') hstep'
  diversions u i port port'' hport hport'' := by
    obtain ⟨port', hport', -⟩ := (h'.samePorts u).getElem? hport''
    exact counter_trans (h.diversions u i port port' hport hport') (h'.diversions u i port' port'' hport' hport'')

theorem Booked.accounted (h : Booked w w' x) (hx : x ∈ w.live) (hok : TablesOk w) (hacc : PortsAccounted w) :
    PortsAccounted w' := by
  intro u i port' hport'
  obtain ⟨port, hport, haddr⟩ := (h.samePorts u).getElem? hport'
  obtain ⟨hconn, hdiv⟩ := hacc u i port hport
  rw [h.live, ← haddr]
  constructor
  · exact toNat_change hx (fun y hy => by rw [h.others y hy]) hok.few (h.connections u i port port' hport hport') hconn
  · exact toNat_change hx (fun y hy => by rw [h.others y hy]) hok.few (h.diversions u i port port' hport hport') hdiv

theorem Booked.tablesOk (h : Booked w w' x) (hok : TablesOk w) : TablesOk w' where
  distinct u := (hok.distinct u).of_samePorts (h.samePorts u)
  few := by
    rw [h.live]
    exact hok.few

theorem booked_modifyXprt (w : PortWorld) (x : XprtPtr)
    (huses : ∀ u, ∀ port ∈ (w.usages u).ports, (f (w.xprts x)).usesPort u port.addr = (w.xprts x).usesPort u port.addr)
    (hdiv : ∀ u i, (f (w.xprts x)).divertedTo u i = (w.xprts x).divertedTo u i) :
    Booked w (w.modifyXprt x f) x := by
  refine .of_entries rfl (fun y hy => w.modifyXprt_other x f hy) (fun _ => .refl _) fun u i port hport => ⟨port, hport, ?_⟩
  rw [w.modifyXprt_same, huses u port (List.mem_of_getElem? hport), hdiv u i]
  exact ⟨rfl, rfl⟩

theorem booked_of_usage {u : UsagePtr} {usage' : XprtPortusage} (hu : (w.xprts x).localportUsage = some u)
    (hu' : (f (w.xprts x)).localportUsage = some u) (hsame : (w.usages u).SamePorts usage')
    (hentry : ∀ (i : Nat) (port : XprtPort), (w.usages u).ports[i]? = some port →
      ∃ port', usage'.ports[i]? = some port' ∧
        port'.xprtConnections + unit ((w.xprts x).usesPort u port.addr) =
          port.xprtConnections + unit ((f (w.xprts x)).usesPort u port.addr) ∧
        port'.xprtDiversions + unit (decide ((w.xprts x).localportDiversion = some i)) =
          port.xprtDiversions + unit (decide ((f (w.xprts x)).localportDiversion = some i))) :
    Booked w ((w.setUsage u usage').modifyXprt x f) x := by
  refine .of_entries rfl (fun y hy => PortWorld.modifyXprt_other _ _ _ hy) (fun v => ?_) fun v i port hport => ?_
  · rw [PortWorld.modifyXprt_usages]
    by_cases hv : v = u
    · rw [hv, PortWorld.setUsage_same]
      exact hsame
    · rw [PortWorld.setUsage_other _ _ _ hv]
      exact .refl _
  · rw [PortWorld.modifyXprt_usages, PortWorld.modifyXprt_same, PortWorld.setUsage_xprts]
    by_cases hv : v = u
    · subst hv
      rw [PortWorld.setUsage_same, divertedTo_table hu, divertedTo_table hu']
      exact hentry i port hport
    · rw [PortWorld.setUsage_other _ _ _ hv, usesPort_foreign hu hv, usesPort_foreign hu' hv, divertedTo_foreign hu hv,
        divertedTo_foreign hu' hv]
      exact ⟨port, hport, rfl, rfl⟩

end

/-! ## The operations book -/

section

variable {w : PortWorld} {x : XprtPtr} (hok : TablesOk w) {u : UsagePtr}

omit hok in
theorem booked_bit {b : Bool} (h : (w.xprts x).connected = b ∨ (w.xprts x).bookedPort = none) :
    Booked w (w.modifyXprt x fun r => { r with connected := b }) x := by
  refine booked_modifyXprt w x (fun u port _ => ?_) fun u i => rfl
  have hbook : ({ w.xprts x with connected := b } : RpcXprt).bookedPort = (w.xprts x).bookedPort := rfl
  rcases h with h | h
  · simp [RpcXprt.usesPort, hbook, h]
  · simp [RpcXprt.usesPort, hbook, h, Option.any_none, Bool.and_false]

include hok

theorem booked_setConnected : Booked w (xprtSetConnected w x) x := by
  obtain h | ⟨hconn, u, localport, hbook⟩ := bit_or_booked w x true
  · rw [setConnected_bit h]
    exact booked_bit h
  · obtain ⟨hu, hport⟩ := bookedPort_eq_some.1 hbook
    rw [setConnected_table hconn hbook]
    refine booked_of_usage hu hu (samePorts_connect _ _ _) fun i port hi => ⟨_, ports_connect (hok.distinct u) hi, ?_, ?_⟩
    · rw [usesPort_unconnected hconn]
      refine (counter_up _ _).trans (congrArg (port.xprtConnections + unit ·) (Eq.symm ?_))
      exact usesPort_booked (by exact hbook)
    · exact (counter_down _ _).trans (congrArg (port.xprtDiversions + unit ·) (decide_eq_false (undivert_idx hi)).symm)

theorem booked_clearConnected : Booked w (xprtClearConnected w x) x := by
  obtain h | ⟨hconn, u, localport, hbook⟩ := bit_or_booked w x false
  · rw [clearConnected_bit h]
    exact booked_bit h
  · obtain ⟨hu, hport⟩ := bookedPort_eq_some.1 hbook
    rw [clearConnected_table hconn hbook]
    refine booked_of_usage hu hu (samePorts_disconnect _ _) fun i port hi =>
      ⟨_, ports_disconnect (hok.distinct u) hi, ?_, rfl⟩
    rw [usesPort_booked hbook, hconn, Bool.not_false, Bool.true_and, usesPort_unconnected rfl]
    exact counter_down _ _

omit hok in
theorem booked_restore (hconn : (w.xprts x).connected = false) : Booked w (xprtRdmaReconnectRestore w x) x := by
  refine booked_modifyXprt w x (fun u port _ => ?_) fun u i => rfl
  rw [usesPort_unconnected (r := w.xprts x) hconn]
  exact usesPort_unconnected hconn

omit hok in
theorem booked_undivert (hu : (w.xprts x).localportUsage = some u) : Booked w (undivertXprt w x u) x := by
  refine booked_of_usage hu hu (samePorts_undivert _ _) fun i port hi => ⟨_, ports_undivert hi, rfl, ?_⟩
  exact (counter_down _ _).trans (congrArg (port.xprtDiversions + unit ·) (decide_eq_false (undivert_idx hi)).symm)

omit hok in
theorem booked_divert {origLocalport : SockAddr} (hu : (w.xprts x).localportUsage = some u)
    (hconn : (w.xprts x).connected = false)
    (hidx : ∀ (i : Nat) (port : XprtPort), (w.usages u).ports[i]? = some port → (w.xprts x).localportDiversion ≠ some i) :
    Booked w (divertXprt w x u origLocalport) x := by
  have hsame := samePorts_divert (w.usages u) origLocalport
  unfold divertXprt
  generalize hd : xprtPortusageDivert (w.usages u) origLocalport = divert at hsame
  obtain ⟨usage', result⟩ := divert
  cases result with
  | some target =>
    obtain ⟨j, addr⟩ := target
    obtain ⟨-, -, -, -, -, hentry⟩ := divert_spec hd
    refine booked_of_usage hu hu hsame fun i port hi => ⟨_, hentry i port hi, ?_, ?_⟩
    · rw [usesPort_unconnected hconn]
      exact congrArg (port.xprtConnections + unit ·) (usesPort_unconnected (by exact hconn)).symm
    · rw [decide_eq_false (hidx i port hi)]
      simpa only [Option.some_inj] using counter_up port.xprtDiversions (j = i)
  | none =>
    obtain rfl := divert_none hd
    have hnone : Booked w ((w.setUsage u (w.usages u)).modifyXprt x fun r => { r with localportDiversion := none }) x := by
      refine booked_of_usage hu hu (.refl _) fun i port hi => ⟨port, hi, rfl, ?_⟩
      rw [decide_eq_false (hidx i port hi)]
      rfl
    exact hnone.trans (booked_restore (by simpa using hconn))

omit hok in
theorem booked_reconnectDivert (hconn : (w.xprts x).connected = false) (tryDivert : Bool) :
    Booked w (xprtRdmaReconnectDivert w x tryDivert) x := by
  unfold xprtRdmaReconnectDivert
  split
  · rename_i origLocalport u horig hu
    have hundivert := booked_undivert hu
    have hconn' : ((undivertXprt w x u).xprts x).connected = false := by
      simpa [undivertXprt] using hconn
    split
    · exact .refl w x
    split
    · exact hundivert.trans (booked_restore hconn')
    refine hundivert.trans (booked_divert (by simpa [undivertXprt] using hu) hconn' fun i port hi => ?_)
    obtain ⟨port₀, hport₀, -⟩ := (hundivert.samePorts u).getElem? hi
    simpa [undivertXprt] using undivert_idx hport₀
  · exact .refl w x

end

section

variable {w₀ w : PortWorld} {x : XprtPtr} (h : Booked w₀ w x)
include h

theorem Booked.neutral (f : RpcXprt → RpcXprt)
    (hf : ∀ r, ((f r).connected, (f r).localport, (f r).localportUsage, (f r).localportDiversion) =
      (r.connected, r.localport, r.localportUsage, r.localportDiversion)) :
    Booked w₀ (w.modifyXprt x f) x := by
  have hfields := hf (w.xprts x)
  simp only [Prod.mk.injEq] at hfields
  obtain ⟨hconn, hport, hu, hdiv⟩ := hfields
  refine h.trans (booked_modifyXprt w x (fun u port _ => ?_) fun u i => ?_)
  · simp [RpcXprt.usesPort, RpcXprt.bookedPort, hconn, hport, hu]
  · simp [RpcXprt.divertedTo, hu, hdiv]

theorem Booked.setConnected (hok : TablesOk w₀) : Booked w₀ (xprtSetConnected w x) x :=
  h.trans (booked_setConnected (h.tablesOk hok))

theorem Booked.clearConnected (hok : TablesOk w₀) : Booked w₀ (xprtClearConnected w x) x :=
  h.trans (booked_clearConnected (h.tablesOk hok))

end

/-! ## The events -/

/-- The local port of the transport has an entry in its table. -/
def Listed (w : PortWorld) (x : XprtPtr) : Prop :=
  ∃ u, ∃ port ∈ (w.usages u).ports, ∃ localport,
    (w.xprts x).bookedPort = some (u, localport) ∧ rpcCmpAddrPort port.addr localport = true

/-- The event does not change the `XPRT_CONNECTED` bit behind the back of the table. -/
def KeepsTable (w : PortWorld) (e : PortEvent) : Prop :=
  ∀ x state, e = .tcpStateChange x state →
    (xsTcpStateChange state (w.xprts x)).connected ≠ (w.xprts x).connected → ¬ Listed w x

section

variable {w : PortWorld} {x : XprtPtr} {e : PortEvent} {state : TcpState}

theorem not_keepsTable :
    ¬ KeepsTable w e ↔ ∃ x state, e = .tcpStateChange x state ∧
      (xsTcpStateChange state (w.xprts x)).connected ≠ (w.xprts x).connected ∧ Listed w x := by
  simp [KeepsTable, not_forall, not_not]

theorem stateChange_bookedPort (state : TcpState) (r : RpcXprt) :
    (xsTcpStateChange state r).bookedPort = r.bookedPort := by
  cases state <;> rfl

theorem stateChange_divertedTo (state : TcpState) (r : RpcXprt) (u : UsagePtr) (i : Nat) :
    (xsTcpStateChange state r).divertedTo u i = r.divertedTo u i := by
  cases state <;> rfl

theorem booked_tcpStateChange
    (h : (xsTcpStateChange state (w.xprts x)).connected ≠ (w.xprts x).connected → ¬ Listed w x) :
    Booked w (w.modifyXprt x (xsTcpStateChange state)) x := by
  refine booked_modifyXprt w x (fun u port hport => ?_) fun u i => stateChange_divertedTo state _ u i
  rw [RpcXprt.usesPort, RpcXprt.usesPort, stateChange_bookedPort]
  by_cases hsame : (xsTcpStateChange state (w.xprts x)).connected = (w.xprts x).connected
  · rw [hsame]
  have hno : ((w.xprts x).bookedPort.any fun booked => booked.1 == u && rpcCmpAddrPort port.addr booked.2) = false := by
    rw [Bool.eq_false_iff]
    intro hany
    cases hbook : (w.xprts x).bookedPort with
    | none => simp [hbook] at hany
    | some booked =>
      obtain ⟨v, localport⟩ := booked
      simp only [hbook, Option.any_some, Bool.and_eq_true, beq_iff_eq] at hany
      obtain ⟨rfl, hmatch⟩ := hany
      exact h hsame ⟨v, port, hport, localport, hbook, hmatch⟩
  rw [hno, Bool.and_false, Bool.and_false]

theorem booked_rdmaConnect (hconn : (w.xprts x).connected = false) : Booked w (xprtRdmaConnect w x) x := by
  have hattempt : Booked w (w.modifyXprt x fun r => { r with reconnectionAttempts := r.reconnectionAttempts + 1 }) x :=
    (Booked.refl w x).neutral _ fun _ => rfl
  exact hattempt.trans (booked_reconnectDivert (by simpa using hconn) _)

theorem booked_connectWorker (hok : TablesOk w) (outcome : RdmaConnectOutcome) :
    Booked w (xprtRdmaConnectWorker w x outcome) x := by
  have hrefl : Booked w w x := .refl w x
  cases outcome with
  | noEndpoint => exact hrefl.neutral _ fun _ => rfl
  | refused => exact (hrefl.clearConnected hok).neutral _ fun _ => rfl
  | connected =>
    refine Booked.setConnected (Booked.neutral ?_ _ fun _ => rfl) hok
    exact (hrefl.clearConnected hok).neutral _ fun _ => rfl

/-- **Every event that keeps the table books what it does.** -/
theorem apply_booked (hok : TablesOk w) (hen : e.enabled (w.xprts e.xprt) = true) (hkeep : KeepsTable w e) :
    Booked w (e.apply w) e.xprt := by
  have hrefl : ∀ x, Booked w w x := .refl w
  cases e with
  | tcpStateChange x state => exact booked_tcpStateChange (hkeep x state rfl)
  | tcpFinishConnecting x =>
    simp only [PortEvent.apply, xsTcpFinishConnecting]
    split
    · exact hrefl x
    · exact ((hrefl x).clearConnected hok).neutral _ fun _ => rfl
  | udpFinishConnecting x =>
    simp only [PortEvent.apply, xsUdpFinishConnecting]
    split
    · exact hrefl x
    · exact ((hrefl x).setConnected hok).neutral _ fun _ => rfl
  | localSetupSocket x connected =>
    simp only [PortEvent.apply, xsLocalSetupSocket]
    have hsocket : Booked w (if (w.xprts x).inet then w
        else (xprtClearConnected w x).modifyXprt x fun r => { r with inet := true }) x := by
      split
      · exact hrefl x
      · exact ((hrefl x).clearConnected hok).neutral _ fun _ => rfl
    split
    · exact hsocket.setConnected hok
    · exact hsocket
  | resetTransport x =>
    simp only [PortEvent.apply, xsResetTransport]
    split
    · refine Booked.clearConnected ?_ hok
      refine Booked.neutral ?_ _ fun _ => rfl
      refine Booked.clearConnected ?_ hok
      exact (hrefl x).neutral _ fun _ => rfl
    · exact hrefl x
  | disconnectDone x => exact booked_clearConnected hok
  | rdmaConnect x =>
    have hconn : (w.xprts x).connected = false := by
      simp only [PortEvent.enabled, PortEvent.xprt, Bool.and_eq_true, Bool.not_eq_true'] at hen
      exact hen.2
    exact booked_rdmaConnect hconn
  | rdmaConnectWorker x outcome => exact booked_connectWorker hok outcome

/-- An event keeps the addresses of the tables and the transports, whatever it does to the counters. -/
theorem apply_tablesOk (hok : TablesOk w) (hen : e.enabled (w.xprts e.xprt) = true) : TablesOk (e.apply w) := by
  by_cases hkeep : KeepsTable w e
  · exact (apply_booked hok hen hkeep).tablesOk hok
  · obtain ⟨x, state, rfl, -⟩ := not_keepsTable.1 hkeep
    exact ⟨hok.distinct, hok.few⟩

theorem not_accounted_of_flip (hx : x ∈ w.live) (hacc : PortsAccounted w)
    (hflip : (xsTcpStateChange state (w.xprts x)).connected ≠ (w.xprts x).connected) (hlisted : Listed w x) :
    ¬ PortsAccounted (w.modifyXprt x (xsTcpStateChange state)) := by
  obtain ⟨u, port, hport, localport, hbook, hmatch⟩ := hlisted
  obtain ⟨i, hi⟩ := List.mem_iff_getElem?.1 hport
  intro hacc'
  have hne : (w.xprts x).usesPort u port.addr ≠
      ((w.modifyXprt x (xsTcpStateChange state)).xprts x).usesPort u port.addr := by
    have hbook' : (xsTcpStateChange state (w.xprts x)).bookedPort = some (u, localport) := by
      rw [stateChange_bookedPort, hbook]
    rw [PortWorld.modifyXprt_same, usesPort_booked hbook, usesPort_booked hbook', decide_eq_true hmatch, Bool.and_true,
      Bool.and_true]
    exact Ne.symm hflip
  exact toNat_stale hx (fun y hy => by rw [w.modifyXprt_other x _ hy]) hne (hacc u i port hi).1 (hacc' u i port hi).1

end

/-- A mount before its first connection: nothing is connected or diverted, and the counters are
zero. -/
structure PortWorld.Fresh (w : PortWorld) : Prop where
  tables : TablesOk w
  idle : ∀ x ∈ w.live, (w.xprts x).connected = false ∧ (w.xprts x).localportDiversion = none
  zero : ∀ u, ∀ port ∈ (w.usages u).ports, port.xprtConnections = 0 ∧ port.xprtDiversions = 0

theorem PortWorld.Fresh.accounted {w : PortWorld} (h : w.Fresh) : PortsAccounted w := by
  intro u i port hport
  obtain ⟨hconn, hdiv⟩ := h.zero u port (List.mem_of_getElem? hport)
  rw [hconn, hdiv]
  constructor
  · refine (Finset.card_eq_zero.2 (Finset.filter_false_of_mem fun x hx => ?_)).symm
    rw [usesPort_unconnected (h.idle x hx).1]
    exact Bool.false_ne_true
  · refine (Finset.card_eq_zero.2 (Finset.filter_false_of_mem fun x hx => ?_)).symm
    simp [RpcXprt.divertedTo, (h.idle x hx).2]

/-- **The accounts of the local ports.**  In a run from a fresh mount the table is right in every
state just when no step lets a TCP socket change the bit of a transport with an entry. -/
theorem portsAccounted_iff (w : PortWorld) (es : List PortEvent) (hfresh : w.Fresh) :
    Always portStep PortsAccounted w es ↔ EachStep portStep KeepsTable w es := by
  have hstep : ∀ s e t, portStep s e = some t → e.xprt ∈ s.live ∧ e.enabled (s.xprts e.xprt) = true ∧ e.apply s = t := by
    intro s e t ht
    unfold portStep at ht
    split at ht
    · rename_i hen
      exact ⟨hen.1, hen.2, Option.some.inj ht⟩
    · cases ht
  refine always_iff_eachStep (J := TablesOk) ?_ ?_ ?_ hfresh.tables hfresh.accounted
  · intro s e t hok ht
    obtain ⟨-, hen, rfl⟩ := hstep s e t ht
    exact apply_tablesOk hok hen
  · intro s e t hok hacc hkeep ht
    obtain ⟨hx, hen, rfl⟩ := hstep s e t ht
    exact (apply_booked hok hen hkeep).accounted hx hok hacc
  · intro s e t hok hacc hmiss ht
    obtain ⟨hx, hen, rfl⟩ := hstep s e t ht
    obtain ⟨x, state, rfl, hflip, hlisted⟩ := not_keepsTable.1 hmiss
    exact not_accounted_of_flip hx hacc hflip hlisted

/-- A TCP transport 0 and an RDMA transport 1 that share a table of two local ports. -/
def twoLocalports : PortWorld where
  xprts := fun x =>
    { xprtClass := if x = 0 then .tcp else .rdma
      localport := some { family := .inet, addr := if x = 0 then 1 else 2 }
      origLocalport := if x = 0 then none else some { family := .inet, addr := 2 }
      localportUsage := some 0 }
  usages := fun _ =>
    { ports := [{ addr := { family := .inet, addr := 1 } }, { addr := { family := .inet, addr := 2 } }]
      diversionEnabled := true }
  live := {0, 1}

theorem twoLocalports_fresh : twoLocalports.Fresh where
  tables := ⟨fun _ => show (twoLocalports.usages 0).ports.Pairwise _ by decide, by decide⟩
  idle := by decide
  zero _ := show ∀ port ∈ (twoLocalports.usages 0).ports, _ by decide

theorem portsAccounted_iff_twoLocalports :
    Always portStep PortsAccounted twoLocalports
        [.rdmaConnect 1, .rdmaConnectWorker 1 .connected, .disconnectDone 1, .rdmaConnect 1] ↔
      EachStep portStep KeepsTable twoLocalports
        [.rdmaConnect 1, .rdmaConnectWorker 1 .connected, .disconnectDone 1, .rdmaConnect 1] :=
  portsAccounted_iff twoLocalports _ twoLocalports_fresh

/-- The TCP transport connects and is reset: the connection was never counted, and the counter wraps. -/
theorem tcp_reset_wraps :
    (run portStep twoLocalports [.tcpFinishConnecting 0, .tcpStateChange 0 .established, .resetTransport 0]).map
        (fun w => (w.usages 0).ports.map (·.xprtConnections)) = some [0xffffffff, 0] ∧
      ¬ Always portStep PortsAccounted twoLocalports
        [.tcpFinishConnecting 0, .tcpStateChange 0 .established, .resetTransport 0] := by
  refine ⟨by decide, fun hall => ?_⟩
  have hend := (run_of_always hall rfl 0 0 _ rfl).1
  exact absurd hend (by decide)

end Vastnfs.Sunrpc
