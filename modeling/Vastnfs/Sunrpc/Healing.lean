import Mathlib.Algebra.Order.BigOperators.Group.Finset
import Vastnfs.Sunrpc.Diversion

/-!
# Failover heals

A transport in recovery has a call that is to bring it back, and a diverted one a task that will
see that it is the last.

* `divertsWell_of_ok`: a diversion goes to a live port in least use.
* `Recovers`, `KeepsRecovery` and `apply_recovers`: what holds as long as no recovery is lost.
* `canHeal_of_sound`: then a transport can come back.
* `failover_heals`: the whole, for runs that lose no recovery.
-/

namespace Vastnfs.Sunrpc

open Runs Tally Finset

/-! ## Where a diversion goes -/

def HasConnection (w : PortWorld) (u : UsagePtr) (addr : SockAddr) : Prop :=
  ∃ y ∈ w.live, (w.xprts y).usesPort u addr = true

/-- The connections over a port and the diversions of others to it. -/
def portLoad (w : PortWorld) (x : XprtPtr) (u : UsagePtr) (i : Nat) (addr : SockAddr) : Nat :=
  tally w.live (fun y => (w.xprts y).usesPort u addr = true) +
    tally (w.live.erase x) (fun y => (w.xprts y).divertedTo u i = true)

/-- The transport uses entry `i` of its table, which is not its original port, has a connection, and
of such ports is one in least use. -/
structure DivertedWell (w : PortWorld) (x : XprtPtr) (u : UsagePtr) (i : Nat) (port : XprtPort)
    (origLocalport : SockAddr) : Prop where
  orig : (w.xprts x).origLocalport = some origLocalport
  table : (w.xprts x).localportUsage = some u
  entry : (w.usages u).ports[i]? = some port
  localport : (w.xprts x).localport = some port.addr
  other : rpcCmpAddrPort port.addr origLocalport = false
  connected : HasConnection w u port.addr
  least : ∀ (j : Nat) (port' : XprtPort), (w.usages u).ports[j]? = some port' →
    rpcCmpAddrPort port'.addr origLocalport = false → HasConnection w u port'.addr →
    portLoad w x u i port.addr ≤ portLoad w x u j port'.addr

/-- If the step starts an attempt to connect over another port than the original one, it is a good
choice. -/
def DivertsWell (s : FailoverWorld) (e : FailoverEvent) : Prop :=
  ∀ t s', e = .connect t → failoverStep s e = some s' → (s'.xprt (s.tasks t).tkXprt).connecting = true →
    ¬ (s'.xprt (s.tasks t).tkXprt).AtOrig →
    ∃ u i port origLocalport, DivertedWell s'.ports (s.tasks t).tkXprt u i port origLocalport

section

variable {w w' : PortWorld} {x : XprtPtr} {u : UsagePtr} {origLocalport addr : SockAddr}

theorem hasConnection_iff :
    HasConnection w u addr ↔ tally w.live (fun y => (w.xprts y).usesPort u addr = true) ≠ 0 := by
  unfold HasConnection tally
  rw [card_ne_zero, filter_nonempty_iff]

theorem totalUsage_eq_portLoad (hacc : PortsAccounted w) (hfew : w.live.card < 2 ^ 31) (hlive : w'.live = w.live)
    (hothers : ∀ y, y ≠ x → w'.xprts y = w.xprts y) (hconn : (w.xprts x).connected = false)
    (hconn' : (w'.xprts x).connected = false) {j : Nat} {port : XprtPort} (hport : (w.usages u).ports[j]? = some port)
    (hdiv : (w.xprts x).divertedTo u j = false) :
    port.xprtConnections.toNat = tally w'.live (fun y => (w'.xprts y).usesPort u port.addr = true) ∧
      port.totalUsage.toNat = portLoad w' x u j port.addr := by
  obtain ⟨hc, hd⟩ := hacc u j port hport
  have huses : tally w.live (fun y => (w.xprts y).usesPort u port.addr = true) =
      tally w'.live (fun y => (w'.xprts y).usesPort u port.addr = true) := by
    rw [hlive]
    refine tally_congr fun y _ => ?_
    by_cases hy : y = x
    · rw [hy, usesPort_unconnected hconn, usesPort_unconnected hconn']
    · rw [hothers y hy]
  have hdivs : tally w.live (fun y => (w.xprts y).divertedTo u j = true) =
      tally (w'.live.erase x) (fun y => (w'.xprts y).divertedTo u j = true) := by
    rw [tally_erase w.live x, one_neg (by simp [hdiv]), hlive]
    exact tally_congr fun y hy => by rw [hothers y (ne_of_mem_erase hy)]
  have hle : ∀ (p : XprtPtr → Prop) [DecidablePred p], tally w.live p < 2 ^ 31 := fun p _ =>
    Nat.lt_of_le_of_lt (card_filter_le _ _) hfew
  refine ⟨hc.trans huses, ?_⟩
  have hsum : port.xprtConnections.toNat + port.xprtDiversions.toNat < 2 ^ 32 := by
    have h₁ := hle fun y => (w.xprts y).usesPort u port.addr = true
    have h₂ := hle fun y => (w.xprts y).divertedTo u j = true
    omega
  rw [XprtPort.totalUsage, UInt32.toNat_add, Nat.mod_eq_of_lt hsum, hc, hd, huses, hdivs]
  rfl

/-- **A diversion goes to a live port in least use.** -/
theorem divertedWell_of_divert (hacc : PortsAccounted w) (hok : TablesOk w) (hfew : w.live.card < 2 ^ 31)
    (hx : x ∈ w.live) (hconn : (w.xprts x).connected = false) (hu : (w.xprts x).localportUsage = some u)
    (horig : (w.xprts x).origLocalport = some origLocalport) {usage' : XprtPortusage} {i : Nat}
    (hdivert : xprtPortusageDivert ((undivertXprt w x u).usages u) origLocalport = (usage', some (i, addr)))
    (hw' : Booked w w' x) (husage' : w'.usages u = usage')
    (hr' : w'.xprts x = { w.xprts x with localportDiversion := some i, localport := some addr, nDiversion := true }) :
    ∃ port, DivertedWell w' x u i port origLocalport := by
  -- the table the choice is made from, without the diversion of the transport itself
  have hundivert : Booked w (undivertXprt w x u) x := booked_undivert hu
  have hconn₀ : ((undivertXprt w x u).xprts x).connected = false := by simpa [undivertXprt] using hconn
  have hconn' : (w'.xprts x).connected = false := by
    rw [hr']
    exact hconn
  have hload : ∀ (j : Nat) (port : XprtPort), ((undivertXprt w x u).usages u).ports[j]? = some port →
      port.xprtConnections.toNat = tally w'.live (fun y => (w'.xprts y).usesPort u port.addr = true) ∧
        port.totalUsage.toNat = portLoad w' x u j port.addr := by
    intro j port hport
    refine totalUsage_eq_portLoad (hundivert.accounted hx hok hacc) hfew hw'.live
      (fun y hy => (hw'.others y hy).trans (hundivert.others y hy).symm) hconn₀ hconn' hport ?_
    obtain ⟨port₀, hport₀, -⟩ := (hundivert.samePorts u).getElem? hport
    have hidx : ((undivertXprt w x u).xprts x).localportDiversion ≠ some j := by
      simpa [undivertXprt] using undivert_idx hport₀
    simp [RpcXprt.divertedTo, hidx]
  have hcan : ∀ (j : Nat) (port : XprtPort), ((undivertXprt w x u).usages u).ports[j]? = some port →
      (port.xprtConnections ≠ 0 ↔ HasConnection w' u port.addr) := by
    intro j port hport
    rw [hasConnection_iff, ← (hload j port hport).1, ne_eq, ← UInt32.toNat_inj]
    rfl
  obtain ⟨port, hport, rfl, hto, hmin, hentry⟩ := divert_spec hdivert
  obtain ⟨entry, hnow, haddr⟩ : ∃ entry, usage'.ports[i]? = some entry ∧ entry.addr = port.addr :=
    ⟨_, hentry i port hport, rfl⟩
  refine ⟨entry, ?_, ?_, ?_, ?_, ?_, ?_, ?_⟩
  · rw [hr']
    exact horig
  · rw [hr']
    exact hu
  · rw [husage', hnow]
  · rw [hr', haddr]
  · rw [haddr]
    exact hto.1
  · rw [haddr]
    exact (hcan i port hport).1 hto.2
  · intro j port' hport' hother hlive
    rw [husage'] at hport'
    have hsame := samePorts_divert ((undivertXprt w x u).usages u) origLocalport
    rw [hdivert] at hsame
    obtain ⟨port₀, hport₀, haddr₀⟩ := hsame.getElem? hport'
    rw [← haddr₀] at hother hlive ⊢
    have hle := hmin port₀ (List.mem_of_getElem? hport₀) ⟨hother, (hcan j port₀ hport₀).2 hlive⟩
    rw [haddr, ← (hload i port hport).2, ← (hload j port₀ hport₀).2]
    exact hle

theorem divertedWell_of_connect {s : FailoverWorld} (h : FailoverOk s) (hx : x ∈ s.ports.live)
    (hquiet : (s.xprt x).connecting = false) (hconnecting : ((xprtConnect s.ports x).xprts x).connecting = true)
    (haway : ¬ ((xprtConnect s.ports x).xprts x).AtOrig) :
    ∃ u i port origLocalport, DivertedWell (xprtConnect s.ports x) x u i port origLocalport := by
  rcases connect_cases (x := x) h.tables with ⟨-, -, hw⟩ | ⟨w₁, tryDivert, hb, hw, -, hr⟩
  · -- nothing happens to a connection
    rw [hw] at hconnecting
    exact absurd (hquiet.symm.trans hconnecting) Bool.false_ne_true
  have hconn : (w₁.xprts x).connected = false := by
    rw [hr]
    rfl
  rw [hw] at haway ⊢
  rcases reconnectDivert_cases w₁ x tryDivert with
    ⟨hno, hw₂⟩ | ⟨d, hr₂⟩ | ⟨-, -, origLocalport, u, i, addr, usage', horig, hu, hdivert, husage', hr₂⟩
  · refine absurd ?_ haway
    rw [hw₂, hr]
    refine (h.xprts x hx).port.fixed ((divertible_iff hb ?_ ?_).not.1 hno)
    · rw [hr]
      rfl
    · rw [hr]
      rfl
  · refine absurd ?_ haway
    rw [hr₂]
    rfl
  obtain ⟨port, hport⟩ := divertedWell_of_divert (hb.accounted hx h.tables h.accounted) (hb.tablesOk h.tables)
    (by rw [hb.live]; exact h.few) (by rw [hb.live]; exact hx) hconn hu horig hdivert
    (booked_reconnectDivert hconn tryDivert) husage' hr₂
  exact ⟨u, i, port, origLocalport, hport⟩

theorem divertsWell_of_ok {s : FailoverWorld} {e : FailoverEvent} (h : FailoverOk s) : DivertsWell s e := by
  rintro t s' rfl hstep
  obtain ⟨hen, rfl⟩ := failoverStep_eq_some.1 hstep
  exact divertedWell_of_connect h (h.hosts t hen.1) hen.2.2

end

/-! ## As long as no recovery is lost -/

/-- The task will still ask the transport to free its buffer, and so see whether it is the last. -/
def XprtTask.WillFree (task : XprtTask) : Prop := task.stage = .active ∨ task.stage = .done ∧ task.rqBuffer = true
deriving Decidable

/-- The transport is on its way back, or will be. -/
structure Recovers (s : FailoverWorld) (x : XprtPtr) : Prop where
  called : (s.xprt x).nRecovery = true → (s.calls x).Nonempty
  watched : (s.xprt x).nDiversion = true → (s.xprt x).nRecovery = false →
    ∃ t ∈ s.tasksOn x, (s.tasks t).WillFree

/-- If its transport is diverted and not yet in recovery, another task will look after it. -/
def Covered (s : FailoverWorld) (t : TaskPtr) : Prop :=
  (s.xprt (s.tasks t).tkXprt).nDiversion = true → (s.xprt (s.tasks t).tkXprt).nRecovery = false →
    ∃ j ∈ s.tasksOn (s.tasks t).tkXprt, j ≠ t ∧ (s.tasks j).WillFree
deriving Decidable

/-- The event loses no recovery: a call that fails is made again, and a task that leaves a diverted
transport without having seen that it is the last leaves it to another. -/
def KeepsRecovery (s : FailoverWorld) : FailoverEvent → Prop
  | .callDone t status created =>
      ((s.tasks t).kind = .revive → status = .ok ∨ status = .failed false ∧ created.isSome = true) ∧
      ((s.tasks t).kind = .addXprt → status = .ok ∨ created.isSome = true) ∧
      ((s.tasks t).rqBuffer = false → Covered s t)
  | .release t created =>
      ((s.tasks t).rqBuffer = true ∧ (s.xprt (s.tasks t).tkXprt).queuelen = 1 ∧ created.isSome = true) ∨ Covered s t
  | _ => True

instance (s : FailoverWorld) : (e : FailoverEvent) → Decidable (KeepsRecovery s e)
  | .callDone .. | .release .. | .start .. | .allocate .. | .connect .. | .connectWorker .. | .forceDisconnect ..
  | .close .. | .transmit .. | .restart .. | .exit .. | .testAndAdd .. => by dsimp only [KeepsRecovery]; infer_instance

section

variable {s s' : FailoverWorld} {x y : XprtPtr} {t : TaskPtr} {created : Option TaskPtr} {f : XprtTask → XprtTask}

theorem Recovers.next (h : Recovers s x)
    (hflags : ((s'.xprt x).nDiversion, (s'.xprt x).nRecovery) = ((s.xprt x).nDiversion, (s.xprt x).nRecovery))
    (hcalls : ∀ t ∈ s.calls x, t ∈ s'.calls x)
    (hwatch : (s.xprt x).nDiversion = true → (s.xprt x).nRecovery = false →
      ∃ t ∈ s'.tasksOn x, (s'.tasks t).WillFree) : Recovers s' x := by
  simp only [Prod.mk.injEq] at hflags
  refine ⟨fun hrec => ?_, ?_⟩
  · rw [hflags.2] at hrec
    obtain ⟨t, ht⟩ := h.called hrec
    exact ⟨t, hcalls t ht⟩
  · rw [hflags.1, hflags.2]
    exact hwatch

theorem recovers_newCall (hrec : (s'.xprt x).nRecovery = true) (ht : t ∈ s'.calls x) : Recovers s' x :=
  ⟨fun _ => ⟨t, ht⟩, fun _ hno => absurd (hrec.symm.trans hno) (by simp)⟩

theorem recovers_healed (h : (s'.xprt x).nDiversion = false ∧ (s'.xprt x).nRecovery = false) : Recovers s' x :=
  ⟨fun hrec => absurd (h.2.symm.trans hrec) (by simp), fun hdiv => absurd (h.1.symm.trans hdiv) (by simp)⟩

theorem Recovers.frame (h : Recovers s y) (hl : Local s s' x) (hy : y ≠ x) : Recovers s' y := by
  refine h.next ?_ (fun t ht => ?_) fun hdiv hrec => ?_
  · rw [hl.xprt hy]
  · rwa [hl.calls hy]
  · obtain ⟨t, ht, hfree⟩ := h.watched hdiv hrec
    refine ⟨t, by rwa [hl.tasksOn y hy], ?_⟩
    rwa [hl.tasks y hy t ht]

theorem Recovers.ports (h : Recovers s x) {w : PortWorld}
    (hflags : ((w.xprts x).nDiversion, (w.xprts x).nRecovery) = ((s.xprt x).nDiversion, (s.xprt x).nRecovery)) :
    Recovers { s with ports := w } x :=
  h.next hflags (fun _ => id) h.watched

theorem mem_calls_modifyTask (hf : ∀ task, (f task).tkXprt = task.tkXprt) (ht : t ∈ s.tasksOn x)
    (hkind : (f (s.tasks t)).kind ≠ .request) (hstage : (f (s.tasks t)).stage = .active) :
    t ∈ (s.modifyTask t f).calls x := by
  rw [mem_calls, tasksOn_modifyTask hf, modifyTask_same]
  exact ⟨ht, hkind, hstage⟩

theorem Recovers.task (h : Recovers s x) (hf : ∀ task, (f task).tkXprt = task.tkXprt)
    (hcall : t ∈ s.calls x → (f (s.tasks t)).kind ≠ .request ∧ (f (s.tasks t)).stage = .active)
    (hfree : (s.tasks t).WillFree → (f (s.tasks t)).WillFree) : Recovers (s.modifyTask t f) x := by
  refine h.next rfl (fun j hj => ?_) fun hdiv hrec => ?_
  · by_cases hjt : j = t
    · subst hjt
      exact mem_calls_modifyTask hf (mem_calls.1 hj).1 (hcall hj).1 (hcall hj).2
    · rw [mem_calls, tasksOn_modifyTask hf, modifyTask_other f hjt]
      exact mem_calls.1 hj
  · obtain ⟨j, hj, hwill⟩ := h.watched hdiv hrec
    refine ⟨j, by rwa [tasksOn_modifyTask hf], ?_⟩
    by_cases hjt : j = t
    · subst hjt
      rw [modifyTask_same]
      exact hfree hwill
    · rwa [modifyTask_other f hjt]

theorem Recovers.leave (h : Recovers s x) (ht : (s.tasks t).tkXprt = x) (hcall : t ∉ s.calls x) (hcov : Covered s t)
    {stage : TaskStage} : Recovers (s.setStage t stage) x := by
  refine h.next rfl (fun j hj => ?_) fun hdiv hrec => ?_
  · have hjt : j ≠ t := by
      rintro rfl
      exact hcall hj
    rw [mem_calls, tasksOn_setStage, FailoverWorld.setStage, modifyTask_other _ hjt]
    exact mem_calls.1 hj
  · subst ht
    obtain ⟨j, hj, hjt, hwill⟩ := hcov hdiv hrec
    refine ⟨j, by rwa [tasksOn_setStage], ?_⟩
    rwa [FailoverWorld.setStage, modifyTask_other _ hjt]

theorem mem_calls_startTask_self {kind : CallKind} (hnew : t ∉ s.running) (hkind : kind ≠ .request) :
    t ∈ (startTask s t x kind).calls x := by
  rw [mem_calls, tasksOn_startTask hnew, if_pos rfl, startTask_same]
  exact ⟨mem_insert_self _ _, hkind, rfl⟩

theorem recovers_callNull (hrec : (s.xprt x).nRecovery = true) (hnew : FreshTask s created)
    (hsome : created.isSome = true) : Recovers (rpcCallNullHelper s x .revive created) x := by
  obtain ⟨t, rfl⟩ := Option.isSome_iff_exists.1 hsome
  refine recovers_newCall (t := t) ?_ (mem_calls_startTask_self (hnew t rfl) (by simp))
  rw [callNull_nRecovery, hrec]

theorem Recovers.request (h : Recovers s x) (hnew : t ∉ s.running) : Recovers (startTask s t x .request) x := by
  have hother : ∀ j ∈ s.tasksOn x, j ≠ t := by
    rintro j hj rfl
    exact hnew (mem_tasksOn.1 hj).1
  have hon : ∀ j ∈ s.tasksOn x, j ∈ (startTask s t x .request).tasksOn x := by
    intro j hj
    rw [tasksOn_startTask hnew, if_pos rfl]
    exact mem_insert_of_mem hj
  refine h.next ?_ (fun j hj => ?_) fun hdiv hrec => ?_
  · rw [startTask_xprt]
  · have hj' := mem_calls.1 hj
    rw [mem_calls, startTask_other _ (hother j hj'.1)]
    exact ⟨hon j hj'.1, hj'.2⟩
  · obtain ⟨j, hj, hwill⟩ := h.watched hdiv hrec
    refine ⟨j, hon j hj, ?_⟩
    rwa [startTask_other _ (hother j hj)]

theorem Recovers.connect (h : Recovers s x) (hok : TablesOk s.ports) (ht : t ∈ s.tasksOn x)
    (hactive : (s.tasks t).stage = .active) : Recovers { s with ports := xprtConnect s.ports x } x := by
  have hrec : ((xprtConnect s.ports x).xprts x).nRecovery = (s.xprt x).nRecovery := connect_nRecovery hok
  refine ⟨fun hr => h.called (hrec.symm.trans hr), fun _ _ => ⟨t, ht, .inl hactive⟩⟩

theorem notMem_calls (hstage : (s.tasks t).stage ≠ .active) : t ∉ s.calls x := fun h => hstage (mem_calls.1 h).2.2

theorem Recovers.exit (h : Recovers s x) (ht : t ∈ s.tasksOn x) (hreleased : (s.tasks t).stage = .released) :
    Recovers (exitTask s t) x := by
  have hx : (s.tasks t).tkXprt = x := (mem_tasksOn.1 ht).2
  refine h.next ?_ (fun j hj => ?_) fun hdiv hrec => ?_
  · subst hx
    have hr := PortWorld.modifyXprt_same s.ports (s.tasks t).tkXprt fun r => { r with queuelen := r.queuelen - 1 }
    show (((s.ports.modifyXprt _ _).xprts _).nDiversion, ((s.ports.modifyXprt _ _).xprts _).nRecovery) = _
    rw [hr]
    rfl
  · have hj' := mem_calls.1 hj
    have hjt : j ≠ t := ne_of_mem_of_not_mem hj (notMem_calls (by simp [hreleased]))
    rw [mem_calls, tasksOn_exitTask]
    exact ⟨mem_erase.2 ⟨hjt, hj'.1⟩, hj'.2⟩
  · obtain ⟨j, hj, hwill⟩ := h.watched hdiv hrec
    have hjt : j ≠ t := by
      rintro rfl
      simp [XprtTask.WillFree, hreleased] at hwill
    refine ⟨j, ?_, hwill⟩
    rw [tasksOn_exitTask]
    exact mem_erase.2 ⟨hjt, hj⟩

theorem callDone_ok (hok : XprtOk s x) (ht : t ∈ s.calls x) (created : Option TaskPtr) :
    ((rpcCallDone s t .ok created).xprt x).nDiversion = false ∧
      ((rpcCallDone s t .ok created).xprt x).nRecovery = false := by
  obtain ⟨hon, hkind, -⟩ := mem_calls.1 ht
  have htx : (s.tasks t).tkXprt = x := (mem_tasksOn.1 hon).2
  cases hk : (s.tasks t).kind with
  | request => exact absurd hk hkind
  | revive =>
    rw [callDone_revive hk, htx, rpcCbNconnectReviveDone, FailoverWorld.modifyXprt_same]
    exact ⟨rfl, rfl⟩
  | addXprt =>
    rw [callDone_addXprt hk, htx, rpcCbAddXprtDone, FailoverWorld.modifyXprt_same]
    exact ⟨hok.added t ht hk, rfl⟩

theorem Recovers.callDone (h : Recovers s x) (hx : XprtOk s x) (ht : t ∈ s.tasksOn x) {status : CallStatus}
    (hactive : (s.tasks t).stage = .active) (hnew : FreshTask s created)
    (hkeep : KeepsRecovery s (.callDone t status created)) : Recovers (rpcCallDone s t status created) x := by
  have htx : (s.tasks t).tkXprt = x := (mem_tasksOn.1 ht).2
  obtain ⟨hrevive, hadd, hcov⟩ := hkeep
  cases hkind : (s.tasks t).kind with
  | request =>
    have hcall : t ∉ s.calls x := fun hc => (mem_calls.1 hc).2.1 hkind
    rw [callDone_request hkind]
    cases hbuffer : (s.tasks t).rqBuffer with
    | true => exact h.task (fun _ => rfl) (fun hc => absurd hc hcall) fun _ => .inr ⟨rfl, hbuffer⟩
    | false => exact h.leave htx hcall (hcov hbuffer)
  | revive =>
    have hmem : t ∈ s.calls x := mem_calls.2 ⟨ht, by simp [hkind], hactive⟩
    rcases hrevive hkind with rfl | ⟨rfl, hsome⟩
    · exact recovers_healed (callDone_ok hx hmem created)
    · rw [callDone_revive hkind, htx]
      exact recovers_callNull (s := s.setStage t .done) (hx.calling t hmem) hnew hsome
  | addXprt =>
    have hmem : t ∈ s.calls x := mem_calls.2 ⟨ht, by simp [hkind], hactive⟩
    cases status with
    | ok => exact recovers_healed (callDone_ok hx hmem created)
    | failed signalled =>
      rw [callDone_addXprt hkind, htx]
      have hsome : created.isSome = true := (hadd hkind).resolve_left (by simp)
      exact recovers_callNull (s := s.setStage t .done) (hx.calling t hmem) hnew hsome

theorem XprtOk.not_covered (hx : XprtOk s x) (ht : t ∈ s.tasksOn x) (hq : (s.xprt x).queuelen = 1) {j : TaskPtr}
    (hj : j ∈ s.tasksOn x) : j = t := by
  have hcard : (s.tasksOn x).card = 1 := by
    have := hx.queuelen
    omega
  exact card_le_one.1 hcard.le j hj t ht

theorem Recovers.release (h : Recovers s x) (hx : XprtOk s x) (ht : t ∈ s.tasksOn x) (hdone : (s.tasks t).stage = .done)
    (hnew : FreshTask s created) (hkeep : KeepsRecovery s (.release t created)) : Recovers (xprtRelease s t created) x := by
  obtain ⟨hrun, htx⟩ := mem_tasksOn.1 ht
  have hcall : t ∉ s.calls x := notMem_calls (by simp [hdone])
  unfold xprtRelease
  rw [htx]
  cases hbuffer : (s.tasks t).rqBuffer with
  | false =>
    refine h.leave htx hcall (hkeep.resolve_left fun hl => ?_)
    rw [hbuffer] at hl
    cases hl.1
  | true =>
    rcases rdmaFree_cases s x created with ⟨hs, hno⟩ | ⟨hdiv, hrec, hq, hs⟩
    · rw [hs]
      refine h.leave htx hcall ?_
      rcases hkeep with ⟨-, hq, -⟩ | hcov
      · rw [htx] at hq
        subst htx
        exact fun hdiv hrec => absurd ⟨hdiv, hrec, hq⟩ hno
      · exact hcov
    -- the last task: the recovery starts
    have hsome : created.isSome = true := by
      rcases hkeep with ⟨-, -, hsome⟩ | hcov
      · exact hsome
      subst htx
      obtain ⟨j, hj, hjt, -⟩ := hcov hdiv hrec
      exact absurd (hx.not_covered ht hq hj) hjt
    have hmid : Recovers (xprtRdmaFree s x created) x := by
      rw [hs]
      refine recovers_callNull ?_ hnew hsome
      rw [FailoverWorld.modifyXprt_same]
    have htask : (xprtRdmaFree s x created).tasks t = s.tasks t := rdmaFree_tasks hrun hnew
    have hin : ((xprtRdmaFree s x created).xprt x).nRecovery = true := by
      rw [hs, callNull_nRecovery, FailoverWorld.modifyXprt_same]
    refine hmid.leave (by rw [htask, htx]) (notMem_calls (by simp [htask, hdone])) fun _ hno => ?_
    rw [htask, htx, hin] at hno
    cases hno

/-- **A step that loses no recovery.** -/
theorem apply_recovers {e : FailoverEvent} (hok : FailoverOk s) (hen : e.Enabled s) (hkeep : KeepsRecovery s e)
    (h : ∀ x ∈ s.ports.live, Recovers s x) : Recovers (e.apply s) (e.xprt s) := by
  have hlive : e.xprt s ∈ s.ports.live := hok.xprt_live hen
  have hx : XprtOk s (e.xprt s) := hok.xprts _ hlive
  have hr : Recovers s (e.xprt s) := h _ hlive
  cases e with
  | start t x => exact hr.request hen.1
  | allocate t =>
    refine Recovers.task (f := fun task => { task with rqBuffer := true }) hr (fun _ => rfl)
      (fun hc => (mem_calls.1 hc).2) fun hfree => ?_
    exact hfree.imp id fun hdone => ⟨hdone.1, rfl⟩
  | connect t => exact hr.connect hok.tables (mem_tasksOn.2 ⟨hen.1, rfl⟩) hen.2.1
  | connectWorker x outcome =>
    obtain ⟨c, d, n, hw, -⟩ := connectWorker_xprt s.ports x outcome
    refine Recovers.ports (x := x) hr ?_
    rw [hw]
    rfl
  | forceDisconnect x =>
    refine Recovers.ports (x := x) hr ?_
    rw [PortWorld.modifyXprt_same]
    rfl
  | close x =>
    refine Recovers.ports (x := x) hr ?_
    rw [autoclose_xprt]
    rfl
  | transmit t =>
    exact Recovers.task (f := fun task => { task with transmitted := true }) hr (fun _ => rfl)
      (fun hc => (mem_calls.1 hc).2) id
  | callDone t status created =>
    exact hr.callDone hx (mem_tasksOn.2 ⟨hen.1, rfl⟩) hen.2.1 hen.2.2.1 hkeep
  | release t created => exact hr.release hx (mem_tasksOn.2 ⟨hen.1, rfl⟩) hen.2.1 hen.2.2 hkeep
  | restart t =>
    refine Recovers.task (f := fun task => { tkXprt := task.tkXprt }) hr (fun _ => rfl) (fun hc => ?_) fun _ => .inl rfl
    exact absurd hen.2.2 (mem_calls.1 hc).2.1
  | exit t => exact hr.exit (mem_tasksOn.2 ⟨hen.1, rfl⟩) hen.2
  | testAndAdd x t =>
    refine recovers_newCall (t := t) ?_ (mem_calls_startTask_self hen.2.1 (by simp))
    show ((startTask _ t x .addXprt).xprt x).nRecovery = true
    rw [startTask_xprt]
    rw [FailoverWorld.modifyXprt_same]

end

/-! ## The way back -/

def FailoverEvent.Works : FailoverEvent → Prop
  | .connectWorker _ outcome => outcome = .connected
  | .callDone _ status _ => status = .ok
  | _ => True

/-- The transport takes part in the selection. -/
def Healed (x : XprtPtr) (s : FailoverWorld) : Prop :=
  (s.xprt x).nDiversion = false ∧ (s.xprt x).nRecovery = false

/-- The transport can come back while its original port works. -/
def CanHeal (s : FailoverWorld) (x : XprtPtr) : Prop :=
  CanReach failoverStep (fun s e => KeepsRecovery s e ∧ e.Works) (Healed x) s

structure Sound (s : FailoverWorld) : Prop where
  ok : FailoverOk s
  recovers : ∀ x ∈ s.ports.live, Recovers s x

theorem Sound.apply {s : FailoverWorld} {e : FailoverEvent} (h : Sound s) (hen : e.Enabled s)
    (hkeep : KeepsRecovery s e) : Sound (e.apply s) := by
  have hl := apply_local h.ok hen
  refine ⟨apply_failoverOk h.ok hen, fun y hy => ?_⟩
  rw [hl.booked.live] at hy
  by_cases hyx : y = e.xprt s
  · rw [hyx]
    exact apply_recovers h.ok hen hkeep h.recovers
  · exact (h.recovers y hy).frame hl hyx

/-- How far the connection is from one that can be used. -/
def RpcXprt.linkRank (r : RpcXprt) : Nat :=
  match r.connecting, r.closeWait, r.connected with
  | true, true, _ => 4
  | false, true, _ => 3
  | false, false, false => 2
  | true, false, _ => 1
  | false, false, true => 0

def callRank (x : XprtPtr) (t : TaskPtr) (s : FailoverWorld) : Nat :=
  (s.xprt x).linkRank + one ((s.tasks t).rqBuffer = false) + one ((s.tasks t).transmitted = false)

def XprtTask.weight (task : XprtTask) : Nat :=
  match task.stage, task.rqBuffer with
  | .active, false => 4
  | .active, true => 3
  | .done, _ => 2
  | .released, _ => 1

def tasksRank (x : XprtPtr) (s : FailoverWorld) : Nat := ∑ t ∈ s.tasksOn x, (s.tasks t).weight

section

variable {s : FailoverWorld} {x : XprtPtr} {t : TaskPtr} {r : RpcXprt}

theorem step_of_enabled {e : FailoverEvent} (hen : e.Enabled s) : failoverStep s e = some (e.apply s) := if_pos hen

theorem callRank_ports {w : PortWorld} (hlink : (w.xprts x).linkRank < (s.xprt x).linkRank) :
    callRank x t { s with ports := w } < callRank x t s :=
  Nat.add_lt_add_right (Nat.add_lt_add_right hlink _) _

theorem linkRank_worker {d : Option Nat} {n : Nat} (hconnecting : r.connecting = true) :
    ({ r with connecting := false, connected := true, localportDiversion := d, reconnectionAttempts := n } :
      RpcXprt).linkRank < r.linkRank := by
  cases hwait : r.closeWait with
  | true | false => simp [RpcXprt.linkRank, hconnecting, hwait]

theorem linkRank_close (hconnecting : r.connecting = false) (hwait : r.closeWait = true) :
    r.closed.linkRank < r.linkRank := by
  simp [RpcXprt.linkRank, RpcXprt.closed, hconnecting, hwait]

theorem call_progress (h : Sound s) (hx : x ∈ s.ports.live) (ht : t ∈ s.calls x) :
    ∃ e, FailoverEvent.Enabled s e ∧ (KeepsRecovery s e ∧ e.Works) ∧
      (Healed x (e.apply s) ∨ t ∈ (e.apply s).calls x ∧ callRank x t (e.apply s) < callRank x t s) := by
  have hok : XprtOk s x := h.ok.xprts x hx
  obtain ⟨hon, hkind, hactive⟩ := mem_calls.1 ht
  obtain ⟨hrun, htx⟩ := mem_tasksOn.1 hon
  have hcov : Covered s t := fun _ hno => by
    rw [htx, hok.calling t ht] at hno
    cases hno
  cases hsent : (s.tasks t).transmitted with
  | true =>
    refine ⟨.callDone t .ok none, ⟨hrun, hactive, by simp [FreshTask], fun _ _ => hsent⟩, ⟨⟨?_, ?_, ?_⟩, rfl⟩, .inl ?_⟩
    · exact fun _ => .inl rfl
    · exact fun _ => .inl rfl
    · exact fun _ => hcov
    · exact callDone_ok hok ht none
  | false =>
    cases hbuffer : (s.tasks t).rqBuffer with
    | false =>
      refine ⟨.allocate t, ⟨hrun, hactive⟩, ⟨trivial, trivial⟩, .inr ⟨?_, ?_⟩⟩
      · exact mem_calls_modifyTask (f := fun task => { task with rqBuffer := true }) (fun _ => rfl) hon hkind hactive
      · unfold callRank
        rw [FailoverEvent.apply, modifyTask_same, hbuffer, hsent]
        exact Nat.lt_succ_self _
    | true =>
      cases hconnecting : (s.xprt x).connecting with
      | true =>
        obtain ⟨c, d, n, hr, hc⟩ := connectWorker_xprt s.ports x .connected
        refine ⟨.connectWorker x .connected, ⟨hx, hconnecting⟩, ⟨trivial, rfl⟩, .inr ⟨ht, callRank_ports ?_⟩⟩
        rw [hr, hc rfl]
        exact linkRank_worker hconnecting
      | false =>
        cases hwait : (s.xprt x).closeWait with
        | true =>
          refine ⟨.close x, ⟨hx, hconnecting⟩, ⟨trivial, trivial⟩, .inr ⟨ht, callRank_ports ?_⟩⟩
          rw [autoclose_xprt]
          exact linkRank_close hconnecting hwait
        | false =>
          cases hconn : (s.xprt x).connected with
          | false =>
            obtain ⟨hc, hw⟩ := connect_attempting h.ok.tables hconn
            refine ⟨.connect t, ⟨hrun, hactive, by rw [htx]; exact hconnecting⟩, ⟨trivial, trivial⟩, .inr ⟨ht, ?_⟩⟩
            rw [FailoverEvent.apply, htx]
            refine callRank_ports ?_
            simp [RpcXprt.linkRank, hc, hw, hconnecting, hwait, hconn]
          | true =>
            refine ⟨.transmit t, ?_, ⟨trivial, trivial⟩, .inr ⟨?_, ?_⟩⟩
            · refine ⟨hrun, hactive, hbuffer, ?_⟩
              rw [htx]
              exact ⟨hconnecting, hconn, hwait⟩
            · exact mem_calls_modifyTask (f := fun task => { task with transmitted := true }) (fun _ => rfl) hon hkind
                hactive
            · unfold callRank
              rw [FailoverEvent.apply, modifyTask_same, hsent]
              exact Nat.lt_succ_self _

theorem canHeal_of_call (h : Sound s) (hx : x ∈ s.ports.live) (ht : t ∈ s.calls x) : CanHeal s x := by
  refine canReach_of_rank (I := fun s => Sound s ∧ x ∈ s.ports.live ∧ t ∈ s.calls x) (callRank x t) ?_ ⟨h, hx, ht⟩
  rintro s ⟨h, hx, ht⟩ -
  obtain ⟨e, hen, hkeep, hnext⟩ := call_progress h hx ht
  refine ⟨e, e.apply s, hkeep, step_of_enabled hen, hnext.imp id fun hcall => ⟨⟨h.apply hen hkeep.1, ?_, hcall.1⟩, hcall.2⟩⟩
  rw [(apply_local h.ok hen).booked.live]
  exact hx

theorem tasksRank_modifyTask {f : XprtTask → XprtTask} (hf : ∀ task, (f task).tkXprt = task.tkXprt)
    (ht : t ∈ s.tasksOn x) (hweight : (f (s.tasks t)).weight < (s.tasks t).weight) :
    tasksRank x (s.modifyTask t f) < tasksRank x s := by
  unfold tasksRank
  rw [tasksOn_modifyTask hf]
  refine sum_lt_sum (fun j _ => ?_) ⟨t, ht, ?_⟩
  · by_cases hjt : j = t
    · rw [hjt, modifyTask_same]
      exact hweight.le
    · rw [modifyTask_other f hjt]
  · rw [modifyTask_same]
    exact hweight

theorem weight_pos (task : XprtTask) : 0 < task.weight := by
  unfold XprtTask.weight
  split <;> decide

theorem tasksRank_exitTask (ht : t ∈ s.tasksOn x) : tasksRank x (exitTask s t) < tasksRank x s := by
  unfold tasksRank
  rw [tasksOn_exitTask, ← add_sum_erase _ _ ht]
  exact Nat.lt_add_of_pos_left (weight_pos _)

/-- The transport is diverted and its recovery has not started. -/
def Diverted (x : XprtPtr) (s : FailoverWorld) : Prop :=
  (s.xprt x).nDiversion = true ∧ (s.xprt x).nRecovery = false

/-- Some step starts the recovery or brings the tasks nearer to their end. -/
def Nearer (x : XprtPtr) (s : FailoverWorld) : Prop :=
  ∃ e, FailoverEvent.Enabled s e ∧ (KeepsRecovery s e ∧ e.Works) ∧
    (((e.apply s).xprt x).nRecovery = true ∨ Diverted x (e.apply s) ∧ tasksRank x (e.apply s) < tasksRank x s)

section

variable (hok : XprtOk s x) (hdiv : Diverted x s) (ht : t ∈ s.tasksOn x)
include hok hdiv ht

theorem XprtOk.request_of_diverted (hactive : (s.tasks t).stage = .active) : (s.tasks t).kind = .request := by
  by_contra hkind
  have hcall : t ∈ s.calls x := mem_calls.2 ⟨ht, hkind, hactive⟩
  rw [hok.calls_eq_empty hdiv.2] at hcall
  exact notMem_empty t hcall

theorem request_progress (hactive : (s.tasks t).stage = .active) (hcov : (s.tasks t).rqBuffer = false → Covered s t) :
    Nearer x s := by
  have hkind : (s.tasks t).kind = .request := hok.request_of_diverted hdiv ht hactive
  refine ⟨.callDone t .ok none, ⟨(mem_tasksOn.1 ht).1, hactive, by simp [FreshTask], fun hk => absurd hkind hk⟩,
    ⟨⟨?_, ?_, hcov⟩, rfl⟩, .inr ?_⟩
  · exact fun _ => .inl rfl
  · exact fun _ => .inl rfl
  · rw [FailoverEvent.apply, callDone_request hkind]
    refine ⟨hdiv, tasksRank_modifyTask (fun _ => rfl) ht ?_⟩
    cases hbuffer : (s.tasks t).rqBuffer with
    | true | false => simp [XprtTask.weight, hactive, hbuffer]

theorem beside_progress {j : TaskPtr} (hj : j ∈ s.tasksOn x) (hjt : j ≠ t) (hwill : (s.tasks j).WillFree) : Nearer x s := by
  obtain ⟨hrun, htx⟩ := mem_tasksOn.1 ht
  have hcov : Covered s t := fun _ _ => ⟨j, by rwa [htx], hjt, hwill⟩
  cases hstage : (s.tasks t).stage with
  | active => exact request_progress hok hdiv ht hstage fun _ => hcov
  | done =>
    refine ⟨.release t none, ⟨hrun, hstage, by simp [FreshTask]⟩, ⟨.inr hcov, trivial⟩, .inr ?_⟩
    have hfree : xprtRdmaFree s x none = s := by
      rcases rdmaFree_cases s x none with ⟨hs, -⟩ | ⟨-, -, hq, -⟩
      · exact hs
      · exact absurd (hok.not_covered ht hq hj) hjt
    have hrelease : xprtRelease s t none = s.setStage t .released := by
      simp [xprtRelease, htx, hfree, ite_self]
    rw [FailoverEvent.apply, hrelease]
    refine ⟨hdiv, tasksRank_modifyTask (fun _ => rfl) ht ?_⟩
    simp [XprtTask.weight, hstage]
  | released =>
    refine ⟨.exit t, ⟨hrun, hstage⟩, ⟨trivial, trivial⟩, .inr ⟨?_, tasksRank_exitTask ht⟩⟩
    subst htx
    have hr : (exitTask s t).xprt (s.tasks t).tkXprt =
        { s.xprt (s.tasks t).tkXprt with queuelen := (s.xprt (s.tasks t).tkXprt).queuelen - 1 } :=
      PortWorld.modifyXprt_same _ _ _
    unfold Diverted
    rw [FailoverEvent.apply, hr]
    exact hdiv

/-- The last task on a diverted transport gets nearer to its end, and then starts the recovery. -/
theorem last_progress (hlast : ∀ j ∈ s.tasksOn x, j = t) (hwill : (s.tasks t).WillFree) : Nearer x s := by
  obtain ⟨hrun, htx⟩ := mem_tasksOn.1 ht
  rcases hwill with hactive | ⟨hdone, hbuffer⟩
  · cases hbuffer : (s.tasks t).rqBuffer with
    | false =>
      refine ⟨.allocate t, ⟨hrun, hactive⟩, ⟨trivial, trivial⟩, .inr ⟨hdiv, ?_⟩⟩
      refine tasksRank_modifyTask (f := fun task => { task with rqBuffer := true }) (fun _ => rfl) ht ?_
      simp [XprtTask.weight, hactive, hbuffer]
    | true => exact request_progress hok hdiv ht hactive fun hno => absurd (hbuffer.symm.trans hno) (by simp)
  obtain ⟨j, hj⟩ := Infinite.exists_notMem_finset s.running
  have hnew : FreshTask s (some j) := fun i hi => by
    cases hi
    exact hj
  have hq : (s.xprt x).queuelen = 1 := by
    have hone : s.tasksOn x = {t} := eq_singleton_iff_unique_mem.2 ⟨ht, hlast⟩
    rw [hok.queuelen, hone]
    rfl
  refine ⟨.release t (some j), ⟨hrun, hdone, hnew⟩, ⟨.inl ⟨hbuffer, by rw [htx]; exact hq, rfl⟩, trivial⟩, .inl ?_⟩
  rcases rdmaFree_cases s x (some j) with ⟨-, hno⟩ | ⟨-, -, -, hs⟩
  · exact absurd ⟨hdiv.1, hdiv.2, hq⟩ hno
  have hrelease : xprtRelease s t (some j) = (xprtRdmaFree s x (some j)).setStage t .released := by
    simp [xprtRelease, htx, hbuffer]
  rw [FailoverEvent.apply, hrelease, hs]
  exact callNull_nRecovery.trans (congrArg RpcXprt.nRecovery (FailoverWorld.modifyXprt_same _))

end

/-- **Every transport can come back.** -/
theorem canHeal_of_sound (h : Sound s) (hx : x ∈ s.ports.live) : CanHeal s x := by
  have hrecovering : ∀ s, Sound s ∧ x ∈ s.ports.live ∧ (s.xprt x).nRecovery = true → CanHeal s x := by
    rintro s ⟨h, hx, hrec⟩
    obtain ⟨t, ht⟩ := (h.recovers x hx).called hrec
    exact canHeal_of_call h hx ht
  cases hrec : (s.xprt x).nRecovery with
  | true => exact hrecovering s ⟨h, hx, hrec⟩
  | false =>
    cases hdiv : (s.xprt x).nDiversion with
    | false => exact CanReach.refl ⟨hdiv, hrec⟩
    | true =>
      refine CanReach.bind (P := fun s => Sound s ∧ x ∈ s.ports.live ∧ (s.xprt x).nRecovery = true) ?_ hrecovering
      refine canReach_of_rank (I := fun s => Sound s ∧ x ∈ s.ports.live ∧ Diverted x s) (tasksRank x) ?_
        ⟨h, hx, hdiv, hrec⟩
      rintro s ⟨h, hx, hdiv⟩ -
      obtain ⟨t, ht, hwill⟩ := (h.recovers x hx).watched hdiv.1 hdiv.2
      have hprogress : Nearer x s := by
        by_cases hbeside : ∃ j ∈ s.tasksOn x, j ≠ t
        · obtain ⟨j, hj, hjt⟩ := hbeside
          exact beside_progress (h.ok.xprts x hx) hdiv hj ht (Ne.symm hjt) hwill
        refine last_progress (h.ok.xprts x hx) hdiv ht (fun j hj => ?_) hwill
        by_contra hjt
        exact hbeside ⟨j, hj, hjt⟩
      obtain ⟨e, hen, hkeep, hnext⟩ := hprogress
      have hx' : x ∈ (e.apply s).ports.live := by
        rw [(apply_local h.ok hen).booked.live]
        exact hx
      have h' : Sound (e.apply s) := h.apply hen hkeep.1
      refine ⟨e, e.apply s, hkeep, step_of_enabled hen, hnext.imp (fun hr => ⟨h', hx', hr⟩) fun hd => ?_⟩
      exact ⟨⟨h', hx', hd.1⟩, hd.2⟩

end

/-! ## Runs -/

structure FailsOver (s : FailoverWorld) (x : XprtPtr) : Prop where
  called : (s.xprt x).nRecovery = true → (s.calls x).Nonempty
  manned : (s.xprt x).nDiversion = true → (s.tasksOn x).Nonempty ∨ (s.xprt x).nRecovery = true
  original : (s.xprt x).connected = true → (s.xprt x).nDiversion = false → (s.xprt x).nRecovery = false →
    (s.xprt x).AtOrig
  heals : CanHeal s x

/-- A mount before its first task. -/
structure FailoverWorld.Fresh (s : FailoverWorld) : Prop where
  ports : s.ports.Fresh
  few : s.ports.live.card < 2 ^ 31
  idle : s.running = ∅
  xprts : ∀ x ∈ s.ports.live, (s.xprt x).nDiversion = false ∧ (s.xprt x).nRecovery = false ∧
    (s.xprt x).queuelen = 0 ∧ (s.xprt x).AtOrig

theorem FailoverWorld.Fresh.sound {s : FailoverWorld} (h : s.Fresh) : Sound s := by
  have hon : ∀ x, s.tasksOn x = ∅ := fun x => by simp [FailoverWorld.tasksOn, h.idle]
  have hcalls : ∀ x, s.calls x = ∅ := fun x => by simp [FailoverWorld.calls, hon]
  refine ⟨⟨h.ports.tables, h.few, h.ports.accounted, by simp [h.idle], fun x hx => ?_⟩, fun x hx => ?_⟩
  · obtain ⟨-, -, hq, horig⟩ := h.xprts x hx
    refine ⟨⟨fun _ => horig, fun _ => horig, fun _ _ _ => horig⟩, ?_, ?_, ?_, ?_, ?_⟩
    · rw [hq, hon]
      rfl
    all_goals simp [hcalls]
  · exact recovers_healed ⟨(h.xprts x hx).1, (h.xprts x hx).2.1⟩

theorem Sound.failsOver {s : FailoverWorld} (h : Sound s) {x : XprtPtr} (hx : x ∈ s.ports.live) : FailsOver s x where
  called := (h.recovers x hx).called
  manned hdiv := by
    cases hrec : (s.xprt x).nRecovery with
    | true => exact .inr rfl
    | false =>
      obtain ⟨t, ht, -⟩ := (h.recovers x hx).watched hdiv hrec
      exact .inl ⟨t, ht⟩
  original _ hdiv _ := (h.ok.xprts x hx).port.restored hdiv
  heals := canHeal_of_sound h hx

/-- **Failover heals.**  In a run from a fresh mount a transport is only diverted to a live port in
least use. If moreover no step loses a recovery, then in every state a transport in recovery has a
call, a diverted one has a task or is in recovery, a connected one without a flag uses its original
port, and every transport can come back. -/
theorem failover_heals (s : FailoverWorld) (es : List FailoverEvent) (hfresh : s.Fresh)
    (hkeep : EachStep failoverStep KeepsRecovery s es) :
    EachStep failoverStep DivertsWell s es ∧
      Always failoverStep (fun s => ∀ x ∈ s.ports.live, FailsOver s x) s es := by
  have hsound : Sound s := hfresh.sound
  constructor
  · refine eachStep_of_invariant (J := FailoverOk) (fun s e s' h hstep => ?_) (fun s e s' h _ => divertsWell_of_ok h) hsound.ok
    obtain ⟨hen, rfl⟩ := failoverStep_eq_some.1 hstep
    exact apply_failoverOk h hen
  · refine always_of_eachStep (J := Sound) (fun h hC hstep => ?_) (fun h x hx => h.failsOver hx) hsound hkeep
    obtain ⟨hen, rfl⟩ := failoverStep_eq_some.1 hstep
    exact h.apply hen hC

/-- The table counts the transports, each uses the port that its flags say, and at most one call recovers it. -/
structure TableRight (s : FailoverWorld) : Prop where
  accounted : PortsAccounted s.ports
  port : ∀ x ∈ s.ports.live, PortOk s.ports (s.xprt x)
  call : ∀ x ∈ s.ports.live, ∀ t ∈ s.calls x, (s.xprt x).nRecovery = true ∧ (∀ t' ∈ s.calls x, t' = t) ∧
    ((s.tasks t).transmitted = true → (s.xprt x).AtOrig)

theorem FailoverOk.tableRight {s : FailoverWorld} (h : FailoverOk s) : TableRight s where
  accounted := h.accounted
  port x hx := (h.xprts x hx).port
  call x hx t ht :=
    have hok := h.xprts x hx
    ⟨hok.calling t ht, hok.single t ht, hok.transmitted t ht⟩

/-- **The table is always right**, also when a recovery is lost. -/
theorem failover_ok (s : FailoverWorld) (es : List FailoverEvent) (hfresh : s.Fresh) : Always failoverStep TableRight s es := by
  refine always_imp (fun _ => FailoverOk.tableRight) (always_of_invariant (fun s e s' h hstep => ?_) hfresh.sound.ok)
  obtain ⟨hen, rfl⟩ := failoverStep_eq_some.1 hstep
  exact apply_failoverOk h hen

def duoFailover : FailoverWorld where
  ports :=
    { xprts := fun x =>
        { xprtClass := .rdma
          localport := some { family := .inet, addr := x + 1 }
          origLocalport := some { family := .inet, addr := x + 1 }
          localportUsage := some 0 }
      usages := fun _ =>
        { ports := [{ addr := { family := .inet, addr := 1 } }, { addr := { family := .inet, addr := 2 } }]
          diversionEnabled := true }
      live := {0, 1} }
  tasks := fun _ => { tkXprt := 0 }
  running := ∅

theorem duoFailover_fresh : duoFailover.Fresh where
  ports :=
    { tables := ⟨fun _ => show (duoFailover.ports.usages 0).ports.Pairwise _ by decide, by decide⟩
      idle := by decide
      zero := fun _ => show ∀ port ∈ (duoFailover.ports.usages 0).ports, _ by decide }
  few := by decide
  idle := rfl
  xprts := by
    intro x _
    exact ⟨rfl, rfl, rfl, rfl⟩

/-- Transport 0 connects. The port of transport 1 is dead, so it is diverted with two tasks on it. -/
def divertedPair : List FailoverEvent :=
  [.start 10 0, .connect 10, .connectWorker 0 .connected, .start 11 1, .start 12 1, .allocate 11, .allocate 12,
    .connect 11, .connectWorker 1 .refused, .connect 11, .connectWorker 1 .connected, .callDone 11 .ok none,
    .callDone 12 .ok none]

/-- The tasks leave one after the other, and the call brings the transport back. -/
theorem failover_heals_oneByOne :
    let es := divertedPair ++ [.release 11 none, .exit 11, .release 12 (some 13), .exit 12, .close 1, .connect 13,
      .connectWorker 1 .connected, .allocate 13, .transmit 13, .callDone 13 .ok none]
    EachStep failoverStep DivertsWell duoFailover es ∧
      Always failoverStep (fun s => ∀ x ∈ s.ports.live, FailsOver s x) duoFailover es :=
  failover_heals duoFailover _ duoFailover_fresh (by decide)

theorem failover_ok_divertedPair : Always failoverStep TableRight duoFailover divertedPair :=
  failover_ok _ _ duoFailover_fresh

/-- The tasks are freed at once: neither is the last, and the transport stays diverted without a task. -/
theorem freed_at_once_stays_diverted :
    ¬ Always failoverStep (fun s => ∀ x ∈ s.ports.live, FailsOver s x) duoFailover
      (divertedPair ++ [.release 11 none, .release 12 none, .exit 11, .exit 12]) := by
  intro hall
  have hend := run_of_always hall rfl
  have hmanned := (hend 1 (by decide)).manned rfl
  revert hmanned
  decide

end Vastnfs.Sunrpc
