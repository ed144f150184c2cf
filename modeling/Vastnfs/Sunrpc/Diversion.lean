import Vastnfs.Sunrpc.Failover

/-!
# Diverted transports

What the flags `XPRT_N_DIVERSION` and `XPRT_N_RECOVERY` of a transport say about its local port,
whatever happens to the calls that are to bring it back.

* `reconnectDivert_cases`: what an attempt to connect does to the local port.
* `Local`: an event changes one transport and the tasks on it.
* `XprtOk`: what holds of a transport in every state.
* `apply_failoverOk`: every event keeps it.
-/

namespace Vastnfs.Sunrpc

open Runs Tally Finset

/-! ## The record of a transport after a change of its connection -/

def RpcXprt.AtOrig (r : RpcXprt) : Prop := r.localport = r.origLocalport

def Divertible (w : PortWorld) (r : RpcXprt) : Prop :=
  ∃ origLocalport u, r.origLocalport = some origLocalport ∧ r.localportUsage = some u ∧
    (w.usages u).diversionEnabled = true

def RpcXprt.closed (r : RpcXprt) : RpcXprt := { r with closeWait := false, connected := false }

def RpcXprt.attempting (r : RpcXprt) : RpcXprt :=
  { r with
    closeWait := false
    connected := false
    connecting := true
    reconnectionAttempts := r.reconnectionAttempts + 1 }

theorem closed_eq {r : RpcXprt} (hwait : r.closeWait = false) (hconn : r.connected = false) : r.closed = r := by
  cases r
  simp only at hwait hconn
  rw [RpcXprt.closed, hwait, hconn]

section

variable {w : PortWorld} {x : XprtPtr}

theorem clearConnected_xprt : (xprtClearConnected w x).xprts x = { w.xprts x with connected := false } := by
  obtain h | ⟨hconn, u, localport, hbook⟩ := bit_or_booked w x false
  · simp [clearConnected_bit h]
  · simp [clearConnected_table hconn hbook]

theorem setConnected_xprt :
    ∃ d, (xprtSetConnected w x).xprts x = { w.xprts x with connected := true, localportDiversion := d } := by
  obtain h | ⟨hconn, u, localport, hbook⟩ := bit_or_booked w x true
  · exact ⟨_, by rw [setConnected_bit h, PortWorld.modifyXprt_same]⟩
  · exact ⟨_, by rw [setConnected_table hconn hbook, PortWorld.modifyXprt_same, PortWorld.setUsage_xprts]⟩

/-- **An attempt to connect**: a transport that cannot be diverted stays as it is, and any other goes
to its original port or, if it may try, to another one. -/
theorem reconnectDivert_cases (w : PortWorld) (x : XprtPtr) (tryDivert : Bool) :
    (¬ Divertible w (w.xprts x) ∧ xprtRdmaReconnectDivert w x tryDivert = w) ∨
    (∃ d, (xprtRdmaReconnectDivert w x tryDivert).xprts x =
      { w.xprts x with localportDiversion := d, localport := (w.xprts x).origLocalport }) ∨
    (tryDivert = true ∧ Divertible w (w.xprts x) ∧ ∃ origLocalport u i addr usage',
      (w.xprts x).origLocalport = some origLocalport ∧ (w.xprts x).localportUsage = some u ∧
      xprtPortusageDivert ((undivertXprt w x u).usages u) origLocalport = (usage', some (i, addr)) ∧
      (xprtRdmaReconnectDivert w x tryDivert).usages u = usage' ∧
      (xprtRdmaReconnectDivert w x tryDivert).xprts x =
        { w.xprts x with localportDiversion := some i, localport := some addr, nDiversion := true }) := by
  unfold xprtRdmaReconnectDivert
  cases horig : (w.xprts x).origLocalport with
  | none => exact .inl ⟨fun ⟨_, _, h, _⟩ => by simp [horig] at h, rfl⟩
  | some origLocalport =>
    cases hu : (w.xprts x).localportUsage with
    | none => exact .inl ⟨fun ⟨_, _, _, h, _⟩ => by simp [hu] at h, rfl⟩
    | some u =>
      dsimp only
      cases hen : (w.usages u).diversionEnabled with
      | false =>
        refine .inl ⟨?_, by simp⟩
        rintro ⟨_, v, -, hv, h⟩
        rw [hu] at hv
        cases hv
        rw [hen] at h
        cases h
      | true =>
        cases tryDivert with
        | false =>
          refine .inr (.inl ⟨(xprtPortusageUndivert (w.usages u) (w.xprts x).localportDiversion).2, ?_⟩)
          simp [xprtRdmaReconnectRestore, undivertXprt, horig]
        | true =>
          simp only [Bool.not_true, Bool.false_eq_true, if_false]
          unfold divertXprt
          cases hd : xprtPortusageDivert ((undivertXprt w x u).usages u) origLocalport with
          | mk usage' target =>
            cases target with
            | none =>
              refine .inr (.inl ⟨none, ?_⟩)
              simp [xprtRdmaReconnectRestore, undivertXprt, horig]
            | some target =>
              obtain ⟨i, addr⟩ := target
              refine .inr (.inr ⟨trivial, ⟨origLocalport, u, horig, hu, hen⟩, origLocalport, u, i, addr, usage', rfl, rfl,
                hd, by simp, ?_⟩)
              simp [undivertXprt]

theorem autoclose_xprt : (xprtAutoclose w x).xprts x = (w.xprts x).closed := by
  rw [xprtAutoclose, xprtRdmaClose, xprtDisconnectDone, clearConnected_xprt, PortWorld.modifyXprt_same]
  rfl

theorem booked_autoclose (hok : TablesOk w) : Booked w (xprtAutoclose w x) x := by
  refine Booked.clearConnected ?_ hok
  exact (Booked.refl w x).neutral _ fun _ => rfl

theorem rdmaConnect_attempt {w₀ : PortWorld} (hb : Booked w w₀ x) (hr : w₀.xprts x = (w.xprts x).closed) :
    ∃ w₁ tryDivert, Booked w w₁ x ∧
      xprtRdmaConnect (w₀.modifyXprt x fun r => { r with connecting := true }) x =
        xprtRdmaReconnectDivert w₁ x tryDivert ∧
      ((w.xprts x).nRecovery = true → tryDivert = false) ∧ w₁.xprts x = (w.xprts x).attempting := by
  refine ⟨_, _, ?_, rfl, fun hrec => ?_, ?_⟩
  · refine Booked.neutral ?_ _ fun _ => rfl
    exact hb.neutral _ fun _ => rfl
  · simp [hr, hrec, RpcXprt.closed]
  · simp [hr, RpcXprt.closed, RpcXprt.attempting]

theorem connect_cases (hok : TablesOk w) :
    ((w.xprts x).closeWait = false ∧ (w.xprts x).connected = true ∧ xprtConnect w x = w) ∨
    ∃ w₁ tryDivert, Booked w w₁ x ∧ xprtConnect w x = xprtRdmaReconnectDivert w₁ x tryDivert ∧
      ((w.xprts x).nRecovery = true → tryDivert = false) ∧ w₁.xprts x = (w.xprts x).attempting := by
  unfold xprtConnect
  cases hwait : (w.xprts x).closeWait with
  | true =>
    have hconn : ((xprtAutoclose w x).xprts x).connected = false := by
      rw [autoclose_xprt]
      rfl
    refine .inr ?_
    simp only [if_true, hconn, Bool.false_eq_true, if_false]
    exact rdmaConnect_attempt (booked_autoclose hok) autoclose_xprt
  | false =>
    cases hconn : (w.xprts x).connected with
    | true => exact .inl ⟨rfl, rfl, by simp [hconn]⟩
    | false =>
      refine .inr ?_
      simp only [Bool.false_eq_true, if_false, hconn]
      exact rdmaConnect_attempt (.refl w x) (closed_eq hwait hconn).symm

theorem reconnectDivert_xprt (w : PortWorld) (x : XprtPtr) (tryDivert : Bool) :
    ∃ d p b, (xprtRdmaReconnectDivert w x tryDivert).xprts x =
      { w.xprts x with localportDiversion := d, localport := p, nDiversion := b } := by
  rcases reconnectDivert_cases w x tryDivert with ⟨-, hw⟩ | ⟨d, hr⟩ | ⟨-, -, -, u, i, addr, -, -, -, -, -, hr⟩
  · exact ⟨_, _, _, by rw [hw]⟩
  · exact ⟨_, _, _, hr⟩
  · exact ⟨_, _, _, hr⟩

theorem connect_nRecovery (hok : TablesOk w) : ((xprtConnect w x).xprts x).nRecovery = (w.xprts x).nRecovery := by
  rcases connect_cases (x := x) hok with ⟨-, -, hw⟩ | ⟨w₁, tryDivert, -, hw, -, hr⟩
  · rw [hw]
  obtain ⟨d, p, b, hr₂⟩ := reconnectDivert_xprt w₁ x tryDivert
  rw [hw, hr₂, hr]
  rfl

theorem connect_attempting (hok : TablesOk w) (hconn : (w.xprts x).connected = false) :
    ((xprtConnect w x).xprts x).connecting = true ∧ ((xprtConnect w x).xprts x).closeWait = false := by
  rcases connect_cases (x := x) hok with ⟨-, hup, -⟩ | ⟨w₁, tryDivert, -, hw, -, hr⟩
  · exact absurd (hconn.symm.trans hup) Bool.false_ne_true
  obtain ⟨d, p, b, hr₂⟩ := reconnectDivert_xprt w₁ x tryDivert
  rw [hw, hr₂, hr]
  exact ⟨rfl, rfl⟩

theorem booked_connect (hok : TablesOk w) : Booked w (xprtConnect w x) x := by
  rcases connect_cases hok with ⟨-, -, h⟩ | ⟨w₁, tryDivert, hbooked, h, -, hr⟩
  · rw [h]
    exact .refl w x
  rw [h]
  refine hbooked.trans (booked_reconnectDivert ?_ tryDivert)
  rw [hr]
  rfl

theorem connectWorker_xprt (w : PortWorld) (x : XprtPtr) (outcome : RdmaConnectOutcome) :
    ∃ c d n, (xprtRdmaConnectWorker w x outcome).xprts x = { w.xprts x with
        connecting := false, connected := c, localportDiversion := d, reconnectionAttempts := n } ∧
      (outcome = .connected → c = true) := by
  cases outcome with
  | noEndpoint => exact ⟨_, _, _, PortWorld.modifyXprt_same _ _ _, by simp⟩
  | refused => exact ⟨_, _, _, by simp [xprtRdmaConnectWorker, clearConnected_xprt]; exact ⟨rfl, rfl, rfl⟩, by simp⟩
  | connected =>
    obtain ⟨d, hd⟩ := setConnected_xprt (x := x)
      (w := (((xprtClearConnected w x).modifyXprt x fun r => { r with connecting := false }).modifyXprt x
        fun r => { r with reconnectionAttempts := 0 }))
    refine ⟨true, d, 0, ?_, fun _ => rfl⟩
    simp [xprtRdmaConnectWorker, hd, PortWorld.modifyXprt_same, clearConnected_xprt]

end

/-! ## What an event leaves alone -/

section

variable {s s' s'' : FailoverWorld} {x y : XprtPtr} {t j : TaskPtr} {kind : CallKind} {f : XprtTask → XprtTask}
  {stage : TaskStage}

theorem mem_tasksOn : t ∈ s.tasksOn x ↔ t ∈ s.running ∧ (s.tasks t).tkXprt = x := mem_filter

theorem mem_calls :
    t ∈ s.calls x ↔ t ∈ s.tasksOn x ∧ (s.tasks t).kind ≠ .request ∧ (s.tasks t).stage = .active := mem_filter

theorem FailoverWorld.modifyXprt_same (f : RpcXprt → RpcXprt) : (s.modifyXprt x f).xprt x = f (s.xprt x) :=
  PortWorld.modifyXprt_same _ _ _

theorem modifyTask_same (f : XprtTask → XprtTask) : (s.modifyTask t f).tasks t = f (s.tasks t) := if_pos rfl

theorem modifyTask_other (f : XprtTask → XprtTask) (hj : j ≠ t) : (s.modifyTask t f).tasks j = s.tasks j :=
  if_neg hj

theorem startTask_same (kind : CallKind) : (startTask s t x kind).tasks t = { tkXprt := x, kind := kind } := if_pos rfl

theorem startTask_other (kind : CallKind) (hj : j ≠ t) : (startTask s t x kind).tasks j = s.tasks j :=
  if_neg hj

theorem tasksOn_modifyTask (hf : ∀ task, (f task).tkXprt = task.tkXprt) :
    (s.modifyTask t f).tasksOn x = s.tasksOn x := by
  refine filter_congr fun j _ => ?_
  by_cases hj : j = t
  · rw [hj, modifyTask_same, hf]
  · rw [modifyTask_other f hj]

theorem tasksOn_setStage : (s.setStage t stage).tasksOn x = s.tasksOn x :=
  tasksOn_modifyTask fun _ => rfl

theorem tasksOn_startTask (hnew : t ∉ s.running) :
    (startTask s t x kind).tasksOn y = if y = x then insert t (s.tasksOn y) else s.tasksOn y := by
  ext j
  by_cases hj : j = t
  · subst hj
    have hold : j ∉ s.tasksOn y := fun h => hnew (mem_tasksOn.1 h).1
    have hrun : j ∈ (startTask s j x kind).running := mem_insert_self _ _
    rw [mem_tasksOn, startTask_same]
    by_cases hy : y = x
    · simp [hy, hrun]
    · simp [hy, hrun, hold, Ne.symm hy]
  have hrun : j ∈ (startTask s t x kind).running ↔ j ∈ s.running := by simp [startTask, hj]
  have hon : j ∈ (startTask s t x kind).tasksOn y ↔ j ∈ s.tasksOn y := by
    rw [mem_tasksOn, mem_tasksOn, startTask_other kind hj, hrun]
  rw [hon]
  split <;> simp [hj]

theorem tasksOn_exitTask : (exitTask s t).tasksOn x = (s.tasksOn x).erase t := by
  ext j
  rw [mem_tasksOn, mem_erase, mem_tasksOn, ← and_assoc]
  exact and_congr_left' mem_erase

/-- Only transport `x`, the tasks on it and what the table has to show of it change. -/
structure Local (s s' : FailoverWorld) (x : XprtPtr) : Prop where
  booked : Booked s.ports s'.ports x
  tasksOn : ∀ y, y ≠ x → s'.tasksOn y = s.tasksOn y
  tasks : ∀ y, y ≠ x → ∀ t ∈ s.tasksOn y, s'.tasks t = s.tasks t

theorem Local.refl (s : FailoverWorld) (x : XprtPtr) : Local s s x := ⟨.refl _ _, fun _ _ => rfl, fun _ _ _ _ => rfl⟩

theorem Local.trans (h : Local s s' x) (h' : Local s' s'' x) : Local s s'' x where
  booked := h.booked.trans h'.booked
  tasksOn y hy := (h'.tasksOn y hy).trans (h.tasksOn y hy)
  tasks y hy t ht := by
    have ht' : t ∈ s'.tasksOn y := by rwa [h.tasksOn y hy]
    rw [h'.tasks y hy t ht', h.tasks y hy t ht]

theorem Local.xprt (h : Local s s' x) (hy : y ≠ x) : s'.xprt y = s.xprt y := h.booked.others y hy

theorem local_ports {w : PortWorld} (h : Booked s.ports w x) : Local s { s with ports := w } x :=
  ⟨h, fun _ _ => rfl, fun _ _ _ _ => rfl⟩

theorem local_modifyXprt (f : RpcXprt → RpcXprt)
    (hf : ∀ r, ((f r).connected, (f r).localport, (f r).localportUsage, (f r).localportDiversion) =
      (r.connected, r.localport, r.localportUsage, r.localportDiversion)) :
    Local s (s.modifyXprt x f) x :=
  local_ports ((Booked.refl s.ports x).neutral f hf)

theorem local_modifyTask (hf : ∀ task, (f task).tkXprt = task.tkXprt) (hx : (s.tasks t).tkXprt = x) :
    Local s (s.modifyTask t f) x where
  booked := .refl _ _
  tasksOn _ _ := tasksOn_modifyTask hf
  tasks y hy j hj := by
    refine modifyTask_other f ?_
    rintro rfl
    exact hy ((mem_tasksOn.1 hj).2.symm.trans hx)

theorem local_setStage (hx : (s.tasks t).tkXprt = x) : Local s (s.setStage t stage) x :=
  local_modifyTask (fun _ => rfl) hx

theorem local_startTask (hnew : t ∉ s.running) : Local s (startTask s t x kind) x where
  booked := (Booked.refl s.ports x).neutral _ fun _ => rfl
  tasksOn y hy := by rw [tasksOn_startTask hnew, if_neg hy]
  tasks y hy j hj := by
    refine startTask_other kind ?_
    rintro rfl
    exact hnew (mem_tasksOn.1 hj).1

theorem local_callNull {created : Option TaskPtr} (hnew : FreshTask s created) :
    Local s (rpcCallNullHelper s x kind created) x := by
  cases created with
  | none => exact .refl s x
  | some t => exact local_startTask (hnew t rfl)

theorem local_exitTask (hx : (s.tasks t).tkXprt = x) : Local s (exitTask s t) x where
  booked := by
    subst hx
    exact (Booked.refl s.ports _).neutral _ fun _ => rfl
  tasksOn y hy := by
    rw [tasksOn_exitTask]
    refine erase_eq_of_notMem fun h => hy ?_
    exact (mem_tasksOn.1 h).2.symm.trans hx
  tasks _ _ _ _ := rfl

end

/-! ## What always holds -/

/-- What the flags say about the local port. -/
structure PortOk (w : PortWorld) (r : RpcXprt) : Prop where
  restored : r.nDiversion = false → r.AtOrig
  fixed : ¬ Divertible w r → r.AtOrig
  recovering : r.nRecovery = true → (r.connected = true ∨ r.connecting = true) → r.closeWait = false → r.AtOrig

/-- What holds of a transport in every state. -/
structure XprtOk (s : FailoverWorld) (x : XprtPtr) : Prop where
  port : PortOk s.ports (s.xprt x)
  queuelen : (s.xprt x).queuelen = (s.tasksOn x).card
  calling : ∀ t ∈ s.calls x, (s.xprt x).nRecovery = true
  single : ∀ t ∈ s.calls x, ∀ t' ∈ s.calls x, t' = t
  transmitted : ∀ t ∈ s.calls x, (s.tasks t).transmitted = true → (s.xprt x).AtOrig
  added : ∀ t ∈ s.calls x, (s.tasks t).kind = .addXprt → (s.xprt x).nDiversion = false

section

variable {w w' : PortWorld} {r r' : RpcXprt} {x : XprtPtr}

theorem divertible_iff (hb : Booked w w' x) (horig : r'.origLocalport = r.origLocalport)
    (husage : r'.localportUsage = r.localportUsage) : Divertible w' r' ↔ Divertible w r := by
  unfold Divertible
  simp [horig, husage, fun u => (hb.samePorts u).diversionEnabled]

theorem PortOk.keep (h : PortOk w r) (hb : Booked w w' x)
    (hport : (r'.localport, r'.origLocalport, r'.localportUsage) = (r.localport, r.origLocalport, r.localportUsage))
    (hdiv : r'.nDiversion = false → r.nDiversion = false ∨ r.AtOrig)
    (hlink : r'.nRecovery = true → (r'.connected = true ∨ r'.connecting = true) → r'.closeWait = false → r.AtOrig) :
    PortOk w' r' := by
  simp only [Prod.mk.injEq] at hport
  obtain ⟨hport, horig, husage⟩ := hport
  have hat : r'.AtOrig ↔ r.AtOrig := by rw [RpcXprt.AtOrig, RpcXprt.AtOrig, hport, horig]
  refine ⟨fun hd => hat.2 ?_, fun hd => hat.2 ?_, fun hrec hup hwait => hat.2 (hlink hrec hup hwait)⟩
  · rcases hdiv hd with h' | h'
    · exact h.restored h'
    · exact h'
  · rw [divertible_iff hb horig husage] at hd
    exact h.fixed hd

end

section

variable {s s' : FailoverWorld} {x : XprtPtr} {t : TaskPtr} {created : Option TaskPtr} {status : CallStatus}
  {kind : CallKind} {f : RpcXprt → RpcXprt}

theorem XprtOk.next (h : XprtOk s x) (hport : PortOk s'.ports (s'.xprt x))
    (hq : (s'.xprt x).queuelen = (s'.tasksOn x).card)
    (hcalls : ∀ t ∈ s'.calls x, t ∈ s.calls x ∧ (s'.tasks t).kind = (s.tasks t).kind ∧
      ((s'.tasks t).transmitted = true → (s.tasks t).transmitted = true ∨ (s.xprt x).AtOrig))
    (hkeep : ∀ t ∈ s'.calls x, (s'.xprt x).nRecovery = true ∧ ((s.xprt x).AtOrig → (s'.xprt x).AtOrig) ∧
      ((s.xprt x).nDiversion = false → (s'.xprt x).nDiversion = false)) : XprtOk s' x where
  port := hport
  queuelen := hq
  calling t ht := (hkeep t ht).1
  single t ht t' ht' := h.single t (hcalls t ht).1 t' (hcalls t' ht').1
  transmitted t ht hsent := by
    refine (hkeep t ht).2.1 ?_
    rcases (hcalls t ht).2.2 hsent with hold | horig
    · exact h.transmitted t (hcalls t ht).1 hold
    · exact horig
  added t ht hkind := by
    rw [(hcalls t ht).2.1] at hkind
    exact (hkeep t ht).2.2 (h.added t (hcalls t ht).1 hkind)

theorem xprtOk_newCall (hport : PortOk s'.ports (s'.xprt x)) (hq : (s'.xprt x).queuelen = (s'.tasksOn x).card)
    (hrec : (s'.xprt x).nRecovery = true) (hcalls : ∀ j ∈ s'.calls x, j = t)
    (hsent : (s'.tasks t).transmitted = false) (hadd : (s'.tasks t).kind = .addXprt → (s'.xprt x).nDiversion = false) :
    XprtOk s' x where
  port := hport
  queuelen := hq
  calling _ _ := hrec
  single j hj j' hj' := (hcalls j' hj').trans (hcalls j hj).symm
  transmitted j hj h := by
    rw [hcalls j hj, hsent] at h
    cases h
  added j hj h := hadd (by rwa [hcalls j hj] at h)

theorem XprtOk.ports (h : XprtOk s x) {w : PortWorld} (hb : Booked s.ports w x)
    (hsame : ((w.xprts x).localport, (w.xprts x).origLocalport, (w.xprts x).localportUsage) =
      ((s.xprt x).localport, (s.xprt x).origLocalport, (s.xprt x).localportUsage))
    (hflags : ((w.xprts x).nDiversion, (w.xprts x).nRecovery, (w.xprts x).queuelen) =
      ((s.xprt x).nDiversion, (s.xprt x).nRecovery, (s.xprt x).queuelen))
    (hlink : (s.xprt x).nRecovery = true → ((w.xprts x).connected = true ∨ (w.xprts x).connecting = true) →
      (w.xprts x).closeWait = false → (s.xprt x).AtOrig) :
    XprtOk { s with ports := w } x := by
  simp only [Prod.mk.injEq] at hflags
  obtain ⟨hdiv, hrec, hq⟩ := hflags
  have hat : (s.xprt x).AtOrig → (w.xprts x).AtOrig := by
    simp only [Prod.mk.injEq] at hsame
    rw [RpcXprt.AtOrig, RpcXprt.AtOrig, hsame.1, hsame.2.1]
    exact id
  refine h.next ?_ ?_ (fun t ht => ⟨ht, rfl, .inl⟩) fun t ht => ⟨?_, hat, ?_⟩
  · exact h.port.keep hb hsame (fun hd => .inl (hdiv ▸ hd)) fun hr => hlink (hrec ▸ hr)
  · exact hq.trans h.queuelen
  · exact hrec.trans (h.calling t ht)
  · exact fun hd => hdiv.trans hd

theorem XprtOk.task (h : XprtOk s x) {f : XprtTask → XprtTask} (hf : ∀ task, (f task).tkXprt = task.tkXprt)
    (hcall : (f (s.tasks t)).kind ≠ .request → (f (s.tasks t)).stage = .active → t ∈ s.tasksOn x →
      t ∈ s.calls x ∧ (f (s.tasks t)).kind = (s.tasks t).kind ∧
      ((f (s.tasks t)).transmitted = true → (s.tasks t).transmitted = true ∨ (s.xprt x).AtOrig)) :
    XprtOk (s.modifyTask t f) x := by
  have hcalls : ∀ j ∈ (s.modifyTask t f).calls x, j ∈ s.calls x ∧
      ((s.modifyTask t f).tasks j).kind = (s.tasks j).kind ∧
      (((s.modifyTask t f).tasks j).transmitted = true → (s.tasks j).transmitted = true ∨ (s.xprt x).AtOrig) := by
    intro j hj
    rw [mem_calls, tasksOn_modifyTask hf] at hj
    obtain ⟨hon, hkind, hstage⟩ := hj
    by_cases hjt : j = t
    · subst hjt
      rw [modifyTask_same] at hkind hstage ⊢
      exact hcall hkind hstage hon
    · rw [modifyTask_other f hjt] at hkind hstage ⊢
      exact ⟨mem_calls.2 ⟨hon, hkind, hstage⟩, rfl, .inl⟩
  refine h.next h.port ?_ hcalls fun j hj => ⟨h.calling j (hcalls j hj).1, id, id⟩
  rw [tasksOn_modifyTask hf]
  exact h.queuelen

theorem XprtOk.idle (h : XprtOk s x) (hnone : s.calls x = ∅) (hport : PortOk s.ports (f (s.xprt x)))
    (hq : (f (s.xprt x)).queuelen = (s.xprt x).queuelen) : XprtOk (s.modifyXprt x f) x := by
  have hx : (s.modifyXprt x f).xprt x = f (s.xprt x) := s.modifyXprt_same f
  have hcalls : (s.modifyXprt x f).calls x = ∅ := hnone
  have hport' : PortOk (s.modifyXprt x f).ports (f (s.xprt x)) := ⟨hport.restored, hport.fixed, hport.recovering⟩
  refine h.next (by rwa [hx]) ?_ (by simp [hcalls]) (by simp [hcalls])
  rw [hx, hq]
  exact h.queuelen

theorem startTask_xprt (kind : CallKind) :
    (startTask s t x kind).xprt x = { s.xprt x with queuelen := (s.xprt x).queuelen + 1 } :=
  PortWorld.modifyXprt_same _ _ _

theorem callNull_nRecovery : ((rpcCallNullHelper s x kind created).xprt x).nRecovery = (s.xprt x).nRecovery := by
  cases created with
  | none => rfl
  | some t =>
    show ((startTask s t x kind).xprt x).nRecovery = _
    rw [startTask_xprt]

theorem XprtOk.startTask_port (h : XprtOk s x) (kind : CallKind) :
    PortOk (startTask s t x kind).ports ((startTask s t x kind).xprt x) := by
  rw [startTask_xprt]
  exact h.port.keep (x := x) ((Booked.refl s.ports x).neutral _ fun _ => rfl) rfl .inl h.port.recovering

theorem XprtOk.startTask_queuelen (h : XprtOk s x) (kind : CallKind) (hnew : t ∉ s.running) :
    ((startTask s t x kind).xprt x).queuelen = ((startTask s t x kind).tasksOn x).card := by
  have hold : t ∉ s.tasksOn x := fun ht => hnew (mem_tasksOn.1 ht).1
  rw [tasksOn_startTask hnew, if_pos rfl, card_insert_of_notMem hold, startTask_xprt]
  exact congrArg (· + 1) h.queuelen

theorem mem_calls_startTask {j : TaskPtr} (hnew : t ∉ s.running) (hj : j ∈ (startTask s t x kind).calls x) :
    (j = t ∧ kind ≠ .request) ∨ (j ∈ s.calls x ∧ (startTask s t x kind).tasks j = s.tasks j) := by
  rw [mem_calls, tasksOn_startTask hnew, if_pos rfl, mem_insert] at hj
  obtain ⟨hon, hkind, hstage⟩ := hj
  by_cases hjt : j = t
  · subst hjt
    rw [startTask_same] at hkind
    exact .inl ⟨rfl, hkind⟩
  · rw [startTask_other kind hjt] at hkind hstage
    exact .inr ⟨mem_calls.2 ⟨hon.resolve_left hjt, hkind, hstage⟩, startTask_other kind hjt⟩

section

variable (h : XprtOk s x)
include h

theorem XprtOk.request (hnew : t ∉ s.running) : XprtOk (startTask s t x .request) x := by
  have hcalls : ∀ j ∈ (startTask s t x .request).calls x,
      j ∈ s.calls x ∧ (startTask s t x .request).tasks j = s.tasks j := fun j hj =>
    (mem_calls_startTask hnew hj).resolve_left fun hc => hc.2 rfl
  refine h.next (h.startTask_port _) (h.startTask_queuelen _ hnew) (fun j hj => ?_) fun j hj => ?_
  · rw [(hcalls j hj).2]
    exact ⟨(hcalls j hj).1, rfl, .inl⟩
  · rw [startTask_xprt]
    exact ⟨h.calling j (hcalls j hj).1, id, id⟩

theorem XprtOk.call (hnone : s.calls x = ∅) (hrec : (s.xprt x).nRecovery = true) (hnew : t ∉ s.running)
    (hadd : kind = .addXprt → (s.xprt x).nDiversion = false) : XprtOk (startTask s t x kind) x := by
  refine xprtOk_newCall (t := t) (h.startTask_port _) (h.startTask_queuelen _ hnew) ?_ (fun j hj => ?_) ?_ ?_
  · rw [startTask_xprt]
    exact hrec
  · rcases mem_calls_startTask hnew hj with hj | hj
    · exact hj.1
    · rw [hnone] at hj
      exact absurd hj.1 (notMem_empty j)
  · rw [startTask_same]
  · rw [startTask_same, startTask_xprt]
    exact hadd

theorem XprtOk.callNull (hnone : s.calls x = ∅) (hrec : (s.xprt x).nRecovery = true) (hnew : FreshTask s created) :
    XprtOk (rpcCallNullHelper s x .revive created) x := by
  cases created with
  | none => exact h
  | some t => exact h.call hnone hrec (hnew t rfl) nofun

theorem XprtOk.setStage {stage : TaskStage} (hstage : stage ≠ .active) : XprtOk (s.setStage t stage) x :=
  h.task (fun _ => rfl) fun _ hactive _ => absurd hactive hstage

theorem XprtOk.calls_done (ht : t ∈ s.calls x) : (s.setStage t .done).calls x = ∅ := by
  refine eq_empty_of_forall_notMem fun j hj => ?_
  rw [mem_calls, tasksOn_setStage, FailoverWorld.setStage] at hj
  obtain ⟨hon, hkind, hstage⟩ := hj
  by_cases hjt : j = t
  · subst hjt
    rw [modifyTask_same] at hstage
    cases hstage
  · rw [modifyTask_other _ hjt] at hkind hstage
    exact hjt (h.single t ht j (mem_calls.2 ⟨hon, hkind, hstage⟩))

theorem XprtOk.answered (ht : t ∈ s.calls x) (hsent : (s.tasks t).transmitted = true)
    (hrec : (f (s.xprt x)).nRecovery = false)
    (hsame : ((f (s.xprt x)).localport, (f (s.xprt x)).origLocalport, (f (s.xprt x)).localportUsage) =
      ((s.xprt x).localport, (s.xprt x).origLocalport, (s.xprt x).localportUsage))
    (hq : (f (s.xprt x)).queuelen = (s.xprt x).queuelen) : XprtOk ((s.setStage t .done).modifyXprt x f) x := by
  have hdone : XprtOk (s.setStage t .done) x := h.setStage (by simp)
  have horig : (s.xprt x).AtOrig := h.transmitted t ht hsent
  refine hdone.idle (h.calls_done ht) (hdone.port.keep (.refl _ x) hsame (fun _ => .inr horig) fun hrec' => ?_) hq
  exact absurd (hrec.symm.trans hrec') Bool.false_ne_true

end

theorem callDone_request (hkind : (s.tasks t).kind = .request) :
    rpcCallDone s t status created = s.setStage t .done := by
  simp [rpcCallDone, hkind]

theorem callDone_revive (hkind : (s.tasks t).kind = .revive) :
    rpcCallDone s t status created =
      rpcCbNconnectReviveDone (s.setStage t .done) (s.tasks t).tkXprt status created := by
  simp [rpcCallDone, hkind]

theorem callDone_addXprt (hkind : (s.tasks t).kind = .addXprt) :
    rpcCallDone s t status created = rpcCbAddXprtDone (s.setStage t .done) (s.tasks t).tkXprt status created := by
  simp [rpcCallDone, hkind]

theorem XprtOk.callDone (h : XprtOk s x) (ht : t ∈ s.tasksOn x) (hactive : (s.tasks t).stage = .active)
    (hnew : FreshTask s created) (hok : (s.tasks t).kind ≠ .request → status = .ok → (s.tasks t).transmitted = true) :
    XprtOk (rpcCallDone s t status created) x := by
  have hx : (s.tasks t).tkXprt = x := (mem_tasksOn.1 ht).2
  have hdone : XprtOk (s.setStage t .done) x := h.setStage (by simp)
  cases hkind : (s.tasks t).kind with
  | request =>
    rw [callDone_request hkind]
    exact hdone
  | revive =>
    have hcall : (s.tasks t).kind ≠ .request := by simp [hkind]
    have hmem : t ∈ s.calls x := mem_calls.2 ⟨ht, hcall, hactive⟩
    rw [callDone_revive hkind, hx]
    cases status with
    | ok => exact h.answered hmem (hok hcall rfl) rfl rfl rfl
    | failed signalled =>
      cases signalled with
      | true => exact hdone
      | false => exact hdone.callNull (h.calls_done hmem) (h.calling t hmem) hnew
  | addXprt =>
    have hcall : (s.tasks t).kind ≠ .request := by simp [hkind]
    have hmem : t ∈ s.calls x := mem_calls.2 ⟨ht, hcall, hactive⟩
    rw [callDone_addXprt hkind, hx]
    cases status with
    | ok => exact h.answered hmem (hok hcall rfl) rfl rfl rfl
    | failed signalled => exact hdone.callNull (h.calls_done hmem) (h.calling t hmem) hnew

theorem XprtOk.calls_eq_empty (h : XprtOk s x) (hrec : (s.xprt x).nRecovery = false) : s.calls x = ∅ := by
  refine eq_empty_of_forall_notMem fun t ht => ?_
  rw [h.calling t ht] at hrec
  cases hrec

theorem rdmaFree_cases (s : FailoverWorld) (x : XprtPtr) (created : Option TaskPtr) :
    (xprtRdmaFree s x created = s ∧
      ¬ ((s.xprt x).nDiversion = true ∧ (s.xprt x).nRecovery = false ∧ (s.xprt x).queuelen = 1)) ∨
    ((s.xprt x).nDiversion = true ∧ (s.xprt x).nRecovery = false ∧ (s.xprt x).queuelen = 1 ∧
      xprtRdmaFree s x created =
        rpcCallNullHelper (s.modifyXprt x fun r => { r with nRecovery := true, closeWait := true }) x .revive
          created) := by
  unfold xprtRdmaFree
  cases hdiv : (s.xprt x).nDiversion with
  | false => exact .inl ⟨by simp, by simp⟩
  | true =>
    cases hrec : (s.xprt x).nRecovery with
    | true => exact .inl ⟨by simp, by simp⟩
    | false =>
      by_cases hq : (s.xprt x).queuelen = 1
      · refine .inr ⟨rfl, rfl, hq, ?_⟩
        simp [hq, xprtDiversionRecoveryKickoff, FailoverWorld.modifyXprt, PortWorld.modifyXprt_modifyXprt]
      · exact .inl ⟨by simp [hq], by simp [hq]⟩

section

variable (h : XprtOk s x)
include h

theorem XprtOk.rdmaFree (hnew : FreshTask s created) : XprtOk (xprtRdmaFree s x created) x := by
  rcases rdmaFree_cases s x created with ⟨hs, -⟩ | ⟨-, hrec, -, hs⟩
  · rw [hs]
    exact h
  have hnone : s.calls x = ∅ := h.calls_eq_empty hrec
  have hboth : XprtOk (s.modifyXprt x fun r => { r with nRecovery := true, closeWait := true }) x := by
    refine h.idle hnone ?_ rfl
    exact h.port.keep (.refl _ x) rfl .inl nofun
  rw [hs]
  refine hboth.callNull hnone ?_ hnew
  rw [FailoverWorld.modifyXprt_same]

theorem XprtOk.release (ht : (s.tasks t).tkXprt = x) (hnew : FreshTask s created) :
    XprtOk (xprtRelease s t created) x := by
  have hfree : XprtOk (if (s.tasks t).rqBuffer then xprtRdmaFree s (s.tasks t).tkXprt created else s) x := by
    rw [ht]
    split
    · exact h.rdmaFree hnew
    · exact h
  exact hfree.setStage (by simp)

theorem XprtOk.exit (ht : t ∈ s.tasksOn x) : XprtOk (exitTask s t) x := by
  have hx : (s.tasks t).tkXprt = x := (mem_tasksOn.1 ht).2
  have hr : (exitTask s t).xprt x = { s.xprt x with queuelen := (s.xprt x).queuelen - 1 } := by
    subst hx
    exact PortWorld.modifyXprt_same _ _ _
  have hcalls : ∀ j ∈ (exitTask s t).calls x, j ∈ s.calls x := by
    intro j hj
    rw [mem_calls, tasksOn_exitTask, mem_erase] at hj
    exact mem_calls.2 ⟨hj.1.2, hj.2⟩
  refine h.next ?_ ?_ (fun j hj => ⟨hcalls j hj, rfl, .inl⟩) fun j hj => ?_
  · rw [hr]
    exact h.port.keep (local_exitTask hx).booked rfl .inl h.port.recovering
  · have hpos : 0 < (s.tasksOn x).card := card_pos.2 ⟨t, ht⟩
    rw [hr, tasksOn_exitTask, card_erase_of_mem ht]
    dsimp only
    rw [h.queuelen]
    omega
  · rw [hr]
    exact ⟨h.calling j (hcalls j hj), id, id⟩

theorem XprtOk.testAndAdd (hempty : s.tasksOn x = ∅) (hdiv : (s.xprt x).nDiversion = false) (hnew : t ∉ s.running) :
    XprtOk (rpcClntTestAndAddXprt s x t) x := by
  have hnone : s.calls x = ∅ := by simp [FailoverWorld.calls, hempty]
  have hr : (s.modifyXprt x fun r => { r with nRecovery := true }).xprt x = { s.xprt x with nRecovery := true } :=
    s.modifyXprt_same _
  have hrec : XprtOk (s.modifyXprt x fun r => { r with nRecovery := true }) x := by
    refine h.idle hnone ?_ rfl
    exact h.port.keep (.refl _ x) rfl .inl fun _ _ _ => h.port.restored hdiv
  refine hrec.call hnone ?_ hnew fun _ => ?_
  · rw [hr]
  · rw [hr]
    exact hdiv

section

variable (htables : TablesOk s.ports)
include htables

/-- An attempt to connect goes to the original port when the transport is in recovery, and sets the
flag when it goes to another one. -/
theorem XprtOk.connect : XprtOk { s with ports := xprtConnect s.ports x } x := by
  rcases connect_cases (w := s.ports) (x := x) htables with ⟨-, -, hw⟩ | ⟨w₁, tryDivert, hb, hw, htry, hr⟩
  · rw [hw]
    exact h
  rw [hw]
  have hb₁ := booked_reconnectDivert (x := x) (by rw [hr]; rfl) tryDivert
  have hcases := reconnectDivert_cases w₁ x tryDivert
  generalize xprtRdmaReconnectDivert w₁ x tryDivert = w₂ at hb₁ hcases ⊢
  rcases hcases with ⟨hno, rfl⟩ | ⟨d, hr₂⟩ | ⟨ht, hyes, -, u, i, addr, -, -, -, -, -, hr₂⟩
  · -- the transport cannot be diverted
    have hfix : (s.xprt x).AtOrig := h.port.fixed ((divertible_iff hb (by rw [hr]; rfl) (by rw [hr]; rfl)).not.1 hno)
    refine h.ports (hb.trans hb₁) (by rw [hr]; rfl) (by rw [hr]; rfl) fun _ _ _ => hfix
  · -- the original port
    have hat : (w₂.xprts x).AtOrig := by
      rw [hr₂]
      rfl
    refine h.next ⟨fun _ => hat, fun _ => hat, fun _ _ _ => hat⟩ ?_ (fun t ht => ⟨ht, rfl, .inl⟩) fun t ht =>
      ⟨?_, fun _ => hat, ?_⟩
    · show (w₂.xprts x).queuelen = _
      rw [hr₂, hr]
      exact h.queuelen
    · show (w₂.xprts x).nRecovery = true
      rw [hr₂, hr]
      exact h.calling t ht
    · show _ → (w₂.xprts x).nDiversion = false
      rw [hr₂, hr]
      exact id
  -- another port, so there is no recovery
  have hrec : (s.xprt x).nRecovery = false := by
    rw [Bool.eq_false_iff]
    intro hrec
    rw [htry hrec] at ht
    cases ht
  have hnone : ∀ t, t ∉ s.calls x := fun t => by simp [h.calls_eq_empty hrec]
  refine h.next ⟨?_, ?_, ?_⟩ ?_ (fun t ht => absurd ht (hnone t)) fun t ht => absurd ht (hnone t)
  · show (w₂.xprts x).nDiversion = false → _
    rw [hr₂]
    nofun
  · intro hno
    refine absurd ((divertible_iff (x := x) hb₁ ?_ ?_).2 hyes) hno
    · have horig₂ := congrArg RpcXprt.origLocalport hr₂
      exact horig₂
    · have husage₂ := congrArg RpcXprt.localportUsage hr₂
      exact husage₂
  · show (w₂.xprts x).nRecovery = true → _
    rw [hr₂, hr]
    intro hrec'
    exact absurd (hrec.symm.trans hrec') Bool.false_ne_true
  · show (w₂.xprts x).queuelen = _
    rw [hr₂, hr]
    exact h.queuelen

theorem XprtOk.connectWorker (hconnecting : (s.xprt x).connecting = true)
    (outcome : RdmaConnectOutcome) : XprtOk { s with ports := xprtRdmaConnectWorker s.ports x outcome } x := by
  obtain ⟨c, d, n, hr, -⟩ := connectWorker_xprt s.ports x outcome
  refine h.ports (booked_connectWorker htables outcome) (by rw [hr]; rfl) (by rw [hr]; rfl) fun hrec _ hwait => ?_
  rw [hr] at hwait
  exact h.port.recovering hrec (.inr hconnecting) hwait

theorem XprtOk.close (hidle : (s.xprt x).connecting = false) :
    XprtOk { s with ports := xprtAutoclose s.ports x } x := by
  refine h.ports (booked_autoclose htables) (by rw [autoclose_xprt]; rfl) (by rw [autoclose_xprt]; rfl) ?_
  rw [autoclose_xprt]
  intro _ hup _
  rcases hup with hconn | hconnecting
  · cases hconn
  · exact absurd (hidle.symm.trans hconnecting) Bool.false_ne_true

end

theorem XprtOk.forceDisconnect : XprtOk (s.modifyXprt x fun r => { r with closeWait := true }) x := by
  have hr := s.ports.modifyXprt_same x fun r => { r with closeWait := true }
  refine h.ports (w := s.ports.modifyXprt x fun r => { r with closeWait := true }) ?_ (by rw [hr]; rfl) (by rw [hr]; rfl)
    fun _ _ hwait => ?_
  · exact (Booked.refl s.ports x).neutral _ fun _ => rfl
  · rw [hr] at hwait
    cases hwait

theorem XprtOk.allocate : XprtOk (s.modifyTask t fun task => { task with rqBuffer := true }) x := by
  refine h.task ?_ fun hkind hstage ht => ⟨mem_calls.2 ⟨ht, hkind, hstage⟩, rfl, .inl⟩
  exact fun _ => rfl

theorem XprtOk.restart : XprtOk (s.modifyTask t fun task => { tkXprt := task.tkXprt }) x := by
  refine h.task ?_ fun hkind => absurd rfl hkind
  exact fun _ => rfl

theorem XprtOk.transmit (hstage : (s.tasks t).stage = .active) (hconn : (s.xprt x).connected = true)
    (hwait : (s.xprt x).closeWait = false) :
    XprtOk (s.modifyTask t fun task => { task with transmitted := true }) x := by
  refine h.task ?_ fun hkind _ ht => ?_
  · exact fun _ => rfl
  · have hcall : t ∈ s.calls x := mem_calls.2 ⟨ht, hkind, hstage⟩
    exact ⟨hcall, rfl, fun _ => .inr (h.port.recovering (h.calling t hcall) (.inl hconn) hwait)⟩

end

end

/-! ## The events -/

structure FailoverOk (s : FailoverWorld) : Prop where
  tables : TablesOk s.ports
  few : s.ports.live.card < 2 ^ 31
  accounted : PortsAccounted s.ports
  hosts : ∀ t ∈ s.running, (s.tasks t).tkXprt ∈ s.ports.live
  xprts : ∀ x ∈ s.ports.live, XprtOk s x

variable {s s' : FailoverWorld} {x y : XprtPtr} {e : FailoverEvent} {created : Option TaskPtr} {t : TaskPtr}

theorem Local.calls (h : Local s s' x) (hy : y ≠ x) : s'.calls y = s.calls y := by
  unfold FailoverWorld.calls
  rw [h.tasksOn y hy]
  exact filter_congr fun t ht => by rw [h.tasks y hy t ht]

theorem XprtOk.frame (h : XprtOk s y) (hl : Local s s' x) (hy : y ≠ x) : XprtOk s' y := by
  have hr : s'.xprt y = s.xprt y := hl.xprt hy
  have htask : ∀ t ∈ s.calls y, s'.tasks t = s.tasks t := fun t ht => hl.tasks y hy t (mem_calls.1 ht).1
  refine h.next ?_ ?_ (fun t ht => ?_) fun t ht => ?_
  · rw [hr]
    exact ⟨h.port.restored, fun hd => h.port.fixed ((divertible_iff hl.booked rfl rfl).not.1 hd), h.port.recovering⟩
  · rw [hr, hl.tasksOn y hy]
    exact h.queuelen
  · rw [hl.calls hy] at ht
    rw [htask t ht]
    exact ⟨ht, rfl, .inl⟩
  · rw [hl.calls hy] at ht
    rw [hr]
    exact ⟨h.calling t ht, id, id⟩

theorem FailoverOk.xprt_live (h : FailoverOk s) (hen : e.Enabled s) : e.xprt s ∈ s.ports.live := by
  cases e with
  | start t x => exact hen.2
  | forceDisconnect x => exact hen
  | connectWorker x | close x | testAndAdd x => exact hen.1
  | allocate t | connect t | transmit t | callDone t | release t | restart t | exit t => exact h.hosts t hen.1

theorem local_callDone {status : CallStatus} (hnew : FreshTask s created) :
    Local s (rpcCallDone s t status created) (s.tasks t).tkXprt := by
  have hdone : Local s (s.setStage t .done) (s.tasks t).tkXprt := local_setStage rfl
  cases hkind : (s.tasks t).kind with
  | request =>
    rw [callDone_request hkind]
    exact hdone
  | revive =>
    rw [callDone_revive hkind]
    cases status with
    | ok => exact hdone.trans (local_modifyXprt _ fun _ => rfl)
    | failed signalled =>
      cases signalled with
      | true => exact hdone
      | false => exact hdone.trans (local_callNull hnew)
  | addXprt =>
    rw [callDone_addXprt hkind]
    cases status with
    | ok => exact hdone.trans (local_modifyXprt _ fun _ => rfl)
    | failed signalled => exact hdone.trans (local_callNull hnew)

theorem local_rdmaFree (hnew : FreshTask s created) : Local s (xprtRdmaFree s x created) x := by
  rcases rdmaFree_cases s x created with ⟨hs, -⟩ | ⟨-, -, -, hs⟩
  · rw [hs]
    exact .refl s x
  rw [hs]
  refine Local.trans ?_ (local_callNull hnew)
  exact local_modifyXprt _ fun _ => rfl

section

variable (ht : t ∈ s.running) (hnew : FreshTask s created)
include ht hnew

theorem callNull_tasks {kind : CallKind} : (rpcCallNullHelper s x kind created).tasks t = s.tasks t := by
  cases created with
  | none => rfl
  | some j =>
    refine startTask_other _ ?_
    rintro rfl
    exact hnew t rfl ht

theorem rdmaFree_tasks : (xprtRdmaFree s x created).tasks t = s.tasks t := by
  rcases rdmaFree_cases s x created with ⟨hs, -⟩ | ⟨-, -, -, hs⟩
  · rw [hs]
  · rw [hs]
    exact callNull_tasks (s := s.modifyXprt x fun r => { r with nRecovery := true, closeWait := true }) ht hnew

theorem local_release : Local s (xprtRelease s t created) (s.tasks t).tkXprt := by
  unfold xprtRelease
  split
  · refine (local_rdmaFree hnew).trans (local_setStage ?_)
    rw [rdmaFree_tasks ht hnew]
  · exact local_setStage rfl

end

variable (h : FailoverOk s)
include h

variable (hen : e.Enabled s)
include hen

/-- **An event changes one transport and the tasks on it.** -/
theorem apply_local : Local s (e.apply s) (e.xprt s) := by
  cases e with
  | start t x => exact local_startTask hen.1
  | allocate t => exact local_modifyTask (f := fun task => { task with rqBuffer := true }) (fun _ => rfl) rfl
  | connect t => exact local_ports (booked_connect h.tables)
  | connectWorker x outcome => exact local_ports (booked_connectWorker h.tables outcome)
  | forceDisconnect x => exact local_modifyXprt _ fun _ => rfl
  | close x => exact local_ports (booked_autoclose h.tables)
  | transmit t => exact local_modifyTask (f := fun task => { task with transmitted := true }) (fun _ => rfl) rfl
  | callDone t status created => exact local_callDone hen.2.2.1
  | release t created => exact local_release hen.1 hen.2.2
  | restart t => exact local_modifyTask (f := fun task => { tkXprt := task.tkXprt }) (fun _ => rfl) rfl
  | exit t => exact local_exitTask rfl
  | testAndAdd x t =>
    refine Local.trans ?_ (local_startTask hen.2.1)
    exact local_modifyXprt _ fun _ => rfl

theorem apply_xprtOk : XprtOk (e.apply s) (e.xprt s) := by
  have hx : XprtOk s (e.xprt s) := h.xprts _ (h.xprt_live hen)
  cases e with
  | start t x => exact hx.request hen.1
  | allocate t => exact hx.allocate
  | connect t => exact hx.connect h.tables
  | connectWorker x outcome => exact hx.connectWorker h.tables hen.2 outcome
  | forceDisconnect x => exact hx.forceDisconnect
  | close x => exact hx.close h.tables hen.2
  | transmit t => exact hx.transmit hen.2.1 hen.2.2.2.2.1 hen.2.2.2.2.2
  | callDone t status created =>
    obtain ⟨hrun, hstage, hnew, hok⟩ := hen
    exact hx.callDone (mem_tasksOn.2 ⟨hrun, rfl⟩) hstage hnew hok
  | release t created => exact hx.release rfl hen.2.2
  | restart t => exact hx.restart
  | exit t => exact hx.exit (mem_tasksOn.2 ⟨hen.1, rfl⟩)
  | testAndAdd x t => exact hx.testAndAdd hen.2.2.1 hen.2.2.2.2.1 hen.2.1

/-- **Every event keeps what holds in every state.** -/
theorem apply_failoverOk : FailoverOk (e.apply s) := by
  have hl := apply_local h hen
  have hx := h.xprt_live hen
  refine ⟨hl.booked.tablesOk h.tables, ?_, hl.booked.accounted hx h.tables h.accounted, ?_, ?_⟩
  · rw [hl.booked.live]
    exact h.few
  · intro t ht
    rw [hl.booked.live]
    by_cases hy : ((e.apply s).tasks t).tkXprt = e.xprt s
    · rw [hy]
      exact hx
    have hon : t ∈ s.tasksOn ((e.apply s).tasks t).tkXprt := by
      rw [← hl.tasksOn _ hy]
      exact mem_tasksOn.2 ⟨ht, rfl⟩
    rw [hl.tasks _ hy t hon]
    exact h.hosts t (mem_tasksOn.1 hon).1
  · intro y hy
    rw [hl.booked.live] at hy
    by_cases hyx : y = e.xprt s
    · rw [hyx]
      exact apply_xprtOk h hen
    · exact (h.xprts y hy).frame hl hyx

end Vastnfs.Sunrpc
