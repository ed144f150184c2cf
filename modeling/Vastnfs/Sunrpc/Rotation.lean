import Vastnfs.Lib.Runs
import Vastnfs.Sunrpc.Selection

/-!
# Round robin over remote ports

All remote ports of a client share one cursor, while a call for a port scans the list of that port
only.

* `getNext_eq_walk`: on idle transports a call moves `stride` places round the port's list.
* `rotInv_step`: a call that finds the cursor where the port left it, or where the port would
  start over anyway, keeps the port rotating.
* `fairTurns_of_keepsTurn`: in a run of such calls every port gives its transports even turns.
* `fairTurns_fails_across_ports`: two calls for different ports between them are enough to lose it.
-/

namespace Vastnfs.Sunrpc

open Cyclic Runs

/-! ## Calls -/

/-- A client's iterator as its callers see it: which transport each call got, oldest first. -/
structure IterRun where
  heap : XprtHeap
  cursor : Option XprtPtr
  picks : List (IterConf × XprtPtr) := []

def IterRun.picksFor (s : IterRun) (port : Nat) : List XprtPtr :=
  (s.picks.filter fun q => q.1.remotePortIdx == port).map Prod.snd

/-- One `xprt_iter_get_next`; the event carries the conf and the rounds that the congestion loop is
given. -/
def iterStep (xps : RpcXprtSwitch) (s : IterRun) (e : IterConf × Nat) : Option IterRun :=
  (xprtIterGetNext s.heap xps e.1 e.2 s.cursor).map fun r =>
    { heap := r.1, cursor := r.2.1, picks := s.picks ++ (r.2.2.map fun x => (e.1, x)).toList }

def getNextStep (xps : RpcXprtSwitch) (s : IterRun) (e : IterConf × Nat) : Option IterRun :=
  if e.1.flags.remotePortIdx then iterStep xps s e else none

/-- Between two successive selections of a transport for a port, every other transport that the
conf accepts for that port is selected once. -/
def FairTurns (xps : RpcXprtSwitch) (s : IterRun) : Prop :=
  ∀ c x, (c, x) ∈ s.picks → EvenTurns (eligible s.heap c xps) (s.picksFor c.remotePortIdx)

/-- How far one call moves on idle transports: `IGNORE_CONGESTION` runs the loop to its bound. -/
def stride (xps : RpcXprtSwitch) (conf : IterConf) : Nat :=
  if conf.flags.ignoreCongestion then xps.xpsNactive + 1 else 1

/-- The call does not lose the port's turn: the port is always asked for with one conf, the stride
fits the number of eligible transports, and the cursor is where the port left it, unless the port
was at its last eligible transport and starts over anyway. -/
def KeepsTurn (xps : RpcXprtSwitch) (s : IterRun) (e : IterConf × Nat) : Prop :=
  (∀ q ∈ s.picks, q.1.remotePortIdx = e.1.remotePortIdx → q.1 = e.1) ∧
    (eligible s.heap e.1 xps ≠ [] → Nat.Coprime (stride xps e.1) (eligible s.heap e.1 xps).length) ∧
    ∀ x, (s.picksFor e.1.remotePortIdx).getLast? = some x →
      s.cursor = some x ∨ (eligible s.heap e.1 xps).getLast? = some x

/-! ## One call -/

section

variable {h h' : XprtHeap} {conf : IterConf} {xps : RpcXprtSwitch} {cur cur' ret : Option XprtPtr} {x : XprtPtr}
  {j : Nat}

theorem roundrobin_go_ignore (hport : conf.flags.remotePortIdx = true)
    (hcong : conf.flags.ignoreCongestion = true) : ∀ (n fuel : Nat) (cur : Option XprtPtr) (count : Nat)
    {r : Option XprtPtr}, count + n = xps.xpsNactive →
    xprtSwitchFindNextEntryRoundrobin.go h conf xps fuel cur count = some r →
    r = walk (fun x => xprtIsActive (h x) conf) (xps.listByConf conf) (n + 1) cur
  | n, fuel + 1, cur, count, r, hcount, hgo => by
    have hstop : ∀ x, stopsAt h conf xps count x = decide (n = 0) := by
      intro x
      simp only [stopsAt, hcong, IterFlags.isZero_eq_false (Or.inr hport), Bool.not_true, Bool.false_and,
        Bool.false_or, Bool.not_false, Bool.true_and, decide_eq_decide]
      omega
    rw [roundrobin_go_succ] at hgo
    cases hmove : xprtSwitchFindNextEntryRoundrobin' h conf xps cur with
    | none =>
      rw [hmove, Option.some.injEq] at hgo
      rw [walk_eq_none (List.filter_eq_nil_iff.1 (roundrobin_move_none.1 hmove)), hgo]
    | some x =>
      simp only [hmove, hstop, decide_eq_true_eq] at hgo
      rw [walk, ← roundrobin_eq_next, hmove]
      cases n with
      | zero =>
        rw [if_pos rfl, Option.some.injEq] at hgo
        exact hgo.symm
      | succ n =>
        exact roundrobin_go_ignore hport hcong n fuel (some x) (count + 1) (by omega) hgo

theorem roundrobin_go_idle (hidle : ∀ x, (h x).queuelen = 0) (hcong : conf.flags.ignoreCongestion = false)
    (fuel : Nat) (cur : Option XprtPtr) (count : Nat) :
    xprtSwitchFindNextEntryRoundrobin.go h conf xps (fuel + 1) cur count =
      some (next (fun x => xprtIsActive (h x) conf) (xps.listByConf conf) cur) := by
  have hbelow : ∀ x, belowAverage h xps x = true := by simp [belowAverage, hidle, toUlong]
  rw [roundrobin_go_succ, roundrobin_eq_next]
  simp only [stopsAt, hcong, hbelow, Bool.not_false, Bool.and_self, Bool.true_or, if_true]
  cases next (fun x => xprtIsActive (h x) conf) (xps.listByConf conf) cur <;> rfl

/-- **On idle transports a call for a port moves `stride` places round the port's list.** -/
theorem getNext_eq_walk (hops : xps.xpsIterOps = .roundrobin) (hidle : ∀ x, (h x).queuelen = 0)
    (hport : conf.flags.remotePortIdx = true) {fuel : Nat}
    (hnext : xpiNext h xps conf fuel cur = some (cur', ret)) :
    cur' = ret ∧
      ret = walk (fun x => xprtIsActive (h x) conf) (xps.listByConf conf) (stride xps conf) cur := by
  simp only [xpiNext, hops, Option.map_eq_some_iff, Prod.mk.injEq] at hnext
  obtain ⟨r, hgo, rfl, rfl⟩ := hnext
  refine ⟨rfl, ?_⟩
  unfold xprtSwitchFindNextEntryRoundrobin at hgo
  unfold stride
  cases hcong : conf.flags.ignoreCongestion with
  | true => exact roundrobin_go_ignore hport hcong xps.xpsNactive fuel cur 0 (by omega) hgo
  | false =>
    cases fuel with
    | zero => cases hgo
    | succ fuel =>
      rw [roundrobin_go_idle hidle hcong, Option.some.injEq] at hgo
      exact hgo.symm

theorem isActive_addRef (hk : (h x).kref ≠ 0) (conf : IterConf) (y : XprtPtr) :
    xprtIsActive (h.addRef x y) conf = xprtIsActive (h y) conf := by
  have hkref : ((h y).kref + if y = x then 1 else 0) = 0 ↔ (h y).kref = 0 := by
    by_cases hyx : y = x
    · subst hyx
      simp [hk]
    · simp [hyx]
  simp only [XprtHeap.addRef_apply, xprtIsActive, bne, beq_eq_decide, hkref]

theorem eligible_addRef (hk : (h x).kref ≠ 0) (conf : IterConf) :
    eligible (h.addRef x) conf xps = eligible h conf xps :=
  List.filter_congr fun y _ => isActive_addRef hk conf y

theorem SwitchInv.addRef (hinv : SwitchInv h xps) : SwitchInv (h.addRef x) xps :=
  hinv.of_kref (fun y => by rw [XprtHeap.addRef_apply])
    fun y hy => XprtHeap.addRef_kref_ne_zero x (hinv.referenced y hy)

theorem SwitchInv.port_unique (hinv : SwitchInv h xps) {i : Nat} (hi : x ∈ xps.xpsRemoteportXprtList i)
    (hj : x ∈ xps.xpsRemoteportXprtList j) : i = j := by
  rw [hinv.byPort, List.mem_filter, decide_eq_true_eq] at hi hj
  exact hi.2.symm.trans hj.2

theorem mem_port_of_eligible (hport : conf.flags.remotePortIdx = true) (hx : x ∈ eligible h conf xps) :
    x ∈ xps.xpsRemoteportXprtList conf.remotePortIdx := by
  have hmem := (mem_eligible.1 hx).1
  rwa [RpcXprtSwitch.listByConf, if_pos hport] at hmem

theorem walk_turn (hinv : SwitchInv h xps) (hport : conf.flags.remotePortIdx = true) {y : XprtPtr}
    (hy : (eligible h conf xps)[j]? = some y) (hcur : cur = some y ∨ (eligible h conf xps).getLast? = some y)
    (hoff : ∀ c, cur = some c → c ∈ xps.xpsRemoteportXprtList conf.remotePortIdx → c = y) :
    walk (fun x => xprtIsActive (h x) conf) (xps.listByConf conf) (stride xps conf) cur =
      (eligible h conf xps)[(j + stride xps conf) % (eligible h conf xps).length]? := by
  have hnodup := hinv.nodup_listByConf conf
  obtain ⟨hj, rfl⟩ := List.getElem?_eq_some_iff.1 hy
  by_cases hon : cur = some (eligible h conf xps)[j]
  · rw [hon]
    exact walk_getElem hnodup _ j hj
  -- the cursor is elsewhere, so the scan starts over, and `y` was the last place of the round
  have hlast : j = (eligible h conf xps).length - 1 := by
    have heq := hcur.resolve_left hon
    rw [List.getLast?_eq_getElem?, ← hy] at heq
    exact ((List.getElem?_inj hj (hnodup.filter _)).1 heq.symm)
  have hnot : ∀ c ∈ cur, c ∉ xps.listByConf conf := by
    intro c hc hmem
    rw [RpcXprtSwitch.listByConf, if_pos hport] at hmem
    exact hon (hoff c hc hmem ▸ hc)
  obtain ⟨n, hn⟩ : ∃ n, stride xps conf = n + 1 := by
    unfold stride
    split
    · exact ⟨_, rfl⟩
    · exact ⟨0, rfl⟩
  rw [hn, walk_of_notMem hnodup hnot n,
    show j + (n + 1) = n + (eligible h conf xps).length by omega, Nat.add_mod_right]
  rfl

end

/-! ## Runs of calls -/

section

variable {xps : RpcXprtSwitch} {s t : IterRun} {e : IterConf × Nat} {x : XprtPtr}

/-- What a call does: it finds nothing and clears the cursor, or it takes the transport that the
walk leads to. -/
theorem getNextStep_cases (hops : xps.xpsIterOps = .roundrobin) (hidle : ∀ x, (s.heap x).queuelen = 0)
    (ht : getNextStep xps s e = some t) :
    e.1.flags.remotePortIdx = true ∧
      (t = { s with cursor := none } ∨
        ∃ x ∈ eligible s.heap e.1 xps,
          walk (fun y => xprtIsActive (s.heap y) e.1) (xps.listByConf e.1) (stride xps e.1) s.cursor = some x ∧
          t = { heap := s.heap.addRef x, cursor := some x, picks := s.picks ++ [(e.1, x)] }) := by
  unfold getNextStep iterStep at ht
  split at ht
  · rename_i hport
    rw [Option.map_eq_some_iff] at ht
    obtain ⟨⟨h', cur', ret⟩, hget, rfl⟩ := ht
    obtain ⟨hnext, hcases⟩ := iterGetNext_cases hget
    obtain ⟨rfl, hwalk⟩ := getNext_eq_walk hops hidle hport hnext
    refine ⟨hport, ?_⟩
    rcases hcases with ⟨rfl, rfl, -⟩ | ⟨x, hx, rfl, rfl⟩
    · exact Or.inl (by simp)
    · exact Or.inr ⟨x, hx, hwalk.symm, by simp⟩
  · rename_i hport
    cases ht

/-- Every port that has made a selection goes round its eligible transports in fixed strides, and
a cursor on its list stands where it left it. -/
structure RotInv (xps : RpcXprtSwitch) (s : IterRun) : Prop where
  inv : SwitchInv s.heap xps
  idle : ∀ x, (s.heap x).queuelen = 0
  cursor : ∀ p x, (s.picksFor p).getLast? = some x → ∀ c, s.cursor = some c →
    c ∈ xps.xpsRemoteportXprtList p → c = x
  rotating : ∀ c x, (c, x) ∈ s.picks →
    Nat.Coprime (stride xps c) (eligible s.heap c xps).length ∧
      Strides (eligible s.heap c xps) (stride xps c) (s.picksFor c.remotePortIdx)

theorem RotInv.fairTurns (hs : RotInv xps s) : FairTurns xps s := by
  intro c x hx
  obtain ⟨hcop, hstr⟩ := hs.rotating c x hx
  exact evenTurns_of_stride ((hs.inv.nodup_listByConf c).filter _) hcop hstr

theorem picksFor_concat (p : Nat) (c : IterConf) (x : XprtPtr) (h : XprtHeap) (cur : Option XprtPtr) :
    IterRun.picksFor { heap := h, cursor := cur, picks := s.picks ++ [(c, x)] } p =
      s.picksFor p ++ if c.remotePortIdx = p then [x] else [] := by
  unfold IterRun.picksFor
  rw [List.filter_append, List.map_append]
  by_cases hp : c.remotePortIdx = p
  · simp [hp]
  · simp [hp]

theorem exists_pick_of_getLast? {p : Nat} (hx : (s.picksFor p).getLast? = some x) :
    ∃ c, (c, x) ∈ s.picks ∧ c.remotePortIdx = p := by
  obtain ⟨⟨c, y⟩, hmem, rfl⟩ := List.mem_map.1 (List.mem_of_getLast? hx)
  rw [List.mem_filter, beq_iff_eq] at hmem
  exact ⟨c, hmem.1, hmem.2⟩

theorem RotInv.strides_pick (hs : RotInv xps s) (hc : KeepsTurn xps s e) (hport : e.1.flags.remotePortIdx = true)
    (hx : x ∈ eligible s.heap e.1 xps)
    (hwalk : walk (fun y => xprtIsActive (s.heap y) e.1) (xps.listByConf e.1) (stride xps e.1) s.cursor = some x) :
    Strides (eligible s.heap e.1 xps) (stride xps e.1) (s.picksFor e.1.remotePortIdx ++ [x]) := by
  obtain ⟨hconf, -, hturn⟩ := hc
  cases hlast : (s.picksFor e.1.remotePortIdx).getLast? with
  | none =>
    rw [List.getLast?_eq_none_iff.1 hlast]
    exact strides_singleton hx
  | some y =>
    obtain ⟨c, hmem, hcp⟩ := exists_pick_of_getLast? hlast
    obtain rfl : c = e.1 := hconf (c, y) hmem hcp
    have hstr := (hs.rotating _ y hmem).2
    obtain ⟨l, hl⟩ := List.getLast?_eq_some_iff.1 hlast
    rw [hl] at hstr ⊢
    -- the last turn has a place among the eligible transports
    obtain ⟨j, hj⟩ : ∃ j : Nat, (eligible s.heap e.1 xps)[j]? = some y := by
      obtain ⟨i, hi⟩ := hstr
      refine ⟨_, (hi l.length (by simp)).symm.trans ?_⟩
      rw [List.getElem?_append_right le_rfl, Nat.sub_self]
      rfl
    have hnext := walk_turn hs.inv hport hj (hturn y hlast) (hs.cursor _ y hlast)
    exact strides_concat hstr hj ((hs.inv.nodup_listByConf e.1).filter _) (hnext.symm.trans hwalk)

theorem rotInv_step (hops : xps.xpsIterOps = .roundrobin) (hs : RotInv xps s) (hc : KeepsTurn xps s e)
    (ht : getNextStep xps s e = some t) : RotInv xps t := by
  obtain ⟨hport, rfl | ⟨x, hx, hwalk, rfl⟩⟩ := getNextStep_cases hops hs.idle ht
  · exact ⟨hs.inv, hs.idle, nofun, hs.rotating⟩
  have hk := kref_ne_zero_of_active (mem_eligible.1 hx).2
  refine ⟨hs.inv.addRef, fun y => ?_, ?_, ?_⟩
  · show (s.heap.addRef x y).queuelen = 0
    rw [XprtHeap.addRef_apply]
    exact hs.idle y
  · intro p y hlast c hcur hmem
    cases hcur
    rw [picksFor_concat, if_pos (hs.inv.port_unique (mem_port_of_eligible hport hx) hmem),
      List.getLast?_concat] at hlast
    exact Option.some.inj hlast
  · intro c y hmem
    simp only [eligible_addRef hk, picksFor_concat]
    by_cases hp : e.1.remotePortIdx = c.remotePortIdx
    · have hconf : c = e.1 := by
        rcases List.mem_append.1 hmem with hmem | hmem
        · exact hc.1 (c, y) hmem hp.symm
        · exact congrArg Prod.fst (List.mem_singleton.1 hmem)
      subst hconf
      rw [if_pos rfl]
      exact ⟨hc.2.1 (List.ne_nil_of_mem hx), hs.strides_pick hc hport hx hwalk⟩
    have hold : (c, y) ∈ s.picks := by
      rcases List.mem_append.1 hmem with hmem | hmem
      · exact hmem
      · exact absurd (congrArg (fun q => q.1.remotePortIdx) (List.mem_singleton.1 hmem)).symm hp
    rw [if_neg hp, List.append_nil]
    exact hs.rotating c y hold

/-- **Ports that keep their turn rotate.**  In a run whose calls all keep the turn of their port,
every transport of a port gets one turn between two turns of another. -/
theorem fairTurns_of_keepsTurn (h : XprtHeap) (xps : RpcXprtSwitch) (cur : Option XprtPtr)
    (es : List (IterConf × Nat)) (hinv : SwitchInv h xps) (hops : xps.xpsIterOps = .roundrobin)
    (hidle : ∀ x, (h x).queuelen = 0)
    (hturn : EachStep (getNextStep xps) (KeepsTurn xps) { heap := h, cursor := cur } es) :
    Always (getNextStep xps) (FairTurns xps) { heap := h, cursor := cur } es := by
  have hinit : RotInv xps { heap := h, cursor := cur } :=
    ⟨hinv, hidle, fun _ _ hx => by simp [IterRun.picksFor] at hx, fun _ _ hx => by simp at hx⟩
  exact always_of_eachStep (rotInv_step hops) RotInv.fairTurns hinit hturn

end

/-! ## Successive calls with one conf -/

section

variable {xps : RpcXprtSwitch} {conf : IterConf} {s : IterRun} (hops : xps.xpsIterOps = .roundrobin)
  (hcong : conf.flags.ignoreCongestion = false)
include hops hcong

theorem iterStep_idle (hidle : ∀ x, (s.heap x).queuelen = 0) :
    ∃ t, iterStep xps s (conf, 1) = some t ∧ (∀ x, (t.heap x).queuelen = 0) ∧
      (∀ c x, xprtIsActive (t.heap x) c = xprtIsActive (s.heap x) c) ∧
      t.cursor = next (fun x => xprtIsActive (s.heap x) conf) (xps.listByConf conf) s.cursor ∧
      t.picks = s.picks ++ (t.cursor.map fun x => (conf, x)).toList := by
  have hnext : ∀ cur, next (fun x => xprtIsActive (s.heap x) conf) (xps.listByConf conf) s.cursor = cur →
      xpiNext s.heap xps conf 1 s.cursor = some (cur, cur) := by
    rintro cur rfl
    rw [xpiNext, hops]
    simp [xprtSwitchFindNextEntryRoundrobin, roundrobin_go_idle hidle hcong]
  cases hcur : next (fun x => xprtIsActive (s.heap x) conf) (xps.listByConf conf) s.cursor with
  | none =>
    refine ⟨{ s with cursor := none }, ?_, hidle, fun _ _ => rfl, rfl, by simp⟩
    rw [iterStep, xprtIterGetNext, hnext _ hcur]
    simp
  | some x =>
    have hk := kref_ne_zero_of_active (next_some hcur).2
    refine ⟨{ heap := s.heap.addRef x, cursor := some x, picks := s.picks ++ [(conf, x)] }, ?_, fun y => ?_,
      fun c y => isActive_addRef hk c y, rfl, by simp⟩
    · rw [iterStep, xprtIterGetNext, hnext _ hcur]
      simp [get_of_ne_zero hk]
    · show (s.heap.addRef x y).queuelen = 0
      rw [XprtHeap.addRef_apply]
      exact hidle y

theorem run_iterStep_walk :
    ∀ (n : Nat) (s : IterRun), (∀ x, (s.heap x).queuelen = 0) →
      ∃ t, run (iterStep xps) s (List.replicate (n + 1) (conf, 1)) = some t ∧
        ∀ x, walk (fun x => xprtIsActive (s.heap x) conf) (xps.listByConf conf) (n + 1) s.cursor = some x →
          (conf, x) ∈ t.picks
  | 0, s, hidle => by
    obtain ⟨t, ht, -, -, hcur, hpicks⟩ := iterStep_idle hops hcong hidle
    refine ⟨t, by rw [List.replicate_one, run, ht]; rfl, fun x hx => ?_⟩
    rw [hpicks, hcur.trans hx]
    simp
  | n + 1, s, hidle => by
    obtain ⟨t, ht, hidle', hact, hcur, -⟩ := iterStep_idle hops hcong hidle
    obtain ⟨u, hu, hpick⟩ := run_iterStep_walk n t hidle'
    refine ⟨u, by rw [List.replicate_succ, run, ht]; exact hu, fun x hx => hpick x ?_⟩
    simp only [hact, hcur]
    exact hx

/-- **Successive calls with one conf visit every transport that the conf accepts.** -/
theorem successive_calls_visit (hinv : SwitchInv s.heap xps) (hidle : ∀ x, (s.heap x).queuelen = 0) {x : XprtPtr}
    (hx : x ∈ eligible s.heap conf xps) :
    ∃ n t, run (iterStep xps) s (List.replicate n (conf, 1)) = some t ∧ (conf, x) ∈ t.picks := by
  obtain ⟨n, -, hwalk⟩ := exists_walk_eq (hinv.nodup_listByConf conf) s.cursor hx
  obtain ⟨t, ht, hpick⟩ := run_iterStep_walk hops hcong n s hidle
  exact ⟨n + 1, t, ht, hpick x hwalk⟩

end

/-- Transports `0` and `1` of one remote port and `2` of another. -/
def trioHeap : XprtHeap := fun x => { remotePortIdx := if x = 2 then 1 else 0 }

def trioSwitch : RpcXprtSwitch where
  xpsNxprts := 3
  xpsNactive := 3
  xpsXprtList := [0, 1, 2]
  xpsRemoteportXprtList := fun i => if i = 0 then [0, 1] else if i = 1 then [2] else []
  xpsIterOps := .roundrobin

def portConf (i : Nat) : IterConf where
  flags := { skipUnconnected := true, remotePortIdx := true }
  remotePortIdx := i

theorem trioSwitch_inv : SwitchInv trioHeap trioSwitch where
  nodup := by decide
  referenced := by decide
  byPort := fun i => by
    rcases i with _ | _ | i
    · rfl
    · rfl
    · simp [trioSwitch, trioHeap]
  nxprts := rfl

theorem fairTurns_of_keepsTurn_trio :
    Always (getNextStep trioSwitch) (FairTurns trioSwitch) { heap := trioHeap, cursor := none }
      [(portConf 0, 1), (portConf 0, 1), (portConf 1, 1), (portConf 0, 1)] := by
  refine fairTurns_of_keepsTurn trioHeap trioSwitch none _ trioSwitch_inv rfl (fun _ => rfl) ?_
  intro t₁ ht₁
  obtain rfl := Option.some.inj ht₁
  refine ⟨⟨by decide, by decide, nofun⟩, ?_⟩
  intro t₂ ht₂
  obtain rfl := Option.some.inj ht₂
  refine ⟨⟨by decide, by decide, fun x hx => by cases hx; exact Or.inl rfl⟩, ?_⟩
  intro t₃ ht₃
  obtain rfl := Option.some.inj ht₃
  refine ⟨⟨by decide, by decide, nofun⟩, ?_⟩
  intro t₄ ht₄
  exact ⟨⟨by decide, by decide, fun x hx => by cases hx; exact Or.inr rfl⟩, trivial⟩

/-- A call for another port in between, and the first port serves its first transport again. -/
theorem fairTurns_fails_across_ports :
    SwitchInv trioHeap trioSwitch ∧ trioSwitch.xpsIterOps = .roundrobin ∧
      (∀ x, (trioHeap x).queuelen = 0) ∧
      ¬ Always (getNextStep trioSwitch) (FairTurns trioSwitch) { heap := trioHeap, cursor := none }
        [(portConf 0, 1), (portConf 1, 1), (portConf 0, 1)] := by
  refine ⟨trioSwitch_inv, rfl, fun _ => rfl, fun hall => ?_⟩
  have hfair := run_of_always hall rfl
  obtain ⟨u, ⟨⟨h0, h1⟩, -⟩, -⟩ := hfair (portConf 0) 0 (by decide) 0 1 0 (by decide) rfl rfl
    (by omega) 1 (by decide) (by decide)
  omega

end Vastnfs.Sunrpc
