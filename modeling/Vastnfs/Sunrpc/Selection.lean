import Vastnfs.Lib.Tally
import Vastnfs.Sunrpc.Multipath

/-!
# The congestion loop of the round robin

`xprt_switch_find_next_entry_roundrobin` moves on until it meets a transport that is no busier
than the average.

* `roundrobin_go_mono`, `roundrobin_go_some`: more rounds do not change an answer, and an answer
  is an eligible transport if there is one.
* `roundrobin_go_of_count`, `roundrobin_go_of_walk`: the two reasons why the loop ends.
* `findNextEntryRoundrobin_total`: it always ends, with a transport unless none is eligible.
-/

namespace Vastnfs.Sunrpc

open List Option xprtSwitchFindNextEntryRoundrobin

open Cyclic (next walk)

def online (h : XprtHeap) (xps : RpcXprtSwitch) : List XprtPtr :=
  xps.xpsXprtList.filter fun x => !(h x).offline

section

variable {h : XprtHeap} {conf : IterConf} {xps : RpcXprtSwitch} {cur r : Option XprtPtr} {x : XprtPtr}

theorem roundrobin_move_none : xprtSwitchFindNextEntryRoundrobin' h conf xps cur = none ↔ eligible h conf xps = [] := by
  rw [roundrobin_eq_next, Cyclic.next_eq_none_iff, eligible, filter_eq_nil_iff]

theorem roundrobin_move_some (hx : xprtSwitchFindNextEntryRoundrobin' h conf xps cur = some x) :
    x ∈ eligible h conf xps := by
  rw [roundrobin_eq_next] at hx
  exact mem_eligible.2 (Cyclic.next_some hx)

/-- A transport the loop stops at, after `count` moves past others. -/
def stopsAt (h : XprtHeap) (conf : IterConf) (xps : RpcXprtSwitch) (count : Nat) (x : XprtPtr) : Bool :=
  (!conf.flags.ignoreCongestion && belowAverage h xps x) ||
    (!conf.flags.isZero && decide (count + 1 > xps.xpsNactive))

theorem roundrobin_go_succ (fuel : Nat) (cur : Option XprtPtr) (count : Nat) :
    go h conf xps (fuel + 1) cur count =
      match xprtSwitchFindNextEntryRoundrobin' h conf xps cur with
      | none => some none
      | some x =>
        if stopsAt h conf xps count x then some (some x)
        else go h conf xps fuel (some x) (count + 1) := by
  rw [go]
  cases xprtSwitchFindNextEntryRoundrobin' h conf xps cur with
  | none => rfl
  | some x =>
    simp only [stopsAt, Bool.or_eq_true]
    by_cases hbelow : (!conf.flags.ignoreCongestion && belowAverage h xps x) = true
    · rw [if_pos hbelow, if_pos (.inl hbelow)]
    · simp [hbelow]

theorem roundrobin_go_mono : ∀ {fuel : Nat} {cur : Option XprtPtr} {count : Nat},
    go h conf xps fuel cur count = some r →
    ∀ {fuel' : Nat}, fuel ≤ fuel' →
      go h conf xps fuel' cur count = some r
  | fuel + 1, cur, count, hr, fuel' + 1, hle => by
    rw [roundrobin_go_succ] at hr ⊢
    cases hmove : xprtSwitchFindNextEntryRoundrobin' h conf xps cur with
    | none => simpa only [hmove] using hr
    | some x =>
      simp only [hmove] at hr ⊢
      split_ifs at hr ⊢
      · exact hr
      · exact roundrobin_go_mono hr (Nat.le_of_succ_le_succ hle)

theorem roundrobin_go_some : ∀ {fuel : Nat} {cur : Option XprtPtr} {count : Nat},
    go h conf xps fuel cur count = some r →
    (r = none ∧ eligible h conf xps = []) ∨ ∃ x ∈ eligible h conf xps, r = some x
  | fuel + 1, cur, count, hr => by
    rw [roundrobin_go_succ] at hr
    cases hmove : xprtSwitchFindNextEntryRoundrobin' h conf xps cur with
    | none =>
      simp only [hmove] at hr
      cases hr
      exact .inl ⟨rfl, roundrobin_move_none.1 hmove⟩
    | some x =>
      simp only [hmove] at hr
      split_ifs at hr
      · cases hr
        exact .inr ⟨x, roundrobin_move_some hmove, rfl⟩
      · exact roundrobin_go_some hr

theorem roundrobin_go_isSome {fuel count : Nat} {cur : Option XprtPtr}
    (hnext : ∀ y, xprtSwitchFindNextEntryRoundrobin' h conf xps cur = some y → stopsAt h conf xps count y = true ∨
      (go h conf xps fuel (some y) (count + 1)).isSome = true) :
    (go h conf xps (fuel + 1) cur count).isSome = true := by
  rw [roundrobin_go_succ]
  cases hmove : xprtSwitchFindNextEntryRoundrobin' h conf xps cur with
  | none => rfl
  | some y =>
    dsimp only
    split_ifs with hstop
    · rfl
    · exact (hnext y hmove).resolve_left hstop

theorem roundrobin_go_of_count (hflags : conf.flags.isZero = false) :
    ∀ (fuel : Nat) (cur : Option XprtPtr) (count : Nat), xps.xpsNactive ≤ fuel + count →
      (go h conf xps (fuel + 1) cur count).isSome = true := by
  intro fuel
  induction fuel with
  | zero =>
    intro cur count hle
    refine roundrobin_go_isSome fun y _ => .inl ?_
    simp only [stopsAt, hflags, Bool.not_false, Bool.true_and, Bool.or_eq_true, decide_eq_true_eq]
    omega
  | succ fuel ih =>
    intro cur count hle
    exact roundrobin_go_isSome fun y _ => .inr (ih (some y) (count + 1) (by omega))

theorem roundrobin_go_of_walk (hcong : conf.flags.ignoreCongestion = false) (hx : belowAverage h xps x = true) :
    ∀ (n : Nat) (cur : Option XprtPtr) (count : Nat),
    walk (fun x => xprtIsActive (h x) conf) (xps.listByConf conf) (n + 1) cur = some x →
      (go h conf xps (n + 1) cur count).isSome = true := by
  intro n
  induction n with
  | zero =>
    intro cur count hwalk
    refine roundrobin_go_isSome fun y hy => .inl ?_
    obtain rfl : y = x := Option.some.inj (hy.symm.trans ((roundrobin_eq_next cur).trans hwalk))
    simp [stopsAt, hcong, hx]
  | succ n ih =>
    intro cur count hwalk
    refine roundrobin_go_isSome fun y hy => .inr (ih (some y) (count + 1) ?_)
    rw [← hy, roundrobin_eq_next]
    exact hwalk

end

/-! ## Iterators -/

section

variable {h h' : XprtHeap} {conf : IterConf} {xps : RpcXprtSwitch} {cur cur' ret : Option XprtPtr} {fuel : Nat}

theorem xpiNext_some (hnext : xpiNext h xps conf fuel cur = some (cur', ret)) :
    (ret = none ∧ eligible h conf xps = []) ∨ ∃ x ∈ eligible h conf xps, ret = some x := by
  unfold xpiNext at hnext
  cases hops : xps.xpsIterOps with
  | singular =>
    simp only [hops, Option.some.injEq, Prod.mk.injEq] at hnext
    rw [findFirstEntry_eq] at hnext
    cases ret with
    | none => exact .inl ⟨rfl, by simpa [eligible] using hnext.2⟩
    | some x =>
      have hact := List.find?_some hnext.2
      exact .inr ⟨x, mem_eligible.2 ⟨mem_of_find?_eq_some hnext.2, hact⟩, rfl⟩
  | roundrobin =>
    simp only [hops, map_eq_some_iff, Prod.mk.injEq] at hnext
    obtain ⟨r, hr, -, rfl⟩ := hnext
    exact roundrobin_go_some hr

/-- **What `xprt_iter_get_next` does.**  The policy's answer is taken as it is, since the list
holds a reference on every active transport. -/
theorem iterGetNext_cases : ∀ {fuel : Nat},
    xprtIterGetNext h xps conf fuel cur = some (h', cur', ret) →
    xpiNext h xps conf fuel cur = some (cur', ret) ∧
      ((ret = none ∧ h' = h ∧ eligible h conf xps = []) ∨
        ∃ x ∈ eligible h conf xps, ret = some x ∧ h' = h.addRef x)
  | fuel + 1, hget => by
    rw [xprtIterGetNext] at hget
    cases hnext : xpiNext h xps conf (fuel + 1) cur with
    | none => simp [hnext] at hget
    | some p =>
      obtain ⟨c, r⟩ := p
      rcases xpiNext_some hnext with ⟨rfl, hnil⟩ | ⟨x, hx, rfl⟩
      · simp only [hnext] at hget
        cases hget
        exact ⟨rfl, .inl ⟨rfl, rfl, hnil⟩⟩
      have hk := kref_ne_zero_of_active (mem_eligible.1 hx).2
      simp only [hnext, get_of_ne_zero hk] at hget
      cases hget
      exact ⟨rfl, .inr ⟨x, hx, rfl, rfl⟩⟩

theorem iterGetNext_isSome (hflags : conf.flags.isZero = false) (hle : xps.xpsNactive < fuel) :
    (xprtIterGetNext h xps conf fuel cur).isSome = true := by
  obtain ⟨fuel, rfl⟩ : ∃ n, fuel = n + 1 := ⟨fuel - 1, by omega⟩
  have hnext : (xpiNext h xps conf (fuel + 1) cur).isSome = true := by
    unfold xpiNext
    cases xps.xpsIterOps with
    | singular => rfl
    | roundrobin =>
      rw [isSome_map]
      exact roundrobin_go_of_count hflags fuel cur 0 (by omega)
  obtain ⟨⟨c, r⟩, hr⟩ := isSome_iff_exists.1 hnext
  rw [xprtIterGetNext, hr]
  rcases xpiNext_some hr with ⟨rfl, -⟩ | ⟨x, hx, rfl⟩
  · rfl
  · have hk := kref_ne_zero_of_active (mem_eligible.1 hx).2
    simp [get_of_ne_zero hk, isSome_some]

end

/-! ## The loop always ends -/

section

variable {h : XprtHeap} {conf : IterConf} {xps : RpcXprtSwitch}

theorem flags_eq_of_isZero (hz : conf.flags.isZero = true) : conf.flags = {} := by
  simpa [IterFlags.isZero] using hz

theorem eligible_of_isZero (hinv : SwitchInv h xps) (hz : conf.flags.isZero = true) :
    eligible h conf xps = online h xps := by
  have hflags := flags_eq_of_isZero hz
  have hlist : xps.listByConf conf = xps.xpsXprtList := by simp [RpcXprtSwitch.listByConf, hflags]
  rw [eligible, hlist, online]
  refine filter_congr fun x hx => ?_
  simp [xprtIsActive, hflags, hinv.referenced x hx]

theorem exists_belowAverage (hactive : xps.xpsNactive = (online h xps).length)
    (hsum : ((online h xps).map fun x => toUlong (h x).queuelen).sum ≤ toUlong xps.xpsQueuelen)
    (hne : online h xps ≠ []) : ∃ x ∈ online h xps, belowAverage h xps x = true := by
  obtain ⟨x, hx, hle⟩ := Tally.exists_mul_length_le_sum (fun x => toUlong (h x).queuelen) hne
  refine ⟨x, hx, decide_eq_true ?_⟩
  rw [hactive]
  exact (Nat.mod_le _ _).trans (hle.trans hsum)

/-- **Transport selection is total, sound and complete.**  The loop ends after finitely many
rounds, with `NULL` just when no transport of the conf's list is active. -/
theorem findNextEntryRoundrobin_total (h : XprtHeap) (xps : RpcXprtSwitch) (conf : IterConf)
    (cur : Option XprtPtr) (hinv : SwitchInv h xps) (hactive : xps.xpsNactive = (online h xps).length)
    (hsum : ((online h xps).map fun x => toUlong (h x).queuelen).sum ≤ toUlong xps.xpsQueuelen) :
    ∃ n r, (∀ fuel, n ≤ fuel → xprtSwitchFindNextEntryRoundrobin h conf xps fuel cur = some r) ∧
      (r = none ↔ ∀ x ∈ xps.listByConf conf, ¬ xprtIsActive (h x) conf = true) ∧
      ∀ x, r = some x → x ∈ xps.listByConf conf ∧ xprtIsActive (h x) conf = true := by
  have hends : ∃ n, (xprtSwitchFindNextEntryRoundrobin h conf xps n cur).isSome = true := by
    by_cases hz : conf.flags.isZero = true
    · have hcong : conf.flags.ignoreCongestion = false := by rw [flags_eq_of_isZero hz]
      have helig := eligible_of_isZero hinv hz
      by_cases hne : online h xps = []
      · refine ⟨1, ?_⟩
        rw [xprtSwitchFindNextEntryRoundrobin, roundrobin_go_succ, roundrobin_move_none.2 (helig.trans hne)]
        rfl
      obtain ⟨x, hx, hbelow⟩ := exists_belowAverage hactive hsum hne
      obtain ⟨n, -, hwalk⟩ := Cyclic.exists_walk_eq (hinv.nodup_listByConf conf) cur (helig.symm ▸ hx)
      exact ⟨n + 1, roundrobin_go_of_walk hcong hbelow n cur 0 hwalk⟩
    · exact ⟨xps.xpsNactive + 1, roundrobin_go_of_count (Bool.eq_false_of_not_eq_true hz) _ cur 0 (by omega)⟩
  obtain ⟨n, hn⟩ := hends
  obtain ⟨r, hr⟩ := isSome_iff_exists.1 hn
  refine ⟨n, r, fun fuel hle => roundrobin_go_mono hr hle, ?_⟩
  rcases roundrobin_go_some hr with ⟨rfl, hnil⟩ | ⟨x, hx, rfl⟩
  · rw [eligible, filter_eq_nil_iff] at hnil
    exact ⟨iff_of_true rfl hnil, by simp⟩
  have hx' := mem_eligible.1 hx
  refine ⟨iff_of_false (by simp) (fun hall => hall x hx'.1 hx'.2), ?_⟩
  rintro y hy
  cases hy
  exact hx'

end

def pairHeap : XprtHeap := fun x => { queuelen := if x = 1 then 3 else 1 }

def pairSwitch : RpcXprtSwitch where
  xpsNxprts := 2
  xpsNactive := 2
  xpsQueuelen := 4
  xpsXprtList := [0, 1]
  xpsRemoteportXprtList := fun i => if i = 0 then [0, 1] else []

theorem pairSwitch_inv : SwitchInv pairHeap pairSwitch where
  nodup := by decide
  referenced := by decide
  byPort := fun i => by
    by_cases hi : i = 0
    · simp [pairSwitch, pairHeap, hi]
    · simp [pairSwitch, pairHeap, hi, Ne.symm hi]
  nxprts := rfl

theorem findNextEntryRoundrobin_total_pair :
    ∃ n r, (∀ fuel, n ≤ fuel →
        xprtSwitchFindNextEntryRoundrobin pairHeap {} pairSwitch fuel (some 7) = some r) ∧
      (r = none ↔ ∀ x ∈ pairSwitch.listByConf {}, ¬ xprtIsActive (pairHeap x) {} = true) ∧
      ∀ x, r = some x → x ∈ pairSwitch.listByConf {} ∧ xprtIsActive (pairHeap x) {} = true :=
  findNextEntryRoundrobin_total pairHeap pairSwitch {} (some 7) pairSwitch_inv (by decide) (by decide)

end Vastnfs.Sunrpc
