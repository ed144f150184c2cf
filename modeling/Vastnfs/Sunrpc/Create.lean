import Vastnfs.Lib.Shares
import Vastnfs.Sunrpc.PortUsage
import Vastnfs.Sunrpc.Xprt

/-!
# Opening the transports of a client

`rpc_create` of `net/sunrpc/clnt.c`: the transports of a client over the mesh of its local and
remote ports, with the transports for metadata in between.

* `createStep_seat`: one turn of the loop, in terms of the seat of the next regular transport.
* `createLoop_turns`: the whole loop.
* `create_regular`: the regular transports of a client with remote ports.
* `rpcCreate_roles`: the transports of either role, and how they take turns.
-/

namespace Vastnfs.Sunrpc

open Shares List Option

/-! ## The function -/

inductive Errno where
  | einval | enomem | enospc | enoent | eacces | eexist | enotdir | eisdir | eloop | enametoolong
  | nfs4errDelay | enotsupp | eagain
  | other (code : Nat)
  deriving DecidableEq

/-- How a function can end without a result. -/
inductive Fault where
  | errno (e : Errno)
  | divideByZero | bug
  deriving DecidableEq

structure RpcCreateArgs where
  address : SockAddr
  saddress : Option SockAddr := none
  localports : Option RpcPortgroup := none
  localportsFailover : Bool := false
  remoteports : Option RpcPortgroup := none
  remoteportsOffsetProvided : Bool := false
  (remoteportsOffset nconnect mdconnect : Nat := 0)

structure XprtCreate where
  srcaddr : Option SockAddr := none
  dstaddr : SockAddr
  localport : Option SockAddr := none
  remotePortIdx : Nat := 0
  role : RpcXprtRole := .reg

/-- What the function meets: the hash of node name and local address, the allocations, and for each
attempt to open a transport the error it ends with. -/
structure CreateEnv where
  portgroupHash : Nat → RpcPortgroup → Nat := fun _ _ => 0
  (localUsageAllocated remoteUsageAllocated : Bool := true)
  attempt : Nat → Option Errno := fun _ => none

def rpcCalcPortgroupOffset (env : CreateEnv) (localportAddr : Nat) (ports : RpcPortgroup)
    (offsetProvided : Bool) (offset : Nat) : Nat :=
  if 0 < ports.nr then
    (if offsetProvided then offset else env.portgroupHash localportAddr ports) % ports.nr
  else 0

theorem calcPortgroupOffset_lt {env : CreateEnv} {localportAddr offset : Nat} {ports : RpcPortgroup}
    {provided : Bool} (hnr : 0 < ports.nr) :
    rpcCalcPortgroupOffset env localportAddr ports provided offset < ports.nr := by
  rw [rpcCalcPortgroupOffset, if_pos hnr]
  exact Nat.mod_lt _ hnr

structure CreateLoop where
  xprtargs : XprtCreate
  (localportIdx remoteportIdx : Nat)
  remoteportUsage : XprtPortusage
  (reminder counter mdconnectUse : Nat)

/-- Turn `i` of the loop opens a transport for metadata. -/
def mdXprt (mult i mdconnectUse : Nat) : Bool :=
  decide ((0 < mdconnectUse ∧ 1 < mult) ∧ i % mult < mult - 1)

def nextLocalport (args : RpcCreateArgs) (s : CreateLoop) : CreateLoop :=
  match args.localports with
  | none => s
  | some ports =>
    { s with
      xprtargs :=
        if s.localportIdx < ports.nr then { s.xprtargs with localport := some (ports.addrAt s.localportIdx) }
        else s.xprtargs
      localportIdx := if ports.nr ≤ s.localportIdx + 1 then 0 else s.localportIdx + 1 }

/-- The next regular transport takes the next remote port once the one before has its share. -/
def nextRemoteport (args : RpcCreateArgs) (spread : Nat) (s : CreateLoop) : Option CreateLoop :=
  match args.remoteports with
  | none => some s
  | some ports =>
    let counter := s.counter + 1
    if (s.reminder = 0 ∧ spread ≤ counter) ∨ spread + 1 ≤ counter then
      let idx := if ports.nr ≤ s.remoteportIdx + 1 then 0 else s.remoteportIdx + 1
      let dstaddr := rpcPartialAddrCopy (ports.addrAt idx) s.xprtargs.dstaddr
      (xprtPortusagePushAddress s.remoteportUsage dstaddr).map fun pushed =>
        { s with
          xprtargs := { s.xprtargs with dstaddr := dstaddr, remotePortIdx := pushed.2 }
          remoteportIdx := idx
          remoteportUsage := pushed.1
          reminder := s.reminder - 1
          counter := 0 }
    else some { s with counter := counter }

/-- One turn of the loop up to `rpc_clnt_add_xprt`; `none` is `-ENOSPC`. -/
def createStep (args : RpcCreateArgs) (spread mult i : Nat) (s : CreateLoop) : Option CreateLoop :=
  if mdXprt mult i s.mdconnectUse then
    some { s with mdconnectUse := s.mdconnectUse - 1, xprtargs := { s.xprtargs with role := .md } }
  else
    (nextRemoteport args spread (nextLocalport args s)).map fun s =>
      { s with xprtargs := { s.xprtargs with role := .reg } }

def createLoop (env : CreateEnv) (args : RpcCreateArgs) (spread mult : Nat) :
    Nat → Nat → CreateLoop → Except Fault (CreateLoop × List XprtCreate)
  | 0, _, s => .ok (s, [])
  | turns + 1, i, s =>
    match createStep args spread mult i s with
    | none => .error (.errno .enospc)
    | some s =>
      match env.attempt (i + 1) with
      | some _ => .ok (s, [])
      | none => (createLoop env args spread mult turns (i + 1) s).map fun r => (r.1, s.xprtargs :: r.2)

/-- What `rpc_create` leaves behind: the transports opened, and the usage tables. -/
structure RpcCreated where
  xprts : List XprtCreate
  (localportUsage remoteportUsage : Option XprtPortusage := none)

/-- The copy of the local ports that the transports share. -/
def localportUsage (env : CreateEnv) (args : RpcCreateArgs) : Option XprtPortusage :=
  args.localports.bind fun ports =>
    if env.localUsageAllocated then
      -- an address that finds no room is left out
      some { ports.addrs.foldl (fun usage addr => ((xprtPortusagePushAddress usage addr).map (·.1)).getD usage) {} with
        diversionEnabled := args.localportsFailover }
    else none

def localportAddr (args : RpcCreateArgs) : Nat :=
  match args.localports with
  | none => 0
  | some ports =>
    if 0 < ports.nr ∧ (ports.addrAt 0).family = .inet then (ports.addrAt 0).addr else 0

def createInit (env : CreateEnv) (args : RpcCreateArgs) : Except Fault CreateLoop :=
  match copySockaddr args.address, args.saddress.map copySockaddr with
  | none, _ => .error (.errno .einval)
  | some _, some none => .error (.errno .einval)
  | some dstaddr, srcaddr =>
    let s : CreateLoop :=
      { xprtargs :=
          { srcaddr := srcaddr.bind id
            dstaddr := dstaddr
            localport := args.localports.bind fun ports => if 0 < ports.nr then some (ports.addrAt 0) else none }
        localportIdx := if args.localports.isSome then 1 else 0
        remoteportIdx := 0
        remoteportUsage := {}
        reminder := 0
        counter := 0
        mdconnectUse := args.mdconnect }
    match args.remoteports with
    | none => .ok s
    | some ports =>
      let idx := rpcCalcPortgroupOffset env (localportAddr args) ports args.remoteportsOffsetProvided
        args.remoteportsOffset
      if !env.remoteUsageAllocated then .error (.errno .enomem)
      else
        let dstaddr := rpcPartialAddrCopy (ports.addrAt idx) dstaddr
        match xprtPortusagePushAddress {} dstaddr with
        | none => .error (.errno .enospc)
        | some pushed =>
          .ok { s with
            xprtargs := { s.xprtargs with dstaddr := dstaddr, remotePortIdx := pushed.2 }
            remoteportIdx := idx
            remoteportUsage := pushed.1 }

def spreadReminder (args : RpcCreateArgs) : Except Fault (Nat × Nat) :=
  match args.remoteports with
  | none => .ok (0, 0)
  | some ports =>
    if ports.nr = 0 then .error .divideByZero
    else
      let spread := args.nconnect / ports.nr
      .ok (spread, args.nconnect - spread * ports.nr)

def mdMult (args : RpcCreateArgs) : Nat := 1 + (args.nconnect - 1 + args.mdconnect) / args.nconnect

def rpcCreate (env : CreateEnv) (args : RpcCreateArgs) : Except Fault RpcCreated := do
  let s ← createInit env args
  match env.attempt 0 with
  | some e => .error (.errno e)
  | none =>
    if args.nconnect ≤ 1 ∧ args.mdconnect = 0 then
      return { xprts := [s.xprtargs]
               localportUsage := localportUsage env args
               remoteportUsage := args.remoteports.map fun _ => s.remoteportUsage }
    let (spread, reminder) ← spreadReminder args
    if args.nconnect = 0 then .error .divideByZero
    let (t, xprts) ← createLoop env args spread (mdMult args) (args.mdconnect + args.nconnect - 1) 0
      { s with reminder := reminder }
    return { xprts := s.xprtargs :: xprts
             localportUsage := localportUsage env args
             remoteportUsage := args.remoteports.map fun _ => t.remoteportUsage }

/-! ## The turns for metadata -/

def regularTurns (args : RpcCreateArgs) (i : Nat) : Nat := i - min args.mdconnect (i - i / mdMult args)

def mdLeft (args : RpcCreateArgs) (i : Nat) : Nat := args.mdconnect - (i - i / mdMult args)

def roleAt (args : RpcCreateArgs) (i : Nat) : RpcXprtRole :=
  if mdXprt (mdMult args) i (mdLeft args i) then .md else .reg

section

variable {args : RpcCreateArgs} {i : Nat}

theorem mdMult_pos (args : RpcCreateArgs) : 0 < mdMult args := Nat.lt_add_right _ Nat.one_pos

theorem sub_div_mdMult_succ :
    i + 1 - (i + 1) / mdMult args = i - i / mdMult args + if i % mdMult args < mdMult args - 1 then 1 else 0 := by
  obtain ⟨q, hq⟩ : ∃ q, mdMult args = q + 1 := ⟨_, add_comm _ _⟩
  have hlt : i % (q + 1) < q + 1 := Nat.mod_lt i q.succ_pos
  have hle := Nat.div_le_self i (q + 1)
  simp only [hq, Nat.succ_div, Nat.dvd_iff_mod_eq_zero, Nat.succ_mod_succ_eq_zero_iff]
  by_cases h : i % (q + 1) = q
  · rw [if_pos h, if_neg (by omega)]
    omega
  · rw [if_neg h, if_pos (by omega)]
    omega

theorem roleAt_eq_md : roleAt args i = .md ↔ 0 < mdLeft args i ∧ i % mdMult args < mdMult args - 1 := by
  simp only [roleAt, mdXprt, decide_eq_true_iff, ite_eq_left_iff, reduceCtorEq, imp_false, not_not]
  constructor
  · rintro ⟨⟨hleft, -⟩, hturn⟩
    exact ⟨hleft, hturn⟩
  · rintro ⟨hleft, hturn⟩
    exact ⟨⟨hleft, by omega⟩, hturn⟩

theorem turns_md (h : roleAt args i = .md) :
    mdLeft args (i + 1) = mdLeft args i - 1 ∧ regularTurns args (i + 1) = regularTurns args i := by
  obtain ⟨hleft, hturn⟩ := roleAt_eq_md.1 h
  unfold mdLeft at hleft
  unfold mdLeft regularTurns
  rw [sub_div_mdMult_succ, if_pos hturn]
  omega

theorem turns_reg (h : roleAt args i = .reg) :
    mdLeft args (i + 1) = mdLeft args i ∧ regularTurns args (i + 1) = regularTurns args i + 1 := by
  have hno : ¬ (0 < mdLeft args i ∧ i % mdMult args < mdMult args - 1) := by
    rw [← roleAt_eq_md, h]
    exact RpcXprtRole.noConfusion
  have hle : i - i / mdMult args ≤ i := Nat.sub_le _ _
  unfold mdLeft at hno
  unfold mdLeft regularTurns
  rw [sub_div_mdMult_succ]
  generalize i - i / mdMult args = before at *
  split <;> omega

theorem regularTurns_mono : Monotone (regularTurns args) := by
  refine monotone_nat_of_le_succ fun i => ?_
  cases hrole : roleAt args i with
  | md => exact (turns_md hrole).2.ge
  | reg => exact (turns_reg hrole).2 ▸ Nat.le_succ _

theorem regularTurns_last (hn : 0 < args.nconnect) :
    regularTurns args (args.mdconnect + args.nconnect - 1) = args.nconnect - 1 := by
  set last := args.mdconnect + args.nconnect - 1
  have hsum : last = args.nconnect - 1 + args.mdconnect := by
    omega
  have hmult : last < args.nconnect * mdMult args := by
    rw [hsum, mdMult, add_comm 1]
    exact Nat.lt_mul_div_succ _ hn
  have hdiv : last / mdMult args < args.nconnect :=
    Nat.div_lt_of_lt_mul (by rwa [mul_comm] at hmult)
  unfold regularTurns
  omega

theorem regularTurns_filter (args : RpcCreateArgs) (turns : Nat) :
    ((range turns).filter fun i => roleAt args i = .reg).map (fun i => regularTurns args (i + 1)) =
      range' 1 (regularTurns args turns) := by
  induction turns with
  | zero => simp [regularTurns]
  | succ turns ih =>
    rw [range_succ, filter_append, map_append, ih]
    cases hrole : roleAt args turns with
    | md => simp [hrole, turns_md hrole]
    | reg => simp [hrole, turns_reg hrole, range'_1_concat, add_comm 1]

end

/-! ## The destinations -/

section

variable (ports : RpcPortgroup) (o : Nat) (base : SockAddr)

/-- The destination of the regular transports in slot `m`. -/
def dstAt : Nat → SockAddr
  | 0 => rpcPartialAddrCopy (ports.addrAt o) base
  | m + 1 => rpcPartialAddrCopy (ports.addrAt ((o + (m + 1)) % ports.nr)) (dstAt m)

/-- The usage table with the destinations of the slots up to `m`, and the index of the last one. -/
def pushedAt : Nat → Option (XprtPortusage × Nat)
  | 0 => xprtPortusagePushAddress {} (dstAt ports o base 0)
  | m + 1 => (pushedAt m).bind fun pushed => xprtPortusagePushAddress pushed.1 (dstAt ports o base (m + 1))

variable {ports o base}

theorem pushedAt_none_mono {m m' : Nat} (h : m ≤ m') (hnone : pushedAt ports o base m = none) :
    pushedAt ports o base m' = none := by
  induction m', h using Nat.le_induction with
  | base => exact hnone
  | succ m' _ ih => rw [pushedAt, ih, bind_none]

/-- A destination is the address of its port with the port number and the scope id of the client's
own address. -/
theorem dstAt_eq (ho : o < ports.nr) (hip : ∀ i < ports.nr, (ports.addrAt i).IsIp) (m : Nat) :
    dstAt ports o base m =
      { ports.addrAt ((o + m) % ports.nr) with port := base.port, scopeId := base.scopeId } := by
  induction m with
  | zero =>
    rw [dstAt, add_zero, Nat.mod_eq_of_lt ho]
    exact partialAddrCopy_of_isIp (hip o ho)
  | succ m ih =>
    rw [dstAt, partialAddrCopy_of_isIp (hip _ (Nat.mod_lt _ (Nat.zero_lt_of_lt ho))), ih]

theorem pushedAt_distinct {bound : Nat}
    (hne : ∀ m < bound, ∀ m' < m, rpcCmpAddrPort (dstAt ports o base m') (dstAt ports o base m) = false) :
    ∀ m < bound, pushedAt ports o base m =
      if m < xprtMaxPorts then
        some ({ ports := (range (m + 1)).map fun i => { addr := dstAt ports o base i } }, m)
      else none
  | 0, _ => rfl
  | m + 1, hm => by
    rw [pushedAt, pushedAt_distinct hne m (Nat.lt_of_succ_lt hm)]
    by_cases hlt : m < xprtMaxPorts
    · have hnew : ∀ port ∈ (range (m + 1)).map (fun i => ({ addr := dstAt ports o base i } : XprtPort)),
          rpcCmpAddrPort port.addr (dstAt ports o base (m + 1)) = false := by
        intro port hport
        obtain ⟨i, hi, rfl⟩ := mem_map.1 hport
        exact hne (m + 1) hm i (mem_range.1 hi)
      rw [if_pos hlt, bind_some, pushAddress_new hnew, length_map, length_range]
      by_cases hlt' : m + 1 < xprtMaxPorts
      · rw [if_pos hlt', if_neg (by omega), range_succ (n := m + 1), map_append]
        rfl
      · rw [if_neg hlt', if_pos (by omega)]
    · rw [if_neg hlt, if_neg (by omega), bind_none]

end

/-! ## The loop -/

section

variable (args : RpcCreateArgs) (ports : RpcPortgroup) (o : Nat) (base : SockAddr) {n k : Nat}

/-- The slot of the last regular transport opened before turn `i`. -/
def slotAt (i : Nat) : Nat := slot args.nconnect ports.nr (regularTurns args i)

/-- The variables at turn `i`, in terms of the seat of the last regular transport. -/
structure LoopAt (i : Nat) (s : CreateLoop) : Prop where
  mdconnectUse : s.mdconnectUse = mdLeft args i
  counter : s.counter = (seat args.nconnect ports.nr (regularTurns args i)).2
  reminder : s.reminder = args.nconnect % ports.nr - slotAt args ports i
  remoteportIdx : s.remoteportIdx = (o + slotAt args ports i) % ports.nr
  dstaddr : s.xprtargs.dstaddr = dstAt ports o base (slotAt args ports i)
  pushed : pushedAt ports o base (slotAt args ports i) = some (s.remoteportUsage, s.xprtargs.remotePortIdx)

variable {args ports o base} {i spread : Nat} {s : CreateLoop}

theorem LoopAt.nextLocalport (h : LoopAt args ports o base i s) :
    LoopAt args ports o base i (nextLocalport args s) := by
  unfold Sunrpc.nextLocalport
  cases args.localports with
  | none => exact h
  | some locals =>
    obtain ⟨hmd, hcounter, hrem, hidx, hdst, hpushed⟩ := h
    dsimp only
    split
    all_goals exact ⟨hmd, hcounter, hrem, hidx, hdst, hpushed⟩

theorem createStep_eq (h : s.mdconnectUse = mdLeft args i) :
    createStep args spread (mdMult args) i s =
      match roleAt args i with
      | .md => some { s with mdconnectUse := s.mdconnectUse - 1, xprtargs := { s.xprtargs with role := .md } }
      | .reg => (nextRemoteport args spread (nextLocalport args s)).map fun s =>
          { s with xprtargs := { s.xprtargs with role := .reg } } := by
  rw [createStep, h, roleAt]
  cases mdXprt (mdMult args) i (mdLeft args i) <;> rfl

theorem full_iff {m c : Nat} : (n % k - m = 0 ∧ n / k ≤ c + 1) ∨ n / k + 1 ≤ c + 1 ↔ ¬ c + 1 < share n k m := by
  unfold share
  split <;> omega

theorem wrap_succ (hk : 0 < k) : (if k ≤ n % k + 1 then 0 else n % k + 1) = (n + 1) % k := by
  have hlt := Nat.mod_lt n hk
  rw [← Nat.mod_add_mod n k 1]
  split_ifs with hle
  · rw [show n % k + 1 = k by omega, Nat.mod_self]
  · rw [Nat.mod_eq_of_lt (not_le.1 hle)]

theorem createStep_seat (hports : args.remoteports = some ports) (hnr : 0 < ports.nr)
    (h : LoopAt args ports o base i s) :
    (createStep args (args.nconnect / ports.nr) (mdMult args) i s = none ∧
        pushedAt ports o base (slotAt args ports (i + 1)) = none) ∨
      ∃ t, createStep args (args.nconnect / ports.nr) (mdMult args) i s = some t ∧
        t.xprtargs.role = roleAt args i ∧ LoopAt args ports o base (i + 1) t := by
  rw [createStep_eq h.mdconnectUse]
  cases hrole : roleAt args i with
  | md =>
    obtain ⟨hleft, hturns⟩ := turns_md hrole
    have hslot : slotAt args ports (i + 1) = slotAt args ports i := by
      rw [slotAt, slotAt, hturns]
    refine .inr ⟨_, rfl, rfl, ?_, ?_, ?_, ?_, ?_, ?_⟩
    · rw [hleft, ← h.mdconnectUse]
    · rw [hturns]
      exact h.counter
    all_goals rw [hslot]
    exacts [h.reminder, h.remoteportIdx, h.dstaddr, h.pushed]
  | reg =>
    have hl := h.nextLocalport
    obtain ⟨hleft, hturns⟩ := turns_reg hrole
    generalize nextLocalport args s = t at hl
    set m := slotAt args ports i
    have hseat : seat args.nconnect ports.nr (regularTurns args (i + 1)) =
        nextSeat args.nconnect ports.nr (m, t.counter) := by
      rw [hturns, seat, hl.counter]
      rfl
    have hfull := full_iff (n := args.nconnect) (k := ports.nr) (m := m) (c := t.counter)
    rw [← hl.reminder] at hfull
    simp only [nextRemoteport, hports]
    by_cases hlt : t.counter + 1 < share args.nconnect ports.nr m
    · -- the slot has a place left
      rw [nextSeat, if_pos hlt] at hseat
      have hslot : slotAt args ports (i + 1) = m := by
        rw [slotAt, slot, hseat]
      rw [if_neg fun hf => hfull.1 hf hlt]
      refine .inr ⟨_, rfl, rfl, ?_, ?_, ?_, ?_, ?_, ?_⟩
      · rw [hleft]
        exact hl.mdconnectUse
      · rw [hseat]
      all_goals rw [hslot]
      exacts [hl.reminder, hl.remoteportIdx, hl.dstaddr, hl.pushed]
    · -- the next slot begins
      rw [nextSeat, if_neg hlt] at hseat
      have hslot : slotAt args ports (i + 1) = m + 1 := by
        rw [slotAt, slot, hseat]
      have hidx : (if ports.nr ≤ t.remoteportIdx + 1 then 0 else t.remoteportIdx + 1) =
          (o + (m + 1)) % ports.nr := by
        rw [hl.remoteportIdx, wrap_succ hnr, add_assoc]
      have hdst : rpcPartialAddrCopy (ports.addrAt ((o + (m + 1)) % ports.nr)) t.xprtargs.dstaddr =
          dstAt ports o base (m + 1) := by
        rw [hl.dstaddr, dstAt]
      have hpush : pushedAt ports o base (m + 1) =
          xprtPortusagePushAddress t.remoteportUsage (dstAt ports o base (m + 1)) := by
        rw [pushedAt, hl.pushed, bind_some]
      rw [if_pos (hfull.2 hlt), hidx, hdst, ← hpush, hslot]
      cases hp : pushedAt ports o base (m + 1) with
      | none => exact .inl ⟨rfl, rfl⟩
      | some pushed =>
        refine .inr ⟨_, rfl, rfl, ?_, ?_, ?_, ?_, ?_, ?_⟩
        · rw [hleft]
          exact hl.mdconnectUse
        · rw [hseat]
        all_goals rw [hslot]
        · rw [Nat.sub_add_eq]
          exact congrArg (· - 1) hl.reminder
        · exact hp

end

section

variable {env : CreateEnv} {args : RpcCreateArgs} {spread : Nat} (hall : ∀ i, env.attempt i = none)
include hall

/-- **The loop.**  It shows turn by turn what a turn shows, until one finds no room for its port. -/
theorem createLoop_turns {β : Type} {f : XprtCreate → β} {g : Nat → β} {inv : Nat → CreateLoop → Prop}
    {full : Nat → Prop} {mult : Nat} (hfull : ∀ i, full i → full (i + 1))
    (hturn : ∀ i s, inv i s → (createStep args spread mult i s = none ∧ full (i + 1)) ∨
      ∃ t, createStep args spread mult i s = some t ∧ f t.xprtargs = g i ∧ inv (i + 1) t) :
    ∀ (turns : Nat) {i : Nat} {s : CreateLoop}, inv i s →
      (createLoop env args spread mult turns i s = .error (.errno .enospc) ∧ full (i + turns)) ∨
        ∃ t xprts, createLoop env args spread mult turns i s = .ok (t, xprts) ∧ inv (i + turns) t ∧
          xprts.map f = (List.range' i turns).map g
  | 0, _, s, h => Or.inr ⟨s, [], rfl, h, rfl⟩
  | turns + 1, i, s, h => by
    rw [createLoop, show i + (turns + 1) = i + 1 + turns by omega]
    rcases hturn i s h with ⟨hnone, hroom⟩ | ⟨t, hstep, hview, ht⟩
    · rw [hnone]
      exact Or.inl ⟨rfl, Nat.le_induction hroom (fun j _ => hfull j) _ (Nat.le_add_right _ _)⟩
    simp only [hstep, hall]
    rcases createLoop_turns hfull hturn turns ht with ⟨herr, hroom⟩ | ⟨u, xprts, hok, hu, hseen⟩
    · rw [herr]
      exact Or.inl ⟨rfl, hroom⟩
    · rw [hok]
      exact Or.inr ⟨u, t.xprtargs :: xprts, rfl, hu, by simp [List.range'_succ, hview, hseen]⟩

theorem create_eq {s : CreateLoop} {reminder : Nat} (hinit : createInit env args = .ok s)
    (hn : 0 < args.nconnect) (hspread : spreadReminder args = .ok (spread, reminder)) :
    rpcCreate env args =
      (createLoop env args spread (mdMult args) (args.mdconnect + args.nconnect - 1) 0
        { s with reminder := reminder }).map fun r =>
          { xprts := s.xprtargs :: r.2
            localportUsage := localportUsage env args
            remoteportUsage := args.remoteports.map fun _ => r.1.remoteportUsage } := by
  by_cases hone : args.nconnect ≤ 1 ∧ args.mdconnect = 0
  · simp only [rpcCreate, hinit, hall, bind, Except.bind, if_pos hone,
      show args.mdconnect + args.nconnect - 1 = 0 by omega]
    rfl
  · simp only [rpcCreate, hinit, hall, bind, Except.bind, if_neg hone, hspread, if_neg (ne_of_gt hn)]
    cases createLoop env args spread (mdMult args) (args.mdconnect + args.nconnect - 1) 0 _ <;> rfl

end

/-! ## The regular transports -/

/-- The destinations of the regular transports, in the order they are opened. -/
def regularDsts (xprts : List XprtCreate) : List SockAddr :=
  (xprts.filter fun x => x.role = .reg).map (·.dstaddr)

section

variable {env : CreateEnv} {args : RpcCreateArgs} {ports : RpcPortgroup} {o : Nat} {base : SockAddr}
  (hports : args.remoteports = some ports) (hnr : 0 < ports.nr) (hbase : copySockaddr args.address = some base)
  (hsrc : ∀ src, args.saddress = some src → (copySockaddr src).isSome) (halloc : env.remoteUsageAllocated = true)
  (ho : rpcCalcPortgroupOffset env (localportAddr args) ports args.remoteportsOffsetProvided args.remoteportsOffset = o)
include hports hnr hbase hsrc halloc ho

theorem createInit_ok :
    ∃ s, createInit env args = .ok s ∧ s.xprtargs.role = .reg ∧
      LoopAt args ports o base 0 { s with reminder := args.nconnect % ports.nr } := by
  have hlt : o < ports.nr := ho ▸ calcPortgroupOffset_lt hnr
  have hsrcaddr : args.saddress.map copySockaddr ≠ some none := by
    intro hnone
    obtain ⟨src, hs, hcopy⟩ := map_eq_some_iff.1 hnone
    exact Bool.false_ne_true (by simpa [hcopy] using hsrc src hs)
  have hslot : slotAt args ports 0 = 0 := by
    rw [slotAt, regularTurns, Nat.zero_sub]
    rfl
  unfold createInit
  rw [hbase]
  split
  · contradiction
  · exact absurd (by assumption) hsrcaddr
  rename_i hdst _
  cases hdst
  simp only [hports, ho, halloc, Bool.not_true, Bool.false_eq_true, if_false]
  refine ⟨_, rfl, rfl, ?_, ?_, ?_, ?_, ?_, ?_⟩
  · simp [mdLeft]
  · simp [regularTurns, seat]
  · simp [hslot]
  · simp [hslot, Nat.mod_eq_of_lt hlt]
  · simp [hslot, dstAt]
  · rw [hslot, pushedAt, dstAt]
    rfl

/-- **The regular transports of a client with remote ports.**  `rpc_create` opens them slot by slot,
or runs out of room for their ports. -/
theorem create_regular (hall : ∀ i, env.attempt i = none) (hn : 0 < args.nconnect) :
    (rpcCreate env args = .error (.errno .enospc) ∧
        pushedAt ports o base (min args.nconnect ports.nr - 1) = none) ∨
      ∃ created, rpcCreate env args = .ok created ∧
        (pushedAt ports o base (min args.nconnect ports.nr - 1)).isSome ∧
        regularDsts created.xprts = (range args.nconnect).map
          fun j => dstAt ports o base (slot args.nconnect ports.nr j) := by
  obtain ⟨s, hinit, hrole, hs⟩ := createInit_ok hports hnr hbase hsrc halloc ho
  have hspread : spreadReminder args = .ok (args.nconnect / ports.nr, args.nconnect % ports.nr) := by
    simp [spreadReminder, hports, if_neg (ne_of_gt hnr), Nat.mod_eq_sub_mul_div, mul_comm]
  have hlast : slotAt args ports (0 + (args.mdconnect + args.nconnect - 1)) = min args.nconnect ports.nr - 1 := by
    rw [zero_add, slotAt, regularTurns_last hn, slot_last hnr hn]
  have hfull : ∀ i, pushedAt ports o base (slotAt args ports i) = none →
      pushedAt ports o base (slotAt args ports (i + 1)) = none := fun i =>
    pushedAt_none_mono (slot_mono (regularTurns_mono (Nat.le_succ i)))
  rw [create_eq hall hinit hn hspread, ← hlast]
  rcases createLoop_turns hall (f := fun x => (x.role, x.dstaddr)) hfull
    (fun i s h => (createStep_seat hports hnr h).imp_right fun ⟨t, hstep, hrole, ht⟩ =>
      ⟨t, hstep, congrArg₂ Prod.mk hrole ht.dstaddr, ht⟩) _ hs with ⟨herr, hnone⟩ | ⟨t, xprts, hok, ht, hseen⟩
  · rw [herr]
    exact .inl ⟨rfl, hnone⟩
  rw [hok]
  refine .inr ⟨_, rfl, by rw [ht.pushed]; rfl, ?_⟩
  have hdsts : regularDsts xprts = (range' 1 (args.nconnect - 1)).map
      fun j => dstAt ports o base (slot args.nconnect ports.nr j) := by
    rw [← regularTurns_last hn, ← regularTurns_filter, List.map_map]
    have := congrArg (fun l => (l.filter (·.1 = .reg)).map (·.2)) hseen
    simpa [regularDsts, slotAt, List.filter_map, Function.comp_def, List.range_eq_range'] using this
  have hrange : range args.nconnect = 0 :: range' 1 (args.nconnect - 1) := by
    conv_lhs => rw [range_eq_range', ← Nat.sub_add_cancel hn, range'_succ]
  rw [hrange, map_cons, ← hdsts]
  have hdst := hs.dstaddr
  simp [regularDsts, hrole, slotAt, regularTurns] at hdst ⊢
  exact hdst

end

/-! ## The roles -/

/-- The variables that the roles and the room for ports depend on, at turn `i`. -/
structure RolesAt (args : RpcCreateArgs) (i : Nat) (s : CreateLoop) : Prop where
  mdconnectUse : s.mdconnectUse = mdLeft args i
  ports : s.remoteportUsage.ports.length ≤ regularTurns args i + 1

/-- The transports that the loop opens, by their roles. -/
structure RoleSplit (args : RpcCreateArgs) (xprts : List XprtCreate) : Prop where
  md : (xprts.map (·.role)).count .md = args.mdconnect
  reg : (xprts.map (·.role)).count .reg = args.nconnect - 1
  window : ∀ k, (((xprts.map (·.role)).drop k).take (mdMult args)).count .md ≤ mdMult args - 1

section

variable {env : CreateEnv} {args : RpcCreateArgs} {spread i : Nat} {s : CreateLoop}

theorem nextRemoteport_room (args : RpcCreateArgs) (spread : Nat) (s : CreateLoop) :
    (nextRemoteport args spread s = none ∧ xprtMaxPorts ≤ s.remoteportUsage.ports.length) ∨
      ∃ t, nextRemoteport args spread s = some t ∧ t.mdconnectUse = s.mdconnectUse ∧
        t.remoteportUsage.ports.length ≤ s.remoteportUsage.ports.length + 1 := by
  unfold nextRemoteport
  cases args.remoteports with
  | none => exact .inr ⟨s, rfl, rfl, Nat.le_succ _⟩
  | some ports =>
    dsimp only
    generalize (if ports.nr ≤ s.remoteportIdx + 1 then 0 else s.remoteportIdx + 1) = idx
    unfold xprtPortusagePushAddress
    split
    · split
      · exact .inl ⟨rfl, by assumption⟩
      · split <;> exact .inr ⟨_, rfl, rfl, by simp⟩
    · exact .inr ⟨_, rfl, rfl, Nat.le_succ _⟩

theorem RolesAt.nextLocalport (h : RolesAt args i s) : RolesAt args i (nextLocalport args s) := by
  unfold Sunrpc.nextLocalport
  split
  · exact h
  · exact ⟨h.mdconnectUse, h.ports⟩

theorem createStep_roles (h : RolesAt args i s) :
    (createStep args spread (mdMult args) i s = none ∧ xprtMaxPorts ≤ regularTurns args (i + 1)) ∨
      ∃ t, createStep args spread (mdMult args) i s = some t ∧ t.xprtargs.role = roleAt args i ∧ RolesAt args (i + 1) t := by
  rw [createStep_eq h.mdconnectUse]
  cases hrole : roleAt args i with
  | md =>
    obtain ⟨hleft, hturns⟩ := turns_md hrole
    exact .inr ⟨_, rfl, rfl, by rw [hleft, h.mdconnectUse], hturns ▸ h.ports⟩
  | reg =>
    obtain ⟨hleft, hturns⟩ := turns_reg hrole
    have ⟨huse, hports⟩ := h.nextLocalport
    rcases nextRemoteport_room args spread (nextLocalport args s) with ⟨hnone, hfull⟩ | ⟨t, ht, htuse, hlen⟩
    · rw [hnone]
      exact .inl ⟨rfl, by omega⟩
    · rw [ht]
      exact .inr ⟨_, rfl, rfl, by rw [hleft, ← huse, ← htuse], by dsimp only; omega⟩

theorem count_md_add_count_reg (l : List RpcXprtRole) : l.count .md + l.count .reg = l.length := by
  induction l with
  | nil => rfl
  | cons role l ih => cases role <;> simp <;> omega

theorem exists_reg_turn (args : RpcCreateArgs) (k : Nat) : ∃ j, k ≤ j ∧ j < k + mdMult args ∧ roleAt args j = .reg := by
  have hlt := Nat.mod_lt k (mdMult_pos args)
  refine ⟨k + (mdMult args - 1 - k % mdMult args), by omega, by omega, if_neg fun h => ?_⟩
  have hturn := (roleAt_eq_md.1 (if_pos h)).2
  rw [← Nat.mod_add_mod, Nat.add_sub_of_le (by omega), Nat.mod_eq_of_lt (by omega)] at hturn
  exact lt_irrefl _ hturn

theorem count_window (args : RpcCreateArgs) (turns k : Nat) :
    ((((range' 0 turns).map (roleAt args)).drop k).take (mdMult args)).count .md ≤ mdMult args - 1 := by
  set window := (((range' 0 turns).map (roleAt args)).drop k).take (mdMult args)
  have hlen : window.length = min (mdMult args) (turns - k) := by simp [window]
  by_cases hshort : turns - k < mdMult args
  · exact le_trans count_le_length (by omega)
  obtain ⟨j, hk, hj, hreg⟩ := exists_reg_turn args k
  have hmem : .reg ∈ window := mem_iff_getElem.2 ⟨j - k, by omega, by simp [window, hreg, hk]⟩
  have := count_lt_length_iff.2 ⟨_, hmem, (by decide : RpcXprtRole.reg ≠ .md)⟩
  omega

theorem createInit_roles (h : createInit env args = .ok s) : RolesAt args 0 s := by
  have hleft : args.mdconnect = mdLeft args 0 := by simp [mdLeft]
  unfold createInit at h
  split at h
  iterate 2 cases h
  cases hports : args.remoteports with
  | none => rw [hports] at h; cases h; exact ⟨hleft, Nat.zero_le _⟩
  | some ports =>
    rw [hports] at h
    dsimp only at h
    split at h
    · cases h
    · cases h; exact ⟨hleft, Nat.le_add_left _ _⟩

theorem spreadReminder_ok (hports : ∀ ports, args.remoteports = some ports → 0 < ports.nr) :
    ∃ spread reminder, spreadReminder args = .ok (spread, reminder) := by
  unfold spreadReminder
  cases hp : args.remoteports with
  | none => exact ⟨_, _, rfl⟩
  | some ports => exact ⟨_, _, if_neg (ne_of_gt (hports ports hp))⟩

section

variable (hn : 0 < args.nconnect) (hall : ∀ i, env.attempt i = none)
  (hports : ∀ ports, args.remoteports = some ports → 0 < ports.nr) (hinit : createInit env args = .ok s)
include hn hall hports hinit

theorem create_turns :
    (rpcCreate env args = .error (.errno .enospc) ∧ xprtMaxPorts < args.nconnect) ∨
      ∃ created xprts, rpcCreate env args = .ok created ∧ created.xprts = s.xprtargs :: xprts ∧
        xprts.map (·.role) = (range' 0 (args.mdconnect + args.nconnect - 1)).map (roleAt args) := by
  obtain ⟨spread, reminder, hspread⟩ := spreadReminder_ok hports
  have hs : RolesAt args 0 { s with reminder := reminder } :=
    ⟨(createInit_roles hinit).mdconnectUse, (createInit_roles hinit).ports⟩
  have hfull : ∀ i, xprtMaxPorts ≤ regularTurns args i → xprtMaxPorts ≤ regularTurns args (i + 1) := fun i h =>
    le_trans h (regularTurns_mono (Nat.le_succ i))
  rw [create_eq hall hinit hn hspread]
  rcases createLoop_turns hall hfull (fun _ _ => @createStep_roles args spread _ _) _ hs with
    ⟨herr, hroom⟩ | ⟨t, xprts, hok, -, hroles⟩
  · rw [zero_add, regularTurns_last hn] at hroom
    rw [herr]
    exact .inl ⟨rfl, by omega⟩
  · rw [hok]
    exact .inr ⟨_, xprts, rfl, rfl, hroles⟩

/-- **The roles of the transports.** -/
theorem rpcCreate_roles :
    (rpcCreate env args = .error (.errno .enospc) ∧ xprtMaxPorts < args.nconnect) ∨
      ∃ created xprts, rpcCreate env args = .ok created ∧ created.xprts = s.xprtargs :: xprts ∧
        RoleSplit args xprts := by
  refine (create_turns hn hall hports hinit).imp_right ?_
  rintro ⟨created, xprts, hok, hxprts, hroles⟩
  refine ⟨created, xprts, hok, hxprts, ?_⟩
  have hreg : (xprts.map (·.role)).count .reg = args.nconnect - 1 := by
    have hlen := congrArg length (regularTurns_filter args (args.mdconnect + args.nconnect - 1))
    rw [length_map, length_range', regularTurns_last hn, ← countP_eq_length_filter] at hlen
    rw [hroles, count, countP_map, ← hlen, range_eq_range']
    rfl
  have hsum := count_md_add_count_reg (xprts.map (·.role))
  have hturns := congrArg length hroles
  rw [length_map, length_map, length_range'] at hturns
  rw [length_map] at hsum
  exact ⟨by omega, hreg, hroles ▸ count_window args _⟩

end

end

/-- Two connections with three for metadata. -/
theorem rpcCreate_roles_two_three :
    let args : RpcCreateArgs := { address := { family := .inet, addr := 1 }, nconnect := 2, mdconnect := 3 }
    ∃ s, createInit {} args = .ok s ∧ ((rpcCreate {} args = .error (.errno .enospc) ∧ xprtMaxPorts < 2) ∨
      ∃ created xprts, rpcCreate {} args = .ok created ∧ created.xprts = s.xprtargs :: xprts ∧ RoleSplit args xprts) :=
  ⟨_, rfl, rpcCreate_roles (by decide) (fun _ => rfl) nofun rfl⟩

deriving instance DecidableEq for XprtCreate, RpcCreated

/-- The sixty-fifth remote port finds no room. -/
theorem rpcCreate_ports_full :
    let ports : RpcPortgroup := { addrs := (List.range 65).map fun i => { family := .inet, addr := i } }
    let args : RpcCreateArgs := { address := { family := .inet, addr := 1 }, nconnect := 65, remoteports := some ports }
    (∃ s, createInit {} args = .ok s) ∧ rpcCreate {} args = .error (.errno .enospc) :=
  ⟨⟨_, rfl⟩, by decide +kernel⟩

end Vastnfs.Sunrpc
