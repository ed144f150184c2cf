import Vastnfs.Lib.Runs
import Vastnfs.Nfs.MultiServer
import Vastnfs.Nfs.PortGroup

/-!
# The number of connections

The options of an NFSv3 mount that decide its transports: `nfs_fs_context_parse_param` of `fs/nfs/fs_context.c`,
`nfs_init_server` and `nfs_create_rpc_client` of `fs/nfs/client.c`, and `rpc_create`.

* `create_opened`: the transports a client opens at most.
* `withinLimits_iff`: when the limit of connections is kept.
-/

namespace Vastnfs.Nfs

open Sunrpc Runs Option

/-! ## The functions -/

structure MountContext extends NfsFsContext where
  mdconnect : Nat := 0
  localPorts : Option RpcPortgroup := none
  localPortsFailover : Bool := false

inductive ConnectOption where
  | nconnect (n : Nat)
  | mdconnect (n : Nat)
  | remoteportsOffset (n : Nat)
  | localportsFailover
  | localports (string : List Char)
  | remoteports (string : List Char)

def nfsMaxMdConnections : Nat := 8

section

variable (T : IpText)

def nfsFsContextParseParam (ctx : MountContext) : ConnectOption → Option MountContext
  | .nconnect n => if 1 ≤ n ∧ n ≤ nfsMaxConnections then some { ctx with nconnect := n } else none
  | .mdconnect n => if 1 ≤ n ∧ n ≤ nfsMaxMdConnections then some { ctx with mdconnect := n } else none
  | .remoteportsOffset n =>
    if 1 ≤ n ∧ n ≤ 0x100 then some { ctx with remoteportsOffset := n, remoteportsOffsetProvided := true } else none
  | .localportsFailover => some { ctx with localPortsFailover := true }
  | .localports string =>
    match nfsParsePortGroup T .«local» string ctx.localPorts with
    | some (.ok pg) => some { ctx with localPorts := some pg }
    | _ => none
  | .remoteports string =>
    match nfsParsePortGroup T .remote string ctx.remotePorts with
    | some (.ok pg) => some { ctx with remotePorts := some pg }
    | _ => none

/-- `__nfs_get_dns_remoteports`, with the addresses that the query returned. -/
def addDnsAddrs : Nat → List (List Char) → List SockAddr → Option (List SockAddr)
  | maxRports + 1, p :: ips, addrs =>
    if rpcMaxPorts ≤ addrs.length then some addrs
    else (T.rpcPton p).bind fun addr => addDnsAddrs maxRports ips (addrs ++ [addr])
  | _, _, addrs => some addrs

/-- `nfs_get_dns_remoteports` with the answers to its queries; `none` when they are not enough. -/
def nfsGetDnsRemoteports (nconnect : Nat) : List (List (List Char)) → List SockAddr → Option (List SockAddr)
  | [], addrs => if addrs.length < nconnect then none else some addrs
  | ips :: answers, addrs =>
    if addrs.length < nconnect then
      (addDnsAddrs T (nconnect - addrs.length) ips addrs).bind (nfsGetDnsRemoteports nconnect answers)
    else some addrs

def nfsVerifyServerAddress (addr : SockAddr) : Prop := addr.IsIp ∧ addr.addr ≠ 0
deriving Decidable

/-- The address of the server and the remote ports. -/
def nfsFsContextValidate (answers : List (List (List Char))) (ctx : MountContext) : Option MountContext :=
  if nfsVerifyServerAddress ctx.address then
    match ctx.remotePorts with
    | some ⟨addrs, true⟩ =>
      (nfsGetDnsRemoteports T (max 1 ctx.nconnect) answers addrs).map fun addrs =>
        { ctx with remotePorts := some ⟨addrs, true⟩ }
    | _ => some ctx
  else none

def mountContext (address : SockAddr) (opts : List ConnectOption) (answers : List (List (List Char))) : Option MountContext :=
  (run (nfsFsContextParseParam T) { address := address } opts).bind (nfsFsContextValidate T answers)

end

/-- What `nfs_create_rpc_client` asks for, through the copies in `struct nfs_client_initdata` and
`struct nfs_client`. -/
def MountContext.createArgs (ctx : MountContext) : RpcCreateArgs where
  address := ctx.address
  localports := ctx.localPorts
  localportsFailover := ctx.localPortsFailover
  remoteports := ctx.remotePorts
  remoteportsOffsetProvided := ctx.remoteportsOffsetProvided
  remoteportsOffset := ctx.remoteportsOffset
  nconnect := ctx.nconnect
  mdconnect := ctx.mdconnect

/-- `nfs_init_server` of a mount with a client of its own, and the `mdconnect` it is left with. -/
def nfsInitServer (env : CreateEnv) (ctx : MountContext) : Except Fault (RpcCreated × Nat) :=
  (rpcCreate env ctx.createArgs).map fun created =>
    -- the limit comes when the transports have been opened
    (created, if nfsMaxConnections < ctx.mdconnect + ctx.nconnect then nfsMaxConnections - ctx.nconnect
      else ctx.mdconnect)

/-! ## The limit -/

def WithinLimits (r : Except Fault (RpcCreated × Nat)) : Prop :=
  r ≠ .error .divideByZero ∧ ∀ created mdconnect, r = .ok (created, mdconnect) → created.xprts.length ≤ nfsMaxConnections

/-- What is known of the options of a mount. -/
structure Ready (ctx : MountContext) : Prop where
  address : ctx.address.IsIp
  nconnect : ctx.nconnect ≤ nfsMaxConnections
  remotePorts : ∀ ports, ctx.remotePorts = some ports → 0 < ports.nr

def OptionsOk (T : IpText) (ctx : MountContext) : Prop :=
  ctx.nconnect ≤ nfsMaxConnections ∧ ∀ pg, ctx.remotePorts = some pg → Built T pg

section

variable {T : IpText}

theorem fsContextParseParam_built {ctx ctx' : MountContext} {opt : ConnectOption} (h : OptionsOk T ctx)
    (hparse : nfsFsContextParseParam T ctx opt = some ctx') : OptionsOk T ctx' := by
  cases opt with
  | nconnect n =>
    obtain ⟨hn, rfl⟩ := of_guarded hparse
    exact ⟨hn.2, h.2⟩
  | mdconnect n | remoteportsOffset n =>
    obtain ⟨-, rfl⟩ := of_guarded hparse
    exact h
  | localportsFailover =>
    cases hparse
    exact h
  | localports string =>
    dsimp only [nfsFsContextParseParam] at hparse
    split at hparse
    · cases hparse
      exact h
    · cases hparse
  | remoteports string =>
    dsimp only [nfsFsContextParseParam] at hparse
    split at hparse
    · cases hparse
      rename_i pg hpg
      refine ⟨h.1, fun pg' hpg' => ?_⟩
      cases hpg'
      cases hports : ctx.remotePorts with
      | none => exact .first (hports ▸ hpg)
      | some ports => exact .more (h.2 ports hports) (hports ▸ hpg)
    · cases hparse

theorem getDnsRemoteports_length {nconnect : Nat} {addrs' : List SockAddr} :
    ∀ {answers : List (List (List Char))} {addrs : List SockAddr},
      nfsGetDnsRemoteports T nconnect answers addrs = some addrs' → nconnect ≤ addrs'.length
  | [], _, h => by
    obtain ⟨hlen, haddrs⟩ := ite_none_left_eq_some.1 h
    cases haddrs
    exact not_lt.1 hlen
  | _ :: _, _, h => by
    rw [nfsGetDnsRemoteports] at h
    split at h
    · obtain ⟨addrs, -, hrest⟩ := bind_eq_some_iff.1 h
      exact getDnsRemoteports_length hrest
    · cases h
      exact not_lt.1 ‹_›

theorem fsContextValidate_ready (hT : T.Lawful) {ctx ctx' : MountContext} {answers : List (List (List Char))}
    (h : OptionsOk T ctx) (hvalid : nfsFsContextValidate T answers ctx = some ctx') : Ready ctx' := by
  obtain ⟨⟨hip, -⟩, hvalid⟩ := ite_none_right_eq_some.1 hvalid
  split at hvalid
  · obtain ⟨addrs, haddrs, rfl⟩ := map_eq_some_iff.1 hvalid
    refine ⟨hip, h.1, fun ports hports => ?_⟩
    cases hports
    exact Nat.le_trans (Nat.le_max_left _ _) (getDnsRemoteports_length haddrs)
  cases hvalid
  rename_i hdns
  refine ⟨hip, h.1, fun ports hports => List.length_pos_of_ne_nil ?_⟩
  refine ((h.2 ports hports).addrsOk hT).2 (Bool.eq_false_iff.2 fun htrue => hdns ports.addrs ?_)
  rw [hports, ← htrue]

end

section

variable {env : CreateEnv} {args : RpcCreateArgs} {ctx : MountContext}

theorem createInit_errno {f : Fault} (h : createInit env args = .error f) : f ≠ .divideByZero := by
  rintro rfl
  unfold createInit at h
  split at h
  iterate 2 cases h
  cases hports : args.remoteports with
  | none => rw [hports] at h; cases h
  | some ports =>
    dsimp only at h
    split at h
    · cases h
    · split at h <;> cases h

theorem createInit_ip (hip : args.address.IsIp) (hsrc : args.saddress = none) : ∃ s, createInit {} args = .ok s := by
  obtain ⟨dst, hdst⟩ : ∃ dst, copySockaddr args.address = some dst := by
    rcases hip with h | h <;> exact ⟨_, by rw [copySockaddr, h]⟩
  unfold createInit
  rw [hdst, hsrc]
  cases args.remoteports with
  | none => exact ⟨_, rfl⟩
  | some ports => exact ⟨_, rfl⟩

theorem createLoop_opened (env : CreateEnv) (args : RpcCreateArgs) (spread mult : Nat) : ∀ (turns i : Nat) (s : CreateLoop),
    createLoop env args spread mult turns i s = .error (.errno .enospc) ∨
      ∃ t xprts, createLoop env args spread mult turns i s = .ok (t, xprts) ∧ xprts.length ≤ turns
  | 0, _, s => .inr ⟨s, [], rfl, le_rfl⟩
  | turns + 1, i, s => by
    rw [createLoop]
    cases createStep args spread mult i s with
    | none => exact .inl rfl
    | some t =>
      cases env.attempt (i + 1) with
      | some e => exact .inr ⟨t, [], rfl, Nat.zero_le _⟩
      | none =>
        rcases createLoop_opened env args spread mult turns (i + 1) t with herr | ⟨u, xprts, hok, hlen⟩
        · simp only [herr]
          exact .inl rfl
        · simp only [hok]
          exact .inr ⟨u, _, rfl, Nat.succ_le_succ hlen⟩

/-- **The transports of a client**: `nconnect` and `mdconnect` together, or a single one. -/
theorem create_opened (hports : ∀ ports, args.remoteports = some ports → 0 < ports.nr)
    (hn : args.mdconnect = 0 ∨ 0 < args.nconnect) :
    rpcCreate env args ≠ .error .divideByZero ∧
      ∀ created, rpcCreate env args = .ok created → created.xprts.length ≤ max 1 (args.nconnect + args.mdconnect) := by
  unfold rpcCreate
  cases hinit : createInit env args with
  | error f => simp [bind, Except.bind, createInit_errno hinit]
  | ok s =>
    simp only [bind, Except.bind]
    cases env.attempt 0 with
    | some e => simp
    | none =>
      obtain ⟨spread, reminder, hspread⟩ := spreadReminder_ok hports
      by_cases hone : args.nconnect ≤ 1 ∧ args.mdconnect = 0
      · simp [hone, pure, Except.pure]
      have hpos : args.nconnect ≠ 0 := by omega
      simp only [if_neg hone, hspread, if_neg hpos]
      rcases createLoop_opened env args spread (mdMult args) (args.mdconnect + args.nconnect - 1) 0
        { s with reminder := reminder } with herr | ⟨t, xprts, hok, hlen⟩
      · simp [herr]
      simp only [hok, pure, Except.pure]
      refine ⟨nofun, fun created h => ?_⟩
      cases h
      simp only [List.length_cons]
      omega

theorem create_divides {s : CreateLoop} (hn : args.nconnect = 0) (hmd : args.mdconnect ≠ 0)
    (hports : ∀ ports, args.remoteports = some ports → 0 < ports.nr) (hinit : createInit {} args = .ok s) :
    rpcCreate {} args = .error .divideByZero := by
  obtain ⟨spread, reminder, hspread⟩ := spreadReminder_ok hports
  have hmany : ¬ (args.nconnect ≤ 1 ∧ args.mdconnect = 0) := fun h => hmd h.2
  simp only [rpcCreate, hinit, bind, Except.bind, if_neg hmany, hspread, if_pos hn]

/-- **The limit of connections** is kept just when there are regular connections beside those for metadata, and
not too many of both together. -/
theorem withinLimits_iff {T : IpText} (hT : T.Lawful) {address : SockAddr} {opts : List ConnectOption}
    {answers : List (List (List Char))} (hctx : mountContext T address opts answers = some ctx) :
    (∀ env, WithinLimits (nfsInitServer env ctx)) ↔
      (ctx.mdconnect = 0 ∨ 0 < ctx.nconnect) ∧ ctx.nconnect + ctx.mdconnect ≤ nfsMaxConnections := by
  obtain ⟨ctx₀, hparse, hvalid⟩ := bind_eq_some_iff.1 hctx
  have hbuilt := run_invariant (J := OptionsOk T) (fun _ _ _ => fsContextParseParam_built)
    ⟨Nat.zero_le _, fun _ h => by cases h⟩ hparse
  obtain ⟨hip, hmax, hports⟩ := fsContextValidate_ready hT hbuilt hvalid
  constructor
  · intro h
    obtain ⟨s, hinit⟩ : ∃ s, createInit {} ctx.createArgs = .ok s := createInit_ip hip rfl
    obtain ⟨hdiv, hle⟩ := h {}
    have hn : ctx.mdconnect = 0 ∨ 0 < ctx.nconnect := by
      by_contra hzero
      obtain ⟨hmd, hzero⟩ := not_or.1 hzero
      refine hdiv ?_
      rw [nfsInitServer, create_divides (Nat.eq_zero_of_not_pos hzero) hmd hports hinit]
      rfl
    refine ⟨hn, ?_⟩
    rcases Nat.eq_zero_or_pos ctx.nconnect with hzero | hpos
    · have : ctx.mdconnect = 0 := by omega
      omega
    rcases create_turns hpos (fun _ => rfl) hports hinit with ⟨-, hfull⟩ | ⟨created, xprts, hok, hxprts, hturns⟩
    · exact absurd hmax (not_le.2 hfull)
    have hlen := congrArg List.length hturns
    have := hle created _ (by rw [nfsInitServer, hok]; rfl)
    simp [hxprts, MountContext.createArgs] at hlen this
    omega
  · rintro ⟨hn, hsum⟩ env
    obtain ⟨hdiv, hle⟩ := @create_opened env ctx.createArgs hports hn
    unfold nfsInitServer
    cases hcreate : rpcCreate env ctx.createArgs with
    | error f => exact ⟨fun h => hdiv (by rw [hcreate]; cases h; rfl), nofun⟩
    | ok created =>
      refine ⟨nofun, fun created' mdconnect h => ?_⟩
      cases h
      exact Nat.le_trans (hle created hcreate) (max_le (by decide) hsum)

end

def serverAddress : SockAddr := { family := .inet, addr := 0x0a000001 }

theorem withinLimits_two_three :
    ∃ ctx, mountContext dotted serverAddress [.nconnect 2, .mdconnect 3] [] = some ctx ∧
      ∀ env, WithinLimits (nfsInitServer env ctx) :=
  have hctx : mountContext dotted serverAddress [.nconnect 2, .mdconnect 3] [] =
      some { address := serverAddress, nconnect := 2, mdconnect := 3 } := rfl
  ⟨_, hctx, (withinLimits_iff dotted_lawful hctx).2 (by decide)⟩

/-- Connections for metadata alone divide by zero, and the two limits together exceed the first. -/
theorem limits_exceeded :
    (∃ ctx, mountContext dotted serverAddress [.mdconnect 1] [] = some ctx ∧
      nfsInitServer {} ctx = .error .divideByZero) ∧
    ∃ ctx, mountContext dotted serverAddress [.nconnect 64, .mdconnect 8] [] = some ctx ∧
      ∃ created, nfsInitServer {} ctx = .ok (created, 0) ∧ created.xprts.length = 72 :=
  ⟨⟨_, rfl, rfl⟩, _, rfl, _, rfl, rfl⟩

end Vastnfs.Nfs
