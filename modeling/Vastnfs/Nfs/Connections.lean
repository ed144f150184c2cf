import Vastnfs.Nfs.MultiServer

/-!
# Connections per remote address

An NFSv3 mount opens its connections in `rpc_create`, an NFSv4.1 mount gives each server created by
`nfs4_create_multi_server` its number. Both mean the same even distribution.

* `regularConnections_eq`: the connections of an NFSv3 client to an address.
* `connections_eq`: the connections of an NFSv4.1 mount to an address.
* `constructionsAgree_iff`: they agree unless there are too many ports or a partial copy of an
  address loses its scope id.
-/

namespace Vastnfs.Nfs

open Sunrpc Shares List

def regularConnections (xprts : List XprtCreate) (addr : SockAddr) : Nat :=
  (regularDsts xprts).countP fun dst => rpcCmpAddr dst addr

def NfsServer.clients (server : NfsServer) : List NfsClient :=
  server.nfsClient :: server.altServer.map (·.nfsClient)

def NfsServer.connections (server : NfsServer) (addr : SockAddr) : Nat :=
  ((server.clients.filter fun clp => rpcCmpAddr clp.clAddr addr).map (·.clNconnect)).sum

/-- The remote ports are different IP addresses. -/
structure DistinctPorts (ports : RpcPortgroup) : Prop where
  isIp : ∀ i < ports.nr, (ports.addrAt i).IsIp
  inj : ∀ i < ports.nr, ∀ j < ports.nr, rpcCmpAddr (ports.addrAt i) (ports.addrAt j) = true → i = j

/-- The place of port `i` counted cyclically from the offset `o`. -/
def placeFrom (nr o i : Nat) : Nat := (i + (nr - o)) % nr

/-- Both constructions give every remote address the same number of connections: an even share,
the first ports from the offset getting one more. -/
def ConstructionsAgree (env : CreateEnv) (outcome : ServerOutcome) (args : RpcCreateArgs) (ctx : NfsFsContext)
    (ports : RpcPortgroup) (o : Nat) : Prop :=
  ∃ created server, rpcCreate env args = .ok created ∧
    (∃ enough, ∀ fuel, enough ≤ fuel → nfs4CreateMultiServer env outcome ctx fuel = some (.ok (some server))) ∧
    ∀ i < ports.nr, regularConnections created.xprts (ports.addrAt i) = server.connections (ports.addrAt i) ∧
      server.connections (ports.addrAt i) = share args.nconnect ports.nr (placeFrom ports.nr o i)

section

variable {nr o i m : Nat}

theorem placeFrom_lt (hnr : 0 < nr) : placeFrom nr o i < nr := Nat.mod_lt _ hnr

theorem port_eq_iff (ho : o < nr) (hi : i < nr) (hm : m < nr) : (o + m) % nr = i ↔ m = placeFrom nr o i := by
  rw [placeFrom, Nat.add_mod_eq_ite, Nat.mod_eq_of_lt ho, Nat.mod_eq_of_lt hm]
  rcases Nat.eq_zero_or_pos o with rfl | hpos
  · rw [Nat.sub_zero, Nat.add_mod_right, Nat.mod_eq_of_lt hi]
    split <;> omega
  · rw [Nat.add_mod_eq_ite, Nat.mod_eq_of_lt hi, Nat.mod_eq_of_lt (show nr - o < nr by omega)]
    split <;> split <;> omega

theorem sum_filter_range {n a : Nat} {p : Nat → Bool} (f : Nat → Nat) (hp : ∀ m < n, p m = true ↔ m = a) :
    (((range n).filter p).map f).sum = if a < n then f a else 0 := by
  have hone : (range n).filter p = (range n).filter (· == a) := filter_congr fun m hm => by
    rw [Bool.eq_iff_iff, hp m (mem_range.1 hm), beq_iff_eq]
  rw [hone, filter_beq, nodup_range.count]
  split <;> simp_all

end

section

variable {outcome : ServerOutcome} {ctx : NfsFsContext} {ports : RpcPortgroup} {o : Nat}

theorem clients_primaryAt (hup : ∀ m, outcome m = none) (m : Nat) :
    (primaryAt outcome ctx ports o (m + 1)).clients = (range (m + 1)).map (clientAt ctx ports o) := by
  induction m with
  | zero => rfl
  | succ m ih =>
    have hclients : (primaryAt outcome ctx ports o (m + 2)).clients =
        (primaryAt outcome ctx ports o (m + 1)).clients ++ [clientAt ctx ports o (m + 1)] := by
      simp [NfsServer.clients, primaryAt, altsAt, hup]
    rw [hclients, ih, range_succ (n := m + 1), map_append]
    rfl

/-- **The connections of an NFSv4.1 mount.** -/
theorem connections_eq (hports : DistinctPorts ports) (ho : o < ports.nr) (hn : 0 < ctx.nconnect)
    (hup : ∀ m, outcome m = none) {i : Nat} (hi : i < ports.nr) :
    (primaryAt outcome ctx ports o (min ctx.nconnect ports.nr)).connections (ports.addrAt i) =
      share ctx.nconnect ports.nr (placeFrom ports.nr o i) := by
  have hnr : 0 < ports.nr := Nat.zero_lt_of_lt ho
  set least := min ctx.nconnect ports.nr
  have hmin : least = least - 1 + 1 := by omega
  have hcmp : ∀ m < least,
      rpcCmpAddr (clientAt ctx ports o m).clAddr (ports.addrAt i) = true ↔ m = placeFrom ports.nr o i := by
    intro m hm
    rw [← port_eq_iff ho hi (by omega), clientAt, cmpAddr_setPort]
    constructor
    · exact hports.inj _ (Nat.mod_lt _ hnr) i hi
    · intro h
      rw [h]
      exact cmpAddr_refl (hports.isIp i hi)
  have hclients : (primaryAt outcome ctx ports o least).clients =
      (range least).map (clientAt ctx ports o) := by
    rw [hmin]
    exact clients_primaryAt hup _
  rw [NfsServer.connections, hclients, filter_map, map_map]
  refine (sum_filter_range _ hcmp).trans ?_
  split_ifs with hlt
  · rfl
  have hzero : ¬ 0 < share ctx.nconnect ports.nr (placeFrom ports.nr o i) :=
    mt (share_pos_iff (placeFrom_lt hnr)).1 hlt
  omega

end

section

variable {ports : RpcPortgroup} {o i m : Nat} {base : SockAddr} (hports : DistinctPorts ports) (ho : o < ports.nr)
include hports ho

theorem scopeKept_of_dstAt (h : rpcCmpAddr (dstAt ports o base m) (ports.addrAt i) = true) :
    ScopeKept base (ports.addrAt i) := by
  rw [dstAt_eq ho hports.isIp] at h
  obtain ⟨-, hfam, haddr, hscope⟩ := cmpAddr_iff.1 h
  intro h₆ hlocal
  exact hscope (hfam.trans h₆) (by rw [haddr]; exact hlocal)

theorem cmpAddr_dstAt (hscope : ScopeKept base (ports.addrAt ((o + m) % ports.nr))) :
    rpcCmpAddr (dstAt ports o base m) (ports.addrAt ((o + m) % ports.nr)) = true := by
  have hip := hports.isIp _ (Nat.mod_lt (o + m) (Nat.zero_lt_of_lt ho))
  rw [dstAt_eq ho hports.isIp, ← partialAddrCopy_of_isIp hip, cmpAddr_partialCopy hip]
  exact hscope

theorem dstAt_iff (hscope : ScopeKept base (ports.addrAt ((o + m) % ports.nr))) (hi : i < ports.nr)
    (hm : m < ports.nr) :
    rpcCmpAddr (dstAt ports o base m) (ports.addrAt i) = true ↔ m = placeFrom ports.nr o i := by
  have hown := cmpAddr_dstAt hports ho hscope
  rw [← port_eq_iff ho hi hm]
  constructor
  · intro h
    exact hports.inj _ (Nat.mod_lt _ (Nat.zero_lt_of_lt ho)) i hi (cmpAddr_trans (cmpAddr_symm hown) h)
  · rintro rfl
    exact hown

variable {n : Nat} (hscope : ∀ m < min n ports.nr, ScopeKept base (ports.addrAt ((o + m) % ports.nr)))
include hscope

theorem pushedAt_inUse (hm : m < min n ports.nr) : (pushedAt ports o base m).isSome = true ↔ m < xprtMaxPorts := by
  have hne : ∀ m < min n ports.nr, ∀ m' < m,
      rpcCmpAddrPort (dstAt ports o base m') (dstAt ports o base m) = false := by
    intro m hm m' hm'
    rw [Bool.eq_false_iff]
    intro h
    have hi : (o + m) % ports.nr < ports.nr := Nat.mod_lt _ (Nat.zero_lt_of_lt ho)
    have hsame := cmpAddr_trans (cmpAddrPort_iff.1 h).1 (cmpAddr_dstAt hports ho (hscope m hm))
    have hm₁ := (dstAt_iff hports ho (hscope m' (by omega)) hi (by omega)).1 hsame
    have hm₂ := (port_eq_iff ho hi (by omega)).1 rfl
    omega
  rw [pushedAt_distinct hne m hm]
  split <;> simp_all

/-- **The connections of an NFSv3 client.** -/
theorem regularConnections_eq {xprts : List XprtCreate} (hi : i < ports.nr)
    (hdsts : regularDsts xprts = (range n).map fun j => dstAt ports o base (slot n ports.nr j)) :
    regularConnections xprts (ports.addrAt i) = share n ports.nr (placeFrom ports.nr o i) := by
  have hnr : 0 < ports.nr := Nat.zero_lt_of_lt ho
  rw [regularConnections, hdsts, countP_map, ← count_slot (placeFrom_lt hnr)]
  refine countP_congr fun j hj => ?_
  have hlt := mem_range.1 hj
  rw [decide_eq_true_iff]
  exact dstAt_iff hports ho (hscope _ (slot_lt_min hnr hlt)) hi (slot_lt hnr hlt)

end

/-- **When the two constructions agree.** -/
theorem constructionsAgree_iff (env : CreateEnv) (outcome : ServerOutcome) (args : RpcCreateArgs)
    (ctx : NfsFsContext) (ports : RpcPortgroup) (o : Nat) (base : SockAddr)
    (hargs : args.remoteports = some ports) (hctx : ctx.remotePorts = some ports)
    (hnconnect : ctx.nconnect = args.nconnect) (hn : 1 ≤ args.nconnect) (hnr : 1 ≤ ports.nr)
    (hports : DistinctPorts ports)
    (ho : rpcCalcPortgroupOffset env (localportAddr args) ports args.remoteportsOffsetProvided
      args.remoteportsOffset = o)
    (ho' : rpcCalcPortgroupOffset env 0 ports ctx.remoteportsOffsetProvided ctx.remoteportsOffset = o)
    (hbase : copySockaddr args.address = some base)
    (hsrc : ∀ src, args.saddress = some src → (copySockaddr src).isSome)
    (halloc : env.remoteUsageAllocated = true) (hattempt : ∀ i, env.attempt i = none)
    (hup : ∀ m, outcome m = none) :
    ConstructionsAgree env outcome args ctx ports o ↔
      min args.nconnect ports.nr ≤ xprtMaxPorts ∧
        ∀ m < min args.nconnect ports.nr, ScopeKept base (ports.addrAt ((o + m) % ports.nr)) := by
  have hlt : o < ports.nr := ho ▸ calcPortgroupOffset_lt hnr
  have hcreate := create_regular hargs hnr hbase hsrc halloc ho hattempt hn
  have hlast : min args.nconnect ports.nr - 1 < min args.nconnect ports.nr := by omega
  constructor
  · rintro ⟨created, server, hok, -, hcounts⟩
    rcases hcreate with ⟨herr, -⟩ | ⟨created', hok', hpushed, hdsts⟩
    · rw [herr] at hok
      cases hok
    rw [hok'] at hok
    cases hok
    have hscope : ∀ m < min args.nconnect ports.nr, ScopeKept base (ports.addrAt ((o + m) % ports.nr)) := by
      intro m hm
      have hi : (o + m) % ports.nr < ports.nr := Nat.mod_lt _ hnr
      obtain ⟨hsame, hshare⟩ := hcounts _ hi
      rw [← (port_eq_iff hlt hi (by omega)).1 rfl] at hshare
      have hpos : 0 < regularConnections created.xprts (ports.addrAt ((o + m) % ports.nr)) := by
        rw [hsame, hshare]
        exact (share_pos_iff (by omega)).2 hm
      obtain ⟨dst, hdst, hcmp⟩ := countP_pos_iff.1 hpos
      rw [hdsts] at hdst
      obtain ⟨j, -, rfl⟩ := mem_map.1 hdst
      exact scopeKept_of_dstAt hports hlt hcmp
    have hroom := (pushedAt_inUse hports hlt hscope hlast).1 hpushed
    exact ⟨by omega, hscope⟩
  · rintro ⟨hroom, hscope⟩
    rcases hcreate with ⟨-, hnone⟩ | ⟨created, hok, -, hdsts⟩
    · have hsome := (pushedAt_inUse hports hlt hscope hlast).2 (by omega)
      rw [hnone] at hsome
      cases hsome
    rw [← hnconnect] at hroom
    refine ⟨created, primaryAt outcome ctx ports o (min ctx.nconnect ports.nr), hok,
      ⟨ctx.nconnect + 1, fun fuel hfuel => ?_⟩, fun i hi => ?_⟩
    · exact createMultiServer_eq hctx hnr (by omega) ho' (Nat.le_succ_of_le hroom) (hup 0) hfuel
    · rw [connections_eq hports hlt (by omega) hup hi, hnconnect]
      exact ⟨regularConnections_eq hports hlt hscope hi hdsts, rfl⟩

def twoPorts : RpcPortgroup where
  addrs := [{ family := .inet, addr := 0x0a000001 }, { family := .inet, addr := 0x0a000002 }]

theorem constructionsAgree_iff_twoPorts :
    ConstructionsAgree {} (fun _ => none)
        { address := { family := .inet, addr := 0x0a000001, port := 2049 }, remoteports := some twoPorts,
          remoteportsOffsetProvided := true, remoteportsOffset := 1, nconnect := 3, mdconnect := 1 }
        { address := { family := .inet, addr := 0x0a000001, port := 2049 }, remotePorts := some twoPorts,
          remoteportsOffsetProvided := true, remoteportsOffset := 1, nconnect := 3 }
        twoPorts 1 ↔
      min 3 twoPorts.nr ≤ xprtMaxPorts ∧ ∀ m < min 3 twoPorts.nr,
        ScopeKept { family := .inet, addr := 0x0a000001, port := 2049 } (twoPorts.addrAt ((1 + m) % twoPorts.nr)) :=
  constructionsAgree_iff _ _ _ _ _ _ _ rfl rfl rfl (by decide) (by decide) ⟨by decide, by decide⟩ rfl rfl rfl
    (by simp) rfl (fun _ => rfl) (fun _ => rfl)

def scopedPorts : RpcPortgroup where
  addrs := [{ family := .inet6, addr := 0xfe80 * 2 ^ 112 + 1, scopeId := 2 },
    { family := .inet6, addr := 0xfe80 * 2 ^ 112 + 1, scopeId := 3 }]

def scopedArgs : RpcCreateArgs where
  address := { family := .inet6, addr := 0xfe80 * 2 ^ 112 + 1, port := 2049, scopeId := 2 }
  remoteports := some scopedPorts
  remoteportsOffsetProvided := true
  nconnect := 2

theorem scoped_ports_disagree :
    DistinctPorts scopedPorts ∧
      (rpcCreate {} scopedArgs).map (fun created =>
        (List.range scopedPorts.nr).map fun i => regularConnections created.xprts (scopedPorts.addrAt i)) =
          .ok [2, 0] ∧
      ¬ ConstructionsAgree {} (fun _ => none) scopedArgs
        { address := scopedArgs.address, remotePorts := some scopedPorts, remoteportsOffsetProvided := true,
          nconnect := 2 } scopedPorts 0 := by
  have hcounts : (rpcCreate {} scopedArgs).map (fun created =>
      (range scopedPorts.nr).map fun i => regularConnections created.xprts (scopedPorts.addrAt i)) =
        .ok [2, 0] := by
    decide
  refine ⟨⟨by decide, by decide⟩, hcounts, ?_⟩
  rintro ⟨created, server, hok, -, hagree⟩
  rw [hok] at hcounts
  have hzero : regularConnections created.xprts (scopedPorts.addrAt 1) = 0 :=
    congrArg (fun counts => counts.getD 1 0) (Except.ok.inj hcounts)
  obtain ⟨hsame, hshare⟩ := hagree 1 (by decide)
  rw [hzero, hshare] at hsame
  exact absurd hsame (by decide)

end Vastnfs.Nfs
