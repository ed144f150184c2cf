import Vastnfs.Sunrpc.Create

/-!
# Multi-server mounts

`nfs4_create_multi_server` of `fs/nfs/nfs4client.c`: one NFSv4.1 server for each remote address in
use, each with its share of the connections, and the alternates hung on the first one.

* `multiServerLoop_at`: the loop, server by server.
* `createMultiServer_eq`: the servers of a mount, when some of them do not come up.
-/

namespace Vastnfs.Nfs

open Sunrpc Shares

/-! ## The functions -/

structure NfsClient where
  clServerIdx : Nat := 0
  clAddr : SockAddr := {}
  (clNconnect clMaxConnect : Nat := 0)
  deriving DecidableEq

/-- `struct nfs_server`, with the servers of its `superblock.alt_server`. -/
structure NfsServer where
  nfsClient : NfsClient := {}
  idx : Nat := 0
  altServer : List NfsServer := []

def NfsServer.nrAltServers (server : NfsServer) : Nat := server.altServer.length

def nfsMaxServers : Nat := 64

/-- `none` is its `BUG_ON`. -/
def nfsServerAddAlt (parent srv : NfsServer) : Option NfsServer :=
  if nfsMaxServers ≤ parent.nrAltServers then none
  else some { parent with altServer := parent.altServer ++ [{ srv with idx := parent.nrAltServers + 1 }] }

def nfsMaxConnections : Nat := 64

structure NfsFsContext where
  address : SockAddr
  (nconnect maxConnect : Nat := 0)
  remotePorts : Option RpcPortgroup := none
  remoteportsOffset : Nat := 0
  remoteportsOffsetProvided : Bool := false
  serverIdx : Nat := 0

abbrev ServerOutcome := Nat → Option Errno

def nfs4CreateServer (outcome : ServerOutcome) (ctx : NfsFsContext) : Except Errno NfsServer :=
  match outcome ctx.serverIdx with
  | some e => .error e
  | none => .ok
    { nfsClient :=
        { clServerIdx := ctx.serverIdx
          clAddr := ctx.address
          clNconnect := ctx.nconnect
          clMaxConnect := ctx.maxConnect }
      idx := ctx.serverIdx }

structure MultiLoop where
  primary : Option NfsServer := none
  (remoteportOffset sprayNconnect : Nat)
  idx : Nat := 0

/-- The context in which a turn of the loop creates its server. -/
def turnContext (ctx : NfsFsContext) (ports : RpcPortgroup) (s : MultiLoop) : NfsFsContext :=
  let divisedPerClient := ctx.nconnect / ports.nr
  let reminder := ctx.nconnect % ports.nr
  { ctx with
    nconnect := divisedPerClient + if s.idx < reminder then 1 else 0
    maxConnect := divisedPerClient + 1
    address := rpcSetPort (ports.addrAt s.remoteportOffset) (rpcGetPort ctx.address)
    serverIdx := s.idx }

def endTurn (ports : RpcPortgroup) (clientNconnect : Nat) (s : MultiLoop) (primary : NfsServer) : MultiLoop :=
  { primary := some primary
    remoteportOffset := if ports.nr ≤ s.remoteportOffset + 1 then 0 else s.remoteportOffset + 1
    sprayNconnect := s.sprayNconnect - clientNconnect
    idx := s.idx + 1 }

/-- The first server is the primary one; a later one is its next alternate, or skipped if it does
not come up. -/
def turnPrimary : Option NfsServer → Except Errno NfsServer → Except Fault NfsServer
  | none, .error e => .error (.errno e)
  | none, .ok server => .ok server
  | some primary, .error _ => .ok primary
  | some primary, .ok sub =>
    match nfsServerAddAlt primary sub with
    | none => .error .bug
    | some primary => .ok primary

def multiServerTurn (outcome : ServerOutcome) (ctx : NfsFsContext) (ports : RpcPortgroup) (s : MultiLoop) :
    Except Fault MultiLoop :=
  let turn := turnContext ctx ports s
  (turnPrimary s.primary (nfs4CreateServer outcome turn)).bind fun primary =>
    if s.sprayNconnect < turn.nconnect then .error .bug else .ok (endTurn ports turn.nconnect s primary)

def multiServerLoop (outcome : ServerOutcome) (ctx : NfsFsContext) (ports : RpcPortgroup) :
    Nat → MultiLoop → Option (Except Fault (Option NfsServer))
  | 0, _ => none
  | fuel + 1, s =>
    if s.sprayNconnect = 0 then some (.ok s.primary)
    else match multiServerTurn outcome ctx ports s with
      | .error fault => some (.error fault)
      | .ok s => multiServerLoop outcome ctx ports fuel s

def singleServer (outcome : ServerOutcome) (ctx : NfsFsContext) : Except Fault (Option NfsServer) :=
  match nfs4CreateServer outcome { ctx with serverIdx := 0 } with
  | .error e => .error (.errno e)
  | .ok server => .ok (some server)

def nfs4CreateMultiServer (env : CreateEnv) (outcome : ServerOutcome) (ctx : NfsFsContext) (fuel : Nat) :
    Option (Except Fault (Option NfsServer)) :=
  match ctx.remotePorts with
  | none => some (singleServer outcome ctx)
  | some ports =>
    if ports.nr = 0 ∨ ctx.nconnect = 0 then some (singleServer outcome ctx)
    else multiServerLoop outcome ctx ports fuel
      { remoteportOffset := rpcCalcPortgroupOffset env 0 ports ctx.remoteportsOffsetProvided ctx.remoteportsOffset
        sprayNconnect := ctx.nconnect }

/-! ## The loop -/

section

variable (outcome : ServerOutcome) (ctx : NfsFsContext) (ports : RpcPortgroup) (o : Nat) {m : Nat}

def clientAt (m : Nat) : NfsClient where
  clServerIdx := m
  clAddr := rpcSetPort (ports.addrAt ((o + m) % ports.nr)) (rpcGetPort ctx.address)
  clNconnect := share ctx.nconnect ports.nr m
  clMaxConnect := ctx.nconnect / ports.nr + 1

def altsAt : Nat → List NfsServer
  | 0 | 1 => []
  | m + 2 =>
    match outcome (m + 1) with
    | some _ => altsAt (m + 1)
    | none => altsAt (m + 1) ++ [{ nfsClient := clientAt ctx ports o (m + 1), idx := (altsAt (m + 1)).length + 1 }]

def primaryAt (m : Nat) : NfsServer :=
  { nfsClient := clientAt ctx ports o 0, altServer := altsAt outcome ctx ports o m }

def loopAt (m : Nat) : MultiLoop where
  primary := if m = 0 then none else some (primaryAt outcome ctx ports o m)
  remoteportOffset := (o + m) % ports.nr
  sprayNconnect := ctx.nconnect - start ctx.nconnect ports.nr m
  idx := m

variable {outcome ctx ports o}

theorem length_altsAt_lt (hm : 0 < m) : (altsAt outcome ctx ports o m).length < m := by
  induction m with
  | zero => exact hm
  | succ m ih =>
    cases m with
    | zero => exact Nat.one_pos
    | succ m =>
      rw [altsAt]
      split
      · omega
      · rw [List.length_append, List.length_singleton]
        omega

theorem createServer_at (m : Nat) :
    nfs4CreateServer outcome (turnContext ctx ports (loopAt outcome ctx ports o m)) =
      match outcome m with
      | some e => .error e
      | none => .ok { nfsClient := clientAt ctx ports o m, idx := m } := rfl

theorem serverAddAlt_at (hm : 0 < m) (hmax : m ≤ nfsMaxServers) (hup : outcome m = none) :
    nfsServerAddAlt (primaryAt outcome ctx ports o m) { nfsClient := clientAt ctx ports o m, idx := m } =
      some (primaryAt outcome ctx ports o (m + 1)) := by
  have hlt : (primaryAt outcome ctx ports o m).nrAltServers < nfsMaxServers :=
    lt_of_lt_of_le (length_altsAt_lt hm) hmax
  obtain ⟨m, rfl⟩ := Nat.exists_eq_add_one_of_ne_zero (ne_of_gt hm)
  rw [nfsServerAddAlt, if_neg (Nat.not_le_of_lt hlt)]
  simp [primaryAt, altsAt, hup, NfsServer.nrAltServers]

theorem primaryAt_skip (hm : 0 < m) {e : Errno} (hdown : outcome m = some e) :
    primaryAt outcome ctx ports o (m + 1) = primaryAt outcome ctx ports o m := by
  obtain ⟨m, rfl⟩ := Nat.exists_eq_add_one_of_ne_zero (ne_of_gt hm)
  simp [primaryAt, altsAt, hdown]

theorem turnPrimary_at (hfirst : outcome 0 = none) (hmax : m ≤ nfsMaxServers) :
    turnPrimary (loopAt outcome ctx ports o m).primary
      (nfs4CreateServer outcome (turnContext ctx ports (loopAt outcome ctx ports o m))) =
        .ok (primaryAt outcome ctx ports o (m + 1)) := by
  rw [createServer_at, loopAt]
  by_cases hm : m = 0
  · subst hm
    rw [hfirst]
    rfl
  have hpos := pos_of_ne_zero hm
  rw [if_neg hm]
  cases hup : outcome m with
  | some e => simp [turnPrimary, primaryAt_skip hpos hup]
  | none => simp [turnPrimary, serverAddAlt_at hpos hmax hup]

section

variable (hnr : 0 < ports.nr)
include hnr

theorem endTurn_at :
    endTurn ports (share ctx.nconnect ports.nr m) (loopAt outcome ctx ports o m) (primaryAt outcome ctx ports o (m + 1)) =
      loopAt outcome ctx ports o (m + 1) := by
  have hwrap : (if ports.nr ≤ (loopAt outcome ctx ports o m).remoteportOffset + 1 then 0
      else (loopAt outcome ctx ports o m).remoteportOffset + 1) = (o + (m + 1)) % ports.nr := by
    rw [← add_assoc]
    exact wrap_succ hnr
  rw [endTurn, hwrap]
  simp [loopAt, start_succ, Nat.sub_sub]

theorem start_succ_le (hm : m < min ctx.nconnect ports.nr) :
    start ctx.nconnect ports.nr m + share ctx.nconnect ports.nr m ≤ ctx.nconnect := by
  have hle : start ctx.nconnect ports.nr (m + 1) ≤ start ctx.nconnect ports.nr (min ctx.nconnect ports.nr) :=
    start_mono hm
  rwa [start_succ, start_min hnr] at hle

variable (hfirst : outcome 0 = none)
include hfirst

theorem multiServerTurn_at (hm : m < min ctx.nconnect ports.nr) (hmax : m ≤ nfsMaxServers) :
    multiServerTurn outcome ctx ports (loopAt outcome ctx ports o m) = .ok (loopAt outcome ctx ports o (m + 1)) := by
  have hspray : ¬ (loopAt outcome ctx ports o m).sprayNconnect <
      (turnContext ctx ports (loopAt outcome ctx ports o m)).nconnect := by
    have hle := start_succ_le hnr hm
    change ¬ ctx.nconnect - start ctx.nconnect ports.nr m < share ctx.nconnect ports.nr m
    omega
  simp only [multiServerTurn, turnPrimary_at hfirst hmax, Except.bind, if_neg hspray]
  exact congrArg _ (endTurn_at hnr)

/-- **The loop.**  It ends after one turn for each address in use. -/
theorem multiServerLoop_at (hmax : min ctx.nconnect ports.nr ≤ nfsMaxServers + 1) :
    ∀ {turns m fuel : Nat}, m + turns = min ctx.nconnect ports.nr → turns < fuel →
      multiServerLoop outcome ctx ports fuel (loopAt outcome ctx ports o m) =
        some (.ok (loopAt outcome ctx ports o (min ctx.nconnect ports.nr)).primary)
  | 0, m, fuel + 1, hm, _ => by
    have hspray : (loopAt outcome ctx ports o m).sprayNconnect = 0 := by
      rw [← add_zero m, hm]
      exact Nat.sub_eq_zero_of_le (start_min hnr).symm.le
    rw [multiServerLoop, if_pos hspray, ← hm, add_zero]
  | turns + 1, m, fuel + 1, hm, hfuel => by
    have hlt : m < min ctx.nconnect ports.nr := by omega
    have hspray : (loopAt outcome ctx ports o m).sprayNconnect ≠ 0 := by
      have hshare : 0 < share ctx.nconnect ports.nr m := (share_pos_iff (by omega)).2 hlt
      have hle := start_succ_le hnr hlt
      change ctx.nconnect - start ctx.nconnect ports.nr m ≠ 0
      omega
    rw [multiServerLoop, if_neg hspray, multiServerTurn_at hnr hfirst hlt (by omega)]
    exact multiServerLoop_at hmax (by omega) (Nat.lt_of_succ_lt_succ hfuel)

end

end

/-- **The servers of a mount.**  One server for each address in use; those that do not come up are
left out, and the others are numbered in the order of their creation. -/
theorem createMultiServer_eq {env : CreateEnv} {outcome : ServerOutcome} {ctx : NfsFsContext}
    {ports : RpcPortgroup} {o fuel : Nat} (hports : ctx.remotePorts = some ports) (hnr : 0 < ports.nr)
    (hn : 0 < ctx.nconnect)
    (ho : rpcCalcPortgroupOffset env 0 ports ctx.remoteportsOffsetProvided ctx.remoteportsOffset = o)
    (hmax : min ctx.nconnect ports.nr ≤ nfsMaxServers + 1) (hfirst : outcome 0 = none) (hfuel : ctx.nconnect < fuel) :
    nfs4CreateMultiServer env outcome ctx fuel =
      some (.ok (some (primaryAt outcome ctx ports o (min ctx.nconnect ports.nr)))) := by
  have hlt : o < ports.nr := ho ▸ calcPortgroupOffset_lt hnr
  have hinit : loopAt outcome ctx ports o 0 = { remoteportOffset := o, sprayNconnect := ctx.nconnect } := by
    simp [loopAt, Nat.mod_eq_of_lt hlt, start_zero]
  have hmin : min ctx.nconnect ports.nr ≠ 0 := by omega
  simp only [nfs4CreateMultiServer, hports, ho]
  rw [if_neg (by omega), ← hinit, multiServerLoop_at hnr hfirst hmax (Nat.zero_add _) (by omega), loopAt, if_neg hmin]

end Vastnfs.Nfs
