import Vastnfs.Sunrpc.Addr

/-!
# Port usage tables

`struct xprt_portusage` of `net/sunrpc/xprt.c`: for every port address the number of connected
transports that use it and of transports diverted to it. The counters are unsigned and wrap.

* `pushAddress_new`: a new address takes the next entry while there is one.
* `ports_connect`, `ports_disconnect`, `ports_undivert`: what the other operations do to an entry.
* `divert_spec`: a diversion goes to a connected port in least use.
* `pushAll_looksUpOrInserts`: what a push after any others does.
-/

namespace Vastnfs.Sunrpc

open List Option

def xprtMaxPorts : Nat := 64

structure XprtPort where
  addr : SockAddr
  (xprtDiversions xprtConnections : UInt32 := 0)
  deriving DecidableEq

/-- `struct xprt_portusage`. `nr` is the number of `ports`. -/
structure XprtPortusage where
  ports : List XprtPort := []
  diversionEnabled : Bool := false
  deriving DecidableEq

/-- The table with the address and its index there, or no room. -/
def xprtPortusagePushAddress (usage : XprtPortusage) (addr : SockAddr) : Option (XprtPortusage × Nat) :=
  if xprtMaxPorts ≤ usage.ports.length then none
  else match usage.ports.findIdx? (fun port => rpcCmpAddrPort port.addr addr) with
    | some j => some (usage, j)
    | none => some ({ usage with ports := usage.ports ++ [{ addr := addr }] }, usage.ports.length)

variable {usage usage' : XprtPortusage} {addr inSockaddr : SockAddr}

theorem pushAddress_new (hnew : ∀ port ∈ usage.ports, rpcCmpAddrPort port.addr addr = false) :
    xprtPortusagePushAddress usage addr =
      if xprtMaxPorts ≤ usage.ports.length then none
      else some ({ usage with ports := usage.ports ++ [{ addr := addr }] }, usage.ports.length) := by
  have hnone : usage.ports.findIdx? (fun port => rpcCmpAddrPort port.addr addr) = none :=
    findIdx?_eq_none_iff.2 hnew
  unfold xprtPortusagePushAddress
  rw [hnone]

/-! ## Connections and diversions -/

def xprtPortusageUndivert (usage : XprtPortusage) (diversionIdx : Option Nat) : XprtPortusage × Option Nat :=
  match diversionIdx with
  | none => (usage, none)
  | some i =>
    if i < usage.ports.length then
      ({ usage with ports := usage.ports.modify i fun port =>
          { port with xprtDiversions := port.xprtDiversions - 1 } }, none)
    else (usage, some i)

def XprtPortusage.find (usage : XprtPortusage) (sockaddr : SockAddr) : Option Nat :=
  usage.ports.findIdx? fun port => rpcCmpAddrPort port.addr sockaddr

def XprtPortusage.modifyPort (usage : XprtPortusage) (sockaddr : SockAddr) (f : XprtPort → XprtPort) :
    XprtPortusage :=
  match usage.find sockaddr with
  | none => usage
  | some i => { usage with ports := usage.ports.modify i f }

def xprtPortusageConnect (usage : XprtPortusage) (sockaddr : SockAddr) (diversionIdx : Option Nat) :
    XprtPortusage × Option Nat :=
  let undiverted := xprtPortusageUndivert usage diversionIdx
  (undiverted.1.modifyPort sockaddr fun port => { port with xprtConnections := port.xprtConnections + 1 },
    undiverted.2)

def xprtPortusageDisconnect (usage : XprtPortusage) (sockaddr : SockAddr) : XprtPortusage :=
  usage.modifyPort sockaddr fun port => { port with xprtConnections := port.xprtConnections - 1 }

/-- The loop of `xprt_portusage_divert`: the index and the usage of the best port so far. -/
def divertScan (inSockaddr : SockAddr) : List XprtPort → Nat → Option Nat × UInt32 → Option Nat × UInt32
  | [], _, best => best
  | port :: ports, i, best =>
    if rpcCmpAddrPort port.addr inSockaddr then divertScan inSockaddr ports (i + 1) best
    else if port.xprtConnections = 0 then divertScan inSockaddr ports (i + 1) best
    else
      let totalUsage := port.xprtConnections + port.xprtDiversions
      if totalUsage < best.2 then divertScan inSockaddr ports (i + 1) (some i, totalUsage)
      else divertScan inSockaddr ports (i + 1) best

/-- The table, and the index and the address of the port diverted to. -/
def xprtPortusageDivert (usage : XprtPortusage) (inSockaddr : SockAddr) :
    XprtPortusage × Option (Nat × SockAddr) :=
  match (divertScan inSockaddr usage.ports 0 (none, 0xffffffff)).1 with
  | none => (usage, none)
  | some i =>
    match usage.ports[i]? with
    | none => (usage, none)
    | some port =>
      ({ usage with ports := usage.ports.modify i fun port =>
          { port with xprtDiversions := port.xprtDiversions + 1 } }, some (i, port.addr))

def XprtPortusage.Distinct (usage : XprtPortusage) : Prop :=
  usage.ports.Pairwise fun a b => rpcCmpAddrPort a.addr b.addr = false

theorem XprtPortusage.Distinct.index_eq (hd : usage.Distinct) {i j : Nat} {a b : XprtPort}
    (ha : usage.ports[i]? = some a) (hb : usage.ports[j]? = some b) (hab : rpcCmpAddrPort a.addr b.addr = true) :
    i = j := by
  obtain ⟨hi, rfl⟩ := List.getElem?_eq_some_iff.1 ha
  obtain ⟨hj, rfl⟩ := List.getElem?_eq_some_iff.1 hb
  have hne := pairwise_iff_getElem.1 hd
  rcases Nat.lt_trichotomy i j with hlt | heq | hgt
  · rw [hne i j hi hj hlt] at hab
    cases hab
  · exact heq
  have hba := cmpAddrPort_symm hab
  rw [hne j i hj hi hgt] at hba
  cases hba

section

variable {usage : XprtPortusage} {sockaddr : SockAddr} {i : Nat} {port : XprtPort} {idx : Option Nat}

theorem find_eq_some_iff (hd : usage.Distinct) (hport : usage.ports[i]? = some port) :
    usage.find sockaddr = some i ↔ rpcCmpAddrPort port.addr sockaddr = true := by
  obtain ⟨hi, hget⟩ := List.getElem?_eq_some_iff.1 hport
  constructor
  · intro hfind
    obtain ⟨_, hmatch, -⟩ := findIdx?_eq_some_iff_getElem.1 hfind
    rwa [hget] at hmatch
  · intro hmatch
    refine findIdx?_eq_some_iff_getElem.2 ⟨hi, by rwa [hget], ?_⟩
    intro j hj hjm
    have hj' : usage.ports[j]? = some usage.ports[j] := getElem?_eq_getElem _
    have heq := hd.index_eq hj' hport (cmpAddrPort_trans hjm (cmpAddrPort_symm hmatch))
    omega

theorem getElem?_modify_port {ports : List XprtPort} {j : Nat} (f : XprtPort → XprtPort) (hport : ports[i]? = some port) :
    (ports.modify j f)[i]? = some (if j = i then f port else port) := by
  rw [getElem?_modify, hport]
  rfl

theorem ports_modifyPort (hd : usage.Distinct) (f : XprtPort → XprtPort) (hport : usage.ports[i]? = some port) :
    (usage.modifyPort sockaddr f).ports[i]? =
      some (if rpcCmpAddrPort port.addr sockaddr = true then f port else port) := by
  have hiff : usage.find sockaddr = some i ↔ rpcCmpAddrPort port.addr sockaddr = true :=
    find_eq_some_iff hd hport
  unfold XprtPortusage.modifyPort
  cases hfind : usage.find sockaddr with
  | none =>
    rw [if_neg fun h => by rw [hiff.2 h] at hfind; cases hfind]
    exact hport
  | some j =>
    rw [hfind, some_inj] at hiff
    rw [getElem?_modify_port f hport]
    simp [hiff]

theorem ports_undivert (hport : usage.ports[i]? = some port) :
    (xprtPortusageUndivert usage idx).1.ports[i]? =
      some { port with
        xprtDiversions := if idx = some i then port.xprtDiversions - 1 else port.xprtDiversions } := by
  unfold xprtPortusageUndivert
  cases idx with
  | none => exact hport
  | some j =>
    by_cases hj : j < usage.ports.length
    · simp only [if_pos hj, some_inj]
      rw [getElem?_modify_port _ hport]
      split <;> rfl
    have hne : j ≠ i := by
      rintro rfl
      rw [getElem?_eq_none (Nat.le_of_not_lt hj)] at hport
      cases hport
    simp only [if_neg hj, some_inj, if_neg hne]
    exact hport

theorem undivert_idx (hport : usage.ports[i]? = some port) : (xprtPortusageUndivert usage idx).2 ≠ some i := by
  unfold xprtPortusageUndivert
  cases idx with
  | none => simp
  | some j =>
    by_cases hj : j < usage.ports.length
    · simp [if_pos hj]
    simp only [if_neg hj, ne_eq, some_inj]
    rintro rfl
    rw [getElem?_eq_none (Nat.le_of_not_lt hj)] at hport
    cases hport

theorem ports_disconnect (hd : usage.Distinct) (hport : usage.ports[i]? = some port) :
    (xprtPortusageDisconnect usage sockaddr).ports[i]? =
      some { port with
        xprtConnections :=
          if rpcCmpAddrPort port.addr sockaddr = true then port.xprtConnections - 1 else port.xprtConnections } := by
  rw [xprtPortusageDisconnect, ports_modifyPort hd _ hport]
  split <;> rfl

end

/-! ## Addresses stay -/

/-- Two tables of the same addresses, in the same mode. -/
structure XprtPortusage.SamePorts (usage usage' : XprtPortusage) : Prop where
  addrs : usage'.ports.map (·.addr) = usage.ports.map (·.addr)
  diversionEnabled : usage'.diversionEnabled = usage.diversionEnabled

section

variable {usage usage' usage'' : XprtPortusage} {f : XprtPort → XprtPort} {i : Nat}

theorem XprtPortusage.SamePorts.refl (usage : XprtPortusage) : usage.SamePorts usage := ⟨rfl, rfl⟩

theorem XprtPortusage.SamePorts.trans (h : usage.SamePorts usage') (h' : usage'.SamePorts usage'') :
    usage.SamePorts usage'' :=
  ⟨h'.addrs.trans h.addrs, h'.diversionEnabled.trans h.diversionEnabled⟩

theorem XprtPortusage.SamePorts.getElem? (h : usage.SamePorts usage') {port' : XprtPort}
    (hport : usage'.ports[i]? = some port') : ∃ port, usage.ports[i]? = some port ∧ port.addr = port'.addr := by
  have hi : (usage'.ports.map (·.addr))[i]? = some port'.addr := by
    rw [getElem?_map, hport]
    rfl
  rw [h.addrs, getElem?_map] at hi
  exact map_eq_some_iff.1 hi

theorem XprtPortusage.Distinct.of_samePorts (hd : usage.Distinct) (h : usage.SamePorts usage') : usage'.Distinct := by
  have hmap : (usage.ports.map (·.addr)).Pairwise fun a b => rpcCmpAddrPort a b = false := pairwise_map.2 hd
  rw [← h.addrs] at hmap
  exact pairwise_map.1 hmap

variable (usage)

theorem samePorts_modify (i : Nat) (hf : ∀ port, (f port).addr = port.addr) :
    usage.SamePorts { usage with ports := usage.ports.modify i f } := by
  refine ⟨ext_getElem? fun j => ?_, rfl⟩
  rw [getElem?_map, getElem?_map, getElem?_modify]
  cases usage.ports[j]? with
  | none => rfl
  | some port =>
    by_cases hij : i = j
    · simp [hij, hf]
    · simp [hij]

theorem samePorts_modifyPort (sockaddr : SockAddr) (hf : ∀ port, (f port).addr = port.addr) :
    usage.SamePorts (usage.modifyPort sockaddr f) := by
  unfold XprtPortusage.modifyPort
  split
  · exact .refl usage
  · exact samePorts_modify usage _ hf

theorem samePorts_undivert (idx : Option Nat) : usage.SamePorts (xprtPortusageUndivert usage idx).1 := by
  unfold xprtPortusageUndivert
  split
  · exact .refl usage
  split
  · exact samePorts_modify usage _ fun _ => rfl
  · exact .refl usage

theorem samePorts_connect (sockaddr : SockAddr) (idx : Option Nat) :
    usage.SamePorts (xprtPortusageConnect usage sockaddr idx).1 :=
  (samePorts_undivert usage idx).trans (samePorts_modifyPort _ sockaddr fun _ => rfl)

theorem samePorts_disconnect (sockaddr : SockAddr) : usage.SamePorts (xprtPortusageDisconnect usage sockaddr) :=
  samePorts_modifyPort usage sockaddr fun _ => rfl

theorem samePorts_divert (inSockaddr : SockAddr) : usage.SamePorts (xprtPortusageDivert usage inSockaddr).1 := by
  unfold xprtPortusageDivert
  split
  · exact .refl usage
  split
  · exact .refl usage
  · exact samePorts_modify usage _ fun _ => rfl

variable {usage}

theorem ports_connect (hd : usage.Distinct) {sockaddr : SockAddr} {idx : Option Nat} {port : XprtPort}
    (hport : usage.ports[i]? = some port) :
    (xprtPortusageConnect usage sockaddr idx).1.ports[i]? =
      some { port with
        xprtDiversions := if idx = some i then port.xprtDiversions - 1 else port.xprtDiversions
        xprtConnections :=
          if rpcCmpAddrPort port.addr sockaddr = true then port.xprtConnections + 1 else port.xprtConnections } := by
  rw [xprtPortusageConnect, ports_modifyPort (hd.of_samePorts (samePorts_undivert usage idx)) _ (ports_undivert hport)]
  dsimp only
  split <;> rfl

end

/-! ## The port in least use -/

/-- The ports a transport of `inSockaddr` may be diverted to. -/
def CanDivertTo (inSockaddr : SockAddr) (port : XprtPort) : Prop :=
  rpcCmpAddrPort port.addr inSockaddr = false ∧ port.xprtConnections ≠ 0

def XprtPort.totalUsage (port : XprtPort) : UInt32 := port.xprtConnections + port.xprtDiversions

/-- The scan ends with the best port so far, or with one that is better and no worse than any other. -/
theorem divertScan_spec (inSockaddr : SockAddr) : ∀ (ports : List XprtPort) (i : Nat) (best : Option Nat × UInt32),
    (divertScan inSockaddr ports i best = best ∧
        ∀ port ∈ ports, CanDivertTo inSockaddr port → best.2 ≤ port.totalUsage) ∨
      ∃ (j : Nat) (port : XprtPort), ports[j]? = some port ∧ CanDivertTo inSockaddr port ∧
        divertScan inSockaddr ports i best = (some (i + j), port.totalUsage) ∧ port.totalUsage < best.2 ∧
        ∀ port' ∈ ports, CanDivertTo inSockaddr port' → port.totalUsage ≤ port'.totalUsage
  | [], _, _ => Or.inl ⟨rfl, by simp⟩
  | port :: ports, i, best => by
    by_cases hbetter : CanDivertTo inSockaddr port ∧ port.totalUsage < best.2
    · -- the port becomes the best one so far
      obtain ⟨hcan, hlt⟩ := hbetter
      have hscan : divertScan inSockaddr (port :: ports) i best =
          divertScan inSockaddr ports (i + 1) (some i, port.totalUsage) := by
        simp only [divertScan, hcan.1, Bool.false_eq_true, if_false, if_neg hcan.2]
        exact if_pos hlt
      rw [hscan]
      rcases divertScan_spec inSockaddr ports (i + 1) (some i, port.totalUsage) with
        ⟨hr, hmin⟩ | ⟨j, port', hj, hcan', hr, hless, hmin⟩
      · exact .inr ⟨0, port, rfl, hcan, hr, hlt, forall_mem_cons.2 ⟨fun _ => UInt32.le_refl _, hmin⟩⟩
      refine .inr ⟨j + 1, port', hj, hcan', ?_, UInt32.lt_trans hless hlt, ?_⟩
      · rw [hr, Nat.add_assoc, Nat.add_comm 1 j]
      · exact forall_mem_cons.2 ⟨fun _ => UInt32.le_of_lt hless, hmin⟩
    · -- the port is passed over
      have hscan : divertScan inSockaddr (port :: ports) i best = divertScan inSockaddr ports (i + 1) best := by
        simp only [divertScan]
        split
        · rfl
        split
        · rfl
        · rename_i haddr hconn
          exact if_neg fun hlt => hbetter ⟨⟨Bool.eq_false_iff.2 haddr, hconn⟩, hlt⟩
      have hworse : CanDivertTo inSockaddr port → best.2 ≤ port.totalUsage := fun hcan =>
        UInt32.not_lt.1 fun hlt => hbetter ⟨hcan, hlt⟩
      rw [hscan]
      rcases divertScan_spec inSockaddr ports (i + 1) best with ⟨hr, hmin⟩ | ⟨j, port', hj, hcan', hr, hless, hmin⟩
      · exact .inl ⟨hr, forall_mem_cons.2 ⟨hworse, hmin⟩⟩
      refine .inr ⟨j + 1, port', hj, hcan', ?_, hless, ?_⟩
      · rw [hr, Nat.add_assoc, Nat.add_comm 1 j]
      · exact forall_mem_cons.2 ⟨fun hcan => UInt32.le_trans (UInt32.le_of_lt hless) (hworse hcan), hmin⟩

/-- **A diversion goes to a connected port in least use.** -/
theorem divert_spec {i : Nat} (h : xprtPortusageDivert usage inSockaddr = (usage', some (i, addr))) :
    ∃ port, usage.ports[i]? = some port ∧ port.addr = addr ∧ CanDivertTo inSockaddr port ∧
      (∀ port' ∈ usage.ports, CanDivertTo inSockaddr port' → port.totalUsage ≤ port'.totalUsage) ∧
      ∀ (j : Nat) (port' : XprtPort), usage.ports[j]? = some port' →
        usage'.ports[j]? = some { port' with
          xprtDiversions := if i = j then port'.xprtDiversions + 1 else port'.xprtDiversions } := by
  unfold xprtPortusageDivert at h
  rcases divertScan_spec inSockaddr usage.ports 0 (none, 0xffffffff) with
    ⟨hr, -⟩ | ⟨j, port, hj, hcan, hr, -, hmin⟩
  · rw [hr] at h
    cases h
  simp only [hr, Nat.zero_add, hj] at h
  cases h
  refine ⟨port, hj, rfl, hcan, hmin, fun k port' hk => ?_⟩
  rw [getElem?_modify_port _ hk]
  split <;> rfl

theorem divert_none (h : xprtPortusageDivert usage inSockaddr = (usage', none)) : usage' = usage := by
  unfold xprtPortusageDivert at h
  split at h
  · cases h
    rfl
  split at h
  · cases h
    rfl
  · cases h

/-! ## Sequences of pushes -/

/-- The table after some addresses were pushed, one that found no room leaving it as it was. -/
def pushAll (addrs : List SockAddr) : XprtPortusage :=
  addrs.foldl (fun usage addr => ((xprtPortusagePushAddress usage addr).map (·.1)).getD usage) {}

/-- What a push is for: it finds the address, or else enters it while there is room. -/
structure LooksUpOrInserts (usage : XprtPortusage) (addr : SockAddr) : Prop where
  index : ∀ usage' j, xprtPortusagePushAddress usage addr = some (usage', j) →
    ∃ port, usage'.ports[j]? = some port ∧ (port.addr = addr ∨ rpcCmpAddrPort port.addr addr = true)
  present : ∀ (j : Nat) (port : XprtPort), usage.ports[j]? = some port → rpcCmpAddrPort port.addr addr = true →
    xprtPortusagePushAddress usage addr = some (usage, j)
  full : xprtPortusagePushAddress usage addr = none →
    usage.ports.length = xprtMaxPorts ∧ ∀ port ∈ usage.ports, rpcCmpAddrPort port.addr addr = false

section

variable {usage : XprtPortusage} {addr : SockAddr}

theorem Distinct.push (hd : usage.Distinct) (hle : usage.ports.length ≤ xprtMaxPorts) {pushed : XprtPortusage × Nat}
    (h : xprtPortusagePushAddress usage addr = some pushed) :
    pushed.1.Distinct ∧ pushed.1.ports.length ≤ xprtMaxPorts := by
  unfold xprtPortusagePushAddress at h
  split at h
  · cases h
  split at h <;> cases h
  · exact ⟨hd, hle⟩
  · rename_i hroom hnone
    exact ⟨pairwise_append.2 ⟨hd, pairwise_singleton _ _, by simpa using hnone⟩, by simp; omega⟩

theorem pushAll_distinct (addrs : List SockAddr) :
    (pushAll addrs).Distinct ∧ (pushAll addrs).ports.length ≤ xprtMaxPorts := by
  refine foldlRecOn (motive := fun usage : XprtPortusage => usage.Distinct ∧ usage.ports.length ≤ xprtMaxPorts) addrs _
    ⟨List.Pairwise.nil, Nat.zero_le _⟩ fun usage ⟨hd, hle⟩ addr _ => ?_
  cases hpush : xprtPortusagePushAddress usage addr with
  | none => exact ⟨hd, hle⟩
  | some pushed => exact Distinct.push hd hle hpush

theorem looksUpOrInserts_iff (hd : usage.Distinct) (hle : usage.ports.length ≤ xprtMaxPorts) :
    LooksUpOrInserts usage addr ↔
      (usage.ports.length = xprtMaxPorts → ∀ port ∈ usage.ports, rpcCmpAddrPort port.addr addr = false) := by
  constructor
  · intro h hfull
    refine (h.full ?_).2
    rw [xprtPortusagePushAddress, if_pos (Nat.le_of_eq hfull.symm)]
  · intro hnew
    refine ⟨fun usage' j h => ?_, fun j port hport hcmp => ?_, fun h => ?_⟩
    · unfold xprtPortusagePushAddress at h
      split at h
      · cases h
      split at h <;> cases h
      · rename_i hfind
        obtain ⟨hj, hcmp, -⟩ := findIdx?_eq_some_iff_getElem.1 hfind
        exact ⟨_, getElem?_eq_getElem hj, .inr hcmp⟩
      · exact ⟨_, getElem?_concat_length, .inl rfl⟩
    · have hroom : ¬ xprtMaxPorts ≤ usage.ports.length := fun hge => by
        rw [hnew (Nat.le_antisymm hle hge) port (mem_of_getElem? hport)] at hcmp
        cases hcmp
      have hfind : usage.find addr = some j := (find_eq_some_iff hd hport).2 hcmp
      unfold XprtPortusage.find at hfind
      rw [xprtPortusagePushAddress, if_neg hroom, hfind]
    · have hfull : xprtMaxPorts ≤ usage.ports.length := by
        by_contra hroom
        rw [xprtPortusagePushAddress, if_neg hroom] at h
        split at h <;> cases h
      exact ⟨Nat.le_antisymm hle hfull, hnew (Nat.le_antisymm hle hfull)⟩

end

/-- **Pushes after any others.**  They look the address up or insert it, unless the table is full and has it. -/
theorem pushAll_looksUpOrInserts (addrs : List SockAddr) (addr : SockAddr) :
    (pushAll addrs).Distinct ∧ (LooksUpOrInserts (pushAll addrs) addr ↔
      ((pushAll addrs).ports.length = xprtMaxPorts →
        ∀ port ∈ (pushAll addrs).ports, rpcCmpAddrPort port.addr addr = false)) :=
  ⟨(pushAll_distinct addrs).1, looksUpOrInserts_iff (pushAll_distinct addrs).1 (pushAll_distinct addrs).2⟩

/-- 64 addresses fill the table; the first of them is then refused. -/
theorem pushAll_full_refuses :
    ¬ LooksUpOrInserts (pushAll ((List.range 64).map fun i => { family := .inet, addr := i }))
      { family := .inet, addr := 0 } := by
  intro h
  have hnone : xprtPortusagePushAddress (pushAll ((range 64).map fun i => { family := .inet, addr := i }))
      { family := .inet, addr := 0 } = none := by decide +kernel
  have hfirst := (h.full hnone).2 { addr := { family := .inet, addr := 0 } } (by decide +kernel)
  exact absurd hfirst (by decide)

end Vastnfs.Sunrpc
