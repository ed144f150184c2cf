import Mathlib.Algebra.Order.Ring.Int

/-!
# Socket addresses

`struct sockaddr_storage` as the multipath code uses it, with the comparisons of
`include/linux/sunrpc/addr.h` and the copies of `net/sunrpc/clnt.c`.

* `cmpAddr_refl`, `cmpAddr_symm`, `cmpAddr_trans`: the comparison is an equality of addresses.
* `cmpAddr_partialCopy`: when a partial copy is still the address it was copied from.
-/

namespace Vastnfs.Sunrpc

/-- `sa_family_t`. -/
inductive AddressFamily where
  | unspec | inet | inet6 | unix | other
  deriving DecidableEq

/-- `struct sockaddr_storage`. The scope id is storage of its own, also behind an IPv4 address. -/
structure SockAddr where
  family : AddressFamily := .unspec
  /-- `sin_addr` or `sin6_addr`. -/
  addr : Nat := 0
  (port scopeId : Nat := 0)
  deriving DecidableEq

def SockAddr.IsIp (sap : SockAddr) : Prop := sap.family = .inet ∨ sap.family = .inet6
deriving Decidable

/-- `ipv6_addr_type(addr) & IPV6_ADDR_LINKLOCAL`: the prefix `fe80::/10`, and multicast addresses of link
scope. -/
def ipv6AddrLinklocal (addr : Nat) : Bool :=
  addr / 2 ^ 118 == 0x3fa || addr / 2 ^ 120 == 0xff && addr / 2 ^ 112 % 16 == 2

def rpcCmpAddr4 (sap1 sap2 : SockAddr) : Bool := sap1.addr == sap2.addr

def rpcCmpAddr6 (sap1 sap2 : SockAddr) : Bool :=
  if sap1.addr ≠ sap2.addr then false
  else if ipv6AddrLinklocal sap1.addr then sap1.scopeId == sap2.scopeId
  else true

def rpcCmpAddr (sap1 sap2 : SockAddr) : Bool :=
  if sap1.family = sap2.family then
    match sap1.family with
    | .inet => rpcCmpAddr4 sap1 sap2
    | .inet6 => rpcCmpAddr6 sap1 sap2
    | _ => false
  else false

def rpcGetPort (sap : SockAddr) : Nat :=
  match sap.family with
  | .inet | .inet6 => sap.port
  | _ => 0

def rpcSetPort (sap : SockAddr) (port : Nat) : SockAddr :=
  match sap.family with
  | .inet | .inet6 => { sap with port := port }
  | _ => sap

def rpcCmpAddrPort (sap1 sap2 : SockAddr) : Bool :=
  if !rpcCmpAddr sap1 sap2 then false else rpcGetPort sap1 == rpcGetPort sap2

/-- `copy_sockaddr` into cleared storage. -/
def copySockaddr (src : SockAddr) : Option SockAddr :=
  match src.family with
  | .unspec => some {}
  | .inet => some { src with scopeId := 0 }
  | .inet6 => some src
  | .unix => some { family := .unix, addr := src.addr }
  | .other => none

/-- The port and the scope id of the destination stay. -/
def rpcPartialAddrCopy (sap dest : SockAddr) : SockAddr :=
  match sap.family with
  | .inet | .inet6 => { dest with family := sap.family, addr := sap.addr }
  | family => { dest with family := family }

structure RpcPortgroup where
  addrs : List SockAddr := []
  dns : Bool := false
  deriving DecidableEq

def RpcPortgroup.nr (ports : RpcPortgroup) : Nat := ports.addrs.length

/-- `addrs[i]`; the storage behind the last address is clear. -/
def RpcPortgroup.addrAt (ports : RpcPortgroup) (i : Nat) : SockAddr := ports.addrs.getD i {}

section

variable {a b c : SockAddr}

theorem cmpAddr_iff :
    rpcCmpAddr a b = true ↔ a.IsIp ∧ a.family = b.family ∧ a.addr = b.addr ∧
      (a.family = .inet6 → ipv6AddrLinklocal a.addr = true → a.scopeId = b.scopeId) := by
  unfold rpcCmpAddr
  by_cases hfam : a.family = b.family
  · rw [if_pos hfam]
    cases ha : a.family with
    | inet => simp [SockAddr.IsIp, rpcCmpAddr4, ha, ← hfam]
    | inet6 =>
      by_cases haddr : a.addr = b.addr
      · by_cases hlocal : ipv6AddrLinklocal b.addr
        · simp [SockAddr.IsIp, rpcCmpAddr6, ha, ← hfam, haddr, hlocal]
        · simp [SockAddr.IsIp, rpcCmpAddr6, ha, ← hfam, haddr, hlocal]
      · simp [rpcCmpAddr6, haddr]
    | unspec | unix | other => simp [SockAddr.IsIp, ha]
  · simp [hfam]

theorem cmpAddr_refl (ha : a.IsIp) : rpcCmpAddr a a = true :=
  cmpAddr_iff.2 ⟨ha, rfl, rfl, fun _ _ => rfl⟩

theorem SockAddr.IsIp.congr (ha : a.IsIp) (hfam : a.family = b.family) : b.IsIp := by
  unfold SockAddr.IsIp at ha ⊢
  rwa [← hfam]

theorem cmpAddr_symm (h : rpcCmpAddr a b = true) : rpcCmpAddr b a = true := by
  obtain ⟨hip, hfam, haddr, hscope⟩ := cmpAddr_iff.1 h
  refine cmpAddr_iff.2 ⟨hip.congr hfam, hfam.symm, haddr.symm, fun h₆ hlocal => ?_⟩
  rw [← hfam] at h₆
  rw [← haddr] at hlocal
  exact (hscope h₆ hlocal).symm

theorem cmpAddr_trans (h : rpcCmpAddr a b = true) (h' : rpcCmpAddr b c = true) : rpcCmpAddr a c = true := by
  obtain ⟨hip, hfam, haddr, hscope⟩ := cmpAddr_iff.1 h
  obtain ⟨-, hfam', haddr', hscope'⟩ := cmpAddr_iff.1 h'
  refine cmpAddr_iff.2 ⟨hip, hfam.trans hfam', haddr.trans haddr', fun h₆ hlocal => ?_⟩
  exact (hscope h₆ hlocal).trans (hscope' (hfam ▸ h₆) (haddr ▸ hlocal))

theorem cmpAddr_setPort (port : Nat) : rpcCmpAddr (rpcSetPort a port) b = rpcCmpAddr a b := by
  have hport : ∀ sap : SockAddr, rpcCmpAddr { sap with port := port } b = rpcCmpAddr sap b := fun _ => rfl
  unfold rpcSetPort
  split
  · exact hport a
  · exact hport a
  · rfl

theorem cmpAddrPort_iff : rpcCmpAddrPort a b = true ↔ rpcCmpAddr a b = true ∧ rpcGetPort a = rpcGetPort b := by
  cases h : rpcCmpAddr a b with
  | false | true => simp [rpcCmpAddrPort, h]

theorem cmpAddrPort_symm (h : rpcCmpAddrPort a b = true) : rpcCmpAddrPort b a = true := by
  obtain ⟨haddr, hport⟩ := cmpAddrPort_iff.1 h
  exact cmpAddrPort_iff.2 ⟨cmpAddr_symm haddr, hport.symm⟩

theorem cmpAddrPort_trans (h : rpcCmpAddrPort a b = true) (h' : rpcCmpAddrPort b c = true) :
    rpcCmpAddrPort a c = true := by
  obtain ⟨haddr, hport⟩ := cmpAddrPort_iff.1 h
  obtain ⟨haddr', hport'⟩ := cmpAddrPort_iff.1 h'
  exact cmpAddrPort_iff.2 ⟨cmpAddr_trans haddr haddr', hport.trans hport'⟩

end

variable {sap dest : SockAddr}

theorem partialAddrCopy_of_isIp (hsap : sap.IsIp) :
    rpcPartialAddrCopy sap dest = { sap with port := dest.port, scopeId := dest.scopeId } := by
  unfold rpcPartialAddrCopy
  rcases hsap with h | h
  · rw [h]
  · rw [h]

/-- The scope id of the destination is the one the address needs. -/
def ScopeKept (dest sap : SockAddr) : Prop :=
  sap.family = .inet6 → ipv6AddrLinklocal sap.addr = true → dest.scopeId = sap.scopeId
deriving Decidable

/-- **A partial copy is still the address it was copied from just when the destination already had
its scope id.** -/
theorem cmpAddr_partialCopy (hsap : sap.IsIp) :
    rpcCmpAddr (rpcPartialAddrCopy sap dest) sap = true ↔ ScopeKept dest sap := by
  rw [partialAddrCopy_of_isIp hsap, cmpAddr_iff]
  constructor
  · rintro ⟨-, -, -, hscope⟩
    exact hscope
  · intro hscope
    exact ⟨hsap, rfl, rfl, hscope⟩

end Vastnfs.Sunrpc
