import Vastnfs.Sunrpc.Create
import Mathlib.Data.List.Basic
import Mathlib.Data.List.TakeWhile
import Mathlib.Tactic.IntervalCases

/-!
# Port group options

`localports=` and `remoteports=` name a group of addresses, with `~` between them and `-` for a range.
`nfs_parse_port_group` of `fs/nfs/fs_context.c` reads such a text, `nfs_show_portgroup` of
`fs/nfs/super.c` prints the text of a group for `/proc/mounts`.

* `parseTokens_ends`: the parser ends on every text.
* `Built.addrsOk`: what a group can hold.
* `parse_show`: parsing what is printed gives the group back.
-/

namespace Vastnfs.Nfs

open Sunrpc List Option

/-! ## Texts of addresses -/

/-- What the two functions ask others for: the formats of `snprintf`, `rpc_pton` in the network namespace,
and the primary IPv4 address of the network device of that name. -/
structure IpText where
  /-- `%pI4`. -/
  pI4 : Nat → List Char
  /-- `%pI6c`. -/
  pI6c : Nat → List Char
  /-- `%u`. -/
  pU : Nat → List Char
  rpcPton : List Char → Option SockAddr
  devPrimaryAddr : List Char → Option Nat

section

variable (T : IpText)

def rpcNtop4 (sap : SockAddr) : List Char := T.pI4 sap.addr

def rpcNtop6Noscopeid (sap : SockAddr) : List Char :=
  if sap.addr = 0 then "::".toList
  else if sap.addr = 1 then "::1".toList
  else if sap.addr / 2 ^ 32 = 0xffff then "::ffff:".toList ++ T.pI4 (sap.addr % 2 ^ 32)
  else T.pI6c sap.addr

def rpcNtop6 (sap : SockAddr) : List Char :=
  if !ipv6AddrLinklocal sap.addr then rpcNtop6Noscopeid T sap
  else if sap.scopeId = 0 then rpcNtop6Noscopeid T sap
  else rpcNtop6Noscopeid T sap ++ '%' :: T.pU sap.scopeId

/-- `rpc_ntop` with a buffer that holds every address; nothing for other families. -/
def rpcNtop (sap : SockAddr) : List Char :=
  match sap.family with
  | .inet => rpcNtop4 T sap
  | .inet6 => rpcNtop6 T sap
  | _ => []

/-! ## Printing -/

/-- Of an IPv6 address only the last two words are counted up. -/
def nfsGetSucceedingIpaddr (addr : SockAddr) : Option SockAddr :=
  match addr.family with
  | .inet => some { addr with addr := (addr.addr + 1) % 2 ^ 32, scopeId := 0 }
  | .inet6 =>
      let word3 := (addr.addr % 2 ^ 32 + 1) % 2 ^ 32
      let word2 := addr.addr / 2 ^ 32 % 2 ^ 32
      let word2 := if word3 = 0 then (word2 + 1) % 2 ^ 32 else word2
      some { addr with addr := addr.addr / 2 ^ 64 * 2 ^ 64 + word2 * 2 ^ 32 + word3 }
  | _ => none

def nfsIsSucceedingAddr (prev : Option SockAddr) (addr : SockAddr) : Bool :=
  match prev with
  | none => false
  | some prev =>
    if prev.family = addr.family then
      match nfsGetSucceedingIpaddr prev with
      | some buff => rpcCmpAddr buff addr
      | none => false
    else false

def nfsSeqPutNtop (delim : Char) (addr : SockAddr) : List Char := delim :: rpcNtop T addr

def showLoop (delim : Char) (prev : Option SockAddr) : List SockAddr → List Char
  | [] =>
    match prev with
    | some prev => if delim = '-' then nfsSeqPutNtop T delim prev else []
    | none => []
  | addr :: addrs =>
    if nfsIsSucceedingAddr prev addr then showLoop '-' (some addr) addrs
    else
      (match prev with
        | some prev => if delim = '-' then nfsSeqPutNtop T '-' prev ++ nfsSeqPutNtop T '~' addr else nfsSeqPutNtop T delim addr
        | none => nfsSeqPutNtop T delim addr) ++
      showLoop '~' (some addr) addrs

def rpcMaxPorts : Nat := 2048

def nfsShowPortgroup (paramName : List Char) (portgroup : RpcPortgroup) : List Char :=
  ',' :: paramName ++
    if portgroup.dns then "=dns".toList else showLoop T '=' none (portgroup.addrs.take rpcMaxPorts)

/-! ## Parsing -/

inductive PortType where
  | «local»
  | remote
  deriving DecidableEq

/-- A device name is shorter than `IFNAMSIZ`. -/
def nfsParseNetdevOrAddress (type : PortType) (buf : List Char) : Option SockAddr :=
  match T.rpcPton buf with
  | some sap => some sap
  | none =>
    match type with
    | .remote => none
    | .«local» =>
      if 16 ≤ buf.length then none
      else (T.devPrimaryAddr buf).map fun addr => { family := .inet, addr := addr }

def strchr (s : List Char) (c : Char) : Option Nat := s.findIdx? (· == c)

/-- `strsep` at a character that is there: the token and the rest. -/
def strsep (s : List Char) (c : Char) : List Char × List Char := (s.takeWhile (· != c), (s.dropWhile (· != c)).tail)

/-- The next token and, unless it is the last one, whether a single address follows and the rest. -/
def nextToken (s : List Char) : List Char × Option (Bool × List Char) :=
  match strchr s '~', strchr s '-' with
  | some a, some b =>
    if b < a then ((strsep s '-').1, some (false, (strsep s '-').2)) else ((strsep s '~').1, some (true, (strsep s '~').2))
  | some _, none => ((strsep s '~').1, some (true, (strsep s '~').2))
  | none, some _ => ((strsep s '-').1, some (false, (strsep s '-').2))
  | none, none => (s, none)

/-- The successors of the last address up to `last`; `room` is what is left of `RPC_MAX_PORTS`. -/
def extendRange (last : SockAddr) : Nat → List SockAddr → SockAddr → Except Errno (List SockAddr)
  | 0, _, _ => .error .enospc
  | room + 1, addrs, prev =>
    match nfsGetSucceedingIpaddr prev with
    | none => .error .enotsupp
    | some next => if rpcCmpAddr next last then .ok (addrs ++ [next]) else extendRange last room (addrs ++ [next]) next

def addToken (type : PortType) (prevRange : Bool) (token : List Char) (addrs : List SockAddr) : Except Errno (List SockAddr) :=
  if prevRange then
    match T.rpcPton token with
    | none => .error .einval
    | some last => extendRange last (rpcMaxPorts - addrs.length) addrs (addrs.getLastD {})
  else if rpcMaxPorts ≤ addrs.length then .error .enospc
  else
    match nfsParseNetdevOrAddress T type token with
    | none => .error .einval
    | some addr => .ok (addrs ++ [addr])

/-- The loop of `nfs_parse_port_group`; `none` when it does not end within `fuel` turns. -/
def parseTokens (type : PortType) : Nat → List Char → Bool → List SockAddr → Option (Except Errno (List SockAddr))
  | 0, _, _, _ => none
  | fuel + 1, s, prevRange, addrs =>
    match addToken T type prevRange (nextToken s).1 addrs, (nextToken s).2 with
    | .error e, _ => some (.error e)
    | .ok addrs, none => some (.ok addrs)
    | .ok addrs, some (single, rest) => parseTokens type fuel rest (!single) addrs

def nfsParsePortGroup (type : PortType) (string : List Char) (pg : Option RpcPortgroup) : Option (Except Errno RpcPortgroup) :=
  let pg := pg.getD {}
  if rpcMaxPorts ≤ pg.nr then some (.error .enospc)
  else if string = "dns".toList then
    if type = .«local» then some (.error .einval)
    else if pg.nr ≠ 0 then some (.error .einval)
    else some (.ok { pg with dns := true })
  else
    (parseTokens T type (string.length + 1) string false pg.addrs).map fun res => res.map fun addrs => { pg with addrs := addrs }

end

/-! ## Addresses that have a text -/

/-- An IPv4 or IPv6 address as `rpc_pton` fills it in: no port, and a scope id only if it is link-local. -/
@[mk_iff]
structure Presentable (a : SockAddr) : Prop where
  port : a.port = 0
  ip : a.IsIp
  inet : a.family = .inet → a.addr < 2 ^ 32 ∧ a.scopeId = 0
  inet6 : a.family = .inet6 → a.addr < 2 ^ 128 ∧ a.scopeId < 2 ^ 32 ∧ (ipv6AddrLinklocal a.addr = false → a.scopeId = 0)

def span (a : SockAddr) : Nat := if a.family = .inet then 2 ^ 32 else 2 ^ 64

def advance (a : SockAddr) (i : Nat) : SockAddr := { a with addr := a.addr / span a * span a + (a.addr % span a + i) % span a }

section

variable {a b p : SockAddr} {i k : Nat}

theorem span_cases (a : SockAddr) : span a = 2 ^ 32 ∨ span a = 2 ^ 64 := by
  unfold span
  split
  · exact .inl rfl
  · exact .inr rfl

theorem advance_zero (a : SockAddr) : advance a 0 = a := by
  have hdiv : a.addr / span a * span a + a.addr % span a = a.addr := Nat.div_add_mod' a.addr (span a)
  simp [advance, hdiv]

theorem advance_div (a : SockAddr) (i : Nat) : (advance a i).addr / span a = a.addr / span a := by
  have hpos : 0 < span a := by rcases span_cases a with h | h <;> simp [h]
  have hlt := Nat.mod_lt (a.addr % span a + i) hpos
  show (a.addr / span a * span a + (a.addr % span a + i) % span a) / span a = _
  rw [mul_comm, Nat.mul_add_div hpos, Nat.div_eq_of_lt hlt, add_zero]

theorem advance_mod (a : SockAddr) (i : Nat) : (advance a i).addr % span a = (a.addr % span a + i) % span a := by
  show (a.addr / span a * span a + (a.addr % span a + i) % span a) % span a = _
  rw [mul_comm, Nat.mul_add_mod, Nat.mod_mod]

theorem advance_inj (hi : i < 2 ^ 32) (hk : k < 2 ^ 32) (h : advance a i = advance a k) : i = k := by
  have hmod := (advance_mod a i).symm.trans ((congrArg (fun b => b.addr % span a) h).trans (advance_mod a k))
  rcases span_cases a with hs | hs
  · rw [hs] at hmod
    omega
  · rw [hs] at hmod
    omega

theorem linklocal_congr (h : a.addr / 2 ^ 64 = b.addr / 2 ^ 64) : ipv6AddrLinklocal a.addr = ipv6AddrLinklocal b.addr := by
  have hdiv : ∀ n m : Nat, n / 2 ^ (64 + m) = n / 2 ^ 64 / 2 ^ m := fun n m => by rw [pow_add, Nat.div_div_eq_div_mul]
  simp only [ipv6AddrLinklocal]
  rw [hdiv _ 54, hdiv _ 56, hdiv _ 48, h, ← hdiv, ← hdiv, ← hdiv]

theorem Presentable.advance (ha : Presentable a) (i : Nat) : Presentable (advance a i) := by
  refine ⟨ha.port, ha.ip, fun hfam => ?_, fun hfam => ?_⟩
  · obtain ⟨haddr, hscope⟩ := ha.inet hfam
    have hs : span a = 2 ^ 32 := if_pos hfam
    refine ⟨?_, hscope⟩
    show a.addr / span a * span a + (a.addr % span a + i) % span a < 2 ^ 32
    rw [hs]
    omega
  · obtain ⟨haddr, hscope, hlocal⟩ := ha.inet6 hfam
    have hne : a.family ≠ .inet := by
      have h6 : a.family = .inet6 := hfam
      rw [h6]
      decide
    have hs : span a = 2 ^ 64 := if_neg hne
    have hdiv := advance_div a i
    rw [hs] at hdiv
    refine ⟨?_, hscope, fun h => hlocal ?_⟩
    · show a.addr / span a * span a + (a.addr % span a + i) % span a < 2 ^ 128
      rw [hs]
      omega
    · rw [← linklocal_congr hdiv]
      exact h

/-- **The successor** of an address. -/
theorem getSucceedingIpaddr_eq (ha : Presentable a) : nfsGetSucceedingIpaddr a = some (advance a 1) := by
  rcases ha.ip with hfam | hfam
  · obtain ⟨haddr, hscope⟩ := ha.inet hfam
    have hs : span a = 2 ^ 32 := if_pos hfam
    have hval : (a.addr + 1) % 2 ^ 32 = a.addr / 2 ^ 32 * 2 ^ 32 + (a.addr % 2 ^ 32 + 1) % 2 ^ 32 := by omega
    simp only [nfsGetSucceedingIpaddr, hfam, Nfs.advance, hs, hval, hscope]
  have hs : span a = 2 ^ 64 := by simp [span, hfam]
  have hval : a.addr / 2 ^ 64 * 2 ^ 64 +
      (if (a.addr % 2 ^ 32 + 1) % 2 ^ 32 = 0 then (a.addr / 2 ^ 32 % 2 ^ 32 + 1) % 2 ^ 32 else a.addr / 2 ^ 32 % 2 ^ 32) * 2 ^ 32 +
      (a.addr % 2 ^ 32 + 1) % 2 ^ 32 = a.addr / 2 ^ 64 * 2 ^ 64 + (a.addr % 2 ^ 64 + 1) % 2 ^ 64 := by
    split <;> omega
  simp only [nfsGetSucceedingIpaddr, hfam, Nfs.advance, hs, hval]

theorem advance_advance (a : SockAddr) (i : Nat) : advance (advance a i) 1 = advance a (i + 1) := by
  have hdiv := advance_div a i
  have hmod := advance_mod a i
  show { a with addr := (advance a i).addr / span a * span a + ((advance a i).addr % span a + 1) % span a } = _
  rw [hdiv, hmod, Nat.mod_add_mod]
  rfl

theorem Presentable.eq_of_cmp (ha : Presentable a) (hb : Presentable b) (h : rpcCmpAddr a b = true) : a = b := by
  obtain ⟨-, hfam, haddr, hscope⟩ := cmpAddr_iff.1 h
  have hport : a.port = b.port := ha.port.trans hb.port.symm
  have hscopes : a.scopeId = b.scopeId := by
    rcases ha.ip with h4 | h6
    · exact (ha.inet h4).2.trans (hb.inet (hfam ▸ h4)).2.symm
    cases hlocal : ipv6AddrLinklocal a.addr with
    | true => exact hscope h6 hlocal
    | false =>
      have hlocal' : ipv6AddrLinklocal b.addr = false := haddr ▸ hlocal
      exact ((ha.inet6 h6).2.2 hlocal).trans ((hb.inet6 (hfam ▸ h6)).2.2 hlocal').symm
  cases a
  cases b
  simp only [SockAddr.mk.injEq]
  exact ⟨hfam, haddr, hport, hscopes⟩

theorem isSucceedingAddr_iff (hp : Presentable p) (ha : Presentable a) :
    nfsIsSucceedingAddr (some p) a = true ↔ a = advance p 1 := by
  simp only [nfsIsSucceedingAddr, getSucceedingIpaddr_eq hp]
  constructor
  · intro h
    split at h
    · exact ((hp.advance 1).eq_of_cmp ha h).symm
    · cases h
  · rintro rfl
    have hfam : p.family = (advance p 1).family := rfl
    rw [if_pos hfam]
    exact cmpAddr_refl (hp.advance 1).ip

end

/-! ## Tokens -/

def addrChars : List Char := "0123456789abcdef:.%".toList

/-- What is known of the functions that are asked: the formats print addresses and numbers, and `rpc_pton`
undoes `rpc_ntop`. -/
structure IpText.Lawful (T : IpText) : Prop where
  pI4_chars : ∀ n, ∀ c ∈ T.pI4 n, c ∈ addrChars
  pI6c_chars : ∀ n, ∀ c ∈ T.pI6c n, c ∈ addrChars
  pU_chars : ∀ n, ∀ c ∈ T.pU n, c ∈ addrChars
  pton_presentable : ∀ s a, T.rpcPton s = some a → Presentable a
  pton_ntop : ∀ a, Presentable a → T.rpcPton (rpcNtop T a) = some a
  dev_lt : ∀ s n, T.devPrimaryAddr s = some n → n < 2 ^ 32

section

variable {T : IpText} {a : SockAddr} {t : List Char} {c d : Char}

theorem ntop_chars (hT : T.Lawful) (a : SockAddr) : ∀ c ∈ rpcNtop T a, c ∈ addrChars := by
  have hmapped : "::ffff:".toList ⊆ addrChars := by decide
  have hloopback : "::1".toList ⊆ addrChars := by decide
  have hany : "::".toList ⊆ addrChars := by decide
  have h6 : ∀ c ∈ rpcNtop6Noscopeid T a, c ∈ addrChars := by
    intro c hc
    unfold rpcNtop6Noscopeid at hc
    split at hc
    · exact hany hc
    split at hc
    · exact hloopback hc
    split at hc
    · exact (mem_append.1 hc).elim (hmapped ·) (hT.pI4_chars _ c)
    · exact hT.pI6c_chars _ c hc
  intro c hc
  unfold rpcNtop at hc
  split at hc
  · exact hT.pI4_chars _ c hc
  · unfold rpcNtop6 at hc
    split at hc
    · exact h6 c hc
    split at hc
    · exact h6 c hc
    rcases mem_append.1 hc with hc | hc
    · exact h6 c hc
    rcases mem_cons.1 hc with rfl | hc
    · decide
    · exact hT.pU_chars _ c hc
  · cases hc

theorem not_mem_of_chars (ht : ∀ c ∈ t, c ∈ addrChars) (hd : d ∉ addrChars) : d ∉ t := fun h => hd (ht d h)

theorem strchr_none (hc : c ∉ t) : strchr t c = none := by
  refine findIdx?_eq_none_iff.2 fun x hx => ?_
  simpa using fun heq : x = c => hc (heq ▸ hx)

theorem strchr_append (hc : c ∉ t) (hne : d ≠ c) (rest : List Char) :
    strchr (t ++ d :: rest) c = (strchr rest c).map (· + (t.length + 1)) := by
  rw [strchr, findIdx?_append]
  have hnone : findIdx? (· == c) t = none := strchr_none hc
  have hfalse : (d == c) = false := by simpa using hne
  rw [hnone, findIdx?_cons, hfalse]
  simp only [Option.none_or, strchr, Option.map_map, Bool.false_eq_true, if_false]
  congr 1
  funext n
  simp only [Function.comp]
  omega

theorem strchr_append_self (hc : c ∉ t) (rest : List Char) : strchr (t ++ c :: rest) c = some t.length := by
  rw [strchr, findIdx?_append]
  have hnone : findIdx? (· == c) t = none := strchr_none hc
  rw [hnone, findIdx?_cons]
  simp

theorem strsep_append (hc : c ∉ t) (rest : List Char) : strsep (t ++ c :: rest) c = (t, rest) := by
  have hall : ∀ x ∈ t, (x != c) = true := fun x hx => by simpa using fun heq : x = c => hc (heq ▸ hx)
  rw [strsep, takeWhile_append_of_pos hall, dropWhile_append_of_pos hall]
  simp

variable (ht : ∀ c ∈ t, c ∈ addrChars)
include ht

theorem nextToken_last : nextToken t = (t, none) := by
  have ha := strchr_none (not_mem_of_chars ht (by decide : '~' ∉ addrChars))
  have hb := strchr_none (not_mem_of_chars ht (by decide : '-' ∉ addrChars))
  simp [nextToken, ha, hb]

theorem nextToken_single (rest : List Char) :
    nextToken (t ++ '~' :: rest) = (t, some (true, rest)) := by
  have hnot := not_mem_of_chars ht (by decide : '~' ∉ addrChars)
  have ha := strchr_append_self hnot rest
  have hb := strchr_append (not_mem_of_chars ht (by decide : '-' ∉ addrChars)) (by decide : '~' ≠ '-') rest
  cases hrest : strchr rest '-' with
  | none => simp [nextToken, ha, hb, hrest, strsep_append hnot]
  | some n =>
    have hlt : ¬ n + (t.length + 1) < t.length := by omega
    simp [nextToken, ha, hb, hrest, strsep_append hnot, hlt]

theorem nextToken_range (rest : List Char) :
    nextToken (t ++ '-' :: rest) = (t, some (false, rest)) := by
  have hnot := not_mem_of_chars ht (by decide : '-' ∉ addrChars)
  have hb := strchr_append_self hnot rest
  have ha := strchr_append (not_mem_of_chars ht (by decide : '~' ∉ addrChars)) (by decide : '-' ≠ '~') rest
  cases hrest : strchr rest '~' with
  | none => simp [nextToken, ha, hb, hrest, strsep_append hnot]
  | some n =>
    have hlt : t.length < n + (t.length + 1) := by omega
    simp [nextToken, ha, hb, hrest, strsep_append hnot, hlt]

end

/-! ## The round trip -/

def showRest (T : IpText) : List SockAddr → List Char
  | [] => []
  | addr :: addrs => '~' :: (rpcNtop T addr ++ showLoop T '~' (some addr) addrs)

section

variable {T : IpText} {type : PortType} {p : SockAddr} {addrs addrs' rest : List SockAddr} {fuel i k room : Nat}

theorem showLoop_range (hp : Presentable p) (hrest : ∀ a ∈ rest, Presentable a) :
    ∃ k rest', i ≤ k ∧ rest = (range' (i + 1) (k - i)).map (advance p) ++ rest' ∧
      showLoop T '-' (some (advance p i)) rest = '-' :: (rpcNtop T (advance p k) ++ showRest T rest') := by
  induction rest generalizing i with
  | nil => exact ⟨i, [], le_refl i, by simp, by simp [showLoop, showRest, nfsSeqPutNtop]⟩
  | cons a rest ih =>
    have ha := hrest a mem_cons_self
    by_cases hsucc : nfsIsSucceedingAddr (some (advance p i)) a = true
    · have heq : a = advance p (i + 1) := ((isSucceedingAddr_iff (hp.advance i) ha).1 hsucc).trans (advance_advance p i)
      obtain ⟨k, rest', hik, hsplit, htext⟩ := ih (fun b hb => hrest b (mem_cons_of_mem a hb)) (i := i + 1)
      refine ⟨k, rest', by omega, ?_, ?_⟩
      · obtain ⟨n, rfl⟩ : ∃ n, k = i + 1 + n := ⟨k - (i + 1), by omega⟩
        have hlen : i + 1 + n - i = n + 1 := by omega
        rw [Nat.add_sub_cancel_left] at hsplit
        rw [hlen, range'_succ, map_cons, cons_append, ← heq, ← hsplit]
      · rw [showLoop, if_pos hsucc, heq]
        exact htext
    · refine ⟨i, a :: rest, le_refl i, by simp, ?_⟩
      rw [showLoop, if_neg hsucc]
      simp [showRest, nfsSeqPutNtop]

theorem extendRange_eq (hp : Presentable p) (hik : i < k) (hk : k < 2 ^ 32) (hroom : k - i ≤ room) (addrs : List SockAddr) :
    extendRange (advance p k) room addrs (advance p i) = .ok (addrs ++ (range' (i + 1) (k - i)).map (advance p)) := by
  induction room generalizing addrs i with
  | zero => omega
  | succ room ih =>
    rw [extendRange, getSucceedingIpaddr_eq (hp.advance i), advance_advance]
    obtain ⟨n, hn⟩ : ∃ n, k - i = n + 1 := ⟨k - i - 1, by omega⟩
    rw [hn, range'_succ, map_cons]
    by_cases hlast : i + 1 = k
    · have hcmp : rpcCmpAddr (advance p (i + 1)) (advance p k) = true := by
        rw [hlast]
        exact cmpAddr_refl (hp.advance k).ip
      have hn0 : n = 0 := by omega
      simp [hcmp, hn0]
    have hcmp : ¬ rpcCmpAddr (advance p (i + 1)) (advance p k) = true := fun h =>
      hlast (advance_inj (by omega) hk ((hp.advance _).eq_of_cmp (hp.advance _) h))
    have hnext := ih (by omega : i + 1 < k) (by omega) (addrs ++ [advance p (i + 1)])
    have hlen : k - (i + 1) = n := by omega
    rw [hlen] at hnext
    simp [hcmp, hnext]

theorem addToken_single (hT : T.Lawful) (hp : Presentable p) (hroom : addrs.length < rpcMaxPorts) :
    addToken T type false (rpcNtop T p) addrs = .ok (addrs ++ [p]) := by
  have hroom' : ¬ rpcMaxPorts ≤ addrs.length := by omega
  simp [addToken, nfsParseNetdevOrAddress, hT.pton_ntop p hp, hroom']

theorem addToken_range (hT : T.Lawful) (hp : Presentable p) (hk : 0 < k) (hroom : addrs.length + 1 + k ≤ rpcMaxPorts) :
    addToken T type true (rpcNtop T (advance p k)) (addrs ++ [p]) =
      .ok (addrs ++ [p] ++ (range' 1 k).map (advance p)) := by
  have hlt : k < 2 ^ 32 := by
    have hmax : rpcMaxPorts = 2048 := rfl
    omega
  have hextend := extendRange_eq hp hk hlt (by simp only [length_append, length_singleton]; omega :
    k - 0 ≤ rpcMaxPorts - (addrs ++ [p]).length) (addrs ++ [p])
  simp only [addToken, hT.pton_ntop _ (hp.advance k), if_true, getLastD_concat]
  rw [advance_zero] at hextend
  exact hextend

theorem parseTokens_showRest {prevRange : Bool} {t : List Char} (ht : ∀ c ∈ t, c ∈ addrChars)
    (hadd : addToken T type prevRange t addrs = .ok addrs')
    (hnext : ∀ a rest', rest = a :: rest' →
      parseTokens T type fuel (rpcNtop T a ++ showLoop T '~' (some a) rest') false addrs' = some (.ok (addrs' ++ rest))) :
    parseTokens T type (fuel + 1) (t ++ showRest T rest) prevRange addrs = some (.ok (addrs' ++ rest)) := by
  cases rest with
  | nil => simp [showRest, parseTokens, nextToken_last ht, hadd]
  | cons a rest =>
    simp only [showRest, parseTokens, nextToken_single ht, hadd, Bool.not_true]
    exact hnext a rest rfl

/-- **What is printed is read back**, from an address on. -/
theorem parseTokens_showLoop (hT : T.Lawful) (hp : Presentable p) (hrest : ∀ a ∈ rest, Presentable a)
    (hroom : addrs.length + 1 + rest.length ≤ rpcMaxPorts)
    (hfuel : (rpcNtop T p ++ showLoop T '~' (some p) rest).length < fuel) :
    parseTokens T type fuel (rpcNtop T p ++ showLoop T '~' (some p) rest) false addrs = some (.ok (addrs ++ p :: rest)) := by
  -- by induction on the number of addresses that are left, over whole ranges
  induction hn : rest.length using Nat.strong_induction_on generalizing rest p addrs fuel with
  | _ n ih =>
    subst hn
    have hchars := ntop_chars hT p
    have hadd : addToken T type false (rpcNtop T p) addrs = .ok (addrs ++ [p]) := addToken_single hT hp (by omega)
    obtain ⟨fuel, rfl⟩ : ∃ n, fuel = n + 1 := ⟨fuel - 1, by omega⟩
    by_cases hsucc : ∃ a rest', rest = a :: rest' ∧ nfsIsSucceedingAddr (some p) a = true
    · obtain ⟨a, rest₁, rfl, hsucc⟩ := hsucc
      have ha : a = advance p 1 := (isSucceedingAddr_iff hp (hrest a mem_cons_self)).1 hsucc
      obtain ⟨k, rest₂, hk, hsplit, htext⟩ := showLoop_range (T := T) (i := 1) hp fun b hb => hrest b (mem_cons_of_mem a hb)
      have hall : a :: rest₁ = (range' 1 k).map (advance p) ++ rest₂ := by
        obtain ⟨m, rfl⟩ : ∃ m, k = m + 1 := ⟨k - 1, by omega⟩
        rw [range'_succ, map_cons, cons_append, ha, hsplit, Nat.add_sub_cancel]
      have htext' : showLoop T '~' (some p) (a :: rest₁) = '-' :: (rpcNtop T (advance p k) ++ showRest T rest₂) := by
        rw [showLoop, if_pos hsucc, ha]
        exact htext
      rw [htext'] at hfuel ⊢
      rw [hall] at hroom hrest ih ⊢
      simp only [length_append, length_map, length_range', length_cons] at hroom hfuel ih
      obtain ⟨fuel, rfl⟩ : ∃ n, fuel = n + 1 := ⟨fuel - 1, by omega⟩
      -- the first address, then the last one of the range
      rw [parseTokens, nextToken_range hchars, hadd]
      have hlist : addrs ++ p :: ((range' 1 k).map (advance p) ++ rest₂) =
          addrs ++ [p] ++ (range' 1 k).map (advance p) ++ rest₂ := by simp
      rw [hlist]
      refine parseTokens_showRest (ntop_chars hT _) (addToken_range hT hp hk (by omega)) ?_
      rintro b rest₃ rfl
      simp only [length_cons, showRest, length_append] at hroom hfuel ih
      refine ih rest₃.length (by omega) (hrest b (by simp)) (fun c hc => hrest c (by simp [hc])) ?_ ?_ rfl
      · simp only [length_append, length_map, length_range', length_cons, length_nil]
        omega
      · omega
    · have htext : showLoop T '~' (some p) rest = showRest T rest := by
        cases rest with
        | nil => rfl
        | cons a rest =>
          have hno : ¬ nfsIsSucceedingAddr (some p) a = true := fun h => hsucc ⟨a, rest, rfl, h⟩
          rw [showLoop, if_neg hno]
          rfl
      rw [htext] at hfuel ⊢
      have hlist : addrs ++ p :: rest = addrs ++ [p] ++ rest := by simp
      rw [hlist]
      refine parseTokens_showRest hchars hadd ?_
      rintro a rest₁ rfl
      simp only [length_cons, showRest, length_append] at hroom hfuel ih
      refine ih rest₁.length (by omega) (hrest a (by simp)) (fun c hc => hrest c (by simp [hc])) ?_ ?_ rfl
      · simp only [length_append, length_cons, length_nil]
        omega
      · omega

end

/-! ## Groups that were parsed -/

/-- A group that options of a mount built. -/
inductive Built (T : IpText) : RpcPortgroup → Prop where
  | first {type : PortType} {string : List Char} {pg : RpcPortgroup}
      (h : nfsParsePortGroup T type string none = some (.ok pg)) : Built T pg
  | more {type : PortType} {string : List Char} {pg pg' : RpcPortgroup} (hpg : Built T pg)
      (h : nfsParsePortGroup T type string (some pg) = some (.ok pg')) : Built T pg'

/-- What holds of the addresses of a group at all times. -/
structure AddrsOk (addrs : List SockAddr) : Prop where
  presentable : ∀ a ∈ addrs, Presentable a
  room : addrs.length ≤ rpcMaxPorts

section

variable {T : IpText} {type : PortType} {addrs addrs' : List SockAddr} {fuel : Nat} {prevRange : Bool}
  {s token : List Char} {a : SockAddr}

theorem AddrsOk.concat (hok : AddrsOk addrs) (ha : Presentable a) (hroom : addrs.length < rpcMaxPorts) :
    AddrsOk (addrs ++ [a]) := by
  exact ⟨forall_mem_append.2 ⟨hok.presentable, forall_mem_singleton.2 ha⟩, by rw [length_append]; exact hroom⟩

theorem extendRange_ok {last prev : SockAddr} {room : Nat} (hok : AddrsOk addrs) (hprev : Presentable prev)
    (hroom : addrs.length + room ≤ rpcMaxPorts) (h : extendRange last room addrs prev = .ok addrs') :
    AddrsOk addrs' ∧ addrs.length < addrs'.length := by
  induction room generalizing addrs prev with
  | zero => cases h
  | succ room ih =>
    rw [extendRange, getSucceedingIpaddr_eq hprev] at h
    have hnext := hprev.advance 1
    have hok' := hok.concat hnext (by omega)
    have hlen : (addrs ++ [advance prev 1]).length = addrs.length + 1 := by simp
    dsimp only at h
    split at h
    · cases h
      exact ⟨hok', by omega⟩
    · obtain ⟨hok'', hlt⟩ := ih hok' hnext (by omega) h
      exact ⟨hok'', by omega⟩

theorem parseNetdevOrAddress_presentable (hT : T.Lawful) {buf : List Char}
    (h : nfsParseNetdevOrAddress T type buf = some a) : Presentable a := by
  unfold nfsParseNetdevOrAddress at h
  split at h
  · cases h
    exact hT.pton_presentable _ _ ‹_›
  split at h
  · cases h
  split at h
  · cases h
  · obtain ⟨n, hn, rfl⟩ := map_eq_some_iff.1 h
    exact ⟨rfl, .inl rfl, fun _ => ⟨hT.dev_lt _ _ hn, rfl⟩, nofun⟩

theorem addToken_ok (hT : T.Lawful) (hok : AddrsOk addrs) (hprev : prevRange = true → addrs ≠ [])
    (h : addToken T type prevRange token addrs = .ok addrs') : AddrsOk addrs' ∧ addrs.length < addrs'.length := by
  unfold addToken at h
  split at h
  · split at h
    · cases h
    have hne := hprev ‹_›
    have hlast : Presentable (addrs.getLastD {}) := by
      rw [getLastD_eq_getLast?, getLast?_eq_some_getLast hne]
      exact hok.presentable _ (getLast_mem hne)
    have hroom := hok.room
    exact extendRange_ok hok hlast (by omega) h
  split at h
  · cases h
  split at h
  · cases h
  rename_i hroom addr haddr
  cases h
  refine ⟨hok.concat ?_ (by omega), by simp⟩
  exact parseNetdevOrAddress_presentable hT haddr

/-- The loop ends: every turn takes a character off the text. -/
theorem nextToken_shorter {rest : List Char} {single : Bool} (h : nextToken s = (token, some (single, rest))) :
    rest.length < s.length := by
  have hsep : ∀ c n, strchr s c = some n → (strsep s c).2.length < s.length := by
    intro c n hn
    have hne : s.dropWhile (· != c) ≠ [] := by
      intro hnil
      have hall := dropWhile_eq_nil_iff.1 hnil
      have hnone : strchr s c = none := findIdx?_eq_none_iff.2 fun x hx => by simpa using hall x hx
      rw [hnone] at hn
      cases hn
    have hle := length_dropWhile_le (· != c) s
    have hpos := length_pos_of_ne_nil hne
    show (s.dropWhile (· != c)).tail.length < s.length
    rw [length_tail]
    omega
  unfold nextToken at h
  split at h
  · split at h
    · cases h
      exact hsep _ _ ‹_›
    · cases h
      exact hsep _ _ ‹_›
  · cases h
    exact hsep _ _ ‹_›
  · cases h
    exact hsep _ _ ‹_›
  · cases h

theorem parseTokens_ends (T : IpText) (type : PortType) (hfuel : s.length < fuel) :
    parseTokens T type fuel s prevRange addrs ≠ none := by
  induction fuel generalizing s prevRange addrs with
  | zero => omega
  | succ fuel ih =>
    rw [parseTokens]
    cases hadd : addToken T type prevRange (nextToken s).1 addrs with
    | error e => simp
    | ok addrs' =>
      rcases hnext : (nextToken s).2 with _ | ⟨single, rest⟩
      · simp
      · have hshort : rest.length < s.length := nextToken_shorter (Prod.ext rfl hnext : nextToken s = ((nextToken s).1, some (single, rest)))
        exact ih (by omega)

theorem parseTokens_ok (hT : T.Lawful) (hok : AddrsOk addrs) (hprev : prevRange = true → addrs ≠ [])
    (h : parseTokens T type fuel s prevRange addrs = some (.ok addrs')) : AddrsOk addrs' ∧ addrs' ≠ [] := by
  induction fuel generalizing s prevRange addrs with
  | zero => cases h
  | succ fuel ih =>
    rw [parseTokens] at h
    cases hadd : addToken T type prevRange (nextToken s).1 addrs with
    | error e =>
      rw [hadd] at h
      cases h
    | ok addrs₁ =>
      obtain ⟨hok₁, hlt⟩ := addToken_ok hT hok hprev hadd
      have hne : addrs₁ ≠ [] := ne_nil_of_length_pos (by omega)
      rcases hnext : (nextToken s).2 with _ | ⟨single, rest⟩
      · rw [hadd, hnext] at h
        cases h
        exact ⟨hok₁, hne⟩
      · rw [hadd, hnext] at h
        exact ih hok₁ (fun _ => hne) h

/-- **What a group can hold**: addresses that have a text, at most `RPC_MAX_PORTS` of them, and at least one
unless the group is asked from the name server. -/
theorem Built.addrsOk (hT : T.Lawful) {pg : RpcPortgroup} (hpg : Built T pg) :
    AddrsOk pg.addrs ∧ (pg.dns = false → pg.addrs ≠ []) := by
  have hstep : ∀ (type : PortType) (string : List Char) (pg pg' : RpcPortgroup), AddrsOk pg.addrs →
      nfsParsePortGroup T type string (some pg) = some (.ok pg') →
      AddrsOk pg'.addrs ∧ (pg'.dns = false → pg'.addrs ≠ []) := by
    intro type string pg pg' hok h
    simp only [nfsParsePortGroup, getD_some] at h
    split at h
    · cases h
    split at h
    · split at h
      · cases h
      split at h
      · cases h
      · cases h
        exact ⟨hok, nofun⟩
    obtain ⟨res, hres, hmap⟩ := map_eq_some_iff.1 h
    cases res with
    | error e => cases hmap
    | ok addrs =>
      cases hmap
      obtain ⟨hok', hne⟩ := parseTokens_ok hT hok (fun hf => by cases hf) hres
      exact ⟨hok', fun _ => hne⟩
  induction hpg with
  | first h => exact hstep _ _ {} _ ⟨by simp, by simp⟩ h
  | more _ h ih => exact hstep _ _ _ _ ih.1 h

theorem showLoop_chars (hT : T.Lawful) {delim : Char} {prev : Option SockAddr} (hdelim : delim ∈ ['-', '~']) :
    ∀ c ∈ showLoop T delim prev addrs, c ∈ addrChars ++ ['-', '~'] := by
  have hput : ∀ d ∈ ['-', '~'], ∀ a, ∀ c ∈ nfsSeqPutNtop T d a, c ∈ addrChars ++ ['-', '~'] := by
    intro d hd a c hc
    rcases mem_cons.1 hc with rfl | hc
    · exact mem_append_right _ hd
    · exact mem_append_left _ (ntop_chars hT a c hc)
  induction addrs generalizing delim prev with
  | nil =>
    intro c hc
    unfold showLoop at hc
    split at hc
    · split at hc
      · exact hput _ hdelim _ c hc
      · cases hc
    · cases hc
  | cons a addrs ih =>
    intro c hc
    unfold showLoop at hc
    split at hc
    · exact ih (by simp) c hc
    rcases mem_append.1 hc with hc | hc
    · split at hc
      · split at hc
        · exact (mem_append.1 hc).elim (hput _ (by simp) _ c) (hput _ (by simp) _ c)
        · exact hput _ hdelim _ c hc
      · exact hput _ hdelim _ c hc
    · exact ih (by simp) c hc

/-- **The round trip**: the text that is printed for a group parses to the same group. -/
theorem parse_show (hT : T.Lawful) {pg : RpcPortgroup} (hpg : Built T pg) (hdns : pg.dns = false) (type : PortType)
    (paramName : List Char) :
    ∃ text, nfsShowPortgroup T paramName pg = ',' :: paramName ++ '=' :: text ∧
      nfsParsePortGroup T type text none = some (.ok pg) := by
  obtain ⟨hok, hne⟩ := hpg.addrsOk hT
  obtain ⟨addrs, dns⟩ := pg
  cases hdns
  obtain ⟨p, rest, rfl⟩ := exists_cons_of_ne_nil (hne rfl)
  have hp := hok.presentable p mem_cons_self
  have hrest : ∀ a ∈ rest, Presentable a := fun a ha => hok.presentable a (mem_cons_of_mem p ha)
  have hroom := hok.room
  refine ⟨rpcNtop T p ++ showLoop T '~' (some p) rest, ?_, ?_⟩
  · simp only [nfsShowPortgroup, take_of_length_le hroom]
    rfl
  · have hnot : rpcNtop T p ++ showLoop T '~' (some p) rest ≠ "dns".toList := by
      intro heq
      have hs : 's' ∈ rpcNtop T p ++ showLoop T '~' (some p) rest := by
        rw [heq]
        decide
      have hchars : 's' ∈ addrChars ++ ['-', '~'] := (mem_append.1 hs).elim
        (fun h => mem_append_left _ (ntop_chars hT p _ h)) (showLoop_chars hT (by simp) _)
      exact absurd hchars (by decide)
    have hlen : ([] : List SockAddr).length + 1 + rest.length ≤ rpcMaxPorts := by
      simp only [length_cons, length_nil] at hroom ⊢
      omega
    have hparse : parseTokens T type _ _ false [] = _ := parseTokens_showLoop hT hp hrest hlen (Nat.lt_succ_self _)
    have hmax : ¬ rpcMaxPorts ≤ RpcPortgroup.nr {} := by decide
    simp only [nfsParsePortGroup, getD_none, hmax, hnot, if_false, hparse]
    rfl

end

/-! ## Addresses in decimal -/

instance (a : SockAddr) : Decidable (Presentable a) :=
  decidable_of_iff' _ (presentable_iff a)

/-- The last `k` fields of a number to the base `w` behind the rest of it, in decimal with `sep` between them. -/
def fieldsText (sep : Char) (w : Nat) : Nat → Nat → List Char
  | 0, n => Nat.toDigits 10 n
  | k + 1, n => fieldsText sep w k (n / w) ++ sep :: Nat.toDigits 10 (n % w)

def fieldsValue (sep : Char) (w : Nat) (s : List Char) : Nat :=
  (s.splitOn sep).foldl (fun n field => n * w + Nat.ofDigitChars 10 field 0) 0

/-- The formats: an IPv4 address with dots, and the words of an IPv6 address in decimal, which are the same in hexadecimal
below ten. -/
def dottedFormats : IpText where
  pI4 := fieldsText '.' 256 3
  pI6c := fieldsText ':' 65536 7
  pU := Nat.toDigits 10
  rpcPton _ := none
  devPrimaryAddr _ := none

def dottedAddr6 (s : List Char) : Nat :=
  -- a field without digits is 0
  if '.' ∈ s then 0xffff * 2 ^ 32 + fieldsValue '.' 256 (s.drop 7) else fieldsValue ':' 65536 s

def dottedSockaddr (s : List Char) : SockAddr :=
  if ':' ∈ s then
    { family := .inet6, addr := dottedAddr6 (strsep s '%').1, scopeId := Nat.ofDigitChars 10 (strsep s '%').2 0 }
  else { family := .inet, addr := fieldsValue '.' 256 s }

/-- An address is read from the text it is printed as. -/
def dotted : IpText where
  __ := dottedFormats
  rpcPton s :=
    let a := dottedSockaddr s
    if Presentable a ∧ rpcNtop dottedFormats a = s then some a else none

section

variable {a : SockAddr} {sep c : Char} {w k n : Nat}

theorem mem_fieldsText (h : c ∈ fieldsText sep w k n) : c = sep ∨ c.isDigit = true := by
  induction k generalizing n with
  | zero => exact .inr (Nat.isDigit_of_mem_toDigits (by decide) (by decide) h)
  | succ k ih =>
    rcases mem_append.1 h with h | h
    · exact ih h
    · exact (mem_cons.1 h).imp_right (Nat.isDigit_of_mem_toDigits (by decide) (by decide))

theorem notMem_fieldsText (hc : c.isDigit = false) (hne : c ≠ sep) : c ∉ fieldsText sep w k n := by
  intro h
  rcases mem_fieldsText h with rfl | h
  · exact hne rfl
  · simp [hc] at h

theorem fieldsValue_text (hsep : sep.isDigit = false) : fieldsValue sep w (fieldsText sep w k n) = n := by
  have hsingle : ∀ m, (Nat.toDigits 10 m).splitOn sep = [Nat.toDigits 10 m] := fun m =>
    splitOn_eq_singleton fun h => by simp [Nat.isDigit_of_mem_toDigits (by decide) (by decide) h] at hsep
  induction k generalizing n with
  | zero => simp [fieldsText, fieldsValue, hsingle, Nat.ofDigitChars_toDigits]
  | succ k ih =>
    have hrest := ih (n := n / w)
    unfold fieldsValue at hrest ⊢
    rw [fieldsText, splitOn_append_cons_self, hsingle, foldl_append, hrest]
    simp [Nat.ofDigitChars_toDigits, Nat.div_add_mod']

theorem fieldsText_chars (hsep : sep ∈ addrChars) : ∀ c ∈ fieldsText sep w k n, c ∈ addrChars := by
  intro c hc
  rcases mem_fieldsText hc with rfl | hdigit
  · exact hsep
  · obtain ⟨hlo : 48 ≤ c.toNat, hhi : c.toNat ≤ 57⟩ := Char.isDigit_iff_toNat.1 hdigit
    rw [← Char.ofNat_toNat c]
    interval_cases c.toNat <;> decide

theorem dotted_noscopeid (a : SockAddr) : dottedAddr6 (rpcNtop6Noscopeid dottedFormats a) = a.addr ∧
    ':' ∈ rpcNtop6Noscopeid dottedFormats a ∧ '%' ∉ rpcNtop6Noscopeid dottedFormats a := by
  unfold rpcNtop6Noscopeid
  split_ifs with h0 h1 hmapped
  · rw [h0]
    decide
  · rw [h1]
    decide
  · have hvalue : fieldsValue '.' 256 (fieldsText '.' 256 3 (a.addr % 2 ^ 32)) = _ := fieldsValue_text (by decide)
    refine ⟨?_, by simp, by simp [dottedFormats, notMem_fieldsText]⟩
    simp [dottedAddr6, dottedFormats, fieldsText] at hvalue ⊢
    omega
  · refine ⟨?_, by simp [dottedFormats, fieldsText], notMem_fieldsText (by decide) (by decide)⟩
    exact (if_neg (notMem_fieldsText (by decide) (by decide))).trans (fieldsValue_text (by decide))

theorem strsep_eq_self {t : List Char} (h : c ∉ t) : strsep t c = (t, []) := by
  have hall : ∀ d ∈ t, (d != c) = true := fun d hd => bne_iff_ne.2 (ne_of_mem_of_not_mem hd h)
  rw [strsep, takeWhile_eq_self_iff.2 hall, dropWhile_eq_nil_iff.2 hall, tail_nil]

theorem dottedSockaddr_ntop (ha : Presentable a) : dottedSockaddr (rpcNtop dottedFormats a) = a := by
  obtain ⟨family, addr, port, scopeId⟩ := a
  obtain rfl : port = 0 := ha.port
  rcases ha.ip with h | h
  · obtain rfl : family = .inet := h
    obtain rfl : scopeId = 0 := (ha.inet rfl).2
    have hcolon : ':' ∉ fieldsText '.' 256 3 addr := notMem_fieldsText (by decide) (by decide)
    simp [rpcNtop, rpcNtop4, dottedSockaddr, dottedFormats, hcolon, fieldsValue_text]
  obtain rfl : family = .inet6 := h
  obtain ⟨haddr, hcolon, hpercent⟩ := dotted_noscopeid { family := .inet6, addr := addr, scopeId := scopeId }
  simp only [rpcNtop, rpcNtop6]
  split_ifs with hlocal hzero
  · obtain rfl : scopeId = 0 := (ha.inet6 rfl).2.2 (by simpa using hlocal)
    simp [dottedSockaddr, hcolon, strsep_eq_self hpercent, haddr]
  · obtain rfl : scopeId = 0 := hzero
    simp [dottedSockaddr, hcolon, strsep_eq_self hpercent, haddr]
  · have hscope : Nat.ofDigitChars 10 (dottedFormats.pU scopeId) 0 = scopeId := Nat.ofDigitChars_toDigits (by decide) (by decide)
    simp [dottedSockaddr, hcolon, strsep_append hpercent, haddr, hscope]

theorem dotted_lawful : dotted.Lawful where
  pI4_chars _ := fieldsText_chars (by decide)
  pI6c_chars _ := fieldsText_chars (by decide)
  pU_chars n := @fieldsText_chars '.' 1 0 n (by decide)
  pton_presentable s a h := by
    obtain ⟨ha, heq⟩ := ite_none_right_eq_some.1 h
    cases heq
    exact ha.1
  pton_ntop a ha := by
    have hback := dottedSockaddr_ntop ha
    have hntop : rpcNtop dotted a = rpcNtop dottedFormats a := rfl
    show (if _ then _ else _) = _
    rw [hntop, hback, if_pos ⟨ha, rfl⟩]
  dev_lt _ _ h := by cases h

end

def dottedGroup : RpcPortgroup where
  addrs := [{ family := .inet, addr := 0x0a000001 }, { family := .inet, addr := 0x0a000002 },
    { family := .inet, addr := 0x0a000003 }, { family := .inet, addr := 0x0a000003 },
    { family := .inet6, addr := 0x00010002000300040005000600070008 }]

/-- The group is printed as a range and two addresses, and read back. -/
theorem parse_show_dotted :
    let string := "10.0.0.1-10.0.0.3~10.0.0.3~1:2:3:4:5:6:7:8".toList
    nfsParsePortGroup dotted .remote string none = some (.ok dottedGroup) ∧
      ∃ text, nfsShowPortgroup dotted "remoteports".toList dottedGroup = ',' :: "remoteports".toList ++ '=' :: text ∧
        nfsParsePortGroup dotted .remote text none = some (.ok dottedGroup) := by
  intro string
  have hparsed : nfsParsePortGroup dotted .remote string none = some (.ok dottedGroup) := by decide +kernel
  exact ⟨hparsed, parse_show dotted_lawful (.first hparsed) rfl .remote _⟩

end Vastnfs.Nfs
