import Vastnfs.Sunrpc.Clnt
import Vastnfs.Sunrpc.Rotation

/-!
# Spreading the data requests of a file

`fs/nfs/pagelist.c` and `fs/nfs/write.c` give every data request a 16 bit word: a hash of the file
handle, or zero when the requests of a file are to be spread, with the data mark on top.
`rpc_task_try_xprt_selections` takes a word that is not zero for a request tied to one remote port.

* `firstConf_port`: on a client with remote ports every data request is tied to a port.
* `visitsEveryPort_of_one`: with one port successive requests visit every transport.
* `spreadsAsDocumented_iff`: so the spread options work just where there is nothing to spread over.
-/

namespace Vastnfs.Nfs

open Sunrpc Runs

/-! ## The hash of a request -/

abbrev NfsFh := List UInt8

def nfsMultipathHash (expr : Nat) : Nat := (expr % 2 ^ 16 &&& 0x3fff) + 1

/-- `FMODE_READ` and `FMODE_WRITE`. -/
inductive FMode where
  | read | write
  deriving DecidableEq

def spreadOption (clnt : RpcClnt) : FMode → Bool
  | .read => clnt.clSpreadReads
  | .write => clnt.clSpreadWrites

/-- A data request: a page request with the GPU its pages live on, or a commit. -/
inductive DataRequest where
  | pgio (mode : FMode) (gpuIdx : Option Nat) (moveable : Bool)
  | commit (moveable : Bool)
  deriving DecidableEq

def DataRequest.spread (clnt : RpcClnt) : DataRequest → Bool
  | .pgio mode _ _ => spreadOption clnt mode
  | .commit _ => false

section

-- the CRC of the bytes of a file handle
variable (nfsFhandleHash : NfsFh → Nat)

def nfsFhHashInodeData (fh : NfsFh) : Nat := nfsMultipathHash (nfsFhandleHash fh)

def nfsInitiatePgio (w : RpcWorld) (clnt : ClntPtr) (fh : NfsFh) (mode : FMode) (gpuIdx : Option Nat)
    (moveable : Bool) : RpcTaskSetup where
  rpcClient := some clnt
  multipathHash := (if spreadOption (w.clnts clnt) mode then 0 else nfsFhHashInodeData nfsFhandleHash fh) |||
    sunrpcMultipathDataHashMark
  gpuIdx := gpuIdx
  moveable := moveable

def nfsInitiateCommit (clnt : ClntPtr) (fh : NfsFh) (moveable : Bool) : RpcTaskSetup where
  rpcClient := some clnt
  multipathHash := nfsFhHashInodeData nfsFhandleHash fh ||| sunrpcMultipathDataHashMark
  moveable := moveable

def DataRequest.setup (w : RpcWorld) (clnt : ClntPtr) (fh : NfsFh) : DataRequest → RpcTaskSetup
  | .pgio mode gpuIdx moveable => nfsInitiatePgio nfsFhandleHash w clnt fh mode gpuIdx moveable
  | .commit moveable => nfsInitiateCommit nfsFhandleHash clnt fh moveable

/-- The conf with which `rpc_task_try_xprt_selections` first asks the switch for the request. -/
def firstConf (w : RpcWorld) (clnt : ClntPtr) (fh : NfsFh) (r : DataRequest) : IterConf :=
  rpcTaskConf w ((r.setup nfsFhandleHash w clnt fh).task none) clnt { flags := { skipUnconnected := true } }

end

/-! ## What the options promise -/

/-- The conf leaves the choice between all `nr` remote ports open. -/
def AdmitsEveryPort (conf : IterConf) (nr : Nat) : Prop :=
  ∀ p < nr, conf.flags.remotePortIdx = false ∨ conf.remotePortIdx = p

/-- Successive requests with the conf visit every transport it accepts on any port. -/
def VisitsEveryPort (w : RpcWorld) (clnt : ClntPtr) (conf : IterConf) : Prop :=
  (∀ x, (w.xprts x).queuelen = 0) →
    ∀ x ∈ eligible w.xprts conf.anyPort (w.switches (w.switchOf clnt)),
      ∃ n t, run (iterStep (w.switches (w.switchOf clnt)))
          { heap := w.xprts, cursor := (w.clnts clnt).xpiCursor } (List.replicate n (conf, 1)) = some t ∧
        (conf, x) ∈ t.picks

/-- Requests under a spread option are free to use every remote port, and all other data requests
of a file use one and the same. -/
structure SpreadsAsDocumented (nfsFhandleHash : NfsFh → Nat) (w : RpcWorld) (clnt : ClntPtr) (fh : NfsFh)
    (nr : Nat) : Prop where
  spread : ∀ r : DataRequest, r.spread (w.clnts clnt) = true →
    AdmitsEveryPort (firstConf nfsFhandleHash w clnt fh r) nr ∧
      VisitsEveryPort w clnt (firstConf nfsFhandleHash w clnt fh r)
  pinned : ∀ r r' : DataRequest, r.spread (w.clnts clnt) = false → r'.spread (w.clnts clnt) = false →
    (firstConf nfsFhandleHash w clnt fh r).flags.remotePortIdx = true ∧
      (firstConf nfsFhandleHash w clnt fh r).remotePortIdx =
        (firstConf nfsFhandleHash w clnt fh r').remotePortIdx

section

variable {nfsFhandleHash : NfsFh → Nat} {w : RpcWorld} {clnt : ClntPtr} {fh : NfsFh} {nr : Nat}

theorem setup_hash_ne_zero (r : DataRequest) : (r.setup nfsFhandleHash w clnt fh).multipathHash ≠ 0 := by
  have hmark : ∀ n : Nat, n ||| sunrpcMultipathDataHashMark ≠ 0 := fun n h =>
    absurd (Nat.or_eq_zero_iff.1 h).2 (by decide)
  cases r with
  | pgio mode gpuIdx moveable => exact hmark _
  | commit moveable => exact hmark _

theorem conf_ignoreCongestion (task : RpcTask) (conf : IterConf) :
    (rpcTaskConf w task clnt conf).flags.ignoreCongestion = conf.flags.ignoreCongestion := by
  have hgpu : (rpcTaskGpuConf w task clnt conf).flags.ignoreCongestion = conf.flags.ignoreCongestion := by
    unfold rpcTaskGpuConf
    split
    · rfl
    · split <;> rfl
  rw [rpcTaskConf, ← hgpu]
  unfold rpcTaskPortConf
  split
  · rfl
  · split <;> rfl

variable (nfsFhandleHash fh) in
/-- **On a client with remote ports every data request is tied to one of them.** -/
theorem firstConf_port (hports : (w.clnts clnt).clRemoteports = some nr) (hnr : 0 < nr) (r : DataRequest) :
    (firstConf nfsFhandleHash w clnt fh r).flags.remotePortIdx = true ∧
      (firstConf nfsFhandleHash w clnt fh r).remotePortIdx =
        ((r.setup nfsFhandleHash w clnt fh).multipathHash - 1) % nr % 2 ^ 8 := by
  have hhash : ((r.setup nfsFhandleHash w clnt fh).task none).tkMultipathHash ≠ 0 := setup_hash_ne_zero r
  simp only [firstConf, rpcTaskConf, rpcTaskPortConf, hports, if_pos (And.intro hhash hnr), true_and]
  rfl

theorem setup_hash_of_pinned {r : DataRequest} (hr : r.spread (w.clnts clnt) = false) :
    (r.setup nfsFhandleHash w clnt fh).multipathHash =
      nfsFhHashInodeData nfsFhandleHash fh ||| sunrpcMultipathDataHashMark := by
  cases r with
  | pgio mode gpuIdx moveable =>
    have hoff : spreadOption (w.clnts clnt) mode = false := hr
    simp [DataRequest.setup, nfsInitiatePgio, hoff]
  | commit moveable => rfl

theorem isActive_anyPort {xprt : RpcXprt} {conf : IterConf} (hidx : xprt.remotePortIdx = conf.remotePortIdx) :
    xprtIsActive xprt conf.anyPort = xprtIsActive xprt conf := by
  simp [xprtIsActive, IterConf.anyPort, hidx]

theorem admitsEveryPort_iff (hports : (w.clnts clnt).clRemoteports = some nr) (hnr : 0 < nr) (r : DataRequest) :
    AdmitsEveryPort (firstConf nfsFhandleHash w clnt fh r) nr ↔ nr ≤ 1 := by
  obtain ⟨hflag, hidx⟩ := firstConf_port nfsFhandleHash fh hports hnr r
  constructor
  · intro hall
    by_contra hle
    have h₀ := (hall 0 hnr).resolve_left (by simp [hflag])
    have h₁ := (hall 1 (by omega)).resolve_left (by simp [hflag])
    omega
  · intro hle p hp
    obtain rfl : nr = 1 := by omega
    obtain rfl : p = 0 := by omega
    rw [hidx, Nat.mod_one]
    exact Or.inr rfl

theorem visitsEveryPort_of_one (hinv : SwitchInv w.xprts (w.switches (w.switchOf clnt)))
    (hops : (w.switches (w.switchOf clnt)).xpsIterOps = .roundrobin)
    (hports : (w.clnts clnt).clRemoteports = some 1)
    (hidx : ∀ x ∈ (w.switches (w.switchOf clnt)).xpsXprtList, (w.xprts x).remotePortIdx < 1) (r : DataRequest) :
    VisitsEveryPort w clnt (firstConf nfsFhandleHash w clnt fh r) := by
  intro hidle x hx
  obtain ⟨hflag, hconf⟩ := firstConf_port nfsFhandleHash fh hports Nat.one_pos r
  rw [Nat.mod_one] at hconf
  obtain ⟨hmem, hact⟩ := mem_eligible.1 hx
  have hmem' : x ∈ (w.switches (w.switchOf clnt)).xpsXprtList := hmem
  have hport : (w.xprts x).remotePortIdx = (firstConf nfsFhandleHash w clnt fh r).remotePortIdx := by
    rw [hconf]
    exact Nat.lt_one_iff.1 (hidx x hmem')
  rw [isActive_anyPort hport] at hact
  have hlist : x ∈ (w.switches (w.switchOf clnt)).listByConf (firstConf nfsFhandleHash w clnt fh r) := by
    rw [RpcXprtSwitch.listByConf, if_pos hflag, hinv.byPort, List.mem_filter]
    exact ⟨hmem', by simp [hport]⟩
  exact successive_calls_visit (s := { heap := w.xprts, cursor := (w.clnts clnt).xpiCursor }) hops
    (conf_ignoreCongestion _ _) hinv hidle (mem_eligible.2 ⟨hlist, hact⟩)

/-- **The spread options.**  On a client with remote ports they do what they promise just when none
is set or there is only one port. -/
theorem spreadsAsDocumented_iff (nfsFhandleHash : NfsFh → Nat) (w : RpcWorld) (clnt : ClntPtr) (fh : NfsFh)
    (nr : Nat) (hinv : SwitchInv w.xprts (w.switches (w.switchOf clnt)))
    (hops : (w.switches (w.switchOf clnt)).xpsIterOps = .roundrobin)
    (hports : (w.clnts clnt).clRemoteports = some nr) (hnr : 0 < nr)
    (hidx : ∀ x ∈ (w.switches (w.switchOf clnt)).xpsXprtList, (w.xprts x).remotePortIdx < nr) :
    SpreadsAsDocumented nfsFhandleHash w clnt fh nr ↔
      ((w.clnts clnt).clSpreadReads = false ∧ (w.clnts clnt).clSpreadWrites = false) ∨ nr ≤ 1 := by
  constructor
  · intro hdoc
    by_cases hle : nr ≤ 1
    · exact Or.inr hle
    have hoff : ∀ mode, spreadOption (w.clnts clnt) mode = false := by
      intro mode
      by_contra hon
      have hr : DataRequest.spread (w.clnts clnt) (.pgio mode none false) = true :=
        Bool.eq_true_of_not_eq_false hon
      exact hle ((admitsEveryPort_iff hports hnr _).1 (hdoc.spread _ hr).1)
    exact Or.inl ⟨hoff .read, hoff .write⟩
  · intro hcond
    refine ⟨fun r hr => ?_, fun r r' hr hr' => ?_⟩
    · have hle : nr ≤ 1 := by
        refine hcond.resolve_left fun hoff => ?_
        cases r with
        | pgio mode gpuIdx moveable =>
          cases mode with
          | read => exact Bool.false_ne_true (hoff.1.symm.trans hr)
          | write => exact Bool.false_ne_true (hoff.2.symm.trans hr)
        | commit moveable => cases hr
      obtain rfl : nr = 1 := by omega
      exact ⟨(admitsEveryPort_iff hports hnr r).2 le_rfl, visitsEveryPort_of_one hinv hops hports hidx r⟩
    · obtain ⟨hflag, hconf⟩ := firstConf_port nfsFhandleHash fh hports hnr r
      obtain ⟨-, hconf'⟩ := firstConf_port nfsFhandleHash fh hports hnr r'
      rw [setup_hash_of_pinned hr] at hconf
      rw [setup_hash_of_pinned hr'] at hconf'
      exact ⟨hflag, hconf.trans hconf'.symm⟩

end

def spreadWorld (spreadReads : Bool) : RpcWorld where
  xprts := fun x => { main := x == 0, connected := true, remotePortIdx := x }
  switches := fun _ =>
    { xpsNxprts := 2
      xpsNactive := 2
      xpsXprtList := [0, 1]
      xpsRemoteportXprtList := fun i => if i = 0 then [0] else if i = 1 then [1] else []
      xpsIterOps := .roundrobin }
  clnts := fun _ => { clRemoteports := some 2, clSpreadReads := spreadReads }
  tasks := fun _ => {}
  live := ∅

theorem spreadWorld_inv (b : Bool) :
    SwitchInv (spreadWorld b).xprts ((spreadWorld b).switches ((spreadWorld b).switchOf 0)) where
  nodup := by decide +revert
  referenced := by decide +revert
  byPort := fun i => by
    by_cases h₀ : i = 0
    · simp [spreadWorld, h₀]
    by_cases h₁ : i = 1
    · simp [spreadWorld, h₁]
    · simp [spreadWorld, h₀, h₁, Ne.symm h₀, Ne.symm h₁]
  nxprts := rfl

theorem spreadsAsDocumented_iff_spreadWorld :
    SpreadsAsDocumented (fun _ => 0) (spreadWorld false) 0 [] 2 ↔
      (((spreadWorld false).clnts 0).clSpreadReads = false ∧ ((spreadWorld false).clnts 0).clSpreadWrites = false) ∨
        2 ≤ 1 :=
  spreadsAsDocumented_iff (fun _ => 0) (spreadWorld false) 0 [] 2 (spreadWorld_inv false) rfl rfl (by decide)
    (by decide)

/-- With `spread_reads` set the reads of a file all go to port 1, and transport 0 stays idle. -/
theorem spread_reads_stay_on_one_port :
    ((spreadWorld true).clnts 0).clSpreadReads = true ∧
      (firstConf (fun _ => 0) (spreadWorld true) 0 [] (.pgio .read none false)).flags.remotePortIdx = true ∧
      (firstConf (fun _ => 0) (spreadWorld true) 0 [] (.pgio .read none false)).remotePortIdx = 1 ∧
      ¬ SpreadsAsDocumented (fun _ => 0) (spreadWorld true) 0 [] 2 := by
  refine ⟨rfl, by decide, by decide, fun hdoc => ?_⟩
  have hall := (hdoc.spread (.pgio .read none false) rfl).1
  have hle := (admitsEveryPort_iff rfl (by decide) _).1 hall
  omega

end Vastnfs.Nfs
