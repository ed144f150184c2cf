import Vastnfs.Sunrpc.Addr

/-!
# Transports

The part of `struct rpc_xprt` that the multipath, queueing and failover code reads and writes.
A transport is named by its pointer, so two transports with equal fields stay different, and the
memory they live in is a function from pointers to records.
-/

namespace Vastnfs.Sunrpc

/-- `enum rpc_xprt_role_t`. -/
inductive RpcXprtRole where
  | reg | md
  deriving DecidableEq

def uintMax : Nat := 2 ^ 32 - 1

/-- A `struct rpc_xprt *` that is not `NULL`. -/
abbrev XprtPtr := Nat

inductive XprtClass where
  | udp | tcp | unix | rdma
  deriving DecidableEq

/-- A `struct xprt_portusage *` that is not `NULL`. -/
abbrev UsagePtr := Nat

/-- `struct rpc_xprt`. The bits of `state` are fields of their own. -/
structure RpcXprt where
  kref : Nat := 1
  role : RpcXprtRole := .reg
  /-- `gpu_priority[]`, the route priority for each GPU. -/
  gpuPriority : Nat → Nat := fun _ => 0
  /-- `atomic_long_t queuelen`. -/
  queuelen : Int := 0
  remotePortIdx : Nat := 0
  /-- The first transport of its client. -/
  main : Bool := false
  (connected connecting offline remove nDiversion nRecovery : Bool := false)
  xprtClass : XprtClass := .tcp
  /-- The socket of a socket transport, `transport->inet`, is there. -/
  inet : Bool := false
  (closing closeWait : Bool := false)
  /-- `localport`, if `localport_len` is not zero. -/
  localport : Option SockAddr := none
  /-- `orig_localport`, if `orig_localport_len` is not zero. -/
  origLocalport : Option SockAddr := none
  localportUsage : Option UsagePtr := none
  /-- `localport_diversion`, which is `-1` without a diversion. -/
  localportDiversion : Option Nat := none
  reconnectionAttempts : Nat := 0

abbrev XprtHeap := XprtPtr → RpcXprt

def XprtHeap.modify (h : XprtHeap) (x : XprtPtr) (f : RpcXprt → RpcXprt) : XprtHeap :=
  fun y => if y = x then f (h y) else h y

@[simp] theorem XprtHeap.modify_same (h : XprtHeap) (x : XprtPtr) (f : RpcXprt → RpcXprt) :
    h.modify x f x = f (h x) := if_pos rfl

theorem XprtHeap.modify_other (h : XprtHeap) {x y : XprtPtr} (f : RpcXprt → RpcXprt) (hne : y ≠ x) :
    h.modify x f y = h y := if_neg hne

def XprtHeap.addRef (h : XprtHeap) (x : XprtPtr) : XprtHeap :=
  h.modify x fun r => { r with kref := r.kref + 1 }

theorem XprtHeap.addRef_apply (h : XprtHeap) (x y : XprtPtr) :
    h.addRef x y = { h y with kref := (h y).kref + if y = x then 1 else 0 } := by
  unfold addRef modify
  split <;> rfl

theorem XprtHeap.addRef_kref_ne_zero {h : XprtHeap} (x : XprtPtr) {y : XprtPtr} (hy : (h y).kref ≠ 0) :
    (h.addRef x y).kref ≠ 0 := by
  rw [addRef_apply]
  exact Nat.ne_of_gt (Nat.add_pos_left (Nat.pos_of_ne_zero hy) _)

def xprtGet (h : XprtHeap) (x : XprtPtr) : XprtHeap × Option XprtPtr :=
  if (h x).kref = 0 then (h, none) else (h.addRef x, some x)

theorem get_of_ne_zero {h : XprtHeap} {x : XprtPtr} (hk : (h x).kref ≠ 0) :
    xprtGet h x = (h.addRef x, some x) := if_neg hk

def xprtPut (h : XprtHeap) (x : XprtPtr) : XprtHeap :=
  h.modify x fun r => { r with kref := r.kref - 1 }

theorem put_apply (h : XprtHeap) (x y : XprtPtr) :
    xprtPut h x y = { h y with kref := (h y).kref - if y = x then 1 else 0 } := by
  unfold xprtPut XprtHeap.modify
  split <;> rfl

end Vastnfs.Sunrpc
