import Mathlib.Data.Fintype.BigOperators
import Vastnfs.Lib.Runs
import Vastnfs.Lib.SearchTrees
import Vastnfs.Sunrpc.Xids

/-!
# The duplicate reply cache

`fs/nfsd/nfscache.c`: requests that are not idempotent are looked up by XID, checksum and address before they are
executed. A bucket of the cache has its entries in a red-black tree by key and in a list by time of use. An entry is
in progress until the request that inserted it is answered; then it holds the answer.

* `nfsdCacheLookup`, `nfsdCacheUpdate`, `pruneBucket`: the functions of the source; `rcStep` interleaves them.
* `RcInv`: the buckets, the counter, and the requests that hold entries in progress.
* `EntryStep`, `RcInv.step`: what a step can do to one entry.
* `answeredBy_of_run`: every answer in the cache was given by an update.
* `replyCache_atMostOnce`: the cache in every run.
-/

namespace Vastnfs.Nfsd

open Runs SearchTrees Sunrpc Option Function

/-! ## Entries -/

/-- A 32-bit field as it stands in memory. -/
abbrev Field := Vector (BitVec 8) 4

@[ext] structure CKey where
  (xid csum proc prot vers len : Field)
  addr : Vector (BitVec 8) 28
deriving DecidableEq

/-- `IPPROTO_MAX`, the protocol of requests over RDMA. -/
def ipprotoMax : Field := ⟨#[7, 1, 0, 0], rfl⟩

/-- `AF_INET` and `AF_INET6`, whose ports stand at one place. -/
def svcPortIsPrivileged (sin : Vector (BitVec 8) 28) : Bool :=
  (sin[0] = 2 || sin[0] = 10) && sin[1] = 0 && sin[2].toNat * 256 + sin[3].toNat < 1024

/-- `RQ_SECURE`, as `xpo_secure_port` sets it: a request's key has its protocol and its address. -/
def CKey.secure (k : CKey) : Bool := k.prot = ipprotoMax || svcPortIsPrivileged k.addr

/-- The bytes `memcmp` compares. -/
def CKey.image (k : CKey) : List Nat :=
  (k.xid.toList ++ (k.csum.toList ++ (k.proc.toList ++ (k.prot.toList ++ (k.vers.toList ++ (k.len.toList ++
    k.addr.toList)))))).map BitVec.toNat

inductive RcState
  | unused | inprog | done
deriving DecidableEq

inductive RcType
  | nocache | replstat | replbuff
deriving DecidableEq

inductive RcRtn
  | dropit | reply | doit
deriving DecidableEq

/-- `struct svc_cacherep`; `u` is the status or the bytes behind `c_replvec`. -/
structure SvcCacherep where
  key : CKey
  state : RcState := .unused
  type : RcType := .nocache
  secure : Bool := false
  timestamp : BitVec 64 := 0
  u : List (BitVec 8) := []
deriving DecidableEq

/-- `struct nfsd_drc_bucket`, over the addresses of the entries. -/
structure DrcBucket where
  rbHead : BinaryTree Nat := .nil
  lruHead : List Nat := []

/-- What `struct nfsd_net` says about the cache; `hash` is `nfsd_cache_hash`. -/
structure RcNet (n : Nat) where
  hash : Field → Fin n
  maxDrcEntries : Nat
  rcExpire : BitVec 64

/-- Where a `struct svc_rqst` is: before its lookup, executed with its `rq_cacherep`, or in `nfsd_cache_update` before
the lock is taken. -/
inductive RqPhase
  | idle
  | doing (rp : Option Nat)
  | storing (rp : Nat) (type : RcType)
deriving DecidableEq

structure Drc (n : Nat) where
  mem : Nat → Option SvcCacherep
  buckets : Fin n → DrcBucket
  numDrcEntries : Int
  rqst : Nat → RqPhase

def Drc.init (n : Nat) : Drc n := ⟨fun _ => none, fun _ => {}, 0, fun _ => .idle⟩

/-! ## The functions -/

section

variable {n : Nat} (net : RcNet n) (rb : RbOps)

def keyIn (mem : Nat → Option SvcCacherep) (rp : Nat) : List Nat := ((mem rp).map (·.key.image)).getD []

@[simps -fullyApplied mem buckets numDrcEntries]
def Drc.setMem (s : Drc n) (rp : Nat) (e : Option SvcCacherep) : Drc n := { s with mem := Function.update s.mem rp e }

@[simps -fullyApplied mem buckets numDrcEntries]
def Drc.setBucket (s : Drc n) (b : Fin n) (bucket : DrcBucket) : Drc n :=
  { s with buckets := Function.update s.buckets b bucket }

@[simps -fullyApplied rqst]
def Drc.setRqst (s : Drc n) (r : Nat) (phase : RqPhase) : Drc n := { s with rqst := Function.update s.rqst r phase }

def lruPutEnd (s : Drc n) (b : Fin n) (rp : Nat) (now : BitVec 64) : Drc n :=
  (s.setMem rp ((s.mem rp).map fun e => { e with timestamp := now })).setBucket b
    { s.buckets b with lruHead := (s.buckets b).lruHead.erase rp ++ [rp] }

def nfsdReplyCacheFreeLocked (s : Drc n) (b : Fin n) (rp : Nat) : Drc n :=
  let s :=
    if (s.mem rp).any (·.state ≠ .unused) then
      { s.setBucket b ⟨rb.erase (s.buckets b).rbHead rp, (s.buckets b).lruHead.erase rp⟩ with
        numDrcEntries := s.numDrcEntries - 1 }
    else s
  s.setMem rp none

def timeBefore (a b : BitVec 64) : Bool := (a - b).slt 0

/-- `prune_bucket`, from some place in the list on. -/
def pruneBucket (b : Fin n) (now : BitVec 64) : List Nat → Drc n → Drc n
  | [], s => s
  | rp :: rest, s =>
    match s.mem rp with
    | none => pruneBucket b now rest s
    | some e =>
      if e.state = .inprog then pruneBucket b now rest s
      else if s.numDrcEntries ≤ net.maxDrcEntries ∧ timeBefore now (e.timestamp + net.rcExpire) = true then s
      else pruneBucket b now rest (nfsdReplyCacheFreeLocked rb s b rp)

/-- The entry with the key, or the new one. -/
def nfsdCacheInsert (s : Drc n) (b : Fin n) (key : Nat) (now : BitVec 64) : Drc n × Nat :=
  match find (keyIn s.mem) (keyIn s.mem key) (s.buckets b).rbHead with
  | some rp => (lruPutEnd s b rp now, rp)
  | none =>
    let root := (insert (keyIn s.mem) key (s.buckets b).rbHead).getD (s.buckets b).rbHead
    (lruPutEnd (s.setBucket b { s.buckets b with rbHead := rb.insertColor root }) b key now, key)

/-- What a lookup reads of a request: its key, `rq_cachetype`, and the head of its reply so far. That is an RPC header,
which leaves room for the largest answer that is kept. -/
structure RcCall where
  key : CKey
  cachetype : RcType
  head : List (BitVec 8)
  fits : head.length + 256 ≤ 4096

/-- What a lookup returns, whether it missed, and the head of the reply behind it. -/
structure RcAnswer where
  rtn : RcRtn
  missed : Bool := false
  rqCacherep : Option Nat := none
  head : List (BitVec 8)
deriving DecidableEq

/-- Nothing if the page is too small. -/
def nfsdCacheAppend (head data : List (BitVec 8)) : Option (List (BitVec 8)) :=
  if 4096 < head.length + data.length then none else some (head ++ data)

/-- `nfsd_cache_lookup` from `found_entry` on. -/
def foundEntry (call : RcCall) (rp : SvcCacherep) : RcAnswer :=
  if rp.state = .inprog then ⟨.dropit, false, none, call.head⟩
  else if call.key.secure = false ∧ rp.secure = true then ⟨.doit, false, none, call.head⟩
  else match rp.type with
    | .nocache => ⟨.doit, false, none, call.head⟩
    | .replstat => ⟨.reply, false, none, call.head ++ rp.u⟩
    | .replbuff =>
      match nfsdCacheAppend call.head rp.u with
      | none => ⟨.doit, false, none, call.head⟩
      | some head => ⟨.reply, false, none, head⟩

/-- `alloc` is what `nfsd_reply_cache_alloc` gets. -/
def nfsdCacheLookup (s : Drc n) (call : RcCall) (alloc : Option Nat) (now : BitVec 64) : Drc n × RcAnswer :=
  let b := net.hash call.key.xid
  if call.cachetype = .nocache then (s, ⟨.doit, false, none, call.head⟩)
  else match alloc with
    | none => (s, ⟨.doit, false, none, call.head⟩)
    | some rp =>
      let (s, found) := nfsdCacheInsert rb (s.setMem rp (some { key := call.key })) b rp now
      if found ≠ rp then
        (nfsdReplyCacheFreeLocked rb s b rp, foundEntry call ((s.mem found).getD { key := call.key }))
      else
        let s := { s.setMem rp ((s.mem rp).map fun e => { e with state := .inprog }) with
          numDrcEntries := s.numDrcEntries + 1 }
        (pruneBucket net rb b now (s.buckets b).lruHead s, ⟨.doit, true, some rp, call.head⟩)

/-- A finished reply: the memory from `statp` on, and how much of it belongs to the head of the reply. -/
structure RcReply where
  statp : List (BitVec 8)
  len : Int

def RcReply.words (reply : RcReply) : Int := reply.len / 4

/-- The bytes `nfsd_cache_update` keeps of a reply; `kmalloc` says whether there is memory. -/
def RcReply.kept (reply : RcReply) (cachetype : RcType) (kmalloc : Bool) : Option (List (BitVec 8)) :=
  if 256 / 4 < reply.words then none
  else match cachetype with
    | .nocache => none
    | .replstat => some (reply.statp.take 4)
    | .replbuff =>
      if kmalloc = true ∧ 0 ≤ reply.words then some (reply.statp.take (reply.words.toNat * 4)) else none

/-- `nfsd_cache_update` up to where it takes the lock to complete the entry, with the ways out that free it. -/
def nfsdCacheUpdate (s : Drc n) (r : Nat) (cachetype : RcType) (statp : Option RcReply) (kmalloc : Bool) :
    Option (Drc n) :=
  match s.rqst r with
  | .doing none => some (s.setRqst r .idle)
  | .doing (some rp) =>
    match s.mem rp with
    | none => none
    | some e =>
      match statp.bind (·.kept cachetype kmalloc) with
      | some u => some ((s.setMem rp (some { e with u := u })).setRqst r (.storing rp cachetype))
      | none => some ((nfsdReplyCacheFreeLocked rb s (net.hash e.key.xid) rp).setRqst r .idle)
  | _ => none

/-- The locked end of `nfsd_cache_update`. -/
def nfsdCacheFinish (s : Drc n) (r : Nat) (now : BitVec 64) : Option (Drc n) :=
  match s.rqst r with
  | .storing rp type =>
    match s.mem rp with
    | none => none
    | some e =>
      let s := lruPutEnd s (net.hash e.key.xid) rp now
      some ((s.setMem rp ((s.mem rp).map fun e => { e with secure := e.key.secure, type := type, state := .done })).setRqst r
        .idle)
  | _ => none

/-- What can happen, each under the lock of one bucket: a lookup, an update and its end, and the pruning of a bucket. -/
inductive RcEvent (n : Nat)
  | lookup (r : Nat) (call : RcCall) (alloc : Option Nat) (now : BitVec 64) (rb : RbOps)
  | update (r : Nat) (cachetype : RcType) (statp : Option RcReply) (kmalloc : Bool) (rb : RbOps)
  | finish (r : Nat) (now : BitVec 64)
  | prune (b : Fin n) (now : BitVec 64) (rb : RbOps)

/-- One step. A request is looked up once before it is executed, and new entries get free memory. -/
def rcStep (s : Drc n) : RcEvent n → Option (Drc n)
  | .lookup r call alloc now rb =>
    if s.rqst r = .idle ∧ alloc.all (fun rp => (s.mem rp).isNone) = true then
      let (t, answer) := nfsdCacheLookup net rb s call alloc now
      some (t.setRqst r (if answer.rtn = .doit then .doing answer.rqCacherep else .idle))
    else none
  | .update r cachetype statp kmalloc rb => nfsdCacheUpdate net rb s r cachetype statp kmalloc
  | .finish r now => nfsdCacheFinish net s r now
  | .prune b now rb => some (pruneBucket net rb b now (s.buckets b).lruHead s)

end

/-! ## The buckets and the counter -/

theorem CKey.image_inj {k k' : CKey} (h : k.image = k'.image) : k = k' := by
  have hbytes := (List.map_inj_right fun _ _ => BitVec.eq_of_toNat_eq).1 h
  have hvec : ∀ {m : Nat} {v v' : Vector (BitVec 8) m} {l l' : List (BitVec 8)}, v.toList ++ l = v'.toList ++ l' →
      v = v' ∧ l = l' := by
    intro m v v' l l' happ
    obtain ⟨hv, hl⟩ := List.append_inj happ (by simp)
    exact ⟨Vector.toList_inj.1 hv, hl⟩
  obtain ⟨hxid, h⟩ := hvec hbytes
  obtain ⟨hcsum, h⟩ := hvec h
  obtain ⟨hproc, h⟩ := hvec h
  obtain ⟨hprot, h⟩ := hvec h
  obtain ⟨hvers, h⟩ := hvec h
  obtain ⟨hlen, h⟩ := hvec h
  exact CKey.ext hxid hcsum hproc hprot hvers hlen (Vector.toList_inj.1 h)

theorem update_eq_iff {α β : Type} [DecidableEq α] {f : α → β} {a b : α} {x y : β} :
    update f a x b = y ↔ b = a ∧ x = y ∨ b ≠ a ∧ f b = y := by
  rw [update_apply, ite_eq_iff]

section

variable {n : Nat} {net : RcNet n} {mem : Nat → Option SvcCacherep} {b : Fin n} {bucket : DrcBucket} {rp : Nat}
  {e e' : SvcCacherep} {x : Option SvcCacherep}

theorem keyIn_eq (hmem : mem rp = some e) : keyIn mem rp = e.key.image := by
  rw [keyIn, hmem]
  rfl

theorem keyIn_update_of_ne {rp' : Nat} (hne : rp' ≠ rp) : keyIn (update mem rp x) rp' = keyIn mem rp' := by
  rw [keyIn, update_of_ne hne, keyIn]

/-- A bucket has the entries of its hash value, by key and by time. -/
structure BucketInv (net : RcNet n) (mem : Nat → Option SvcCacherep) (b : Fin n) (bucket : DrcBucket) : Prop where
  same : (toList bucket.rbHead).Perm bucket.lruHead
  sorted : Sorted (keyIn mem) bucket.rbHead
  listed : ∀ rp, rp ∈ bucket.lruHead ↔ ∃ e, mem rp = some e ∧ net.hash e.key.xid = b

section

variable (h : BucketInv net mem b bucket)
include h

theorem BucketInv.mem_tree : rp ∈ toList bucket.rbHead ↔ ∃ e, mem rp = some e ∧ net.hash e.key.xid = b :=
  h.same.mem_iff.trans (h.listed rp)

theorem BucketInv.frame (hold : ∀ e ∈ mem rp, net.hash e.key.xid ≠ b) (hnew : ∀ e ∈ x, net.hash e.key.xid ≠ b) :
    BucketInv net (update mem rp x) b bucket where
  same := h.same
  sorted := by
    refine h.sorted.congr fun rp' hrp' => keyIn_update_of_ne ?_
    rintro rfl
    obtain ⟨e, hmem, hb⟩ := h.mem_tree.1 hrp'
    exact hold e hmem hb
  listed rp' := by
    rw [h.listed]
    by_cases heq : rp' = rp
    · subst heq
      rw [update_self]
      exact ⟨fun ⟨e, hmem, hb⟩ => absurd hb (hold e hmem), fun ⟨e, hmem, hb⟩ => absurd hb (hnew e hmem)⟩
    · rw [update_of_ne heq]

theorem BucketInv.rewrite (hmem : mem rp = some e) (hkey : e'.key = e.key) :
    BucketInv net (update mem rp (some e')) b bucket where
  same := h.same
  sorted := by
    refine h.sorted.congr fun rp' _ => ?_
    by_cases heq : rp' = rp
    · subst heq
      rw [keyIn_eq hmem, keyIn_eq (update_self ..), hkey]
    · exact keyIn_update_of_ne heq
  listed rp' := by
    rw [h.listed]
    by_cases heq : rp' = rp
    · subst heq
      simp [hmem, hkey]
    · rw [update_of_ne heq]

theorem BucketInv.putEnd (hin : rp ∈ bucket.lruHead) :
    BucketInv net mem b { bucket with lruHead := bucket.lruHead.erase rp ++ [rp] } := by
  have hperm : (bucket.lruHead.erase rp ++ [rp]).Perm bucket.lruHead :=
    (List.perm_append_singleton rp _).trans (List.perm_cons_erase hin).symm
  exact ⟨h.same.trans hperm.symm, h.sorted, fun rp' => hperm.mem_iff.trans (h.listed rp')⟩

theorem BucketInv.erase (rb : RbOps) (hin : rp ∈ bucket.lruHead) :
    BucketInv net (update mem rp none) b ⟨rb.erase bucket.rbHead rp, bucket.lruHead.erase rp⟩ := by
  have htree := rb.toList_erase _ _ (h.same.mem_iff.2 hin)
  have hnodup := h.sorted.nodup
  constructor
  · rw [htree]
    exact h.same.erase rp
  · have hsub : Sorted (keyIn mem) (rb.erase bucket.rbHead rp) := by
      rw [Sorted, htree]
      exact List.Pairwise.sublist List.erase_sublist h.sorted
    refine hsub.congr fun rp' hrp' => keyIn_update_of_ne ?_
    rw [htree] at hrp'
    exact (hnodup.mem_erase_iff.1 hrp').1
  · intro rp'
    rw [(h.same.nodup_iff.1 hnodup).mem_erase_iff, h.listed]
    by_cases heq : rp' = rp
    · subst heq
      simp
    · simp [heq]

theorem BucketInv.insert (rb : RbOps) (hfree : mem rp = none) (hkey : ∀ rp' e', mem rp' = some e' → e'.key ≠ e.key)
    (hb : net.hash e.key.xid = b) :
    ∃ root, insert (keyIn (update mem rp (some e))) rp bucket.rbHead = some root ∧
      BucketInv net (update mem rp (some e)) b ⟨rb.insertColor root, bucket.lruHead.erase rp ++ [rp]⟩ := by
  have hold : ∀ rp' ∈ toList bucket.rbHead, rp' ≠ rp := by
    rintro rp' hrp' rfl
    obtain ⟨e', hmem, -⟩ := h.mem_tree.1 hrp'
    rw [hfree] at hmem
    cases hmem
  have hsorted : Sorted (keyIn (update mem rp (some e))) bucket.rbHead :=
    h.sorted.congr fun rp' hrp' => keyIn_update_of_ne (hold rp' hrp')
  cases hroot : SearchTrees.insert (keyIn (update mem rp (some e))) rp bucket.rbHead with
  | none =>
    obtain ⟨rp', hrp', heq⟩ := exists_of_insert_eq_none hroot
    obtain ⟨e', hmem, -⟩ := h.mem_tree.1 hrp'
    rw [keyIn_update_of_ne (hold rp' hrp'), keyIn_eq hmem, keyIn_eq (update_self ..)] at heq
    exact absurd (CKey.image_inj heq) (hkey rp' e' hmem)
  | some root =>
    obtain ⟨hsorted', hmem'⟩ := insert_eq_some hsorted hroot
    have hnew : rp ∉ bucket.lruHead := fun hin => hold rp (h.same.mem_iff.2 hin) rfl
    refine ⟨root, rfl, ?_, ?_, fun rp' => ?_⟩
    · rw [rb.toList_insertColor, List.erase_of_not_mem hnew]
      refine (List.perm_ext_iff_of_nodup hsorted'.nodup ?_).2 fun rp' => ?_
      · exact (List.perm_append_singleton rp _).nodup_iff.2 (List.nodup_cons.2 ⟨hnew, h.same.nodup_iff.1 h.sorted.nodup⟩)
      · rw [hmem', h.same.mem_iff]
        simp [or_comm]
    · rw [Sorted, rb.toList_insertColor]
      exact hsorted'
    · simp only [List.erase_of_not_mem hnew, List.mem_append, List.mem_singleton, h.listed]
      by_cases heq : rp' = rp
      · subst heq
        simp [hb]
      · simp [heq]

end

end

section

variable {n : Nat} {x : Option SvcCacherep}

def Drc.total (s : Drc n) : Int := ∑ b, ((s.buckets b).lruHead.length : Int)

theorem Drc.total_setBucket (s : Drc n) (b : Fin n) (bucket : DrcBucket) :
    (s.setBucket b bucket).total = s.total - (s.buckets b).lruHead.length + bucket.lruHead.length := by
  have hrest : ∀ c ∈ (Finset.univ.erase b), (((s.setBucket b bucket).buckets c).lruHead.length : Int) =
      (s.buckets c).lruHead.length := by
    intro c hc
    rw [Drc.setBucket_buckets, update_of_ne (Finset.ne_of_mem_erase hc)]
  rw [Drc.total, Drc.total, ← Finset.add_sum_erase _ _ (Finset.mem_univ b), Finset.sum_congr rfl hrest,
    ← Finset.add_sum_erase _ (fun b => ((s.buckets b).lruHead.length : Int)) (Finset.mem_univ b), Drc.setBucket_buckets,
    update_self]
  omega

theorem Drc.total_add {s : Drc n} {b : Fin n} {bucket : DrcBucket} {d : Int}
    (hlen : (bucket.lruHead.length : Int) = (s.buckets b).lruHead.length + d) :
    s.total + d = (s.setBucket b bucket).total := by
  rw [Drc.total_setBucket]
  omega

/-- The buckets hold the entries in memory, and the counter counts them. -/
structure CacheInv (net : RcNet n) (s : Drc n) : Prop where
  buckets : ∀ b, BucketInv net s.mem b (s.buckets b)
  used : ∀ rp e, s.mem rp = some e → e.state ≠ .unused
  count : s.numDrcEntries = s.total

variable {net : RcNet n} {rb : RbOps} {s : Drc n} {b : Fin n} {rp : Nat} {e e' : SvcCacherep} {now : BitVec 64}

theorem cacheInv_init (net : RcNet n) : CacheInv net (Drc.init n) where
  buckets _ := ⟨List.Perm.refl _, List.Pairwise.nil, fun _ => ⟨nofun, nofun⟩⟩
  used := nofun
  count := by simp [Drc.init, Drc.total]

theorem CacheInv.in_lru (h : CacheInv net s) (hmem : s.mem rp = some e) :
    rp ∈ (s.buckets (net.hash e.key.xid)).lruHead :=
  ((h.buckets _).listed rp).2 ⟨e, hmem, rfl⟩

theorem CacheInv.eq_of_key {rp' : Nat} (h : CacheInv net s) (hmem : s.mem rp = some e) (hmem' : s.mem rp' = some e')
    (hkey : e.key = e'.key) : rp = rp' := by
  have hb := h.buckets (net.hash e.key.xid)
  exact hb.sorted.eq_of_key (hb.mem_tree.2 ⟨e, hmem, rfl⟩) (hb.mem_tree.2 ⟨e', hmem', by rw [hkey]⟩)
    (by rw [keyIn_eq hmem, keyIn_eq hmem', hkey])

theorem used_update {mem : Nat → Option SvcCacherep} (h : ∀ rp e, mem rp = some e → e.state ≠ .unused)
    (hx : ∀ e, x = some e → e.state ≠ .unused) : ∀ rp' e, update mem rp x rp' = some e → e.state ≠ .unused :=
  (forall_update_iff mem fun _ x => ∀ e, x = some e → e.state ≠ .unused).2 ⟨hx, fun rp' _ => h rp'⟩

theorem CacheInv.setMem (h : CacheInv net s) (hmem : s.mem rp = some e) (hkey : e'.key = e.key)
    (hused : e'.state ≠ .unused) : CacheInv net (s.setMem rp (some e')) where
  buckets b := (h.buckets b).rewrite hmem hkey
  used := used_update h.used (by simpa using hused)
  count := h.count

theorem lruPutEnd_eq (hmem : s.mem rp = some e) : lruPutEnd s b rp now =
    (s.setMem rp (some { e with timestamp := now })).setBucket b
      { s.buckets b with lruHead := (s.buckets b).lruHead.erase rp ++ [rp] } := by
  rw [lruPutEnd, hmem]
  rfl

section

variable (h : CacheInv net s) (hmem : s.mem rp = some e)
include h hmem

theorem CacheInv.lruPutEnd : CacheInv net (lruPutEnd s (net.hash e.key.xid) rp now) := by
  rw [lruPutEnd_eq hmem]
  have hset : CacheInv net (s.setMem rp (some { e with timestamp := now })) := h.setMem hmem rfl (h.used rp e hmem)
  refine ⟨(forall_update_iff s.buckets _).2 ⟨?_, fun b _ => hset.buckets b⟩, hset.used, ?_⟩
  · exact (hset.buckets _).putEnd (h.in_lru hmem)
  · refine hset.count.trans ((Int.add_zero _).symm.trans (Drc.total_add ?_))
    rw [List.length_append, Drc.setMem_buckets, ← List.length_erase_add_one (h.in_lru hmem)]
    rfl

theorem replyCacheFreeLocked_eq :
    nfsdReplyCacheFreeLocked rb s b rp =
      { (s.setMem rp none).setBucket b ⟨rb.erase (s.buckets b).rbHead rp, (s.buckets b).lruHead.erase rp⟩ with
        numDrcEntries := s.numDrcEntries - 1 } := by
  have hused : (s.mem rp).any (·.state ≠ .unused) = true := by
    rw [hmem]
    simpa using h.used rp e hmem
  rw [nfsdReplyCacheFreeLocked, if_pos hused]
  rfl

theorem CacheInv.free : CacheInv net (nfsdReplyCacheFreeLocked rb s (net.hash e.key.xid) rp) := by
  rw [replyCacheFreeLocked_eq h hmem]
  refine ⟨(forall_update_iff s.buckets _).2 ⟨(h.buckets _).erase rb (h.in_lru hmem), fun b hne => ?_⟩,
    used_update h.used nofun, ?_⟩
  · refine (h.buckets b).frame (fun e₁ h₁ hb => hne ?_) nofun
    rw [hmem] at h₁
    cases h₁
    exact hb.symm
  · refine (congrArg (· + -1) h.count).trans (Drc.total_add (s := s.setMem rp none) ?_)
    rw [Drc.setMem_buckets, ← List.length_erase_add_one (h.in_lru hmem)]
    dsimp only
    omega

end

/-- What pruning leaves: entries go that are done. -/
structure Pruned (s t : Drc n) : Prop where
  rqst : t.rqst = s.rqst
  mem : ∀ rp, t.mem rp = s.mem rp ∨ ∃ e, s.mem rp = some e ∧ e.state = .done ∧ t.mem rp = none

theorem Pruned.refl (s : Drc n) : Pruned s s := ⟨rfl, fun _ => .inl rfl⟩

theorem Pruned.trans {t v : Drc n} (h : Pruned s t) (h' : Pruned t v) : Pruned s v := by
  refine ⟨h'.rqst.trans h.rqst, fun rp => ?_⟩
  obtain hsame | ⟨e, hmem, hdone, hnone⟩ := h'.mem rp
  · rw [hsame]
    exact h.mem rp
  obtain hsame | ⟨e', -, -, hgone⟩ := h.mem rp
  · exact .inr ⟨e, hsame ▸ hmem, hdone, hnone⟩
  · rw [hgone] at hmem
    cases hmem

theorem mem_replyCacheFreeLocked (s : Drc n) (b : Fin n) (rp : Nat) :
    (nfsdReplyCacheFreeLocked rb s b rp).mem = update s.mem rp none := by
  unfold nfsdReplyCacheFreeLocked
  split <;> rfl

theorem rqst_replyCacheFreeLocked (s : Drc n) (b : Fin n) (rp : Nat) :
    (nfsdReplyCacheFreeLocked rb s b rp).rqst = s.rqst := by
  unfold nfsdReplyCacheFreeLocked
  split <;> rfl

/-- **Pruning** keeps the cache, and frees entries that are done. -/
theorem pruneBucket_spec {l : List Nat} (h : CacheInv net s)
    (hl : ∀ rp ∈ l, ∀ e, s.mem rp = some e → net.hash e.key.xid = b) :
    CacheInv net (pruneBucket net rb b now l s) ∧ Pruned s (pruneBucket net rb b now l s) := by
  induction l generalizing s with
  | nil => exact ⟨h, Pruned.refl s⟩
  | cons rp l ih =>
    obtain ⟨hrp, hl⟩ := List.forall_mem_cons.1 hl
    rw [pruneBucket]
    cases hmem : s.mem rp with
    | none => exact ih h hl
    | some e =>
      dsimp only
      split
      · exact ih h hl
      rename_i hinprog
      split
      · exact ⟨h, Pruned.refl s⟩
      have hdone : e.state = .done := by
        cases hstate : e.state with
        | unused => exact absurd hstate (h.used rp e hmem)
        | inprog => exact absurd hstate hinprog
        | done => rfl
      have hfree := hrp e hmem ▸ @CacheInv.free n net rb s rp e h hmem
      have hpruned : Pruned s (nfsdReplyCacheFreeLocked rb s b rp) := by
        refine ⟨rqst_replyCacheFreeLocked s b rp, fun rp' => ?_⟩
        rw [mem_replyCacheFreeLocked]
        by_cases heq : rp' = rp
        · subst heq
          exact .inr ⟨e, hmem, hdone, update_self ..⟩
        · exact .inl (update_of_ne heq ..)
      obtain ⟨hinv, hrest⟩ := ih hfree fun rp' hrp' e' hmem' => by
        obtain hsame | ⟨_, _, _, hnone⟩ := hpruned.mem rp'
        · exact hl rp' hrp' e' (hsame ▸ hmem')
        · rw [hnone] at hmem'
          cases hmem'
      exact ⟨hinv, hpruned.trans hrest⟩

theorem CacheInv.prune (h : CacheInv net s) (b : Fin n) :
    CacheInv net (pruneBucket net rb b now (s.buckets b).lruHead s) ∧
      Pruned s (pruneBucket net rb b now (s.buckets b).lruHead s) := by
  refine pruneBucket_spec h fun rp hrp e hmem => ?_
  obtain ⟨e', hmem', hb⟩ := ((h.buckets b).listed rp).1 hrp
  rw [hmem] at hmem'
  cases hmem'
  exact hb

def Drc.linked (net : RcNet n) (rb : RbOps) (s : Drc n) (key : CKey) (rp : Nat) : BinaryTree Nat :=
  rb.insertColor <| (insert (keyIn (Function.update s.mem rp (some { key := key }))) rp
    (s.buckets (net.hash key.xid)).rbHead).getD (s.buckets (net.hash key.xid)).rbHead

def Drc.inserted (net : RcNet n) (rb : RbOps) (s : Drc n) (key : CKey) (rp : Nat) (now : BitVec 64) : Drc n where
  mem := Function.update s.mem rp (some { key := key, state := .inprog, timestamp := now })
  buckets := Function.update s.buckets (net.hash key.xid)
    ⟨s.linked net rb key rp, (s.buckets (net.hash key.xid)).lruHead.erase rp ++ [rp]⟩
  numDrcEntries := s.numDrcEntries + 1
  rqst := s.rqst

theorem CacheInv.inserted {key : CKey} (h : CacheInv net s) (hfree : s.mem rp = none)
    (hkey : ∀ rp' e', s.mem rp' = some e' → e'.key ≠ key) : CacheInv net (s.inserted net rb key rp now) := by
  set b := net.hash key.xid
  have hbucket : BucketInv net (update s.mem rp (some { key := key })) b
      ⟨s.linked net rb key rp, (s.buckets b).lruHead.erase rp ++ [rp]⟩ := by
    obtain ⟨root, hroot, hbucket⟩ := @BucketInv.insert n net s.mem _ _ rp { key := key } (h.buckets _) rb hfree hkey rfl
    rw [Drc.linked, hroot]
    exact hbucket
  have hnew : rp ∉ (s.buckets b).lruHead := by
    intro hin
    obtain ⟨e, hmem, -⟩ := ((h.buckets _).listed rp).1 hin
    rw [hfree] at hmem
    cases hmem
  refine ⟨(forall_update_iff s.buckets _).2 ⟨?_, fun b hne => ?_⟩, used_update h.used (by simp), ?_⟩
  · have hstate := @BucketInv.rewrite _ _ _ _ _ rp _ { key := key, state := .inprog, timestamp := now } hbucket
      (update_self ..) rfl
    rwa [update_idem] at hstate
  · refine (h.buckets b).frame (fun e₁ h₁ => ?_) fun e₁ h₁ => ?_
    · rw [hfree] at h₁
      cases h₁
    · cases h₁
      exact fun hb => hne hb.symm
  · refine (congrArg (· + 1) h.count).trans (Drc.total_add ?_)
    rw [List.length_append, List.erase_of_not_mem hnew]
    rfl

theorem cacheInsert_cases (h : CacheInv net s) (key : CKey) (hfree : s.mem rp = none) :
    (∃ found e, found ≠ rp ∧ s.mem found = some e ∧ e.key = key ∧
        nfsdCacheInsert rb (s.setMem rp (some { key := key })) (net.hash key.xid) rp now =
          (lruPutEnd (s.setMem rp (some { key := key })) (net.hash key.xid) found now, found)) ∨
      (∀ rp' e', s.mem rp' = some e' → e'.key ≠ key) ∧
        nfsdCacheInsert rb (s.setMem rp (some { key := key })) (net.hash key.xid) rp now =
          (lruPutEnd ((s.setMem rp (some { key := key })).setBucket (net.hash key.xid)
            { s.buckets (net.hash key.xid) with rbHead := s.linked net rb key rp }) (net.hash key.xid) rp now, rp) := by
  set b := net.hash key.xid
  have hbucket := h.buckets b
  have hold : ∀ rp' e', s.mem rp' = some e' → rp' ≠ rp := by
    rintro rp' e' hmem rfl
    rw [hfree] at hmem
    cases hmem
  have hkey : keyIn (s.setMem rp (some { key := key })).mem rp = key.image := keyIn_eq (update_self ..)
  unfold nfsdCacheInsert
  rw [hkey]
  cases hfind : find (keyIn (s.setMem rp (some { key := key })).mem) key.image
      ((s.setMem rp (some { key := key })).buckets b).rbHead with
  | some found =>
    obtain ⟨hin, heq⟩ := mem_of_find hfind
    obtain ⟨e, hmem, -⟩ := hbucket.mem_tree.1 hin
    have hne := hold found e hmem
    rw [Drc.setMem_mem, keyIn_update_of_ne hne, keyIn_eq hmem] at heq
    exact .inl ⟨found, e, hne, hmem, CKey.image_inj heq, rfl⟩
  | none =>
    refine .inr ⟨fun rp' e' hmem heq => ?_, rfl⟩
    have hsorted : Sorted (keyIn (s.setMem rp (some { key := key })).mem) (s.buckets b).rbHead := by
      refine hbucket.sorted.congr fun rp' hrp' => keyIn_update_of_ne ?_
      obtain ⟨e', hmem, -⟩ := hbucket.mem_tree.1 hrp'
      exact hold rp' e' hmem
    have hfound := find_of_mem hsorted (hbucket.mem_tree.2 ⟨e', hmem, by rw [heq]⟩)
    rw [Drc.setMem_mem, keyIn_update_of_ne (hold rp' e' hmem), keyIn_eq hmem, heq] at hfound
    exact absurd (hfind.symm.trans hfound) nofun

theorem setMem_lruPutEnd_setMem {found : Nat} (hfree : s.mem rp = none) (hne : found ≠ rp) :
    (lruPutEnd (s.setMem rp x) b found now).setMem rp none = lruPutEnd s b found now := by
  have hmem : ∀ y, update (update (update s.mem rp x) found y) rp none =
      update s.mem found y := by
    intro y
    rw [update_comm hne, update_idem, ← hfree, update_eq_self]
  simp [lruPutEnd, Drc.setMem, Drc.setBucket, update_of_ne hne, hmem]

/-- **What a lookup does**: nothing; or it finds the entry; or it inserts one and prunes the bucket. -/
theorem cacheLookup_cases (h : CacheInv net s) (call : RcCall) {alloc : Option Nat}
    (halloc : ∀ rp ∈ alloc, s.mem rp = none) :
    ((call.cachetype = .nocache ∨ alloc = none) ∧
        nfsdCacheLookup net rb s call alloc now = (s, ⟨.doit, false, none, call.head⟩)) ∨
      (call.cachetype ≠ .nocache ∧ ∃ rp e, s.mem rp = some e ∧ e.key = call.key ∧
        nfsdCacheLookup net rb s call alloc now = (lruPutEnd s (net.hash call.key.xid) rp now, foundEntry call e)) ∨
      (call.cachetype ≠ .nocache ∧ ∃ rp, alloc = some rp ∧ (∀ rp' e', s.mem rp' = some e' → e'.key ≠ call.key) ∧
        nfsdCacheLookup net rb s call alloc now =
          (pruneBucket net rb (net.hash call.key.xid) now ((s.inserted net rb call.key rp now).buckets
            (net.hash call.key.xid)).lruHead (s.inserted net rb call.key rp now), ⟨.doit, true, some rp, call.head⟩)) := by
  unfold nfsdCacheLookup
  by_cases hcache : call.cachetype = .nocache
  · exact .inl ⟨.inl hcache, if_pos hcache⟩
  simp only [if_neg hcache]
  cases alloc with
  | none => exact .inl ⟨.inr rfl, rfl⟩
  | some rp =>
    have hfree := halloc rp rfl
    have hcases := @cacheInsert_cases n net rb s rp now h call.key hfree
    set b := net.hash call.key.xid
    obtain ⟨found, e, hne, hmem, hkey, hinsert⟩ | ⟨hnone, hinsert⟩ := hcases
    · -- the new entry is freed again
      refine .inr (.inl ⟨hcache, found, e, hmem, hkey, ?_⟩)
      have hfound : (lruPutEnd (s.setMem rp (some { key := call.key })) b found now).mem found =
          some { e with timestamp := now } := by
        rw [lruPutEnd]
        simp [hne, hmem]
      have hrp : (lruPutEnd (s.setMem rp (some { key := call.key })) b found now).mem rp = some { key := call.key } := by
        rw [lruPutEnd]
        simp [update_of_ne hne.symm]
      simp only [hinsert, ne_eq, hne, not_false_eq_true, if_true, hfound]
      refine Prod.ext ?_ rfl
      simp only [nfsdReplyCacheFreeLocked, hrp, any_some, decide_false, ne_eq, not_true_eq_false, Bool.false_eq_true,
        if_false]
      exact setMem_lruPutEnd_setMem hfree hne
    · refine .inr (.inr ⟨hcache, rp, rfl, hnone, ?_⟩)
      simp only [hinsert, ne_eq, not_true_eq_false, if_false]
      set linked := (s.setMem rp (some { key := call.key })).setBucket b
        { s.buckets b with rbHead := s.linked net rb call.key rp } with hlinked
      have hstate : s.inserted net rb call.key rp now =
          { (lruPutEnd linked b rp now).setMem rp (some { key := call.key, state := .inprog, timestamp := now }) with
            numDrcEntries := s.numDrcEntries + 1 } := by
        simp [Drc.inserted, hlinked, lruPutEnd, Drc.setMem, Drc.setBucket, b]
      have hrp : (lruPutEnd linked b rp now).mem rp = some { key := call.key, timestamp := now } := by
        simp [lruPutEnd, hlinked]
      rw [hstate, hrp]
      rfl

end

/-! ## Requests and their entries -/

def RqPhase.cacherep : RqPhase → Option Nat
  | .idle => none
  | .doing rp => rp
  | .storing rp _ => some rp

section

variable {n : Nat} {s t : Drc n} {r rp : Nat} {e e' : SvcCacherep} {phase : RqPhase}

/-- An entry in progress is that of one request; an entry that is done has an answer. -/
structure HoldInv (s : Drc n) : Prop where
  inprog : ∀ r rp, (s.rqst r).cacherep = some rp → ∃ e, s.mem rp = some e ∧ e.state = .inprog
  owner : ∀ r r' rp, (s.rqst r).cacherep = some rp → (s.rqst r').cacherep = some rp → r = r'
  held : ∀ rp e, s.mem rp = some e → e.state = .inprog → ∃ r, (s.rqst r).cacherep = some rp
  typed : ∀ rp e, s.mem rp = some e → e.state = .done → e.type ≠ .nocache
  storing : ∀ r rp type, s.rqst r = .storing rp type → type ≠ .nocache

theorem holdInv_init (n : Nat) : HoldInv (Drc.init n) where
  inprog := nofun
  owner := nofun
  held := nofun
  typed := nofun
  storing := nofun

variable (h : HoldInv s)
include h

theorem HoldInv.congr (hrqst : ∀ r, (t.rqst r).cacherep = (s.rqst r).cacherep)
    (hstoring : ∀ r rp type, t.rqst r = .storing rp type → type ≠ .nocache)
    (hback : ∀ rp e, t.mem rp = some e → ∃ e', s.mem rp = some e' ∧ e'.state = e.state ∧ e'.type = e.type)
    (hinprog : ∀ rp e, s.mem rp = some e → e.state = .inprog → ∃ e', t.mem rp = some e' ∧ e'.state = .inprog) :
    HoldInv t := by
  refine ⟨fun r rp hr => ?_, fun r r' rp h₁ h₂ => h.owner r r' rp (hrqst r ▸ h₁) (hrqst r' ▸ h₂), fun rp e ht hstate => ?_,
    fun rp e ht hstate => ?_, hstoring⟩
  · obtain ⟨e, hs, hstate⟩ := h.inprog r rp (hrqst r ▸ hr)
    exact hinprog rp e hs hstate
  · obtain ⟨e', hs, hstate', -⟩ := hback rp e ht
    simp only [hrqst]
    exact h.held rp e' hs (hstate'.trans hstate)
  · obtain ⟨e', hs, hstate', htype⟩ := hback rp e ht
    rw [← htype]
    exact h.typed rp e' hs (hstate'.trans hstate)

theorem HoldInv.setRqst (hold : (s.rqst r).cacherep = none) (hnew : phase.cacherep = none) :
    HoldInv (s.setRqst r phase) := by
  refine h.congr (fun r' => ?_) (fun r' rp type hr => ?_) (fun rp e hmem => ⟨e, hmem, rfl, rfl⟩)
    fun rp e hmem hstate => ⟨e, hmem, hstate⟩
  · by_cases heq : r' = r
    · rw [heq, Drc.setRqst_rqst, update_self, hnew, hold]
    · rw [Drc.setRqst_rqst, update_of_ne heq]
  · obtain ⟨-, rfl⟩ | ⟨-, hr⟩ := update_eq_iff.1 hr
    · cases hnew
    · exact h.storing r' rp type hr

theorem HoldInv.pruned (hpruned : Pruned s t) : HoldInv t := by
  refine h.congr (fun r => by rw [hpruned.rqst]) (hpruned.rqst ▸ h.storing) (fun rp e ht => ?_) fun rp e hs hstate => ?_
  · obtain hsame | ⟨_, _, _, hnone⟩ := hpruned.mem rp
    · exact ⟨e, hsame ▸ ht, rfl, rfl⟩
    · rw [hnone] at ht
      cases ht
  · obtain hsame | ⟨e', hs', hdone, -⟩ := hpruned.mem rp
    · exact ⟨e, hsame.trans hs, hstate⟩
    · cases hs.symm.trans hs'
      cases hstate.symm.trans hdone

theorem HoldInv.change {x : Option SvcCacherep} (hmem : t.mem = update s.mem rp x)
    (hrqst : t.rqst = update s.rqst r phase) (hown : ∀ r', (s.rqst r').cacherep = some rp → r' = r)
    (hold : (s.rqst r).cacherep = none ∨ (s.rqst r).cacherep = some rp)
    (hnew : (phase.cacherep = none ∧ ∀ e ∈ x, e.state ≠ .inprog) ∨
      phase.cacherep = some rp ∧ ∃ e, x = some e ∧ e.state = .inprog)
    (htyped : ∀ e ∈ x, e.state = .done → e.type ≠ .nocache)
    (hstoring : ∀ rp type, phase = .storing rp type → type ≠ .nocache) : HoldInv t := by
  -- who holds what: `r` its own entry, the others what they held, which is another one
  have hcases : ∀ r' rp', (t.rqst r').cacherep = some rp' →
      (r' = r ∧ rp' = rp ∧ ∃ e, x = some e ∧ e.state = .inprog) ∨ (r' ≠ r ∧ rp' ≠ rp ∧ (s.rqst r').cacherep = some rp') := by
    intro r' rp' hr'
    rw [hrqst] at hr'
    by_cases heq : r' = r
    · subst heq
      rw [update_self] at hr'
      obtain ⟨hnone, -⟩ | ⟨hsome, hx⟩ := hnew
      · rw [hnone] at hr'
        cases hr'
      · rw [hsome] at hr'
        exact .inl ⟨rfl, (Option.some.inj hr').symm, hx⟩
    rw [update_of_ne heq] at hr'
    refine .inr ⟨heq, ?_, hr'⟩
    rintro rfl
    exact heq (hown r' hr')
  refine ⟨fun r' rp' hr' => ?_, fun r₁ r₂ rp' h₁ h₂ => ?_, fun rp' e ht hstate => ?_, fun rp' e ht hstate => ?_,
    fun r' rp' type hr' => ?_⟩
  · obtain ⟨-, rfl, e, rfl, hstate⟩ | ⟨-, hne, hs⟩ := hcases r' rp' hr'
    · exact ⟨e, by rw [hmem, update_self], hstate⟩
    · rw [hmem, update_of_ne hne]
      exact h.inprog r' rp' hs
  · obtain ⟨rfl, rfl, -⟩ | ⟨-, hne, hs⟩ := hcases r₁ rp' h₁
    · obtain ⟨rfl, -⟩ | ⟨-, hne, -⟩ := hcases r₂ _ h₂
      · rfl
      · exact absurd rfl hne
    obtain ⟨-, rfl, -⟩ | ⟨-, -, hs'⟩ := hcases r₂ rp' h₂
    · exact absurd rfl hne
    · exact h.owner r₁ r₂ rp' hs hs'
  · rw [hmem] at ht
    obtain ⟨rfl, hx⟩ | ⟨heq, ht⟩ := update_eq_iff.1 ht
    · obtain ⟨-, hnot⟩ | ⟨hsome, -⟩ := hnew
      · exact absurd hstate (hnot e hx)
      · exact ⟨r, by rw [hrqst, update_self, hsome]⟩
    obtain ⟨r', hr'⟩ := h.held rp' e ht hstate
    have hne : r' ≠ r := by
      rintro rfl
      obtain hnone | hsome := hold
      · rw [hnone] at hr'
        cases hr'
      · rw [hsome] at hr'
        exact heq (Option.some.inj hr').symm
    exact ⟨r', by rwa [hrqst, update_of_ne hne]⟩
  · rw [hmem] at ht
    obtain ⟨-, ht⟩ | ⟨-, ht⟩ := update_eq_iff.1 ht
    · exact htyped e ht hstate
    · exact h.typed rp' e ht hstate
  · rw [hrqst] at hr'
    obtain ⟨-, hr'⟩ | ⟨-, hr'⟩ := update_eq_iff.1 hr'
    · exact hstoring rp' type hr'
    · exact h.storing r' rp' type hr'

end

/-! ## What a step can do -/

section

variable {n r rp : Nat} {net : RcNet n} {s t : Drc n} {ev : RcEvent n} {now : BitVec 64} {rb : RbOps}
  {alloc : Option Nat} {kmalloc : Bool} {call : RcCall} {type : RcType} {phase : RqPhase}

structure RcInv (net : RcNet n) (s : Drc n) : Prop where
  cache : CacheInv net s
  hold : HoldInv s

/-- What a step can do to the entry at an address: nothing but its timestamp; a lookup that misses inserts it; it is
pruned when it is done; its request drops it, stores the answer, or completes it. -/
inductive EntryStep (s : Drc n) (ev : RcEvent n) (t : Drc n) (rp : Nat) : Prop
  | absent (h : s.mem rp = none) (h' : t.mem rp = none)
  | kept (e : SvcCacherep) (now : BitVec 64) (h : s.mem rp = some e) (h' : t.mem rp = some { e with timestamp := now })
  | inserted (r : Nat) (call : RcCall) (now : BitVec 64) (rb : RbOps) (hev : ev = .lookup r call (some rp) now rb)
    (hcache : call.cachetype ≠ .nocache) (hmiss : ∀ rp' e', s.mem rp' = some e' → e'.key ≠ call.key) (h : s.mem rp = none)
    (h' : t.mem rp = some { key := call.key, state := .inprog, timestamp := now })
  | pruned (e : SvcCacherep) (h : s.mem rp = some e) (hdone : e.state = .done) (h' : t.mem rp = none)
  | dropped (r : Nat) (type : RcType) (statp : Option RcReply) (kmalloc : Bool) (rb : RbOps)
    (hev : ev = .update r type statp kmalloc rb) (hr : s.rqst r = .doing (some rp)) (h' : t.mem rp = none)
  | stored (r : Nat) (type : RcType) (reply : RcReply) (kmalloc : Bool) (rb : RbOps) (e : SvcCacherep)
    (u : List (BitVec 8)) (hev : ev = .update r type (some reply) kmalloc rb) (hr : s.rqst r = .doing (some rp))
    (hkept : reply.kept type kmalloc = some u) (h : s.mem rp = some e) (h' : t.mem rp = some { e with u := u })
    (hr' : t.rqst r = .storing rp type)
  | finished (r : Nat) (now : BitVec 64) (type : RcType) (e : SvcCacherep) (hev : ev = .finish r now)
    (hr : s.rqst r = .storing rp type) (h : s.mem rp = some e)
    (h' : t.mem rp = some { e with secure := e.key.secure, type := type, state := .done, timestamp := now })

theorem EntryStep.same (h : t.mem rp = s.mem rp) : EntryStep s ev t rp := by
  cases hmem : s.mem rp with
  | none => exact .absent hmem (h.trans hmem)
  | some e => exact .kept e e.timestamp hmem (h.trans hmem)

theorem EntryStep.of_update {x : Option SvcCacherep} (hmem : t.mem = update s.mem rp x) (h : EntryStep s ev t rp)
    (rp' : Nat) : EntryStep s ev t rp' := by
  by_cases heq : rp' = rp
  · rwa [heq]
  · exact .same (by rw [hmem, update_of_ne heq])

/-- A request gets to where it stores an answer by an update. -/
def StoringStep (s : Drc n) (ev : RcEvent n) (t : Drc n) : Prop :=
  ∀ r rp type, t.rqst r = .storing rp type → s.rqst r = .storing rp type ∨
    ∃ reply kmalloc rb u e, ev = .update r type (some reply) kmalloc rb ∧ s.rqst r = .doing (some rp) ∧
      reply.kept type kmalloc = some u ∧ s.mem rp = some e ∧ t.mem rp = some { e with u := u }

theorem StoringStep.of_update (hrqst : t.rqst = update s.rqst r phase)
    (hphase : ∀ rp type, phase ≠ .storing rp type) : StoringStep s ev t := by
  intro r' rp type hr
  rw [hrqst] at hr
  obtain ⟨-, hr⟩ | ⟨-, hr⟩ := update_eq_iff.1 hr
  · exact absurd hr (hphase rp type)
  · exact .inl hr

/-- What every step does. -/
structure StepSpec (net : RcNet n) (s : Drc n) (ev : RcEvent n) (t : Drc n) : Prop where
  inv : RcInv net t
  entry : ∀ rp, EntryStep s ev t rp
  storing : StoringStep s ev t

theorem EntryStep.origin {e : SvcCacherep} (h : EntryStep s ev t rp) (hmem : t.mem rp = some e) :
    (∃ r call now rb, ev = .lookup r call (some rp) now rb ∧ call.cachetype ≠ .nocache ∧
        (∀ rp' e', s.mem rp' = some e' → e'.key ≠ call.key) ∧ s.mem rp = none ∧ e.key = call.key ∧ e.state = .inprog) ∨
      ∃ e₀, s.mem rp = some e₀ ∧ e.key = e₀.key ∧ (e.state = e₀.state ∧ e.type = e₀.type ∧ e.secure = e₀.secure ∧ e.u = e₀.u ∨
        (∃ r type, s.rqst r = .doing (some rp) ∧ t.rqst r = .storing rp type ∧ e.state = e₀.state) ∨
        ∃ r, s.rqst r = .storing rp e.type ∧ e.secure = e₀.key.secure ∧ e.u = e₀.u ∧ e.state = .done) := by
  cases h with
  | absent _ h' | pruned _ _ _ h' | dropped _ _ _ _ _ _ _ h' => cases h'.symm.trans hmem
  | inserted r call now rb hev hcache hmiss h h' =>
    cases h'.symm.trans hmem
    exact .inl ⟨r, call, now, rb, hev, hcache, hmiss, h, rfl, rfl⟩
  | kept e₀ _ h h' =>
    cases h'.symm.trans hmem
    exact .inr ⟨e₀, h, rfl, .inl ⟨rfl, rfl, rfl, rfl⟩⟩
  | stored r type _ _ _ e₀ _ _ hr _ h h' hr' =>
    cases h'.symm.trans hmem
    exact .inr ⟨e₀, h, rfl, .inr (.inl ⟨r, type, hr, hr', rfl⟩)⟩
  | finished r _ _ e₀ _ hr h h' =>
    cases h'.symm.trans hmem
    exact .inr ⟨e₀, h, rfl, .inr (.inr ⟨r, hr, rfl, rfl, rfl⟩)⟩

theorem CacheInv.setRqst (h : CacheInv net s) (r : Nat) (phase : RqPhase) : CacheInv net (s.setRqst r phase) :=
  ⟨h.buckets, h.used, h.count⟩

theorem Pruned.setRqst (h : Pruned s t) (r : Nat) (phase : RqPhase) : Pruned (s.setRqst r phase) (t.setRqst r phase) :=
  ⟨by rw [Drc.setRqst_rqst, Drc.setRqst_rqst, h.rqst], h.mem⟩

theorem foundEntry_rqCacherep (call : RcCall) (e : SvcCacherep) : (foundEntry call e).rqCacherep = none := by
  unfold foundEntry
  repeat' split
  all_goals rfl

theorem RqPhase.cacherep_ite (c : Prop) [Decidable c] : RqPhase.cacherep (if c then .doing none else .idle) = none := by
  split <;> rfl

theorem RqPhase.ite_ne_storing (c : Prop) [Decidable c] (rp : Option Nat) :
    ∀ rp' type, (if c then .doing rp else .idle) ≠ RqPhase.storing rp' type := by
  split <;> nofun

theorem rcStep_alloc (hstep : rcStep net s (.lookup r call alloc now rb) = some t) : ∀ rp ∈ alloc, s.mem rp = none := by
  obtain ⟨⟨-, halloc⟩, -⟩ := ite_none_right_eq_some.1 hstep
  rintro rp rfl
  simpa using halloc

theorem RcInv.lookup (h : RcInv net s) (hstep : rcStep net s (.lookup r call alloc now rb) = some t) :
    StepSpec net s (.lookup r call alloc now rb) t := by
  have halloc := rcStep_alloc hstep
  rw [rcStep] at hstep
  obtain ⟨⟨hidle, -⟩, hstep⟩ := ite_none_right_eq_some.1 hstep
  have hidle' : (s.rqst r).cacherep = none := by
    rw [hidle]
    rfl
  obtain ⟨-, hlookup⟩ | ⟨-, rp, e, hmem, hkey, hlookup⟩ | ⟨hcache, rp, rfl, hmiss, hlookup⟩ :=
    @cacheLookup_cases n net rb s now h.cache call alloc halloc
  · rw [hlookup] at hstep
    cases hstep
    exact ⟨⟨h.cache.setRqst _ _, h.hold.setRqst hidle' rfl⟩, fun rp => .same rfl, .of_update rfl (RqPhase.ite_ne_storing _ _)⟩
  · rw [hlookup] at hstep
    cases hstep
    rw [foundEntry_rqCacherep, ← hkey]
    have hput : ∀ rp', (∃ e', s.mem rp' = some e' ∧
        (lruPutEnd s (net.hash e.key.xid) rp now).mem rp' = some { e' with timestamp := now }) ∨
        (lruPutEnd s (net.hash e.key.xid) rp now).mem rp' = s.mem rp' := by
      intro rp'
      rw [lruPutEnd_eq hmem]
      by_cases heq : rp' = rp
      · subst heq
        exact .inl ⟨e, hmem, update_self ..⟩
      · exact .inr (update_of_ne heq ..)
    refine ⟨⟨(h.cache.lruPutEnd hmem).setRqst _ _, ?_⟩, fun rp' => ?_, .of_update rfl (RqPhase.ite_ne_storing _ _)⟩
    · refine HoldInv.setRqst (h.hold.congr (fun _ => rfl) h.hold.storing ?_ ?_) hidle' (RqPhase.cacherep_ite _)
      · grind
      · grind
    · obtain ⟨e', hs, ht⟩ | hsame := hput rp'
      · exact .kept e' now hs ht
      · exact .same hsame
  · rw [hlookup] at hstep
    cases hstep
    have hfree := halloc rp rfl
    have hinserted : CacheInv net (s.inserted net rb call.key rp now) := h.cache.inserted hfree hmiss
    obtain ⟨hcacheInv, hpruned⟩ := @CacheInv.prune n net rb _ now hinserted (net.hash call.key.xid)
    refine ⟨⟨hcacheInv.setRqst _ _, ?_⟩, fun rp' => ?_, .of_update (congrArg (update · r _) hpruned.rqst) nofun⟩
    · have hinsertedRqst : HoldInv ((s.inserted net rb call.key rp now).setRqst r (.doing (some rp))) := by
        refine h.hold.change rfl rfl (fun r' hr' => ?_) (.inl hidle') (.inr ⟨rfl, _, rfl, rfl⟩) ?_ nofun
        · obtain ⟨e, hmem, -⟩ := h.hold.inprog r' rp hr'
          rw [hfree] at hmem
          cases hmem
        · rintro e he hdone
          cases he
          cases hdone
      exact hinsertedRqst.pruned (hpruned.setRqst r (.doing (some rp)))
    · have hmem : (s.inserted net rb call.key rp now).mem =
          update s.mem rp (some { key := call.key, state := .inprog, timestamp := now }) := rfl
      obtain hsame | ⟨e, hs, hdone, hnone⟩ := hpruned.mem rp'
      · by_cases heq : rp' = rp
        · subst heq
          exact .inserted r call now rb rfl hcache hmiss hfree (hsame.trans (by rw [hmem, update_self]))
        · exact .same (hsame.trans (by rw [hmem, update_of_ne heq]))
      have hne : rp' ≠ rp := by
        rintro rfl
        rw [hmem, update_self] at hs
        cases hs
        cases hdone
      rw [hmem, update_of_ne hne] at hs
      exact .pruned e hs hdone hnone

theorem RcReply.type_of_kept {reply : RcReply} {u : List (BitVec 8)} (h : reply.kept type kmalloc = some u) :
    type ≠ .nocache := by
  rintro rfl
  unfold RcReply.kept at h
  split at h <;> cases h

theorem RcInv.update {statp : Option RcReply} (h : RcInv net s)
    (hstep : rcStep net s (.update r type statp kmalloc rb) = some t) :
    StepSpec net s (.update r type statp kmalloc rb) t := by
  rw [rcStep, nfsdCacheUpdate] at hstep
  split at hstep
  · rename_i hr
    cases hstep
    exact ⟨⟨h.cache.setRqst _ _, h.hold.setRqst (by rw [hr]; rfl) rfl⟩, fun rp => .same rfl, .of_update rfl nofun⟩
  · rename_i rp hr
    have hheld : (s.rqst r).cacherep = some rp := by
      rw [hr]
      rfl
    obtain ⟨e, hmem, hinprog⟩ := h.hold.inprog r rp hheld
    have hown : ∀ r', (s.rqst r').cacherep = some rp → r' = r := fun r' hr' => h.hold.owner r' r rp hr' hheld
    rw [hmem] at hstep
    dsimp only at hstep
    split at hstep
    · rename_i u hkept
      obtain ⟨reply, rfl, hkept⟩ := bind_eq_some_iff.1 hkept
      cases hstep
      have hcache : CacheInv net (s.setMem rp (some { e with u := u })) := h.cache.setMem hmem rfl (h.cache.used rp e hmem)
      refine ⟨⟨hcache.setRqst _ _, ?_⟩, .of_update rfl ?_, fun r' rp' type' hr' => ?_⟩
      · refine h.hold.change rfl rfl hown (.inr hheld) (.inr ⟨rfl, _, rfl, hinprog⟩) (fun e' he' hdone => ?_)
          fun rp' type' heq => ?_
        · cases he'
          exact absurd (hinprog.symm.trans hdone) (by decide)
        · cases heq
          exact RcReply.type_of_kept hkept
      · exact .stored r type reply kmalloc rb e u rfl hr hkept hmem (update_self ..) (update_self ..)
      · obtain ⟨rfl, hphase⟩ | ⟨-, hr'⟩ := update_eq_iff.1 hr'
        · cases hphase
          exact .inr ⟨reply, kmalloc, rb, u, e, rfl, hr, hkept, hmem, update_self ..⟩
        · exact .inl hr'
    · cases hstep
      have hmem' : ((nfsdReplyCacheFreeLocked rb s (net.hash e.key.xid) rp).setRqst r .idle).mem =
          update s.mem rp none := mem_replyCacheFreeLocked ..
      have hrqst : ((nfsdReplyCacheFreeLocked rb s (net.hash e.key.xid) rp).setRqst r .idle).rqst =
          update s.rqst r .idle := by
        rw [Drc.setRqst_rqst, rqst_replyCacheFreeLocked]
      refine ⟨⟨(h.cache.free hmem).setRqst _ _, ?_⟩, .of_update hmem' ?_, .of_update hrqst nofun⟩
      · exact h.hold.change hmem' hrqst hown (.inr hheld) (.inl ⟨rfl, nofun⟩) nofun nofun
      · exact .dropped r type statp kmalloc rb rfl hr (by rw [hmem', update_self])
  · cases hstep

theorem RcInv.finish (h : RcInv net s) (hstep : rcStep net s (.finish r now) = some t) :
    StepSpec net s (.finish r now) t := by
  rw [rcStep, nfsdCacheFinish] at hstep
  split at hstep
  swap
  · cases hstep
  rename_i rp type hr
  have hheld : (s.rqst r).cacherep = some rp := by
    rw [hr]
    rfl
  obtain ⟨e, hmem, -⟩ := h.hold.inprog r rp hheld
  have hown : ∀ r', (s.rqst r').cacherep = some rp → r' = r := fun r' hr' => h.hold.owner r' r rp hr' hheld
  have hput : (lruPutEnd s (net.hash e.key.xid) rp now).mem rp = some { e with timestamp := now } := by
    rw [lruPutEnd_eq hmem]
    exact Function.update_self ..
  rw [hmem] at hstep
  simp only [hput, map_some] at hstep
  cases hstep
  have hmem' : ∀ x, Function.update (lruPutEnd s (net.hash e.key.xid) rp now).mem rp x = Function.update s.mem rp x := by
    intro x
    exact Function.update_idem ..
  have hcache : CacheInv net ((lruPutEnd s (net.hash e.key.xid) rp now).setMem rp
      (some { e with secure := e.key.secure, type := type, state := .done, timestamp := now })) :=
    (h.cache.lruPutEnd hmem).setMem hput rfl (by simp)
  refine ⟨⟨hcache.setRqst _ _, ?_⟩, .of_update (hmem' _) ?_, .of_update rfl nofun⟩
  · refine h.hold.change (hmem' _) rfl hown (.inr hheld) (.inl ⟨rfl, fun e' he' => ?_⟩) (fun e' he' _ => ?_) nofun
    · cases he'
      nofun
    · cases he'
      exact h.hold.storing r rp type hr
  · exact .finished r now type e rfl hr hmem (Function.update_self ..)

/-- **Every step** keeps the invariant, and does one of these things to every entry. -/
theorem RcInv.step (h : RcInv net s) (hstep : rcStep net s ev = some t) : StepSpec net s ev t := by
  cases ev with
  | lookup r call alloc now rb => exact h.lookup hstep
  | update r type statp kmalloc rb => exact h.update hstep
  | finish r now => exact h.finish hstep
  | prune b now rb =>
    cases hstep
    obtain ⟨hcache, hpruned⟩ := @CacheInv.prune n net rb s now h.cache b
    refine ⟨⟨hcache, h.hold.pruned hpruned⟩, fun rp => ?_, fun _ _ _ hr => .inl (hpruned.rqst ▸ hr)⟩
    obtain hsame | ⟨e, hmem, hdone, hnone⟩ := hpruned.mem rp
    · exact .same hsame
    · exact .pruned e hmem hdone hnone

theorem rcInv_init (net : RcNet n) : RcInv net (Drc.init n) := ⟨cacheInv_init net, holdInv_init n⟩

theorem RcInv.run {es : List (RcEvent n)} (hrun : run (rcStep net) (Drc.init n) es = some s) : RcInv net s :=
  run_invariant (fun _ _ _ h hstep => (h.step hstep).inv) (rcInv_init net) hrun

/-- **Every entry in progress is that of one request**, in every run. -/
theorem replyCache_owned (net : RcNet n) (es : List (RcEvent n)) : Always (rcStep net) HoldInv (Drc.init n) es :=
  always_imp (fun _ => RcInv.hold) (always_of_invariant (fun _ _ _ h hstep => (h.step hstep).inv) (rcInv_init net))

end

/-! ## Misses -/

section

variable {n : Nat} {net : RcNet n} {s t : Drc n} {ev : RcEvent n} {k : CKey} {es : List (RcEvent n)}

def Drc.Cached (s : Drc n) (k : CKey) : Prop := ∃ rp e, s.mem rp = some e ∧ e.key = k

/-- A lookup of the key returns `RC_DOIT` from a miss. -/
def missedBy (net : RcNet n) (k : CKey) (s : Drc n) : RcEvent n → Bool
  | .lookup _ call alloc now rb =>
    let answer := (nfsdCacheLookup net rb s call alloc now).2
    call.key = k && answer.rtn = .doit && answer.missed
  | _ => false

def misses (net : RcNet n) (k : CKey) : Drc n → List (RcEvent n) → Nat
  | _, [] => 0
  | s, ev :: es =>
    match rcStep net s ev with
    | none => 0
    | some t => (if missedBy net k s ev then 1 else 0) + misses net k t es

theorem foundEntry_missed (call : RcCall) (e : SvcCacherep) : (foundEntry call e).missed = false := by
  unfold foundEntry
  repeat' split
  all_goals rfl

variable (h : RcInv net s)
include h

theorem RcInv.not_cached (hstep : rcStep net s ev = some t) (hmissed : missedBy net k s ev = true) :
    ¬ s.Cached k := by
  cases ev with
  | lookup r call alloc now rb =>
    simp only [missedBy, Bool.and_eq_true, decide_eq_true_eq] at hmissed
    obtain ⟨⟨rfl, -⟩, hmissed⟩ := hmissed
    obtain ⟨-, hlookup⟩ | ⟨-, _, _, -, -, hlookup⟩ | ⟨-, _, -, hmiss, -⟩ :=
      @cacheLookup_cases n net rb s now h.cache call alloc (rcStep_alloc hstep)
    · rw [hlookup] at hmissed
      cases hmissed
    · rw [hlookup, foundEntry_missed] at hmissed
      cases hmissed
    · rintro ⟨rp, e, hmem, hkey⟩
      exact hmiss rp e hmem hkey
  | _ => cases hmissed

theorem RcInv.missedBy (hstep : rcStep net s ev = some t) (hs : ¬ s.Cached k) (ht : t.Cached k) :
    missedBy net k s ev = true := by
  obtain ⟨rp, e, hmem, rfl⟩ := ht
  obtain ⟨r, call, now, rb, rfl, hcache, hmiss, hfree, hkey, -⟩ | ⟨e₀, h₀, hkey, -⟩ := ((h.step hstep).entry rp).origin hmem
  · obtain ⟨hnot | hnot, -⟩ | ⟨-, rp', e', hmem', hkey', -⟩ | ⟨-, _, -, -, hlookup⟩ :=
      @cacheLookup_cases n net rb s now h.cache call (some rp) (rcStep_alloc hstep)
    · exact absurd hnot hcache
    · cases hnot
    · exact absurd hkey' (hmiss rp' e' hmem')
    · simp [Nfsd.missedBy, hlookup, hkey]
  · exact absurd ⟨rp, e₀, h₀, hkey.symm⟩ hs

theorem RcInv.misses_eq_zero (hcached : EachStep (rcStep net) (fun s _ => s.Cached k) s es) :
    misses net k s es = 0 := by
  induction es generalizing s with
  | nil => rfl
  | cons ev es ih =>
    rw [misses]
    cases hstep : rcStep net s ev with
    | none => rfl
    | some t =>
      obtain ⟨hs, hrest⟩ := hcached t hstep
      have hnot : ¬ Nfsd.missedBy net k s ev = true := fun hmissed => h.not_cached hstep hmissed hs
      dsimp only
      rw [if_neg hnot, ih (h.step hstep).inv hrest]

/-- **At most once**: from the insertion of a key to its removal one lookup of it misses, the one that inserts it. -/
theorem RcInv.misses_eq_one (hstep : rcStep net s ev = some t) (hs : ¬ s.Cached k) (ht : t.Cached k)
    (hcached : EachStep (rcStep net) (fun s _ => s.Cached k) t es) : misses net k s (ev :: es) = 1 := by
  rw [misses, hstep]
  dsimp only
  rw [if_pos (h.missedBy hstep hs ht), (h.step hstep).inv.misses_eq_zero hcached]

end

/-! ## Answers -/

section

variable {n r : Nat} {net : RcNet n} {s t : Drc n} {ev : RcEvent n} {rp : Nat} {key : CKey} {type : RcType}
  {u : List (BitVec 8)} {es : List (RcEvent n)} {call : RcCall} {now : BitVec 64} {e : SvcCacherep}
  {rb : RbOps}

/-- In a run, a request with an entry was updated with an answer of which `u` was kept, and since then the entry has been
cached. -/
def AnsweredBy (net : RcNet n) (es : List (RcEvent n)) (rp : Nat) (key : CKey) (type : RcType)
    (u : List (BitVec 8)) : Prop :=
  ∃ es₁ es₂ s₁ t₁ r reply kmalloc rb,
    es = es₁ ++ .update r type (some reply) kmalloc rb :: es₂ ∧ run (rcStep net) (Drc.init n) es₁ = some s₁ ∧
      s₁.rqst r = .doing (some rp) ∧ rcStep net s₁ (.update r type (some reply) kmalloc rb) = some t₁ ∧
      reply.kept type kmalloc = some u ∧
      Always (rcStep net) (fun s => ∃ e, s.mem rp = some e ∧ e.key = key) t₁ es₂

theorem AnsweredBy.snoc (h : AnsweredBy net es rp key type u) (hrun : run (rcStep net) (Drc.init n) es = some s)
    (hstep : rcStep net s ev = some t) (ht : ∃ e, t.mem rp = some e ∧ e.key = key) :
    AnsweredBy net (es ++ [ev]) rp key type u := by
  obtain ⟨es₁, es₂, s₁, t₁, r, reply, kmalloc, rb, rfl, hrun₁, hr, hstep₁, hkept, hcached⟩ := h
  rw [run_append, hrun₁, bind_some, Runs.run, hstep₁] at hrun
  exact ⟨es₁, es₂ ++ [ev], s₁, t₁, r, reply, kmalloc, rb, by simp, hrun₁, hr, hstep₁, hkept,
    always_snoc hcached hrun hstep ht⟩

/-- **Every answer in the cache** was given by an update. -/
theorem answeredBy_of_run (hrun : run (rcStep net) (Drc.init n) es = some s) :
    ∀ rp e, s.mem rp = some e →
      (e.state = .done → e.secure = e.key.secure ∧ AnsweredBy net es rp e.key e.type e.u) ∧
        ∀ r type, s.rqst r = .storing rp type → AnsweredBy net es rp e.key type e.u := by
  induction es using List.reverseRecOn generalizing s with
  | nil =>
    cases hrun
    nofun
  | append_singleton es ev ih =>
    rw [run_append] at hrun
    obtain ⟨s₀, hrun₀, hstep⟩ := bind_eq_some_iff.1 hrun
    obtain ⟨s', hstep, hs'⟩ := bind_eq_some_iff.1 hstep
    cases hs'
    have hinv := RcInv.run hrun₀
    obtain ⟨hinv', hentry, hstoring⟩ := hinv.step hstep
    intro rp e hmem
    have hcached : ∃ e', s.mem rp = some e' ∧ e'.key = e.key := ⟨e, hmem, rfl⟩
    refine ⟨fun hdone => ?_, fun r type hr => ?_⟩
    · obtain ⟨_, _, _, _, -, -, -, -, -, hinprog⟩ | ⟨e₀, h₀, hkey, horigin⟩ := (hentry rp).origin hmem
      · cases hinprog.symm.trans hdone
      obtain ⟨hstate, htype, hsecure, hu⟩ | ⟨r, _, hr, -, hstate⟩ | ⟨r, hr, hsecure, hu, -⟩ := horigin
      · have := (ih hrun₀ rp e₀ h₀).1 (hstate.symm.trans hdone)
        rw [← hkey, ← htype, ← hsecure, ← hu] at this
        exact ⟨this.1, this.2.snoc hrun₀ hstep hcached⟩
      · -- the entry is still in progress
        obtain ⟨e₁, h₁, hinprog⟩ := hinv.hold.inprog r rp (by rw [hr]; rfl)
        cases h₀.symm.trans h₁
        cases (hstate.symm.trans hdone).symm.trans hinprog
      · have := (ih hrun₀ rp e₀ h₀).2 r e.type hr
        rw [← hkey, ← hu] at this
        exact ⟨by rw [hsecure, hkey], this.snoc hrun₀ hstep hcached⟩
    · obtain hr₀ | ⟨reply, kmalloc, rb, u, e₀, rfl, hr₀, hkept, h, h'⟩ := hstoring r rp type hr
      · have hheld : (s₀.rqst r).cacherep = some rp := by
          rw [hr₀]
          rfl
        obtain ⟨e₁, h₁, hinprog⟩ := hinv'.hold.inprog r rp (by rw [hr]; rfl)
        cases hmem.symm.trans h₁
        obtain ⟨_, _, _, _, -, -, -, hfree, -⟩ | ⟨e₀, h₀, hkey, horigin⟩ := (hentry rp).origin hmem
        · obtain ⟨e₀, h₀, -⟩ := hinv.hold.inprog r rp hheld
          cases hfree.symm.trans h₀
        obtain ⟨-, -, -, hu⟩ | ⟨r', _, hr', -⟩ | ⟨_, -, -, -, hdone⟩ := horigin
        · have := (ih hrun₀ rp e₀ h₀).2 r type hr₀
          rw [← hkey, ← hu] at this
          exact this.snoc hrun₀ hstep hcached
        · cases hinv.hold.owner r' r rp (by rw [hr']; rfl) hheld
          cases hr'.symm.trans hr₀
        · cases hdone.symm.trans hinprog
      · cases h'.symm.trans hmem
        exact ⟨es, [], s₀, s, r, reply, kmalloc, rb, rfl, hrun₀, hr₀, hstep, hkept, hcached⟩

theorem RcReply.length_of_kept {reply : RcReply} {kmalloc : Bool} (h : reply.kept type kmalloc = some u) :
    u.length ≤ 256 := by
  unfold RcReply.kept at h
  split at h
  · cases h
  rename_i hwords
  cases type with
  | nocache => cases h
  | replstat =>
    cases h
    exact (List.length_take_le ..).trans (by decide)
  | replbuff =>
    obtain ⟨-, h⟩ := ite_none_right_eq_some.1 h
    cases h
    exact (List.length_take_le ..).trans (by omega)

theorem foundEntry_done (hdone : e.state = .done) (htype : e.type ≠ .nocache) (hsecure : e.secure = call.key.secure)
    (hlen : e.u.length ≤ 256) : foundEntry call e = ⟨.reply, false, none, call.head ++ e.u⟩ := by
  have hfits := call.fits
  unfold foundEntry
  rw [if_neg (by rw [hdone]; decide), if_neg (by simp [hsecure])]
  cases htype' : e.type with
  | nocache => exact absurd htype' htype
  | replstat => rfl
  | replbuff => rw [nfsdCacheAppend, if_neg (by omega)]

theorem RcInv.lookup_eq {new : Nat} (h : RcInv net s) (hfree : s.mem new = none) (hcache : call.cachetype ≠ .nocache)
    (hmem : s.mem rp = some e) (hkey : e.key = call.key) :
    (nfsdCacheLookup net rb s call (some new) now).2 = foundEntry call e := by
  obtain ⟨hnot | hnot, -⟩ | ⟨-, rp', e', hmem', hkey', hlookup⟩ | ⟨-, _, -, hmiss, -⟩ :=
    @cacheLookup_cases n net rb s now h.cache call (some new) (fun rp h => by cases h; exact hfree)
  · exact absurd hnot hcache
  · cases hnot
  · cases h.cache.eq_of_key hmem hmem' (hkey.trans hkey'.symm)
    rw [hmem] at hmem'
    cases hmem'
    rw [hlookup]
  · exact absurd hkey (hmiss rp e hmem)

end

/-- **The duplicate reply cache in every run.**  Trees and lists hold the same entries, with different keys, and
`num_drc_entries` counts them. From the insertion of a key to its removal one lookup of it misses. An entry in progress
is only removed by its own request. An entry that is done has an answer stored by an update, and a lookup that gets
to the cache returns it. -/
theorem replyCache_atMostOnce {n : Nat} (net : RcNet n) {es : List (RcEvent n)} {s : Drc n}
    (hrun : run (rcStep net) (Drc.init n) es = some s) :
    (∀ b, (toList (s.buckets b).rbHead).Perm (s.buckets b).lruHead ∧
        ∀ rp, rp ∈ (s.buckets b).lruHead ↔ ∃ e, s.mem rp = some e ∧ net.hash e.key.xid = b) ∧
      (∀ rp rp' e e', s.mem rp = some e → s.mem rp' = some e' → e.key = e'.key → rp = rp') ∧
      s.numDrcEntries = s.total ∧
      (∀ k ev t es', ¬ s.Cached k → rcStep net s ev = some t → t.Cached k →
        EachStep (rcStep net) (fun s _ => s.Cached k) t es' → misses net k s (ev :: es') = 1) ∧
      (∀ ev t rp e, rcStep net s ev = some t → s.mem rp = some e → e.state = .inprog → t.mem rp = none →
        ∃ r type statp kmalloc rb, ev = .update r type statp kmalloc rb ∧ (s.rqst r).cacherep = some rp) ∧
      ∀ call new now rb rp e, s.mem new = none → call.cachetype ≠ .nocache → s.mem rp = some e → e.key = call.key →
        e.state = .done → AnsweredBy net es rp call.key e.type e.u ∧
          (nfsdCacheLookup net rb s call (some new) now).2 = ⟨.reply, false, none, call.head ++ e.u⟩ := by
  have h := RcInv.run hrun
  refine ⟨fun b => ⟨(h.cache.buckets b).same, (h.cache.buckets b).listed⟩,
    fun rp rp' e e' hmem hmem' hkey => h.cache.eq_of_key hmem hmem' hkey, h.cache.count,
    fun k ev t es' hs hstep ht hcached => h.misses_eq_one hstep hs ht hcached, fun ev t rp e hstep hmem hinprog hnone => ?_,
    fun call new now rb rp e hfree hcache hmem hkey hdone => ?_⟩
  · cases (h.step hstep).entry rp with
    | absent h₁ _ => cases h₁.symm.trans hmem
    | pruned e' h₁ hdone _ =>
      cases h₁.symm.trans hmem
      cases hinprog.symm.trans hdone
    | dropped r type statp kmalloc rb hev hr _ => exact ⟨r, type, statp, kmalloc, rb, hev, by rw [hr]; rfl⟩
    | kept _ _ _ h' | inserted _ _ _ _ _ _ _ _ h' | stored _ _ _ _ _ _ _ _ _ _ _ h' _ | finished _ _ _ _ _ _ _ h' =>
      cases h'.symm.trans hnone
  · obtain ⟨hsecure, hanswered⟩ := (answeredBy_of_run hrun rp e hmem).1 hdone
    have hlen : e.u.length ≤ 256 := by
      obtain ⟨_, _, _, _, _, _, _, _, -, -, -, -, hkept, -⟩ := hanswered
      exact RcReply.length_of_kept hkept
    rw [hkey] at hsecure hanswered
    exact ⟨hanswered, by rw [h.lookup_eq hfree hcache hmem hkey,
      foundEntry_done hdone (h.hold.typed rp e hmem hdone) hsecure hlen]⟩

def sampleNet : RcNet 1 := ⟨fun _ => 0, 1024, 120000⟩

def sampleCall (xid : BitVec 8) : RcCall where
  key := ⟨⟨#[xid, 0, 0, 0], rfl⟩, ⟨#[0, 0, 0, 0], rfl⟩, ⟨#[0, 0, 0, 0], rfl⟩, ⟨#[6, 0, 0, 0], rfl⟩, ⟨#[3, 0, 0, 0], rfl⟩,
    ⟨#[0, 0, 0, 0], rfl⟩, (⟨#[2, 0, 3, 232, 10, 0, 0, 1], rfl⟩ : Vector (BitVec 8) 8) ++ Vector.replicate 20 (0 : BitVec 8)⟩
  cachetype := .replbuff
  head := [1, 2]
  fits := by decide

/-- A request is executed and answered, while another one comes in. -/
def sampleEvents : List (RcEvent 1) :=
  [.lookup 0 (sampleCall 7) (some 0) 0 plainRb, .lookup 1 (sampleCall 8) (some 1) 0 plainRb,
    .update 0 .replbuff (some ⟨[5, 6, 7, 8], 4⟩) true plainRb, .finish 0 1]

theorem replyCache_atMostOnce_sample : ∃ s, run (rcStep sampleNet) (Drc.init 1) sampleEvents = some s ∧
    s.numDrcEntries = 2 ∧
      (nfsdCacheLookup sampleNet plainRb s (sampleCall 7) (some 2) 2).2 = ⟨.reply, false, none, [1, 2, 5, 6, 7, 8]⟩ := by
  refine ⟨_, rfl, rfl, ?_⟩
  exact ((@replyCache_atMostOnce 1 sampleNet sampleEvents _ rfl).2.2.2.2.2 (sampleCall 7) 2 2 plainRb 0 _ rfl (by decide)
    rfl rfl rfl).2.trans rfl

/-- Without memory for an entry of its own a request is executed although an answer is cached. -/
theorem replyCache_executedAgain : ¬ ∀ {n : Nat} (net : RcNet n) (es : List (RcEvent n)) (s : Drc n) (call : RcCall)
    (alloc : Option Nat) (now : BitVec 64) (rb : RbOps) (rp : Nat) (e : SvcCacherep),
    run (rcStep net) (Drc.init n) es = some s → (∀ new ∈ alloc, s.mem new = none) → call.cachetype ≠ .nocache →
      s.mem rp = some e → e.key = call.key → e.state = .done → (nfsdCacheLookup net rb s call alloc now).2.rtn = .reply := by
  intro h
  have hreply := h sampleNet sampleEvents _ (sampleCall 7) none 2 plainRb 0 _ rfl (by simp) (by decide) rfl rfl rfl
  cases hreply

end Vastnfs.Nfsd
