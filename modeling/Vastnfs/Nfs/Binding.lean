import Mathlib.Data.Finset.Basic
import Vastnfs.Lib.Runs
import Vastnfs.Nfs.MultiServer

/-!
# The server of a file

On a multi-server mount every regular file is bound to one of the servers, by the index plus one
in `server_idx1` of its inode: `NFS_SERVER` of `include/linux/nfs_fs.h`,
`nfs_multipath_get_client_by_dentry` and `nfs_fhget_server` of `fs/nfs/inode.c`, and
`nfs_clone_server` of `fs/nfs/client.c`, which makes the servers of a submount.

* `Numbered`: the alternates are numbered from one, without gaps.
* `mounted_numbered`: so they are on every mount and on every clone of one.
* `bindsFiles_iff`: files are bound as intended, and all servers are in use, just when there are not
  more servers than values of the hash.
-/

namespace Vastnfs.Nfs

open Sunrpc Runs

/-! ## The functions -/

/-- A `struct inode *` that is not `NULL`. -/
abbrev InodePtr := Nat

/-- What a `struct nfs_fh` stands for. -/
abbrev FileHandle := Nat

inductive FileType where
  | regular | directory | symlink | special
  deriving DecidableEq

structure NfsInode where
  serverIdx1 : Nat := 0
  fileType : FileType := .regular
  deriving DecidableEq

/-- `struct dentry`, with the value of `hash_ptr(dentry, 5)`. -/
structure Dentry where
  hash : Fin (2 ^ 5)
  dInode : Option InodePtr := none
  deriving DecidableEq

structure NfsFattr where
  /-- There is a file id, or one of the directory mounted on. -/
  fileidValid : Bool := true
  typeValid : Bool := true
  fileType : FileType := .regular
  deriving DecidableEq

/-- The inodes in memory and those found by their file handle. -/
structure InodeCache where
  inodes : InodePtr → NfsInode
  live : Finset InodePtr
  hashed : FileHandle → Option InodePtr

/-- `NFS_SERVER`; `none` is a read past the alternates in use. -/
def nfsServerOf (server : NfsServer) (nfsi : NfsInode) : Option NfsServer :=
  if nfsi.serverIdx1 ≠ 0 ∧ nfsi.serverIdx1 - 1 ≤ server.nrAltServers then
    if nfsi.serverIdx1 = 1 then some server else server.altServer[nfsi.serverIdx1 - 2]?
  else some server

def nfsMultipathGetClientIdxByDentry (server : NfsServer) (dentry : Dentry) : Nat :=
  if server.nrAltServers = 0 then 0 else 1 + dentry.hash.val % (1 + server.nrAltServers)

/-- `none` is a read past the alternates in use. -/
def nfsMultipathGetClientByDentry (server : NfsServer) (cache : InodeCache) (dentry : Dentry) : Option NfsServer :=
  if server.nrAltServers = 0 then some server
  else match dentry.dInode with
    | some inode => nfsServerOf server (cache.inodes inode)
    | none =>
      let idx := nfsMultipathGetClientIdxByDentry server dentry
      if 1 < idx then server.altServer[idx - 2]? else some server

/-- What `nfs_fhget_server` binds a new regular file to. -/
def bindServerIdx1 (sb : NfsServer) (server : Option NfsServer) (dentry : Option Dentry) (serverIdx1 : Nat) : Nat :=
  match server, dentry with
  | some server, dentry =>
    if 0 < sb.nrAltServers then server.idx + 1
    else match dentry with
      | some dentry => nfsMultipathGetClientIdxByDentry sb dentry
      | none => serverIdx1
  | none, some dentry => nfsMultipathGetClientIdxByDentry sb dentry
  | none, none => serverIdx1

/-- What `iget5_locked` and `nfs_refresh_inode` end with. -/
structure FhgetEnv where
  alloc : Option InodePtr := none
  refresh : Option Errno := none
  deriving DecidableEq

def nfsFhgetServer (sb : NfsServer) (cache : InodeCache) (fh : FileHandle) (fattr : NfsFattr)
    (server : Option NfsServer) (dentry : Option Dentry) (env : FhgetEnv) : InodeCache × Except Errno InodePtr :=
  if !fattr.fileidValid || !fattr.typeValid then (cache, .error .enoent)
  else match cache.hashed fh with
    | some inode =>
      match env.refresh with
      | some err => (cache, .error err)
      | none => (cache, .ok inode)
    | none =>
      match env.alloc with
      | none => (cache, .error .enomem)
      | some inode =>
        let nfsi := cache.inodes inode
        let nfsi := { nfsi with
          fileType := fattr.fileType
          serverIdx1 :=
            if fattr.fileType = .regular then bindServerIdx1 sb server dentry nfsi.serverIdx1 else nfsi.serverIdx1 }
        ({ inodes := fun i => if i = inode then nfsi else cache.inodes i
           live := insert inode cache.live
           hashed := fun h => if h = fh then some inode else cache.hashed h }, .ok inode)

mutual

/-- `fails` says which of the servers, named by their positions in the tree of alternates, cannot be cloned. -/
def nfsCloneServer (fails : List Nat → Option Errno) (path : List Nat) : NfsServer → Except Fault NfsServer
  | ⟨nfsClient, _, altServer⟩ =>
    match fails path with
    | some err => .error (.errno err)
    | none => cloneAlts fails path 0 altServer { nfsClient := nfsClient }

def cloneAlts (fails : List Nat → Option Errno) (path : List Nat) (i : Nat) :
    List NfsServer → NfsServer → Except Fault NfsServer
  | [], server => .ok server
  | alt :: alts, server =>
    match nfsCloneServer fails (path ++ [i]) alt with
    | .error .bug => .error .bug
    | .error _ => cloneAlts fails path (i + 1) alts server
    | .ok cloned =>
      match nfsServerAddAlt server cloned with
      | none => .error .bug
      | some server => cloneAlts fails path (i + 1) alts server

end

inductive InodeEvent where
  | fhget (fh : FileHandle) (fattr : NfsFattr) (server : Option NfsServer) (dentry : Option Dentry) (env : FhgetEnv)
  | unhash (fh : FileHandle)
  | free (inode : InodePtr)

/-- One step. New inodes take memory that is not in use. -/
def inodeStep (sb : NfsServer) (cache : InodeCache) : InodeEvent → Option InodeCache
  | .fhget fh fattr server dentry env =>
    if ∀ inode ∈ env.alloc, inode ∉ cache.live then some (nfsFhgetServer sb cache fh fattr server dentry env).1 else none
  | .unhash fh => some { cache with hashed := fun h => if h = fh then none else cache.hashed h }
  | .free inode =>
    if inode ∈ cache.live then
      some { cache with
        inodes := fun i => if i = inode then { cache.inodes i with serverIdx1 := 0 } else cache.inodes i
        live := cache.live.erase inode }
    else none

/-! ## What is promised -/

def NfsServer.servers (server : NfsServer) : List NfsServer := server :: server.altServer

/-- A new regular file is instantiated. -/
def Instantiates (sb : NfsServer) (cache : InodeCache) (server : Option NfsServer) (dentry : Option Dentry)
    (cache' : InodeCache) (inode : InodePtr) : Prop :=
  ∃ fh fattr env, cache.hashed fh = none ∧ fattr.fileType = .regular ∧
    nfsFhgetServer sb cache fh fattr server dentry env = (cache', .ok inode)

/-- Files are bound to servers, and all servers are in use. -/
structure BindsFiles (sb : NfsServer) : Prop where
  /-- A file instantiated with a server is resolved to it. -/
  withServer : ∀ (cache cache' : InodeCache) (dentry : Option Dentry) (inode : InodePtr), ∀ server ∈ sb.servers,
    Instantiates sb cache (some server) dentry cache' inode → nfsServerOf sb (cache'.inodes inode) = some server
  /-- A file instantiated through a dentry is resolved to the server named for it. -/
  withDentry : ∀ (earlier cache cache' : InodeCache) (dentry : Dentry) (inode : InodePtr), dentry.dInode = none →
    Instantiates sb cache none (some dentry) cache' inode →
    nfsServerOf sb (cache'.inodes inode) = nfsMultipathGetClientByDentry sb earlier dentry
  /-- No lookup leaves the alternates in use. -/
  inside : ∀ (cache : InodeCache) (nfsi : NfsInode) (dentry : Dentry),
    (nfsServerOf sb nfsi).isSome = true ∧ (nfsMultipathGetClientByDentry sb cache dentry).isSome = true
  /-- The server of a file stays the same until its inode is freed. -/
  lasting : ∀ (cache : InodeCache) (es : List InodeEvent), ∀ inode ∈ cache.live,
    EachStep (inodeStep sb) (fun _ e => e ≠ .free inode) cache es →
    Always (inodeStep sb) (fun c => nfsServerOf sb (c.inodes inode) = nfsServerOf sb (cache.inodes inode)) cache es
  /-- Every server is named for some value of the hash. -/
  spread : ∀ server ∈ sb.servers, ∃ hash, ∀ cache, nfsMultipathGetClientByDentry sb cache { hash := hash } = some server

/-- The mounts that come up, and the clones of them for submounts. -/
inductive Mounted : NfsServer → Prop
  | create {env : CreateEnv} {outcome : ServerOutcome} {ctx : NfsFsContext} {server : NfsServer}
      (hnconnect : ctx.nconnect ≤ nfsMaxConnections)
      (h : nfs4CreateMultiServer env outcome ctx (ctx.nconnect + 1) = some (.ok (some server))) : Mounted server
  | clone {fails : List Nat → Option Errno} {source server : NfsServer} (hsource : Mounted source)
      (h : nfsCloneServer fails [] source = .ok server) : Mounted server

/-! ## The numbers of the servers -/

def AltsNumbered (alts : List NfsServer) : Prop := ∀ (i : Nat) (alt : NfsServer), alts[i]? = some alt → alt.idx = i + 1

/-- The first server has the number zero, and the alternates are numbered from one. -/
structure Numbered (server : NfsServer) : Prop where
  first : server.idx = 0
  alts : AltsNumbered server.altServer

section

variable {server server' : NfsServer} {outcome : ServerOutcome} {ctx : NfsFsContext} {fails : List Nat → Option Errno}
  {ports : RpcPortgroup} {path : List Nat} {env : CreateEnv}

theorem altsNumbered_nil : AltsNumbered [] := nofun

theorem AltsNumbered.append {alts : List NfsServer} (h : AltsNumbered alts) {alt : NfsServer}
    (hidx : alt.idx = alts.length + 1) : AltsNumbered (alts ++ [alt]) := by
  intro i alt' hi
  rw [List.getElem?_append] at hi
  split at hi
  · exact h i alt' hi
  rw [List.getElem?_singleton] at hi
  split at hi
  · cases hi
    omega
  · cases hi

theorem Numbered.addAlt (h : Numbered server) {srv : NfsServer} (hadd : nfsServerAddAlt server srv = some server') :
    Numbered server' := by
  unfold nfsServerAddAlt at hadd
  split at hadd
  · cases hadd
  · cases hadd
    exact ⟨h.first, h.alts.append rfl⟩

theorem cloneAlts_numbered :
    ∀ {alts : List NfsServer} {i : Nat} {server server' : NfsServer}, Numbered server →
      cloneAlts fails path i alts server = .ok server' → Numbered server'
  | [], _, _, _, h, hclone => by
    cases hclone
    exact h
  | alt :: alts, i, server, server', h, hclone => by
    rw [cloneAlts] at hclone
    split at hclone
    · cases hclone
    · exact cloneAlts_numbered h hclone
    split at hclone
    · cases hclone
    · rename_i hadd
      exact cloneAlts_numbered (h.addAlt hadd) hclone

theorem cloneServer_numbered (hclone : nfsCloneServer fails path server = .ok server') : Numbered server' := by
  obtain ⟨nfsClient, idx, altServer⟩ := server
  rw [nfsCloneServer] at hclone
  split at hclone
  · cases hclone
  · exact cloneAlts_numbered ⟨rfl, altsNumbered_nil⟩ hclone

theorem altsAt_numbered {o : Nat} :
    ∀ m : Nat, AltsNumbered (altsAt outcome ctx ports o m)
  | 0 | 1 => altsNumbered_nil
  | m + 2 => by
    rw [altsAt]
    split
    · exact altsAt_numbered (m + 1)
    · exact (altsAt_numbered (m + 1)).append rfl

theorem singleServer_numbered (h : singleServer outcome ctx = .ok (some server)) : Numbered server := by
  unfold singleServer nfs4CreateServer at h
  cases hup : outcome 0 with
  | some e =>
    simp only [hup] at h
    cases h
  | none =>
    simp only [hup] at h
    cases h
    exact ⟨rfl, altsNumbered_nil⟩

theorem outcome_zero_of_ok {fuel : Nat} (hports : ctx.remotePorts = some ports) (hnr : ports.nr ≠ 0)
    (hn : ctx.nconnect ≠ 0) (h : nfs4CreateMultiServer env outcome ctx (fuel + 1) = some (.ok (some server))) :
    outcome 0 = none := by
  cases hup : outcome 0 with
  | none => rfl
  | some e =>
    exfalso
    simp only [nfs4CreateMultiServer, hports, hnr, hn, or_self, if_false, multiServerLoop, multiServerTurn,
      nfs4CreateServer, turnContext, hup, turnPrimary, Except.bind] at h
    cases h

theorem createMultiServer_numbered (hnconnect : ctx.nconnect ≤ nfsMaxConnections)
    (h : nfs4CreateMultiServer env outcome ctx (ctx.nconnect + 1) = some (.ok (some server))) : Numbered server := by
  cases hports : ctx.remotePorts with
  | none =>
    simp only [nfs4CreateMultiServer, hports, Option.some.injEq] at h
    exact singleServer_numbered h
  | some ports =>
    by_cases hone : ports.nr = 0 ∨ ctx.nconnect = 0
    · simp only [nfs4CreateMultiServer, hports, if_pos hone, Option.some.injEq] at h
      exact singleServer_numbered h
    obtain ⟨hnr, hn⟩ := not_or.1 hone
    have hfirst := outcome_zero_of_ok hports hnr hn h
    have hmax : min ctx.nconnect ports.nr ≤ nfsMaxServers + 1 := by
      unfold nfsMaxConnections at hnconnect
      unfold nfsMaxServers
      omega
    rw [createMultiServer_eq hports (pos_of_ne_zero hnr) (pos_of_ne_zero hn) rfl hmax hfirst
      (Nat.lt_succ_self _)] at h
    cases h
    exact ⟨rfl, altsAt_numbered _⟩

/-- **The servers of every mount are numbered.** -/
theorem mounted_numbered (h : Mounted server) : Numbered server := by
  induction h with
  | create hnconnect h => exact createMultiServer_numbered hnconnect h
  | clone _ h => exact cloneServer_numbered h

end

/-! ## Looking up a server -/

section

variable {sb server : NfsServer} {cache cache' : InodeCache} {nfsi : NfsInode} {dentry : Dentry} {inode : InodePtr}

theorem mem_servers : server ∈ sb.servers ↔ server = sb ∨ ∃ i : Nat, sb.altServer[i]? = some server := by
  rw [NfsServer.servers, List.mem_cons, List.mem_iff_getElem?]

theorem eq_first (hnone : sb.nrAltServers = 0) (hserver : server ∈ sb.servers) : server = sb := by
  rcases mem_servers.1 hserver with hfirst | ⟨i, hi⟩
  · exact hfirst
  have hlt := (List.getElem?_eq_some_iff.1 hi).1
  unfold NfsServer.nrAltServers at hnone
  omega

theorem Numbered.idx_le (h : Numbered sb) (hserver : server ∈ sb.servers) : server.idx ≤ sb.nrAltServers := by
  rcases mem_servers.1 hserver with rfl | ⟨i, hi⟩
  · rw [h.first]
    exact Nat.zero_le _
  · rw [h.alts i server hi]
    exact (List.getElem?_eq_some_iff.1 hi).1

theorem Numbered.serverOf_idx (h : Numbered sb) (hserver : server ∈ sb.servers)
    (hidx : nfsi.serverIdx1 = server.idx + 1) : nfsServerOf sb nfsi = some server := by
  unfold nfsServerOf
  rw [hidx]
  rcases mem_servers.1 hserver with rfl | ⟨i, hi⟩
  · rw [h.first]
    simp
  have hlt : i < sb.nrAltServers := (List.getElem?_eq_some_iff.1 hi).1
  rw [h.alts i server hi, if_pos (by omega), if_neg (by omega), ← hi]
  congr 1

theorem serverOf_isSome : (nfsServerOf sb nfsi).isSome = true := by
  unfold nfsServerOf
  split
  · rename_i hidx
    split
    · rfl
    have hlt : nfsi.serverIdx1 - 2 < sb.altServer.length := by
      have hle : nfsi.serverIdx1 - 1 ≤ sb.altServer.length := hidx.2
      omega
    rw [List.getElem?_eq_getElem hlt]
    rfl
  · rfl

theorem serverOf_single (hnone : sb.nrAltServers = 0) : nfsServerOf sb nfsi = some sb := by
  unfold nfsServerOf
  split
  · rw [if_pos (by omega)]
  · rfl

theorem getClientByDentry_negative (nfsi : NfsInode) (hneg : dentry.dInode = none)
    (hidx : nfsi.serverIdx1 = nfsMultipathGetClientIdxByDentry sb dentry) :
    nfsServerOf sb nfsi = nfsMultipathGetClientByDentry sb cache dentry := by
  unfold nfsMultipathGetClientByDentry
  by_cases hnone : sb.nrAltServers = 0
  · rw [if_pos hnone, serverOf_single hnone]
  have hlt : dentry.hash.val % (1 + sb.nrAltServers) < 1 + sb.nrAltServers := Nat.mod_lt _ (by omega)
  have hval : nfsMultipathGetClientIdxByDentry sb dentry = 1 + dentry.hash.val % (1 + sb.nrAltServers) := if_neg hnone
  rw [if_neg hnone, hneg]
  unfold nfsServerOf
  rw [hidx, if_pos (by omega)]
  split_ifs with hone
  · rw [if_neg (by omega)]
  · rw [if_pos (by omega)]

theorem getClientByDentry_isSome : (nfsMultipathGetClientByDentry sb cache dentry).isSome = true := by
  cases hdentry : dentry.dInode with
  | none =>
    rw [← getClientByDentry_negative { serverIdx1 := nfsMultipathGetClientIdxByDentry sb dentry } hdentry rfl]
    exact serverOf_isSome
  | some inode =>
    unfold nfsMultipathGetClientByDentry
    rw [hdentry]
    split
    · rfl
    · exact serverOf_isSome

theorem Instantiates.serverIdx1 {server : Option NfsServer} {dentry : Option Dentry}
    (h : Instantiates sb cache server dentry cache' inode) :
    (cache'.inodes inode).serverIdx1 = bindServerIdx1 sb server dentry (cache.inodes inode).serverIdx1 := by
  obtain ⟨fh, fattr, env, hnew, hregular, hget⟩ := h
  unfold nfsFhgetServer at hget
  rw [hnew] at hget
  split at hget
  · cases hget
  cases halloc : env.alloc with
  | none =>
    rw [halloc] at hget
    cases hget
  | some i =>
    rw [halloc] at hget
    cases hget
    simp [hregular]

theorem getClientByDentry_mem (hneg : dentry.dInode = none)
    (h : nfsMultipathGetClientByDentry sb cache dentry = some server) : server ∈ sb.servers := by
  rw [← getClientByDentry_negative { serverIdx1 := nfsMultipathGetClientIdxByDentry sb dentry } hneg rfl] at h
  unfold nfsServerOf at h
  split at h
  · split at h
    · cases h
      exact mem_servers.2 (.inl rfl)
    · exact mem_servers.2 (.inr ⟨_, h⟩)
  · cases h
    exact mem_servers.2 (.inl rfl)

theorem Numbered.serverOf_instantiates {dentry : Option Dentry} (h : Numbered sb) (hserver : server ∈ sb.servers)
    (hinst : Instantiates sb cache (some server) dentry cache' inode) :
    nfsServerOf sb (cache'.inodes inode) = some server := by
  by_cases hnone : sb.nrAltServers = 0
  · rw [serverOf_single hnone, eq_first hnone hserver]
  · refine h.serverOf_idx hserver ?_
    simp [hinst.serverIdx1, bindServerIdx1, if_pos (pos_of_ne_zero hnone)]

end

/-! ## The life of an inode -/

section

variable {sb : NfsServer} {cache cache' : InodeCache} {inode : InodePtr}

theorem fhgetServer_keeps {fh : FileHandle} {fattr : NfsFattr} {server : Option NfsServer} {dentry : Option Dentry}
    {env : FhgetEnv} (halloc : ∀ i ∈ env.alloc, i ∉ cache.live) (hlive : inode ∈ cache.live) :
    inode ∈ (nfsFhgetServer sb cache fh fattr server dentry env).1.live ∧
      (nfsFhgetServer sb cache fh fattr server dentry env).1.inodes inode = cache.inodes inode := by
  unfold nfsFhgetServer
  split
  · exact ⟨hlive, rfl⟩
  split
  · split <;> exact ⟨hlive, rfl⟩
  split
  · exact ⟨hlive, rfl⟩
  rename_i i hi
  have hne : inode ≠ i := by
    rintro rfl
    exact halloc inode hi hlive
  exact ⟨Finset.mem_insert_of_mem hlive, if_neg hne⟩

theorem inodeStep_keeps {e : InodeEvent} (hstep : inodeStep sb cache e = some cache') (hlive : inode ∈ cache.live)
    (hfree : e ≠ .free inode) : inode ∈ cache'.live ∧ cache'.inodes inode = cache.inodes inode := by
  cases e with
  | fhget fh fattr server dentry env =>
    rw [inodeStep] at hstep
    split at hstep
    · rename_i halloc
      cases hstep
      exact fhgetServer_keeps halloc hlive
    · cases hstep
  | unhash fh =>
    cases hstep
    exact ⟨hlive, rfl⟩
  | free i =>
    have hne : inode ≠ i := fun h => hfree (by rw [h])
    rw [inodeStep] at hstep
    split at hstep
    · cases hstep
      exact ⟨Finset.mem_erase.2 ⟨hne, hlive⟩, if_neg hne⟩
    · cases hstep

/-- The server of a file stays the same until its inode is freed. -/
theorem always_same_server {es : List InodeEvent} (hlive : inode ∈ cache.live)
    (hes : EachStep (inodeStep sb) (fun _ e => e ≠ .free inode) cache es) :
    Always (inodeStep sb) (fun c => nfsServerOf sb (c.inodes inode) = nfsServerOf sb (cache.inodes inode)) cache es := by
  refine always_of_eachStep (J := fun c => inode ∈ c.live ∧ c.inodes inode = cache.inodes inode) (fun hc hfree hstep => ?_)
    (fun hc => by rw [hc.2]) ⟨hlive, rfl⟩ hes
  obtain ⟨hlive', hsame⟩ := inodeStep_keeps hstep hc.1 hfree
  exact ⟨hlive', hsame.trans hc.2⟩

end

/-! ## All servers in use -/

section

variable {sb : NfsServer}

/-- **All servers are in use** just when there are not more than values of the hash. -/
theorem Numbered.spread_iff (h : Numbered sb) :
    (∀ server ∈ sb.servers, ∃ hash, ∀ cache, nfsMultipathGetClientByDentry sb cache { hash := hash } = some server) ↔
      sb.nrAltServers < 2 ^ 5 := by
  constructor
  · intro hall
    by_contra hmany
    -- the alternate with the number 32 is out of reach of a hash below 32
    have hlen : 31 < sb.altServer.length := by
      unfold NfsServer.nrAltServers at hmany
      omega
    have hget : sb.altServer[31]? = some sb.altServer[31] := List.getElem?_eq_getElem hlen
    obtain ⟨hash, hnamed⟩ := hall _ (mem_servers.2 (.inr ⟨31, hget⟩))
    have hidx : sb.altServer[31].idx = 32 := h.alts 31 _ hget
    have hmod : hash.val % (1 + sb.nrAltServers) = hash.val := Nat.mod_eq_of_lt (by omega)
    have hval : nfsMultipathGetClientIdxByDentry sb { hash := hash } = 1 + hash.val := by
      rw [nfsMultipathGetClientIdxByDentry, if_neg (by omega), hmod]
    have hat := hnamed { inodes := fun _ => {}, live := ∅, hashed := fun _ => none }
    rw [← getClientByDentry_negative { serverIdx1 := 1 + hash.val } rfl hval.symm] at hat
    unfold nfsServerOf at hat
    rw [if_pos (by dsimp only; omega)] at hat
    split at hat
    · have heq := congrArg NfsServer.idx (Option.some.inj hat)
      rw [h.first, hidx] at heq
      cases heq
    have hat' := h.alts _ _ hat
    dsimp only at hat'
    omega
  · intro hfew server hserver
    have hle : server.idx ≤ sb.nrAltServers := h.idx_le hserver
    refine ⟨⟨server.idx, by omega⟩, fun cache => ?_⟩
    rw [← getClientByDentry_negative { serverIdx1 := nfsMultipathGetClientIdxByDentry sb ⟨⟨server.idx, by omega⟩, none⟩ }
      rfl rfl]
    by_cases hnone : sb.nrAltServers = 0
    · rw [serverOf_single hnone, eq_first hnone hserver]
    refine h.serverOf_idx hserver ?_
    have hmod : server.idx % (1 + sb.nrAltServers) = server.idx := Nat.mod_eq_of_lt (by omega)
    simp [nfsMultipathGetClientIdxByDentry, hnone, hmod, add_comm]

end

/-- **The server of a file.**  On every mount and on every clone of one, files are bound to servers
and all servers are in use just when there are at most 32 servers: the hash of a dentry has five
bits. -/
theorem bindsFiles_iff (sb : NfsServer) (h : Mounted sb) : BindsFiles sb ↔ sb.nrAltServers < 2 ^ 5 := by
  have hnum : Numbered sb := mounted_numbered h
  refine ⟨fun hbinds => hnum.spread_iff.1 hbinds.spread, fun hfew => ⟨?_, ?_, ?_, ?_, hnum.spread_iff.2 hfew⟩⟩
  · exact fun cache cache' dentry inode server hserver hinst => hnum.serverOf_instantiates hserver hinst
  · intro earlier cache cache' dentry inode hneg hinst
    exact getClientByDentry_negative _ hneg hinst.serverIdx1
  · exact fun cache nfsi dentry => ⟨serverOf_isSome, getClientByDentry_isSome⟩
  · exact fun cache es inode hlive hes => always_same_server hlive hes

def manyPorts (n : Nat) : RpcPortgroup := { addrs := (List.range n).map fun i => { family := .inet, addr := i + 1 } }

def manyAddresses (n : Nat) : NfsFsContext where
  address := { family := .inet, addr := 1 }
  nconnect := n
  remotePorts := some (manyPorts n)
  remoteportsOffsetProvided := true

theorem manyAddresses_created (outcome : ServerOutcome) {n : Nat} (hpos : 0 < n) (hmax : n ≤ nfsMaxConnections)
    (hfirst : outcome 0 = none) :
    nfs4CreateMultiServer {} outcome (manyAddresses n) (n + 1) =
      some (.ok (some (primaryAt outcome (manyAddresses n) (manyPorts n) 0 n))) := by
  have hnr : (manyPorts n).nr = n := by simp [manyPorts, RpcPortgroup.nr]
  have hmin : min (manyAddresses n).nconnect (manyPorts n).nr = n := by
    rw [hnr]
    exact min_self n
  have hoffset : rpcCalcPortgroupOffset {} 0 (manyPorts n) true 0 = 0 := by simp [rpcCalcPortgroupOffset]
  have hservers : min (manyAddresses n).nconnect (manyPorts n).nr ≤ nfsMaxServers + 1 := by
    rw [hmin]
    exact Nat.le_succ_of_le hmax
  have heq : nfs4CreateMultiServer {} outcome (manyAddresses n) (n + 1) = _ :=
    createMultiServer_eq rfl (by omega) hpos hoffset hservers hfirst (Nat.lt_succ_self n)
  rwa [hmin] at heq

def fourAddresses : NfsServer :=
  primaryAt (fun idx => if idx = 2 then some .enomem else none) (manyAddresses 4) (manyPorts 4) 0 4

theorem fourAddresses_mounted : Mounted fourAddresses :=
  .create (by decide) (manyAddresses_created _ (by decide) (by decide) rfl)

/-- A clone of it whose first alternate fails has two servers left. -/
theorem bindsFiles_iff_cloned :
    ∃ sb, nfsCloneServer (fun path => if path = [0] then some .enomem else none) [] fourAddresses = .ok sb ∧
      sb.nrAltServers = 1 ∧ (BindsFiles sb ↔ sb.nrAltServers < 2 ^ 5) := by
  have hclone : nfsCloneServer (fun path => if path = [0] then some .enomem else none) [] fourAddresses = .ok _ := rfl
  exact ⟨_, hclone, rfl, bindsFiles_iff _ (.clone fourAddresses_mounted hclone)⟩

/-- With 33 addresses the last server is never named for a dentry. -/
theorem one_server_too_many :
    ∃ sb, nfs4CreateMultiServer {} (fun _ => none) (manyAddresses 33) 34 = some (.ok (some sb)) ∧
      sb.nrAltServers = 32 ∧ ¬ BindsFiles sb := by
  have hcreated := manyAddresses_created (fun _ => none) (n := 33) (by decide) (by decide) rfl
  refine ⟨_, hcreated, by decide, fun hbinds => ?_⟩
  have hnum := createMultiServer_numbered (by decide) hcreated
  exact absurd (hnum.spread_iff.1 hbinds.spread) (by decide)

end Vastnfs.Nfs
