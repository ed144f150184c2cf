import Vastnfs.Lib.Bytes

/-!
# Sending a reply over TCP

`svc_tcp_sendmsg` of `net/sunrpc/svcsock.c` sends a record marker and the parts of the reply one after
the other; `svc_tcp_sendto` closes the connection unless all of it was sent.

* `sendsReply_iff`: when the stream gets the reply as it was encoded.
-/

namespace Vastnfs.Sunrpc

open List Bytes

/-- The `struct xdr_buf` of a reply. Byte `i` of page `n` is `pages (4096 * n + i)`. -/
structure ReplyBuf where
  (head tail : List (BitVec 8))
  pages : Nat → BitVec 8
  (pageBase pageLen : Nat)
  small : head.length + pageLen + tail.length < 2 ^ 32

def ReplyBuf.pageBytes (xdr : ReplyBuf) (base : Nat) : List (BitVec 8) := slice xdr.pages base xdr.pageLen

def ReplyBuf.len (xdr : ReplyBuf) : Nat := xdr.head.length + xdr.pageLen + xdr.tail.length

/-- `RPC_LAST_STREAM_FRAGMENT` and the length, in network order. -/
def ReplyBuf.marker (xdr : ReplyBuf) : List (BitVec 8) :=
  [24, 16, 8, 0].map ((0x80000000#32 ||| BitVec.ofNat 32 xdr.len).extractLsb' · 8)

/-- What follows when a send takes less than it was given. -/
inductive OnShort where
  | eagain | out | goOn

/-- A call of `kernel_sendmsg`, `sock_sendmsg` or `kernel_sendpage`. -/
structure SockSend where
  bytes : List (BitVec 8)
  onShort : OnShort

/-- What it returns: an error, or what the socket took. After the last of `answers` the socket takes everything. -/
def SockSend.ret (p : SockSend) (answers : List (Option Nat)) : Option Nat :=
  (answers.head?.getD (some p.bytes.length)).map (min p.bytes.length)

/-- The sends in their order: whether none returned an error, and the stream. `*sentp` is what was added to it. -/
def sockSends : List SockSend → List (Option Nat) → List (BitVec 8) → Bool × List (BitVec 8)
  | [], _, stream => (true, stream)
  | p :: ps, answers, stream =>
    match p.ret answers with
    | none => (false, stream)
    | some ret =>
      let stream' := stream ++ p.bytes.take ret
      if ret = p.bytes.length then sockSends ps answers.tail stream'
      else
        match p.onShort with
        | .eagain => (false, stream')
        | .out => (true, stream')
        | .goOn => sockSends ps answers.tail stream'

inductive SendBuild where
  | splicePages | sendpage

def sendpageLoop (pages : Nat → BitVec 8) (bvec : Nat) (offset : Fin 4096) (remaining : Nat) : List SockSend :=
  if remaining = 0 then []
  else
    let len := min remaining (4096 - offset)
    ⟨slice pages (4096 * bvec + offset) len, .out⟩ :: sendpageLoop pages (bvec + 1) 0 (remaining - len)
termination_by remaining
decreasing_by have := offset.isLt; omega

variable (build : SendBuild) (xdr : ReplyBuf)

def pageSends : List SockSend :=
  match build with
  -- `iov_iter_bvec` begins with the first byte of `bvec`
  | .splicePages => [⟨xdr.pageBytes 0, .goOn⟩]
  | .sendpage => sendpageLoop xdr.pages (xdr.pageBase / 4096) (Fin.ofNat 4096 xdr.pageBase) xdr.pageLen

def replySends : List SockSend :=
  ⟨xdr.marker, .eagain⟩ :: ⟨xdr.head, .out⟩ ::
    (pageSends build xdr ++ if xdr.tail = [] then [] else [⟨xdr.tail, .goOn⟩])

def svcTcpSendmsg (answers : List (Option Nat)) : Bool × List (BitVec 8) := sockSends (replySends build xdr) answers []

/-- The stream, and whether the connection is closed. `sent` has 32 bits. -/
def svcTcpSendto (answers : List (Option Nat)) : List (BitVec 8) × Bool :=
  let (ok, stream) := svcTcpSendmsg build xdr answers
  (stream, !ok || stream.length % 2 ^ 32 ≠ xdr.len + 4)

/-! ## Complete and short sends -/

def complete : List SockSend → List (Option Nat) → Bool
  | [], _ => true
  | p :: ps, answers => p.ret answers = some p.bytes.length && complete ps answers.tail

def sentBytes (ps : List SockSend) : List (BitVec 8) := ps.flatMap SockSend.bytes

theorem sockSends_spec (ps : List SockSend) (answers : List (Option Nat)) (stream : List (BitVec 8)) :
    (complete ps answers = true → sockSends ps answers stream = (true, stream ++ sentBytes ps)) ∧
      (complete ps answers = false → (sockSends ps answers stream).1 = true →
        (sockSends ps answers stream).2.length < stream.length + (sentBytes ps).length) := by
  induction ps generalizing answers stream with
  | nil => simp [sockSends, complete, sentBytes]
  | cons p ps ih =>
    have hbytes : sentBytes (p :: ps) = p.bytes ++ sentBytes ps := rfl
    rw [hbytes, sockSends, complete, length_append]
    cases hret : p.ret answers with
    | none => simp
    | some ret =>
      obtain ⟨hall, hshort⟩ := ih answers.tail (stream ++ p.bytes.take ret)
      by_cases hfull : ret = p.bytes.length
      · simp_all [Nat.add_assoc]
      have hlt : ret < p.bytes.length := by
        obtain ⟨n, -, rfl⟩ := Option.map_eq_some_iff.1 hret
        omega
      simp only [length_append, length_take, Nat.min_eq_left hlt.le] at hshort
      cases p.onShort with
      | eagain => simp [hfull]
      | out => simp [hfull]; omega
      | goOn =>
        cases hrest : complete ps answers.tail with
        | true => simp [hfull, hall hrest]; omega
        | false => simp [hfull]; intro hok; have := hshort hrest hok; omega

/-! ## The reply on the stream -/

theorem sentBytes_sendpageLoop (pages : Nat → BitVec 8) (bvec : Nat) (offset : Fin 4096) (remaining : Nat) :
    sentBytes (sendpageLoop pages bvec offset remaining) = slice pages (4096 * bvec + offset) remaining := by
  fun_induction sendpageLoop pages bvec offset remaining with
  | case1 => rfl
  | case2 bvec offset remaining hpos len ih =>
    rw [sentBytes, flatMap_cons, ← sentBytes, ih]
    rcases Nat.le_total remaining (4096 - offset) with hlast | hmore
    · simp [len, hlast]
    · have hlen : len = 4096 - offset := Nat.min_eq_right hmore
      have hnext : 4096 * (bvec + 1) + (0 : Fin 4096).val = 4096 * bvec + offset + len := by
        rw [hlen, Fin.val_zero]
        omega
      rw [hnext, slice_append, Nat.add_sub_cancel' (by omega)]

/-- The stream gets the reply if all sends are complete; otherwise the connection is closed. -/
def SendsReply : Prop :=
  ∀ answers, if complete (replySends build xdr) answers then
    (svcTcpSendto build xdr answers).1 = xdr.marker ++ xdr.head ++ xdr.pageBytes xdr.pageBase ++ xdr.tail
  else (svcTcpSendto build xdr answers).2 = true

/-- **The reply is sent as it was encoded** by `kernel_sendpage`, and with `MSG_SPLICE_PAGES` just when the pages begin
with the data. -/
theorem sendsReply_iff : SendsReply build xdr ↔ build = .sendpage ∨ xdr.pageBytes 0 = xdr.pageBytes xdr.pageBase := by
  obtain ⟨base, hpages, hbase⟩ : ∃ base, sentBytes (pageSends build xdr) = xdr.pageBytes base ∧
      (build = .sendpage ∨ xdr.pageBytes 0 = xdr.pageBytes xdr.pageBase ↔ xdr.pageBytes base = xdr.pageBytes xdr.pageBase) := by
    cases build with
    | splicePages => exact ⟨0, append_nil _, by simp⟩
    | sendpage =>
      refine ⟨xdr.pageBase, ?_, by simp⟩
      rw [pageSends, sentBytes_sendpageLoop, Fin.val_ofNat, Nat.div_add_mod, ReplyBuf.pageBytes]
  have htail : sentBytes (if xdr.tail = [] then [] else [⟨xdr.tail, .goOn⟩]) = xdr.tail := by
    split_ifs with hnil
    · exact hnil.symm
    · exact append_nil _
  have hbytes : sentBytes (replySends build xdr) = xdr.marker ++ xdr.head ++ xdr.pageBytes base ++ xdr.tail := by
    simp only [sentBytes, replySends, flatMap_cons, flatMap_append] at hpages htail ⊢
    simp [hpages, htail]
  have hspec := fun answers => sockSends_spec (replySends build xdr) answers []
  rw [hbase]
  constructor
  · intro h
    have hall : complete (replySends build xdr) [] = true := by
      generalize replySends build xdr = ps
      induction ps with
      | nil => rfl
      | cons p ps ih => simpa [complete, SockSend.ret] using ih
    have hstream := h []
    rw [if_pos hall, svcTcpSendto, svcTcpSendmsg, (hspec []).1 hall, hbytes] at hstream
    simpa using hstream
  · intro hsame answers
    split_ifs with hall
    · rw [svcTcpSendto, svcTcpSendmsg, (hspec answers).1 hall, hbytes, hsame]
      rfl
    · have hlen : (sentBytes (replySends build xdr)).length = xdr.len + 4 := by
        simp [hbytes, ReplyBuf.marker, ReplyBuf.len, ReplyBuf.pageBytes]
        omega
      have hlt := (hspec answers).2 (by simpa using hall)
      rw [hlen, length_nil, Nat.zero_add] at hlt
      rw [svcTcpSendto, svcTcpSendmsg]
      generalize sockSends (replySends build xdr) answers [] = r at hlt ⊢
      obtain ⟨_ | _, stream⟩ := r
      · rfl
      · have hfew := hlt rfl
        have hmod := Nat.mod_le stream.length (2 ^ 32)
        simp at hmod hfew ⊢
        omega

/-- A page that begins with 0, 1, and a reply of its second byte. -/
theorem sendsReply_fails : ¬ SendsReply .splicePages ⟨[], [], BitVec.ofNat 8, 1, 1, by decide⟩ := by
  intro h
  exact absurd (h []) (by decide)

end Vastnfs.Sunrpc
