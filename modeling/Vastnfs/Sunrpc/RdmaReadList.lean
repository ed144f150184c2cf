import Mathlib.Algebra.Order.Ring.Int
import Mathlib.Algebra.Order.Group.Nat
import Mathlib.Algebra.Order.BigOperators.Group.List

/-!
# Read lists of RPC-over-RDMA calls

The Read list of a transport header is counted and checked in a first pass over it
(`net/sunrpc/xprtrdma/svc_rdma_recvfrom.c`), and gathered into chunks, one per position, in two more
(`net/sunrpc/xprtrdma/svc_rdma_pcl.c`). The words of the header are in host order.

* `countReadSegments_spec`: the first pass, against the segments on the wire.
* `ReadGathered`, `CallGathered`: the chunks of a list of segments; `readGathered_loop`, `callGathered_loop`.
* `xdrCheckReadList_faithful`: nothing is lost just when all segments are of one kind and no length wraps.
-/

namespace Vastnfs.Sunrpc

open List Option

/-! ## Segments and chunks -/

structure SvcRdmaSegment where
  (rsHandle rsLength : BitVec 32)
  rsOffset : BitVec 64
deriving DecidableEq

structure ReadSegment where
  position : BitVec 32
  segment : SvcRdmaSegment
deriving DecidableEq

/-- `struct svc_rdma_chunk`; `room` is the number of segments it has been allocated for. -/
structure SvcRdmaChunk where
  chPosition : BitVec 32
  chLength : BitVec 32 := 0
  chSegments : List SvcRdmaSegment := []
  room : Nat
deriving DecidableEq

structure SvcRdmaPcl where
  clCount : Nat := 0
  clChunks : List SvcRdmaChunk := []
deriving DecidableEq

def pclAllocChunk (segcount : Nat) (position : BitVec 32) : SvcRdmaChunk := { chPosition := position, room := segcount }

def pclLookupPosition (pcl : SvcRdmaPcl) (position : BitVec 32) : Option SvcRdmaChunk :=
  pcl.clChunks.find? (·.chPosition = position)

/-- Where `pcl_insert_position` puts a chunk. -/
def insertPosition (chunk : SvcRdmaChunk) : List SvcRdmaChunk → List SvcRdmaChunk
  | [] => [chunk]
  | pos :: chunks => if chunk.chPosition < pos.chPosition then chunk :: pos :: chunks else pos :: insertPosition chunk chunks

def pclInsertPosition (pcl : SvcRdmaPcl) (chunk : SvcRdmaChunk) : SvcRdmaPcl :=
  { clCount := pcl.clCount + 1, clChunks := insertPosition chunk pcl.clChunks }

def SvcRdmaChunk.setReadSegment (chunk : SvcRdmaChunk) (seg : SvcRdmaSegment) : SvcRdmaChunk :=
  { chunk with chLength := chunk.chLength + seg.rsLength, chSegments := chunk.chSegments ++ [seg] }

/-- A segment added to the first chunk at a position. -/
def setAt (position : BitVec 32) (seg : SvcRdmaSegment) : List SvcRdmaChunk → List SvcRdmaChunk
  | [] => []
  | chunk :: chunks =>
    if chunk.chPosition = position then chunk.setReadSegment seg :: chunks else chunk :: setAt position seg chunks

/-! ## The passes over the list -/

/-- `xdr_decode_read_segment`, and where the list goes on. -/
def xdrDecodeReadSegment (p : List (BitVec 32)) : ReadSegment × List (BitVec 32) :=
  ({ position := p.getD 0 0
     segment := { rsHandle := p.getD 1 0, rsLength := p.getD 2 0, rsOffset := p.getD 3 0 ++ p.getD 4 0 } }, p.drop 5)

/-- The numbers of segments of the call and of the Read chunks, and the words behind the list; `p` is a list
discriminator that has been decoded, `stream` what is left of the header. -/
def xdrCountReadSegments (call read : Nat) (p : BitVec 32) : List (BitVec 32) → Option (Nat × Nat × List (BitVec 32))
  | position :: handle :: length :: offset :: offset' :: stream =>
    if p = 0#32 then some (call, read, position :: handle :: length :: offset :: offset' :: stream)
    else if position ≠ 0#32 ∧ position &&& 3#32 ≠ 0#32 then none
    else
      match stream with
      | [] => none
      | p :: stream =>
        if position ≠ 0#32 then xdrCountReadSegments call (read + 1) p stream
        else xdrCountReadSegments (call + 1) read p stream
  | stream => if p = 0#32 then some (call, read, stream) else none

section

-- whether there is memory for a chunk; no pass allocates two chunks for one position
variable (alloc : BitVec 32 → Bool)

def pclCallStep (segcount : Nat) (pcl : SvcRdmaPcl) (s : ReadSegment) : Option SvcRdmaPcl :=
  if s.position ≠ 0#32 then some pcl
  else if pcl.clChunks.isEmpty then
    if alloc s.position then
      let pcl := pclInsertPosition pcl (pclAllocChunk segcount s.position)
      some { pcl with clChunks := pcl.clChunks.modifyHead (·.setReadSegment s.segment) }
    else none
  else some { pcl with clChunks := pcl.clChunks.modifyHead (·.setReadSegment s.segment) }

def pclReadStep (segcount : Nat) (pcl : SvcRdmaPcl) (s : ReadSegment) : Option SvcRdmaPcl :=
  if s.position = 0#32 then some pcl
  else
    match pclLookupPosition pcl s.position with
    | some _ => some { pcl with clChunks := setAt s.position s.segment pcl.clChunks }
    | none =>
      if alloc s.position then
        let pcl := pclInsertPosition pcl (pclAllocChunk segcount s.position)
        some { pcl with clChunks := setAt s.position s.segment pcl.clChunks }
      else none

/-- The loops of `pcl_alloc_call` and `pcl_alloc_read`: so many turns from the start of the list. -/
def pclLoop (step : SvcRdmaPcl → ReadSegment → Option SvcRdmaPcl) : Nat → List (BitVec 32) → SvcRdmaPcl → Option SvcRdmaPcl
  | 0, _, pcl => some pcl
  | n + 1, p, pcl =>
    let (s, p) := xdrDecodeReadSegment (p.drop 1)
    (step pcl s).bind (pclLoop step n p)

def pclAllocCall (pcl : SvcRdmaPcl) (p : List (BitVec 32)) : Option SvcRdmaPcl :=
  pclLoop (pclCallStep alloc pcl.clCount) pcl.clCount p { pcl with clCount := 0 }

def pclAllocRead (pcl : SvcRdmaPcl) (p : List (BitVec 32)) : Option SvcRdmaPcl :=
  pclLoop (pclReadStep alloc pcl.clCount) pcl.clCount p { pcl with clCount := 0 }

/-- The parsed lists of a `struct svc_rdma_recv_ctxt`, and the rest of its stream. -/
structure ReadLists where
  (rcCallPcl rcReadPcl : SvcRdmaPcl)
  rcStream : List (BitVec 32)
deriving DecidableEq

/-- `xdr_check_read_list`, with the stream at the Read list. -/
def xdrCheckReadList (stream : List (BitVec 32)) : Option ReadLists :=
  match stream with
  | [] => none
  | p :: rest => do
    let (call, read, rcStream) ← xdrCountReadSegments 0 0 p rest
    let rcCallPcl ← pclAllocCall alloc { clCount := call } (p :: rest)
    let rcReadPcl ← pclAllocRead alloc { clCount := read } (p :: rest)
    some { rcCallPcl, rcReadPcl, rcStream }

end

/-! ## The segments on the wire -/

/-- The segments of a Read list, as the wire format has them. -/
def wireSegments : List (BitVec 32) → List ReadSegment
  | p :: position :: handle :: length :: offset :: offset' :: stream =>
    if p = 0#32 then []
    else { position, segment := { rsHandle := handle, rsLength := length, rsOffset := offset ++ offset' } } :: wireSegments stream
  | _ => []

def callSegments (xs : List ReadSegment) : List ReadSegment := xs.filter (·.position = 0#32)

def readSegments (xs : List ReadSegment) : List ReadSegment := xs.filter (·.position ≠ 0#32)

/-- **The first pass** counts the segments of both kinds. -/
theorem countReadSegments_spec {stream rest : List (BitVec 32)} {call read call' read' : Nat} {p : BitVec 32}
    (h : xdrCountReadSegments call read p stream = some (call', read', rest)) :
    call' = call + (callSegments (wireSegments (p :: stream))).length ∧
      read' = read + (readSegments (wireSegments (p :: stream))).length := by
  fun_induction xdrCountReadSegments call read p stream with
  | case1 call read position handle length offset offset' stream =>
    cases h
    simp [wireSegments, callSegments, readSegments]
  | case2 => cases h
  | case3 => cases h
  | case4 call read p hp position handle length offset offset' p' stream hnext hread ih
  | case5 call read p hp position handle length offset offset' p' stream hnext hread ih =>
    simp_all [wireSegments, callSegments, readSegments]
    omega
  | case6 =>
    cases h
    simp_all [wireSegments, callSegments, readSegments]
  | case7 => cases h

theorem pclLoop_eq (step : SvcRdmaPcl → ReadSegment → Option SvcRdmaPcl) {n : Nat} {p : List (BitVec 32)} (pcl : SvcRdmaPcl)
    (hn : n ≤ (wireSegments p).length) : pclLoop step n p pcl = ((wireSegments p).take n).foldlM step pcl := by
  induction n generalizing p pcl with
  | zero => rfl
  | succ n ih =>
    fun_cases wireSegments p with
    | case1 => simp [wireSegments] at hn
    | case2 p position handle length offset offset' stream hp =>
      simp only [wireSegments, if_neg hp, length_cons, Nat.add_le_add_iff_right] at hn
      simp only [pclLoop, xdrDecodeReadSegment, drop_one, tail_cons, take_succ_cons, foldlM_cons]
      exact congrArg _ (funext fun pcl => ih pcl hn)
    | case3 => simp_all [wireSegments]

/-! ## What the loops gather -/

def SvcRdmaChunk.wire (c : SvcRdmaChunk) : List ReadSegment := c.chSegments.map fun s => ⟨c.chPosition, s⟩

def totalLength (xs : List SvcRdmaSegment) : Nat := (xs.map fun s => s.rsLength.toNat).sum

/-- The chunk holds the segments of `xs` at its position. -/
structure Gathered (xs : List ReadSegment) (c : SvcRdmaChunk) : Prop where
  segments : c.wire = xs.filter (·.position = c.chPosition)
  length : c.chLength = BitVec.ofNat 32 (totalLength c.chSegments)

section

variable {xs : List ReadSegment} {s : ReadSegment} {c : SvcRdmaChunk} {chunks : List SvcRdmaChunk}
  {pcl pcl' : SvcRdmaPcl} {position : BitVec 32} {segcount : Nat} {alloc : BitVec 32 → Bool}

theorem wire_setReadSegment (hs : s.position = c.chPosition) : (c.setReadSegment s.segment).wire = c.wire ++ [s] := by
  simp [SvcRdmaChunk.wire, SvcRdmaChunk.setReadSegment, ← hs]

theorem Gathered.set (h : Gathered xs c) (hs : s.position = c.chPosition) :
    Gathered (xs ++ [s]) (c.setReadSegment s.segment) := by
  constructor
  · have hpos : (c.setReadSegment s.segment).chPosition = c.chPosition := rfl
    rw [wire_setReadSegment hs, h.segments, hpos]
    simp [hs]
  · simp [SvcRdmaChunk.setReadSegment, h.length, totalLength, BitVec.ofNat_add]

theorem Gathered.other (h : Gathered xs c) (hs : s.position ≠ c.chPosition) : Gathered (xs ++ [s]) c := by
  refine ⟨?_, h.length⟩
  rw [h.segments]
  simp [hs]

theorem Gathered.mem (h : Gathered xs c) (hs : s ∈ c.wire) : s ∈ xs ∧ s.position = c.chPosition := by
  rw [h.segments] at hs
  simpa using hs

theorem gathered_alloc {n : Nat} (h : ∀ s ∈ xs, s.position ≠ position) : Gathered xs (pclAllocChunk n position) := by
  constructor
  · have hnone : xs.filter (·.position = position) = [] := by simpa using h
    exact hnone.symm
  · rfl

/-- The call chunk of `xs`, if there is one. -/
structure CallGathered (xs : List ReadSegment) (segcount : Nat) (pcl : SvcRdmaPcl) : Prop where
  count : pcl.clCount = pcl.clChunks.length
  one : pcl.clChunks = [] ∧ callSegments xs = [] ∨
    ∃ c, pcl.clChunks = [c] ∧ c.chPosition = 0#32 ∧ c.room = segcount ∧ Gathered xs c

theorem CallGathered.step (h : CallGathered xs segcount pcl) (hstep : pclCallStep alloc segcount pcl s = some pcl') :
    CallGathered (xs ++ [s]) segcount pcl' := by
  unfold pclCallStep at hstep
  by_cases hpos : s.position = 0#32
  · rw [if_neg (not_not.2 hpos)] at hstep
    rcases h.one with ⟨hnil, hnone⟩ | ⟨c, hone, hc, hroom, hgathered⟩
    · have hnew : Gathered xs (pclAllocChunk segcount 0) := gathered_alloc fun x hx hzero => by
        have hmem : x ∈ callSegments xs := mem_filter.2 ⟨hx, by simpa using hzero⟩
        rw [hnone] at hmem
        cases hmem
      simp only [hnil, isEmpty_nil, if_true, pclInsertPosition, insertPosition, modifyHead_cons, hpos] at hstep
      split at hstep
      · cases hstep
        exact ⟨by simp [h.count, hnil], .inr ⟨_, rfl, rfl, rfl, hnew.set hpos⟩⟩
      · cases hstep
    · simp only [hone, isEmpty_cons, modifyHead_cons, Bool.false_eq_true, if_false] at hstep
      cases hstep
      exact ⟨by simpa [hone] using h.count, .inr ⟨_, rfl, hc, hroom, hgathered.set (hpos.trans hc.symm)⟩⟩
  · rw [if_pos hpos] at hstep
    cases hstep
    refine ⟨h.count, h.one.imp (fun hnil => ⟨hnil.1, ?_⟩) ?_⟩
    · rw [callSegments, filter_append, ← callSegments, hnil.2]
      simp [hpos]
    · rintro ⟨c, hone, hc, hroom, hgathered⟩
      exact ⟨c, hone, hc, hroom, hgathered.other (by rw [hc]; exact hpos)⟩

/-- The Read chunks of `xs`. -/
structure ReadGathered (xs : List ReadSegment) (segcount : Nat) (pcl : SvcRdmaPcl) : Prop where
  count : pcl.clCount = pcl.clChunks.length
  sorted : pcl.clChunks.Pairwise (·.chPosition < ·.chPosition)
  chunk : ∀ c ∈ pcl.clChunks, c.chPosition ≠ 0#32 ∧ c.room = segcount ∧ Gathered xs c
  all : (readSegments xs).Perm (pcl.clChunks.flatMap SvcRdmaChunk.wire)

theorem ReadGathered.unmet (h : ReadGathered xs segcount pcl) (hpos : position ≠ 0#32)
    (hnone : ∀ c ∈ pcl.clChunks, c.chPosition ≠ position) : ∀ x ∈ xs, x.position ≠ position := by
  intro x hx heq
  have hmem : x ∈ readSegments xs := mem_filter.2 ⟨hx, by simpa [heq] using hpos⟩
  obtain ⟨c, hc, hxc⟩ := mem_flatMap.1 (h.all.mem_iff.1 hmem)
  exact hnone c hc (((h.chunk c hc).2.2.mem hxc).2.symm.trans heq)

theorem insertPosition_eq (chunk : SvcRdmaChunk) : ∀ chunks : List SvcRdmaChunk, chunks.Pairwise (·.chPosition < ·.chPosition) →
    ∃ l₁ l₂, chunks = l₁ ++ l₂ ∧ insertPosition chunk chunks = l₁ ++ chunk :: l₂ ∧
      (∀ c ∈ l₁, c.chPosition ≤ chunk.chPosition) ∧ ∀ c ∈ l₂, chunk.chPosition < c.chPosition := by
  intro chunks hsorted
  induction chunks with
  | nil => exact ⟨[], [], by simp [insertPosition]⟩
  | cons pos chunks ih =>
    rw [pairwise_cons] at hsorted
    by_cases hlt : chunk.chPosition < pos.chPosition
    · refine ⟨[], pos :: chunks, rfl, by simp [insertPosition, hlt], by simp, ?_⟩
      exact forall_mem_cons.2 ⟨hlt, fun c hc => BitVec.lt_trans hlt (hsorted.1 c hc)⟩
    obtain ⟨l₁, l₂, heq, hins, hle, hgt⟩ := ih hsorted.2
    refine ⟨pos :: l₁, l₂, by rw [heq]; rfl, by simp [insertPosition, hlt, hins], ?_, hgt⟩
    exact forall_mem_cons.2 ⟨BitVec.not_lt.1 hlt, hle⟩

theorem ReadGathered.insert (h : ReadGathered xs segcount pcl) (hpos : position ≠ 0#32)
    (hnone : ∀ c ∈ pcl.clChunks, c.chPosition ≠ position) :
    ReadGathered xs segcount (pclInsertPosition pcl (pclAllocChunk segcount position)) := by
  obtain ⟨l₁, l₂, heq, hins, hle, hgt⟩ := insertPosition_eq (pclAllocChunk segcount position) pcl.clChunks h.sorted
  have hnew : Gathered xs (pclAllocChunk segcount position) := gathered_alloc (h.unmet hpos hnone)
  have hlt : ∀ c ∈ l₁, c.chPosition < position := fun c hc =>
    Std.lt_of_le_of_ne (hle c hc) (hnone c (heq ▸ mem_append_left _ hc))
  have hsorted := heq ▸ h.sorted
  rw [pairwise_append] at hsorted
  simp only [pclInsertPosition, hins]
  refine ⟨?_, ?_, ?_, ?_⟩
  · simp [h.count, heq, Nat.add_assoc]
  · exact pairwise_append.2 ⟨hsorted.1, pairwise_cons.2 ⟨hgt, hsorted.2.1⟩,
      fun c hc => forall_mem_cons.2 ⟨hlt c hc, hsorted.2.2 c hc⟩⟩
  · rw [forall_mem_append, forall_mem_cons]
    exact ⟨fun c hc => h.chunk c (heq ▸ mem_append_left _ hc), ⟨hpos, rfl, hnew⟩,
      fun c hc => h.chunk c (heq ▸ mem_append_right _ hc)⟩
  · have hall := h.all
    rw [heq] at hall
    simpa [SvcRdmaChunk.wire, pclAllocChunk] using hall

theorem setAt_eq (seg : SvcRdmaSegment) : ∀ chunks : List SvcRdmaChunk,
    (∃ c ∈ chunks, c.chPosition = position) → ∃ l₁ c l₂, chunks = l₁ ++ c :: l₂ ∧ c.chPosition = position ∧
      setAt position seg chunks = l₁ ++ c.setReadSegment seg :: l₂ := by
  intro chunks hc
  induction chunks with
  | nil => simp at hc
  | cons chunk chunks ih =>
    by_cases hpos : chunk.chPosition = position
    · exact ⟨[], chunk, chunks, rfl, hpos, by simp [setAt, hpos]⟩
    · obtain ⟨l₁, c, l₂, heq, hc, hset⟩ := ih (by simpa [hpos] using hc)
      exact ⟨chunk :: l₁, c, l₂, by rw [heq]; rfl, hc, by simp [setAt, hpos, hset]⟩

theorem ReadGathered.set (h : ReadGathered xs segcount pcl) (hpos : s.position ≠ 0#32)
    (hsome : ∃ c ∈ pcl.clChunks, c.chPosition = s.position) :
    ReadGathered (xs ++ [s]) segcount { pcl with clChunks := setAt s.position s.segment pcl.clChunks } := by
  obtain ⟨l₁, c, l₂, heq, hc, hset⟩ := setAt_eq s.segment pcl.clChunks hsome
  have hsorted := heq ▸ h.sorted
  rw [pairwise_append, pairwise_cons] at hsorted
  obtain ⟨hl₁, ⟨hcl₂, hl₂⟩, hcross⟩ := hsorted
  have hchunk : ∀ d ∈ l₁ ++ c :: l₂, d.chPosition ≠ 0#32 ∧ d.room = segcount ∧ Gathered xs d := heq ▸ h.chunk
  have hc' := hchunk c (by simp)
  have hother : ∀ d, d ∈ l₁ ∨ d ∈ l₂ → Gathered (xs ++ [s]) d := fun d hd => by
    refine (hchunk d (by simpa using hd.imp_right .inr)).2.2.other ?_
    rw [← hc]
    rcases hd with hd | hd
    · exact (BitVec.ne_of_lt (hcross d hd c (by simp))).symm
    · exact BitVec.ne_of_lt (hcl₂ d hd)
  simp only [hset]
  refine ⟨?_, ?_, ?_, ?_⟩
  · simp [h.count, heq]
  · exact pairwise_append.2 ⟨hl₁, pairwise_cons.2 ⟨hcl₂, hl₂⟩, fun d hd => forall_mem_cons.2
      ⟨hcross d hd c (by simp), fun e he => hcross d hd e (by simp [he])⟩⟩
  · rw [forall_mem_append, forall_mem_cons] at hchunk ⊢
    exact ⟨fun d hd => ⟨(hchunk.1 d hd).1, (hchunk.1 d hd).2.1, hother d (.inl hd)⟩, ⟨hc'.1, hc'.2.1, hc'.2.2.set hc.symm⟩,
      fun d hd => ⟨(hchunk.2.2 d hd).1, (hchunk.2.2 d hd).2.1, hother d (.inr hd)⟩⟩
  · have hall := h.all
    have hread : readSegments (xs ++ [s]) = readSegments xs ++ [s] := by simp [readSegments, hpos]
    rw [heq] at hall
    rw [hread]
    simp only [flatMap_append, flatMap_cons, wire_setReadSegment hc.symm] at hall ⊢
    calc readSegments xs ++ [s]
        _ |>.Perm ((l₁.flatMap SvcRdmaChunk.wire ++ (c.wire ++ l₂.flatMap SvcRdmaChunk.wire)) ++ [s]) := hall.append_right _
        _ |>.Perm (l₁.flatMap SvcRdmaChunk.wire ++ (c.wire ++ [s] ++ l₂.flatMap SvcRdmaChunk.wire)) := by
          simp only [append_assoc]
          exact (perm_append_comm.append_left _).append_left _

theorem ReadGathered.step (h : ReadGathered xs segcount pcl) (hstep : pclReadStep alloc segcount pcl s = some pcl') :
    ReadGathered (xs ++ [s]) segcount pcl' := by
  unfold pclReadStep at hstep
  split at hstep
  · rename_i hpos
    cases hstep
    refine ⟨h.count, h.sorted, fun c hc => ?_, ?_⟩
    · obtain ⟨hne, hroom, hgathered⟩ := h.chunk c hc
      exact ⟨hne, hroom, hgathered.other (by rw [hpos]; exact hne.symm)⟩
    · simpa [readSegments, hpos] using h.all
  rename_i hpos
  split at hstep
  · rename_i c hfound
    cases hstep
    exact h.set hpos ⟨c, mem_of_find?_eq_some hfound, by simpa using find?_some hfound⟩
  rename_i hnone
  have hnone' : ∀ c ∈ pcl.clChunks, c.chPosition ≠ s.position := by simpa [pclLookupPosition] using hnone
  split at hstep
  · cases hstep
    refine (h.insert hpos hnone').set hpos ⟨pclAllocChunk segcount s.position, ?_, rfl⟩
    obtain ⟨l₁, l₂, -, hins, -⟩ := insertPosition_eq (pclAllocChunk segcount s.position) pcl.clChunks h.sorted
    simp [pclInsertPosition, hins]
  · cases hstep

theorem foldlM_gathers {step : SvcRdmaPcl → ReadSegment → Option SvcRdmaPcl} {G : List ReadSegment → SvcRdmaPcl → Prop}
    (hstep : ∀ xs s pcl pcl', G xs pcl → step pcl s = some pcl' → G (xs ++ [s]) pcl') :
    ∀ (ys xs : List ReadSegment) (pcl pcl' : SvcRdmaPcl), G xs pcl → ys.foldlM step pcl = some pcl' → G (xs ++ ys) pcl' := by
  intro ys
  induction ys with
  | nil =>
    intro xs pcl pcl' h heq
    cases heq
    simpa using h
  | cons s ys ih =>
    intro xs pcl pcl' h heq
    obtain ⟨pcl₁, hs, hrest⟩ := bind_eq_some_iff.1 heq
    simpa using ih (xs ++ [s]) pcl₁ pcl' (hstep xs s pcl pcl₁ h hs) hrest

variable {alloc : BitVec 32 → Bool} {segcount : Nat} {ys : List ReadSegment} {pcl : SvcRdmaPcl}

theorem callGathered_loop (h : ys.foldlM (pclCallStep alloc segcount) {} = some pcl) : CallGathered ys segcount pcl :=
  foldlM_gathers (G := fun xs pcl => CallGathered xs segcount pcl) (fun _ _ _ _ hg hs => hg.step hs) ys [] {} pcl
    ⟨rfl, .inl ⟨rfl, rfl⟩⟩ h

theorem readGathered_loop (h : ys.foldlM (pclReadStep alloc segcount) {} = some pcl) : ReadGathered ys segcount pcl :=
  foldlM_gathers (G := fun xs pcl => ReadGathered xs segcount pcl) (fun _ _ _ _ hg hs => hg.step hs) ys [] {} pcl
    ⟨rfl, List.Pairwise.nil, by simp, by simp [readSegments]⟩ h

end

/-! ## What the Read list becomes -/

variable {alloc : BitVec 32 → Bool} {stream : List (BitVec 32)} {r : ReadLists}

/-- The chunks are those of the first segments of the list: as many as there are of the kind. -/
structure GatheredFrom (xs : List ReadSegment) (r : ReadLists) : Prop where
  call : CallGathered (xs.take (callSegments xs).length) (callSegments xs).length r.rcCallPcl
  noCall : callSegments xs = [] → r.rcCallPcl.clChunks = []
  read : ReadGathered (xs.take (readSegments xs).length) (readSegments xs).length r.rcReadPcl
  noRead : readSegments xs = [] → r.rcReadPcl = {}

theorem checkReadList_gathered (h : xdrCheckReadList alloc stream = some r) : GatheredFrom (wireSegments stream) r := by
  cases stream with
  | nil => cases h
  | cons p rest =>
    obtain ⟨⟨call, read, rcStream⟩, hcount, h⟩ := bind_eq_some_iff.1 h
    obtain ⟨callPcl, hcall, h⟩ := bind_eq_some_iff.1 h
    obtain ⟨readPcl, hread, h⟩ := bind_eq_some_iff.1 h
    cases h
    obtain ⟨hcall', hread'⟩ := countReadSegments_spec hcount
    simp only [Nat.zero_add] at hcall' hread'
    subst hcall' hread'
    simp only [pclAllocCall, pclAllocRead] at hcall hread
    rw [pclLoop_eq _ _ (by exact length_filter_le _ _)] at hcall hread
    refine ⟨callGathered_loop hcall, fun hnone => ?_, readGathered_loop hread, fun hnone => ?_⟩
    · rw [hnone] at hcall
      cases hcall
      rfl
    · rw [hnone] at hread
      cases hread
      rfl

/-- Every segment of the list is in just one chunk, in its order, and what the chunks say of themselves is true. -/
@[mk_iff losesNothing_def]
structure LosesNothing (xs : List ReadSegment) (r : ReadLists) : Prop where
  once : xs.Perm ((r.rcCallPcl.clChunks ++ r.rcReadPcl.clChunks).flatMap SvcRdmaChunk.wire)
  order : ∀ c ∈ r.rcCallPcl.clChunks ++ r.rcReadPcl.clChunks, c.wire.Sublist xs
  length : ∀ c ∈ r.rcCallPcl.clChunks ++ r.rcReadPcl.clChunks, c.chLength.toNat = totalLength c.chSegments
  call : r.rcCallPcl.clChunks.length ≤ 1 ∧ r.rcCallPcl.clChunks.flatMap SvcRdmaChunk.wire = callSegments xs
  sorted : r.rcReadPcl.clChunks.Pairwise (·.chPosition < ·.chPosition)

def lengthAt (xs : List ReadSegment) (position : BitVec 32) : Nat :=
  totalLength ((xs.filter (·.position = position)).map ReadSegment.segment)

variable {xs : List ReadSegment}

theorem CallGathered.flatMap_wire {segcount : Nat} {pcl : SvcRdmaPcl} (h : CallGathered xs segcount pcl) :
    pcl.clChunks.flatMap SvcRdmaChunk.wire = callSegments xs := by
  rcases h.one with ⟨hnil, hnone⟩ | ⟨c, hone, hc, -, hgathered⟩
  · rw [hnil, hnone]
    rfl
  · rw [hone, flatMap_singleton, hgathered.segments, hc]
    rfl

theorem Gathered.length_iff {c : SvcRdmaChunk} (h : Gathered xs c) :
    c.chLength.toNat = totalLength c.chSegments ↔ lengthAt xs c.chPosition < 2 ^ 32 := by
  have hsegs : c.chSegments = (xs.filter (·.position = c.chPosition)).map ReadSegment.segment := by
    rw [← h.segments]
    simp [SvcRdmaChunk.wire, Function.comp_def]
  rw [lengthAt, ← hsegs, h.length, BitVec.toNat_ofNat]
  omega

theorem length_callSegments_readSegments (xs : List ReadSegment) :
    (callSegments xs).length + (readSegments xs).length = xs.length := by
  simpa [callSegments, readSegments] using (xs.length_eq_length_filter_add fun s => decide (s.position = 0#32)).symm

theorem losesNothing_iff {m n : Nat} (hcall : CallGathered xs m r.rcCallPcl) (hread : ReadGathered xs n r.rcReadPcl) :
    LosesNothing xs r ↔ ∀ position, lengthAt xs position < 2 ^ 32 := by
  have hgathered : ∀ c ∈ r.rcCallPcl.clChunks ++ r.rcReadPcl.clChunks, Gathered xs c := by
    intro c hc
    rcases mem_append.1 hc with hc | hc
    · rcases hcall.one with ⟨hnil, -⟩ | ⟨d, hone, -, -, hd⟩
      · simp [hnil] at hc
      · simp only [hone, mem_singleton] at hc
        exact hc ▸ hd
    · exact (hread.chunk c hc).2.2
  constructor
  · intro h position
    by_cases hnone : xs.filter (·.position = position) = []
    · simp [lengthAt, hnone, totalLength]
    -- a segment at the position is in some chunk, and that chunk is at the position
    obtain ⟨s, hs⟩ := exists_mem_of_ne_nil _ hnone
    obtain ⟨hsxs, hspos⟩ := mem_filter.1 hs
    obtain ⟨c, hc, hsc⟩ := mem_flatMap.1 (h.once.mem_iff.1 hsxs)
    have hpos : c.chPosition = position := ((hgathered c hc).mem hsc).2.symm.trans (by simpa using hspos)
    exact hpos ▸ (hgathered c hc).length_iff.1 (h.length c hc)
  · intro h
    refine ⟨?_, fun c hc => ?_, fun c hc => (hgathered c hc).length_iff.2 (h _), ⟨?_, hcall.flatMap_wire⟩, hread.sorted⟩
    · rw [flatMap_append, hcall.flatMap_wire]
      have hsplit : (callSegments xs ++ readSegments xs).Perm xs := by
        simpa [callSegments, readSegments] using filter_append_perm (fun s => decide (s.position = 0#32)) xs
      exact hsplit.symm.trans (hread.all.append_left _)
    · rw [(hgathered c hc).segments]
      exact filter_sublist
    · rcases hcall.one with ⟨hnil, -⟩ | ⟨d, hone, -⟩
      · simp [hnil]
      · simp [hone]

theorem GatheredFrom.not_losesNothing (hfrom : GatheredFrom xs r) (hc : callSegments xs ≠ []) (hr : readSegments xs ≠ []) :
    ¬ LosesNothing xs r := by
  intro h
  -- both passes together see as many segments as there are, but each takes only those of its kind
  have hlen := h.once.length_eq
  rw [flatMap_append, hfrom.call.flatMap_wire, length_append, ← hfrom.read.all.length_eq] at hlen
  have hsum := length_callSegments_readSegments xs
  have hcall' := length_callSegments_readSegments (xs.take (callSegments xs).length)
  have hread' := length_callSegments_readSegments (xs.take (readSegments xs).length)
  rw [length_take] at hcall' hread'
  have hcpos := length_pos_iff.2 hc
  have hrpos := length_pos_iff.2 hr
  obtain ⟨c, hcn⟩ : ∃ c, (callSegments xs).length = c + 1 := ⟨_, (Nat.succ_pred_eq_of_pos hcpos).symm⟩
  obtain ⟨n, hrn⟩ : ∃ n, (readSegments xs).length = n + 1 := ⟨_, (Nat.succ_pred_eq_of_pos hrpos).symm⟩
  simp only [hcn, hrn] at hlen hcall' hread' hsum
  cases xs with
  | nil => cases hc rfl
  | cons x xs =>
    simp only [take_succ_cons] at hlen hcall' hread'
    by_cases hx : x.position = 0#32
    · simp only [callSegments, readSegments, filter_cons, hx, decide_true, if_true, length_cons, ne_eq,
        not_true_eq_false, decide_false, Bool.false_eq_true, if_false] at hlen hcall' hread' hsum
      omega
    simp only [callSegments, readSegments, filter_cons, hx, decide_false, Bool.false_eq_true, if_false, ne_eq,
      not_false_eq_true, decide_true, if_true, length_cons] at hlen hcall' hread' hsum
    omega

/-- **Read list parsing** loses nothing just when all segments of the list are of one kind, and the segments of no
position have 2^32 bytes or more. -/
theorem xdrCheckReadList_faithful (h : xdrCheckReadList alloc stream = some r) :
    LosesNothing (wireSegments stream) r ↔
      (callSegments (wireSegments stream) = [] ∨ readSegments (wireSegments stream) = []) ∧
        ∀ position, lengthAt (wireSegments stream) position < 2 ^ 32 := by
  have hfrom := checkReadList_gathered h
  set wire := wireSegments stream
  have hsum := length_callSegments_readSegments wire
  have hcall := hfrom.call
  have hread := hfrom.read
  by_cases hc : callSegments wire = []
  · rw [hc, length_nil, Nat.zero_add] at hsum
    rw [hsum, take_length] at hread
    have hcall' : CallGathered wire 0 r.rcCallPcl := ⟨hcall.count, .inl ⟨hfrom.noCall hc, hc⟩⟩
    rw [losesNothing_iff hcall' hread]
    simp [hc]
  by_cases hr : readSegments wire = []
  · rw [hr, length_nil, Nat.add_zero] at hsum
    rw [hsum, take_length] at hcall
    have hread' : ReadGathered wire 0 r.rcReadPcl := by
      rw [hfrom.noRead hr]
      exact ⟨rfl, List.Pairwise.nil, by simp, by simp [hr]⟩
    rw [losesNothing_iff hcall hread']
    simp [hr]
  · simp only [hc, hr, false_or, false_and, iff_false]
    exact hfrom.not_losesNothing hc hr

def mixedReadList : List (BitVec 32) := [1, 0, 7, 8, 0, 0, 1, 4, 9, 8, 0, 0, 0]

instance (xs : List ReadSegment) (r : ReadLists) : Decidable (LosesNothing xs r) :=
  decidable_of_iff' _ (losesNothing_def xs r)

/-- The list is accepted, and the pass for the Read chunks misses its segment. -/
theorem xdrCheckReadList_loses : ∃ r, xdrCheckReadList (fun _ => true) mixedReadList = some r ∧
    r.rcReadPcl.clChunks = [] ∧ ¬ LosesNothing (wireSegments mixedReadList) r :=
  ⟨_, rfl, by decide, by decide⟩

theorem lengthAt_le (xs : List ReadSegment) (position : BitVec 32) :
    lengthAt xs position ≤ totalLength (xs.map ReadSegment.segment) :=
  ((filter_sublist.map _).map _).sum_le_sum (by simp)

/-- Segments at the positions 8, 4 and 8 come to lie in two chunks. -/
theorem xdrCheckReadList_faithful_sample : ∃ r,
    xdrCheckReadList (fun _ => true) [1, 8, 7, 8, 0, 0, 1, 4, 9, 8, 0, 0, 1, 8, 3, 8, 0, 0, 0] = some r ∧
      r.rcReadPcl.clChunks.map (·.chPosition) = [4, 8] ∧
      LosesNothing (wireSegments [1, 8, 7, 8, 0, 0, 1, 4, 9, 8, 0, 0, 1, 8, 3, 8, 0, 0, 0]) r :=
  ⟨_, rfl, by decide, (@xdrCheckReadList_faithful (fun _ => true) _ _ rfl).2
    ⟨by decide, fun position => Nat.lt_of_le_of_lt (lengthAt_le _ position) (by decide)⟩⟩

end Vastnfs.Sunrpc
