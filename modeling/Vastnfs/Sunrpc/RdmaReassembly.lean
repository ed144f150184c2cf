import Vastnfs.Lib.Bytes
import Vastnfs.Sunrpc.RdmaPull

/-!
# Reassembling an RPC-over-RDMA call

What `svc_rdma_process_read_list` (`net/sunrpc/xprtrdma/svc_rdma_rw.c`) makes of each kind of call.

* `callPlan`: the Reads of a call chunk and the Read chunks in it; `readCallChunk_eq`.
* `callPlan_total_ne`: with a Read chunk in it they never have the length of the call.
* `weave`, `RecvCall.message`: what the call should be.
* `RecvCall.Reassembled`, `RecvCall.Contained`: it is put together, and no page or length goes out of bounds.
-/

namespace Vastnfs.Sunrpc

open List
open BitVec (ofNat toNat_ofNat ofNat_add toNat_sub_of_le le_def lt_def ofNat_toNat setWidth_eq toNat_add)

/-! ## The Reads of a call chunk -/

section

variable {remote : RemoteMemory} {n : Nat} {info : SvcRdmaReadInfo} {segs : List SvcRdmaSegment}

/-- The Reads of `svc_rdma_read_chunk_range`. -/
def dummies : List SvcRdmaSegment → (offset length : BitVec 32) → List SvcRdmaSegment
  | [], _, _ => []
  | seg :: segs, offset, length =>
    if seg.rsLength < offset then dummies segs (offset - seg.rsLength) length
    else rangeDummy seg offset length :: dummies segs 0 (length - (rangeDummy seg offset length).rsLength)

/-- Reads in a row, and whether all is done behind them. -/
structure ReadPlan where
  reads : List SvcRdmaSegment
  complete : Bool

def ReadPlan.of (segs : List SvcRdmaSegment) : ReadPlan := ⟨segs, !segs.isEmpty⟩

/-- One plan, and if it is complete the other one. -/
def ReadPlan.seq (plan rest : ReadPlan) : ReadPlan :=
  if plan.complete then ⟨plan.reads ++ rest.reads, rest.complete⟩ else plan

/-- The Reads from some chunk on, `total` bytes behind the start. -/
def loopPlan (call : SvcRdmaChunk) : List SvcRdmaChunk → (start length total : BitVec 32) → ReadPlan
  | [], start, length, _ => .of (dummies call.chSegments (start + length) (call.chLength - (start + length)))
  | [chunk], start, length, _ =>
    (ReadPlan.of chunk.chSegments).seq <|
      .of (dummies call.chSegments (start + length) (call.chLength - (start + length)))
  | chunk :: next :: chunks, start, length, total =>
    let total := total + BitVec.ofNat 32 (totalLength chunk.chSegments)
    let piece := dummies call.chSegments (start + length) (next.chPosition - total)
    (ReadPlan.of chunk.chSegments).seq <| (ReadPlan.of piece).seq <|
      loopPlan call (next :: chunks) (start + length) (next.chPosition - total)
        (total + BitVec.ofNat 32 (totalLength piece))

def callPlan (call : SvcRdmaChunk) (reads : List SvcRdmaChunk) : ReadPlan :=
  if reads.isEmpty then .of call.chSegments
  else
    let position := firstPosition reads
    let piece := dummies call.chSegments 0 position
    (ReadPlan.of piece).seq (loopPlan call reads 0 position (BitVec.ofNat 32 (totalLength piece)))

/-- The Reads are built, and then the call is complete or not. -/
def runPlan (remote : RemoteMemory) (n : Nat) (plan : ReadPlan) (info : SvcRdmaReadInfo) :
    SvcRdmaReadInfo × Option ReadFailure :=
  match buildSegments remote n plan.reads info with
  | (info, some e) => (info, some e)
  | (info, none) => (info, if plan.complete then none else some .einval)

theorem buildSegments_append (xs ys : List SvcRdmaSegment) (info : SvcRdmaReadInfo) :
    buildSegments remote n (xs ++ ys) info =
      match buildSegments remote n xs info with
      | (info, some e) => (info, some e)
      | (info, none) => buildSegments remote n ys info := by
  induction xs generalizing info with
  | nil => rfl
  | cons seg xs ih =>
    rw [cons_append, buildSegments, buildSegments]
    split
    · rfl
    · rw [ih]

theorem total_buildSges (seg : SvcRdmaSegment) (nents len done : Nat) (info : SvcRdmaReadInfo) :
    (buildSges remote n seg nents len done info).1.riTotalbytes = info.riTotalbytes := by
  induction nents generalizing len done info with
  | zero => rfl
  | succ nents ih =>
    rw [buildSges]
    split
    · exact put_total
    · rw [ih, put_total]

theorem of_buildSegments (h : (buildSegments remote n segs info).2 = none) :
    (buildSegments remote n segs info).1.riTotalbytes = info.riTotalbytes + ofNat 32 (totalLength segs) ∧
      ∀ seg ∈ segs, seg.rsLength ≠ 0 := by
  induction segs generalizing info with
  | nil => exact ⟨by simp [buildSegments, totalLength], nofun⟩
  | cons seg segs ih =>
    have hone : ∀ info', svcRdmaBuildReadSegment remote n info seg = (info', none) →
        info'.riTotalbytes = info.riTotalbytes ∧ seg.rsLength ≠ 0 := by
      intro info' heq
      have htotal := @total_buildSges remote n seg (pagesFor (info.riPageoff + seg.rsLength.toNat)) seg.rsLength.toNat 0 info
      unfold svcRdmaBuildReadSegment at heq
      dsimp only at heq
      split at heq
      · cases heq
      rename_i hsges
      rw [hsges] at htotal
      obtain ⟨rfl, hnone⟩ := Prod.mk.inj heq
      refine ⟨htotal, fun hzero => ?_⟩
      rw [if_pos (.inr hzero)] at hnone
      cases hnone
    rw [buildSegments] at h ⊢
    cases hout : svcRdmaBuildReadSegment remote n info seg with
    | mk info' e =>
      cases e with
      | some e =>
        rw [hout] at h
        cases h
      | none =>
        obtain ⟨htotal, hseg⟩ := hone info' hout
        rw [hout] at h
        obtain ⟨hrest, hsegs⟩ := ih h
        refine ⟨hrest.trans ?_, forall_mem_cons.2 ⟨hseg, hsegs⟩⟩
        simp [totalLength, htotal, ofNat_add, BitVec.add_assoc]

theorem readRange_eq (offset length : BitVec 32) (ret : Option ReadFailure) (info : SvcRdmaReadInfo) :
    readRange remote n segs offset length ret info =
      if (dummies segs offset length).isEmpty then (info, ret)
      else buildSegments remote n (dummies segs offset length) info := by
  induction segs generalizing offset length ret info with
  | nil => rfl
  | cons seg segs ih =>
    rw [readRange, dummies]
    split
    · exact ih _ _ _ _
    simp only [isEmpty_cons, Bool.false_eq_true, if_false, buildSegments]
    split
    · rfl
    rw [ih]
    split_ifs with hempty
    · rw [isEmpty_iff.1 hempty, buildSegments]
    · rfl

theorem of_runPlan {plan : ReadPlan} {out : SvcRdmaReadInfo} (h : runPlan remote n plan info = (out, none)) :
    plan.complete = true ∧ out.riTotalbytes = info.riTotalbytes + ofNat 32 (totalLength plan.reads) ∧
      ∀ seg ∈ plan.reads, seg.rsLength ≠ 0 := by
  have hreads := @of_buildSegments remote n info plan.reads
  rw [runPlan] at h
  cases hout : buildSegments remote n plan.reads info with
  | mk out' e =>
    rw [hout] at h hreads
    cases e with
    | some e => cases h
    | none =>
      obtain ⟨rfl, hnone⟩ := Prod.mk.inj h
      refine ⟨?_, hreads rfl⟩
      by_contra hincomplete
      rw [if_neg hincomplete] at hnone
      cases hnone

theorem runPlan_seq (plan rest : ReadPlan) (info : SvcRdmaReadInfo) :
    runPlan remote n (plan.seq rest) info =
      match runPlan remote n plan info with
      | (info, some e) => (info, some e)
      | (info, none) => runPlan remote n rest info := by
  unfold ReadPlan.seq
  split_ifs with hcomplete
  · simp only [runPlan, buildSegments_append, if_pos hcomplete]
    cases buildSegments remote n plan.reads info with
    | mk info' e => cases e <;> rfl
  simp only [runPlan, if_neg hcomplete]
  cases buildSegments remote n plan.reads info with
  | mk info' e => cases e <;> rfl

theorem runPlan_of (segs : List SvcRdmaSegment) (info : SvcRdmaReadInfo) :
    runPlan remote n (.of segs) info =
      if segs.isEmpty then (info, some .einval) else buildSegments remote n segs info := by
  unfold runPlan ReadPlan.of
  cases segs with
  | nil => rfl
  | cons seg segs =>
    cases buildSegments remote n (seg :: segs) info with
    | mk info' e => cases e <;> rfl

theorem buildReadChunk_eq (chunk : SvcRdmaChunk) (info : SvcRdmaReadInfo) :
    svcRdmaBuildReadChunk remote n info chunk = runPlan remote n (.of chunk.chSegments) info := by
  rw [svcRdmaBuildReadChunk, runPlan_of]

theorem readChunkRange_eq (chunk : SvcRdmaChunk) (offset length : BitVec 32) (info : SvcRdmaReadInfo) :
    svcRdmaReadChunkRange remote n info chunk offset length =
      runPlan remote n (.of (dummies chunk.chSegments offset length)) info := by
  rw [svcRdmaReadChunkRange, readRange_eq, runPlan_of]

theorem chunkLoop_eq (call : SvcRdmaChunk) (chunks : List SvcRdmaChunk) (start length : BitVec 32) (info : SvcRdmaReadInfo) :
    chunkLoop remote n (fun info => svcRdmaReadChunkRange remote n info call) call.chLength chunks start length info =
      runPlan remote n (loopPlan call chunks start length info.riTotalbytes) info := by
  induction chunks generalizing start length info with
  | nil => rw [chunkLoop, loopPlan, readChunkRange_eq]
  | cons chunk chunks ih =>
    rw [chunkLoop, buildReadChunk_eq]
    cases chunks with
    | nil =>
      rw [loopPlan, runPlan_seq]
      cases runPlan remote n (.of chunk.chSegments) info with
      | mk info₁ e =>
        cases e with
        | some e => rfl
        | none => exact readChunkRange_eq _ _ _ _
    | cons next chunks =>
      rw [loopPlan, runPlan_seq]
      cases hchunk : runPlan remote n (.of chunk.chSegments) info with
      | mk info₁ e =>
        cases e with
        | some e => rfl
        | none =>
          have htotal : info₁.riTotalbytes = info.riTotalbytes + ofNat 32 (totalLength chunk.chSegments) :=
            (of_runPlan hchunk).2.1
          simp only [runPlan_seq, readChunkRange_eq] at ih ⊢
          rw [htotal]
          generalize hpiece : dummies call.chSegments (start + length)
            (next.chPosition - (info.riTotalbytes + ofNat 32 (totalLength chunk.chSegments))) = piece
          cases hrange : runPlan remote n (.of piece) info₁ with
          | mk info₂ e =>
            cases e with
            | some e => rfl
            | none =>
              have htotal₂ : info₂.riTotalbytes = info₁.riTotalbytes + ofNat 32 (totalLength piece) :=
                (of_runPlan hrange).2.1
              dsimp only
              rw [ih, htotal₂, htotal]

theorem readCallChunk_eq (call : SvcRdmaChunk) (reads : List SvcRdmaChunk) (hinfo : info.riTotalbytes = 0) :
    svcRdmaReadCallChunk remote n info call reads = runPlan remote n (callPlan call reads) info := by
  unfold svcRdmaReadCallChunk callPlan
  split
  · exact buildReadChunk_eq _ _
  rw [runPlan_seq, interleave]
  simp only [readChunkRange_eq]
  generalize hposition : firstPosition reads = position
  cases hrange : runPlan remote n (.of (dummies call.chSegments 0 position)) info with
  | mk info₁ e =>
    cases e with
    | some e => rfl
    | none =>
      have htotal : info₁.riTotalbytes = ofNat 32 (totalLength (dummies call.chSegments 0 position)) := by
        simpa [hinfo, ReadPlan.of] using (of_runPlan hrange).2.1
      have hloop := @chunkLoop_eq remote n call reads 0 position info₁
      rw [htotal] at hloop
      exact hloop

end

/-! ## A call chunk around Read chunks -/

section

variable {segs : List SvcRdmaSegment} {call : SvcRdmaChunk} {start length total : BitVec 32}

theorem totalLength_cons (seg : SvcRdmaSegment) (segs : List SvcRdmaSegment) :
    totalLength (seg :: segs) = seg.rsLength.toNat + totalLength segs := by simp [totalLength]

theorem totalLength_nil : totalLength [] = 0 := rfl

theorem totalLength_append (xs ys : List SvcRdmaSegment) : totalLength (xs ++ ys) = totalLength xs + totalLength ys := by
  simp [totalLength]

/-- A range from the start, if each of its Reads has something to read: it ends in the last segment. -/
theorem dummies_from_start (hsegs : segs ≠ []) (h : ∀ seg ∈ dummies segs 0 length, seg.rsLength ≠ 0) :
    totalLength segs.dropLast < length.toNat ∧
      totalLength (dummies segs 0 length) = min length.toNat (totalLength segs) := by
  induction segs generalizing length with
  | nil => exact absurd rfl hsegs
  | cons seg segs ih =>
    have hnot : ¬ seg.rsLength < 0 := by simp
    rw [dummies, if_neg hnot] at h ⊢
    obtain ⟨hfirst, hrest⟩ := forall_mem_cons.1 h
    have hdummy : (rangeDummy seg 0 length).rsLength.toNat = min length.toNat seg.rsLength.toNat := by
      simp only [rangeDummy]
      split <;> rename_i hlt <;> rw [lt_def] at hlt <;> simp <;> omega
    have hpos : (rangeDummy seg 0 length).rsLength.toNat ≠ 0 := fun hzero => hfirst (BitVec.eq_of_toNat_eq hzero)
    rw [totalLength_cons, totalLength_cons, hdummy]
    have hleft : (length - (rangeDummy seg 0 length).rsLength).toNat = length.toNat - min length.toNat seg.rsLength.toNat := by
      rw [toNat_sub_of_le (by rw [le_def]; omega), hdummy]
    cases segs with
    | nil => simp [dummies, totalLength]; omega
    | cons next segs =>
      obtain ⟨hlast, htotal⟩ := ih (by simp) hrest
      rw [dropLast_cons_cons, totalLength_cons]
      omega

/-- A range that begins in the last segment and is no longer than it: its beginning is taken off once more. -/
theorem dummies_in_last (hlast : totalLength segs.dropLast < start.toNat) (hend : start.toNat ≤ totalLength segs)
    (hlength : totalLength segs.dropLast + length.toNat ≤ totalLength segs) :
    ofNat 32 (totalLength (dummies segs start length)) +
      ofNat 32 (start.toNat - totalLength segs.dropLast) = length := by
  induction segs generalizing start with
  | nil => simp [totalLength] at hlast hend; omega
  | cons seg segs ih =>
    have hall := totalLength_cons seg segs
    cases segs with
    | nil =>
      rw [hall, totalLength_nil] at hlength
      rw [hall, totalLength_nil] at hend
      have hnot : ¬ seg.rsLength < start := by
        rw [lt_def]
        omega
      have hmin : (if length < seg.rsLength then length else seg.rsLength) = length := by
        split_ifs with hlt
        · rfl
        · rw [lt_def] at hlt
          exact BitVec.eq_of_toNat_eq (by omega)
      rw [dummies, if_neg hnot, dummies, totalLength_cons, rangeDummy, hmin, dropLast_singleton, totalLength_nil,
        Nat.add_zero, Nat.sub_zero, ofNat_toNat, ofNat_toNat, setWidth_eq, setWidth_eq,
        BitVec.sub_add_cancel]
    | cons next segs =>
      have hdrop : totalLength (seg :: next :: segs).dropLast = seg.rsLength.toNat + totalLength (next :: segs).dropLast :=
        totalLength_cons _ _
      have hskip : seg.rsLength < start := by
        rw [lt_def]
        omega
      have hstart : (start - seg.rsLength).toNat = start.toNat - seg.rsLength.toNat :=
        toNat_sub_of_le (by rw [le_def]; omega)
      have hrest := @ih (start - seg.rsLength) (by omega) (by omega) (by omega)
      rw [hstart, Nat.sub_sub, ← hdrop] at hrest
      rw [dummies, if_pos hskip, hrest]

theorem dummies_behind (h : totalLength segs < start.toNat) : dummies segs start length = [] := by
  induction segs generalizing start with
  | nil => rfl
  | cons seg segs ih =>
    rw [totalLength_cons] at h
    have hskip : seg.rsLength < start := by
      rw [lt_def]
      omega
    have hstart : (start - seg.rsLength).toNat = start.toNat - seg.rsLength.toNat :=
      toNat_sub_of_le (by rw [le_def]; omega)
    rw [dummies, if_pos hskip]
    exact ih (by omega)

theorem complete_seq {plan rest : ReadPlan} (h : (plan.seq rest).complete = true) :
    plan.complete = true ∧ rest.complete = true ∧ (plan.seq rest).reads = plan.reads ++ rest.reads := by
  unfold ReadPlan.seq at h ⊢
  split_ifs at h with hplan
  · exact ⟨hplan, h, by rw [if_pos hplan]⟩
  · exact absurd h hplan

theorem within_of_complete {chunks : List SvcRdmaChunk} (hcomplete : (loopPlan call chunks start length total).complete = true) :
    (start + length).toNat ≤ totalLength call.chSegments := by
  refine not_lt.1 fun h => ?_
  have hempty : ∀ length', (ReadPlan.of (dummies call.chSegments (start + length) length')).complete ≠ true := fun length' => by
    rw [dummies_behind h]
    simp [ReadPlan.of]
  match chunks with
  | [] => exact hempty _ hcomplete
  | [chunk] => exact hempty _ (complete_seq hcomplete).2.1
  | chunk :: next :: chunks => exact hempty _ (complete_seq (complete_seq hcomplete).2.1).1

/-- The chunks stand in a message: `left` bytes of the call chunk are to come behind its first `done` bytes. -/
def PlacedFrom (left done : Nat) : List SvcRdmaChunk → Prop
  | [] => True
  | chunk :: chunks =>
    done ≤ chunk.chPosition.toNat ∧ chunk.chPosition.toNat - done ≤ left ∧
      PlacedFrom (left - (chunk.chPosition.toNat - done)) (chunk.chPosition.toNat + totalLength chunk.chSegments) chunks

def chunksLength (chunks : List SvcRdmaChunk) : Nat := (chunks.map fun chunk => totalLength chunk.chSegments).sum

/-- **A complete loop reads another number of bytes than the message has.**  `slack` is how far the cursor is behind the
position of the chunk; a later range begins at `start + length`, and loses as many bytes as it begins in the last segment. -/
theorem loopPlan_total_ne {chunk : SvcRdmaChunk} {chunks : List SvcRdmaChunk} {used slack all : Nat}
    (hall : totalLength call.chSegments = all) (hcall : call.chLength = ofNat 32 all)
    (hused : totalLength call.chSegments.dropLast < used) (hstart : used ≤ (start + length).toNat)
    (hslack : slack < 2 ^ 22) (htotal : total + ofNat 32 slack = chunk.chPosition)
    (hplaced : PlacedFrom (all - used) (chunk.chPosition.toNat + totalLength chunk.chSegments) chunks)
    (hle : used ≤ all) (hlong : all < 2 ^ 22)
    (hsmall : chunk.chPosition.toNat + chunksLength (chunk :: chunks) + (all - used) < 2 ^ 22)
    (hcomplete : (loopPlan call (chunk :: chunks) start length total).complete = true) :
    total + ofNat 32 (totalLength (loopPlan call (chunk :: chunks) start length total).reads) ≠
      chunk.chPosition + ofNat 32 (chunksLength (chunk :: chunks) + (all - used)) := by
  induction chunks generalizing chunk start length total used slack with
  | nil =>
    have hbefore := within_of_complete hcomplete
    have hreads : (loopPlan call [chunk] start length total).reads = _ := (complete_seq hcomplete).2.2
    rw [hreads]
    generalize start + length = s at *
    have hrest : (call.chLength - s).toNat = all - s.toNat := by
      rw [hcall, toNat_sub_of_le]
      · rw [toNat_ofNat, Nat.mod_eq_of_lt (by omega)]
      · rw [le_def, toNat_ofNat]
        omega
    have hpiece := @dummies_in_last call.chSegments s (call.chLength - s) (by omega) (by omega) (by omega)
    intro heq
    simp only [ReadPlan.of, totalLength_append, chunksLength, map_cons, map_nil, sum_cons, sum_nil,
      Nat.add_zero, ofNat_add] at heq
    have hshort : ofNat 32 (slack + (all - used) +
        (s.toNat - totalLength call.chSegments.dropLast)) = ofNat 32 (all - s.toNat) := by
      rw [ofNat_add, ofNat_add]
      grind
    have hshort' := congrArg BitVec.toNat hshort
    rw [toNat_ofNat, toNat_ofNat] at hshort'
    omega
  | cons next chunks ih =>
    have hbefore := within_of_complete hcomplete
    obtain ⟨hafter, hleft, hplaced⟩ := hplaced
    obtain ⟨-, hinner, hreads⟩ := complete_seq hcomplete
    obtain ⟨-, hrest, hreads'⟩ := complete_seq hinner
    rw [loopPlan, hreads, hreads']
    have hchunks : chunksLength (chunk :: next :: chunks) = totalLength chunk.chSegments + chunksLength (next :: chunks) := by
      simp [chunksLength]
    obtain ⟨gap, hgap⟩ := Nat.exists_eq_add_of_le hafter
    have hnext : next.chPosition = chunk.chPosition + ofNat 32 (totalLength chunk.chSegments) + ofNat 32 gap := by
      have := congrArg (ofNat 32) hgap
      simpa [ofNat_add] using this
    have hlength : next.chPosition - (total + ofNat 32 (totalLength chunk.chSegments)) = ofNat 32 (gap + slack) := by
      rw [ofNat_add]
      grind
    rw [hlength] at hrest ⊢
    -- a range that goes on behind the call chunk leaves nothing for the next one
    have hwithin := within_of_complete hrest
    have hsum : (start + length + ofNat 32 (gap + slack)).toNat = (start + length).toNat + (gap + slack) := by
      rw [BitVec.toNat_add_of_lt, toNat_ofNat, Nat.mod_eq_of_lt (by omega)]
      rw [toNat_ofNat]
      omega
    have hpiece := @dummies_in_last call.chSegments (start + length) (ofNat 32 (gap + slack)) (by omega) (by omega) (by
      rw [toNat_ofNat]
      omega)
    have hih := @ih (start + length) _ _ next (used + gap) ((start + length).toNat - totalLength call.chSegments.dropLast)
      (by omega) (by omega) (by omega) (by rw [← hpiece] at hlength; grind) (by
        rw [hgap, Nat.add_sub_cancel_left, Nat.sub_sub] at hplaced
        rwa [hgap]) (by omega) (by omega) hrest
    intro heq
    apply hih
    simp only [ReadPlan.of, totalLength_append, hchunks, ofNat_add] at heq ⊢
    have hrem : ofNat 32 (all - used) =
        ofNat 32 gap + ofNat 32 (all - (used + gap)) := by
      rw [← ofNat_add]
      congr 1
      omega
    grind

/-- **A complete plan of a call chunk with Read chunks** reads another number of bytes than the message has. -/
theorem callPlan_total_ne {reads : List SvcRdmaChunk} (hreads : reads ≠ [])
    (hcall : call.chLength = ofNat 32 (totalLength call.chSegments))
    (hplaced : PlacedFrom (totalLength call.chSegments) 0 reads)
    (hsmall : totalLength call.chSegments + chunksLength reads < 2 ^ 22) (hcomplete : (callPlan call reads).complete = true)
    (hzero : ∀ seg ∈ (callPlan call reads).reads, seg.rsLength ≠ 0) :
    ofNat 32 (totalLength (callPlan call reads).reads) ≠
      ofNat 32 (totalLength call.chSegments + chunksLength reads) := by
  cases reads with
  | nil => exact absurd rfl hreads
  | cons chunk chunks =>
    have hplan : callPlan call (chunk :: chunks) = (ReadPlan.of (dummies call.chSegments 0 chunk.chPosition)).seq
        (loopPlan call (chunk :: chunks) 0 chunk.chPosition
          (ofNat 32 (totalLength (dummies call.chSegments 0 chunk.chPosition)))) := rfl
    rw [hplan] at hcomplete hzero ⊢
    obtain ⟨hpiece, hloop, hall⟩ := complete_seq hcomplete
    rw [hall] at hzero ⊢
    have hsegs : call.chSegments ≠ [] := fun hnil => by
      rw [hnil] at hpiece
      cases hpiece
    obtain ⟨hlast, htotal⟩ := dummies_from_start hsegs fun seg hseg => hzero seg (mem_append_left _ hseg)
    obtain ⟨-, hposition, hplaced⟩ := hplaced
    rw [Nat.sub_zero] at hposition hplaced
    rw [Nat.min_eq_left hposition] at htotal
    have hpos : ofNat 32 (totalLength (dummies call.chSegments 0 chunk.chPosition)) = chunk.chPosition := by
      rw [htotal, ofNat_toNat, setWidth_eq]
    rw [hpos] at hloop ⊢
    have hne := loopPlan_total_ne rfl hcall hlast (by simp) (by omega : 0 < 2 ^ 22) (by simp) hplaced hposition (by omega)
      (by omega) hloop
    rw [totalLength_append, ofNat_add]
    change ofNat 32 (totalLength (dummies call.chSegments 0 chunk.chPosition)) + _ ≠ _
    rw [hpos]
    intro heq
    apply hne
    have hsplit : totalLength call.chSegments + chunksLength (chunk :: chunks) =
        chunk.chPosition.toNat + (chunksLength (chunk :: chunks) + (totalLength call.chSegments - chunk.chPosition.toNat)) := by
      omega
    rw [heq, hsplit, ofNat_add, ofNat_toNat, setWidth_eq]

end

/-! ## What the call should be -/

section

variable {remote : RemoteMemory} {base msg : List (BitVec 8)} {chunks : List SvcRdmaChunk}

/-- The bytes of `base` with the data of each chunk at its position, behind the first `done` bytes. -/
def weave (remote : RemoteMemory) : List (BitVec 8) → (done : Nat) → List SvcRdmaChunk → Option (List (BitVec 8))
  | base, _, [] => some base
  | base, done, chunk :: chunks =>
    if done ≤ chunk.chPosition.toNat ∧ chunk.chPosition.toNat - done ≤ base.length then
      (weave remote (base.drop (chunk.chPosition.toNat - done))
        (chunk.chPosition.toNat + totalLength chunk.chSegments) chunks).map fun rest =>
          base.take (chunk.chPosition.toNat - done) ++ (segmentBytes remote chunk.chSegments ++ rest)
    else none

theorem weave_spec {done : Nat} (h : weave remote base done chunks = some msg) :
    PlacedFrom base.length done chunks ∧ msg.length = base.length + chunksLength chunks := by
  induction chunks generalizing base done msg with
  | nil =>
    cases h
    exact ⟨trivial, rfl⟩
  | cons chunk chunks ih =>
    rw [weave] at h
    split at h
    · rename_i hplace
      obtain ⟨rest, hrest, rfl⟩ := Option.map_eq_some_iff.1 h
      obtain ⟨hplaced, hlength⟩ := ih hrest
      rw [length_drop] at hplaced hlength
      refine ⟨⟨hplace.1, hplace.2, hplaced⟩, ?_⟩
      simp only [length_append, length_take, length_segmentBytes, hlength, chunksLength, map_cons, sum_cons]
      omega
    · cases h

/-- What the call should be: the call chunk, if there is one, is at position zero. -/
def RecvCall.message (remote : RemoteMemory) (c : RecvCall) : Option (List (BitVec 8)) :=
  match c.call with
  | none => weave remote c.inline 0 c.reads
  | some call => weave remote (segmentBytes remote call.chSegments ++ c.inline) 0 c.reads

def RecvCall.pagedBytes (c : RecvCall) : Nat :=
  match c.call, c.reads with
  | none, [chunk] => totalLength chunk.chSegments
  | none, reads => c.inline.length + chunksLength reads
  | some call, reads => totalLength call.chSegments + c.inline.length + chunksLength reads

def RqArg.flatten (c : RecvCall) (info : SvcRdmaReadInfo) (arg : RqArg) : List (BitVec 8) :=
  ((List.range arg.headLen.toNat).map fun k => if arg.headIsPage then info.pages 0 k else c.recvBuf (c.header.length + k)) ++
    (((List.range arg.pageLen.toNat).map fun k => pageByte info.pages (4096 * arg.pagesAt + k)) ++
      ((List.range arg.tailLen.toNat).map fun k => c.recvBuf (c.header.length + (arg.tailAt + k))))

theorem RqArg.length_flatten (c : RecvCall) (info : SvcRdmaReadInfo) (arg : RqArg) :
    (arg.flatten c info).length = arg.headLen.toNat + (arg.pageLen.toNat + arg.tailLen.toNat) := by
  simp [RqArg.flatten]

theorem RecvCall.recvBuf_inline (c : RecvCall) (k : Nat) : c.recvBuf (c.header.length + k) = c.inline.getD k 0 := by
  unfold RecvCall.recvBuf
  rw [getD_append_right _ _ _ _ (by omega), Nat.add_sub_cancel_left]

theorem map_range_getD {xs : List (BitVec 8)} {a m : Nat} (h : a + m ≤ xs.length) :
    ((range m).map fun k => xs.getD (a + k) 0) = (xs.drop a).take m := by
  apply ext_getElem
  · simp
    omega
  intro i hi _
  simp only [length_map, length_range] at hi
  simp [getD_eq_getElem?_getD, show a + i < xs.length by omega]

end

/-! ## Reassembly -/

variable {remote : RemoteMemory} {n : Nat} {c : RecvCall} {pages : Nat → Nat → BitVec 8} {msg : List (BitVec 8)}
  {segs : List SvcRdmaSegment}

/-- What is known of a call whose lists have been parsed; a receive buffer has at most 65536 bytes. -/
structure RecvCall.Parsed (c : RecvCall) : Prop where
  received : c.header.length + c.inline.length ≤ 65536
  call : ∀ call ∈ c.call, call.chLength = BitVec.ofNat 32 (totalLength call.chSegments)
  reads : ∀ chunk ∈ c.reads, chunk.chLength = BitVec.ofNat 32 (totalLength chunk.chSegments)

/-- A receive context with these lists. -/
def RecvCall.ofLists (header inline : List (BitVec 8)) (r : ReadLists) : RecvCall :=
  ⟨header, inline, r.rcCallPcl.clChunks.head?, r.rcReadPcl.clChunks⟩

theorem RecvCall.parsed_of_xdrCheckReadList {alloc : BitVec 32 → Bool} {stream : List (BitVec 32)} {r : ReadLists}
    {header inline : List (BitVec 8)} (h : xdrCheckReadList alloc stream = some r)
    (hreceived : header.length + inline.length ≤ 65536) : (RecvCall.ofLists header inline r).Parsed := by
  have hfrom := checkReadList_gathered h
  refine ⟨hreceived, fun call hcall => ?_, fun chunk hchunk => (hfrom.read.chunk chunk hchunk).2.2.length⟩
  rcases hfrom.call.one with ⟨hnil, -⟩ | ⟨c, hone, -, -, hgathered⟩
  · simp [RecvCall.ofLists, hnil] at hcall
  · simp only [RecvCall.ofLists, hone, head?_cons, Option.mem_some_iff] at hcall
    exact hcall ▸ hgathered.length

/-- `svc_rdma_process_read_list` has put together the message. -/
structure RecvCall.Reassembled (c : RecvCall) (msg : List (BitVec 8)) (out : SvcRdmaReadInfo × RqArg × Option ReadFailure) :
    Prop where
  ok : out.2.2 = none
  flatten : out.2.1.flatten c out.1 = msg
  len : out.2.1.len.toNat = out.2.1.headLen.toNat + out.2.1.pageLen.toNat + out.2.1.tailLen.toNat

/-- No page behind `rq_pages` has been used, and head and tail are in the page or the inline content. -/
structure RecvCall.Contained (c : RecvCall) (out : SvcRdmaReadInfo × RqArg × Option ReadFailure) : Prop where
  pages : out.1.overrun = false
  head : out.2.1.headLen.toNat ≤ if out.2.1.headIsPage then 4096 else c.inline.length
  tail : out.2.1.tailAt + out.2.1.tailLen.toNat ≤ c.inline.length

def Readable (segs : List SvcRdmaSegment) : Prop := segs ≠ [] ∧ ∀ seg ∈ segs, seg.rsLength ≠ 0

theorem not_overrun_nil {place : Nat} : ¬ Overrun n place [] := by
  rintro ⟨pre, x, post, c', heq, -⟩
  cases pre <;> cases heq

theorem cursorAt_start (pages : Nat → Nat → BitVec 8) : CursorAt n 0 { pages := pages } := ⟨by simp, rfl, by simp, rfl⟩

theorem fst_runPlan (plan : ReadPlan) (info : SvcRdmaReadInfo) :
    (runPlan remote n plan info).1 = (buildSegments remote n plan.reads info).1 := by
  unfold runPlan
  split <;> rename_i h <;> rw [h]

theorem overrun_runPlan (plan : ReadPlan) :
    (runPlan remote n plan { pages := pages }).1.overrun = true ↔ Overrun n 0 (lengths plan.reads) := by
  rw [fst_runPlan]
  exact (buildSegments_spec plan.reads (cursorAt_start pages)).1

theorem runPlan_fits (hn : n ≤ 259) (hsegs : Readable segs) (hfits : totalLength segs ≤ 4096 * n) :
    ∃ info, runPlan remote n (.of segs) { pages := pages } = (info, none) ∧ info.overrun = false ∧
      info.riTotalbytes = ofNat 32 (totalLength segs) ∧
      ∀ m a, a + m ≤ totalLength segs →
        ((range m).map fun k => pageByte info.pages (a + k)) = ((segmentBytes remote segs).drop a).take m := by
  have hcursor := cursorAt_start (n := n) pages
  obtain ⟨hlanding, hflat⟩ := @buildSegments_fits remote n 0 _ segs hcursor hn hsegs.2 (by omega)
  obtain ⟨hnone, hcursor', htotal⟩ := (@buildSegments_spec remote n 0 _ segs hcursor).2.2 _ hlanding
  have hrun : runPlan remote n (.of segs) { pages := pages } = ((buildSegments remote n segs { pages := pages }).1, none) := by
    unfold runPlan ReadPlan.of
    have hcomplete : (!segs.isEmpty) = true := by simpa using hsegs.1
    split <;> rename_i hout
    · rw [hout] at hnone
      cases hnone
    · rw [hout, if_pos hcomplete]
  refine ⟨_, hrun, hcursor'.overrun, by simpa using htotal, fun m a h => ?_⟩
  rw [← map_range_getD (by rwa [length_segmentBytes])]
  refine map_congr_left fun k hk => ?_
  rw [mem_range] at hk
  rw [hflat, if_pos (by omega), Nat.sub_zero]

theorem snd_runPlan (plan : ReadPlan) (info : SvcRdmaReadInfo) :
    (runPlan remote n plan info).2 = none ↔ (buildSegments remote n plan.reads info).2 = none ∧ plan.complete = true := by
  unfold runPlan
  split <;> rename_i h <;> rw [h]
  · simp
  · simp

theorem runPlan_of_none (hover : ¬ Overrun n 0 (lengths segs)) :
    (runPlan remote n (.of segs) { pages := pages }).2 = none ↔
      (landing n 0 (lengths segs)).isSome = true ∧ segs ≠ [] := by
  obtain ⟨-, hsome, hland⟩ := @buildSegments_spec remote n 0 _ segs (cursorAt_start pages)
  have hcomplete : (ReadPlan.of segs).complete = true ↔ segs ≠ [] := by simp [ReadPlan.of]
  rw [snd_runPlan, hcomplete]
  refine and_congr_left fun _ => ⟨fun h => hsome h hover, fun h => ?_⟩
  obtain ⟨c', hc'⟩ := Option.isSome_iff_exists.1 h
  exact (hland c' hc').1

/-- A call that is put together: one Read chunk and no call chunk, or a call chunk and nothing else. -/
def RecvCall.Single (c : RecvCall) : Prop :=
  match c.call, c.reads with
  | none, [chunk] => 4 ∣ totalLength chunk.chSegments ∧ Readable chunk.chSegments
  | some call, [] => c.inline = [] ∧ Readable call.chSegments
  | _, _ => False

def RecvCall.plannedReads (c : RecvCall) : List SvcRdmaSegment :=
  match c.call, c.reads with
  | some call, reads => (callPlan call reads).reads
  | none, [chunk] => chunk.chSegments
  | none, _ => []

/-- No Read comes where all pages are full, a Read chunk that can be read is not behind the inline content, and inline
content to copy fits. -/
def RecvCall.Bounded (n : Nat) (c : RecvCall) : Prop :=
  ¬ Overrun n 0 (lengths c.plannedReads) ∧
    match c.call, c.reads with
    | none, [chunk] => (landing n 0 (lengths chunk.chSegments)).isSome = true → chunk.chSegments ≠ [] →
        chunk.chPosition.toNat ≤ c.inline.length
    | none, chunk :: _ => chunk.chPosition.toNat ≤ 4096 * n ∨ 2 ^ 32 ≤ chunk.chPosition.toNat + 4095
    | _, _ => True

/-! ### A Read chunk alone -/

variable {chunk : SvcRdmaChunk}

theorem readDataItem_eq : svcRdmaReadDataItem remote n chunk { pages := pages } c.decoded =
    match runPlan remote n (.of chunk.chSegments) { pages := pages } with
    | (info, some e) => (info, c.decoded, some e)
    | (info, none) => (info, { c.decoded with
        tailAt := chunk.chPosition.toNat
        tailLen := c.decoded.headLen - chunk.chPosition.setWidth 64
        headLen := chunk.chPosition.setWidth 64
        pagesAt := 0
        pageLen := xdrAlignSize chunk.chLength
        len := c.decoded.len + xdrAlignSize chunk.chLength
        buflen := c.decoded.buflen + xdrAlignSize chunk.chLength }, none) := by
  rewrite [svcRdmaReadDataItem, buildReadChunk_eq]
  cases runPlan remote n (.of chunk.chSegments) { pages := pages } with
  | mk info e => cases e <;> rfl

theorem contained_decoded (info : SvcRdmaReadInfo) (e : Option ReadFailure) :
    c.Contained (info, c.decoded, e) ↔ info.overrun = false := by
  refine ⟨fun h => h.pages, fun h => ⟨h, ?_, by simp [RecvCall.decoded]⟩⟩
  simpa [RecvCall.decoded] using Nat.mod_le _ _

theorem dataItem_lengths (hc : c.Parsed) (hpos : chunk.chPosition.toNat ≤ c.inline.length) :
    (chunk.chPosition.setWidth 64).toNat = chunk.chPosition.toNat ∧
      (ofNat 64 c.inline.length - chunk.chPosition.setWidth 64).toNat = c.inline.length - chunk.chPosition.toNat := by
  have hreceived := hc.received
  have hhead : (chunk.chPosition.setWidth 64).toNat = chunk.chPosition.toNat := by
    rw [BitVec.toNat_setWidth]
    omega
  have hinline : (ofNat 64 c.inline.length).toNat = c.inline.length := by
    rw [toNat_ofNat]
    omega
  exact ⟨hhead, by rw [toNat_sub_of_le (by rw [le_def]; omega), hhead, hinline]⟩

theorem readDataItem_contained (hc : c.Parsed) :
    c.Contained (svcRdmaReadDataItem remote n chunk { pages := pages } c.decoded) ↔
      ¬ Overrun n 0 (lengths chunk.chSegments) ∧
        ((landing n 0 (lengths chunk.chSegments)).isSome = true → chunk.chSegments ≠ [] →
          chunk.chPosition.toNat ≤ c.inline.length) := by
  have hover : _ ↔ Overrun n 0 (lengths chunk.chSegments) :=
    @overrun_runPlan remote n pages (.of chunk.chSegments)
  have hnone := @runPlan_of_none remote n pages chunk.chSegments
  rw [readDataItem_eq]
  cases hrun : runPlan remote n (.of chunk.chSegments) { pages := pages } with
  | mk info e =>
    rw [hrun] at hover hnone
    rw [← hover] at hnone ⊢
    rw [Bool.not_eq_true] at hnone ⊢
    cases e with
    | some e =>
      rw [contained_decoded]
      refine ⟨fun h => ⟨h, fun hland hsegs => ?_⟩, And.left⟩
      cases (hnone h).2 ⟨hland, hsegs⟩
    | none =>
      constructor
      · intro h
        refine ⟨h.pages, fun _ _ => ?_⟩
        have := h.head
        simp only [RecvCall.decoded, BitVec.toNat_setWidth, Bool.false_eq_true, if_false] at this
        omega
      · rintro ⟨hpages, hpos⟩
        obtain ⟨hland, hsegs⟩ := (hnone hpages).1 rfl
        have hpos := hpos hland hsegs
        obtain ⟨hhead, htail⟩ := dataItem_lengths hc hpos
        refine ⟨hpages, ?_, ?_⟩
        · simpa only [hhead, RecvCall.decoded, Bool.false_eq_true, if_false] using hpos
        · simp only [RecvCall.decoded, htail]
          omega

/-- **A Read chunk alone** is put together just when it can be read and ends with a word. -/
theorem readDataItem_reassembled (hn : n ≤ 259) (hc : c.Parsed)
    (hlength : chunk.chLength = ofNat 32 (totalLength chunk.chSegments)) (hmsg : weave remote c.inline 0 [chunk] = some msg)
    (hfits : totalLength chunk.chSegments ≤ 4096 * n) :
    c.Reassembled msg (svcRdmaReadDataItem remote n chunk { pages := pages } c.decoded) ↔
      4 ∣ totalLength chunk.chSegments ∧ Readable chunk.chSegments := by
  obtain ⟨⟨-, hpos, -⟩, hmsglen⟩ := weave_spec hmsg
  have hreceived := hc.received
  obtain ⟨hhead, htail⟩ := dataItem_lengths hc hpos
  have halign : (xdrAlignSize chunk.chLength).toNat = _ := Bytes.toNat_roundUp chunk.chLength
  rw [hlength, toNat_ofNat, ← hlength] at halign
  rw [readDataItem_eq]
  constructor
  · intro h
    cases hrun : runPlan remote n (.of chunk.chSegments) { pages := pages } with
    | mk info e =>
      rw [hrun] at h
      cases e with
      | some e => cases h.ok
      | none =>
        obtain ⟨hcomplete, -, hsegs⟩ := of_runPlan hrun
        have hlen := congrArg length h.flatten
        rw [RqArg.length_flatten, hmsglen] at hlen
        simp only [RecvCall.decoded, hhead, htail, halign, chunksLength, map_cons, map_nil, sum_cons, sum_nil] at hlen
        refine ⟨by omega, ?_, hsegs⟩
        simpa [ReadPlan.of] using hcomplete
  · rintro ⟨hword, hsegs⟩
    obtain ⟨info, hrun, -, -, hbytes⟩ := @runPlan_fits remote n pages _ hn hsegs hfits
    rw [hrun]
    have hpage : (xdrAlignSize chunk.chLength).toNat = totalLength chunk.chSegments := by omega
    refine ⟨rfl, ?_, ?_⟩
    · have hb := hbytes (totalLength chunk.chSegments) 0 (by omega)
      have hwoven : msg = c.inline.take chunk.chPosition.toNat ++
          (segmentBytes remote chunk.chSegments ++ c.inline.drop chunk.chPosition.toNat) := by
        simp only [weave] at hmsg
        rw [if_pos (by omega)] at hmsg
        simpa using hmsg.symm
      have hfirst := @map_range_getD c.inline 0 chunk.chPosition.toNat (by omega)
      have hlast := @map_range_getD c.inline chunk.chPosition.toNat (c.inline.length - chunk.chPosition.toNat) (by omega)
      simp only [Nat.zero_add] at hfirst hb
      rw [drop_zero, take_of_length_le (by rw [length_segmentBytes])] at hb
      rw [take_of_length_le (by simp)] at hlast
      simp only [RqArg.flatten, hhead, htail, hpage, RecvCall.decoded, Bool.false_eq_true, if_false, RecvCall.recvBuf_inline,
        Nat.mul_zero, Nat.zero_add, hb, hfirst, hlast, hwoven, drop_zero]
    · simp only [hhead, htail, hpage, RecvCall.decoded, toNat_add, toNat_ofNat]
      omega

/-! ### More Read chunks -/

theorem copyInlinePages_overrun {src : Nat → BitVec 8} {numpages offset remaining : Nat} {info : SvcRdmaReadInfo}
    (hoff : info.riPageoff = 0) (hpages : remaining ≤ 4096 * numpages) (hexact : 4096 * numpages < remaining + 4096) :
    (copyInlinePages n src numpages offset remaining info).overrun = true ↔
      info.overrun = true ∨ 0 < numpages ∧ n < info.riPageno + numpages := by
  induction numpages generalizing offset remaining info with
  | zero => simp [copyInlinePages]
  | succ numpages ih =>
    rw [copyInlinePages, hoff, Nat.sub_zero]
    have hover := @put_overrun n info info.riPageno (min remaining 4096) fun k => src (offset + k)
    obtain ⟨hoff', hplace⟩ := @put_place n info info.riPageno (min remaining 4096) (fun k => src (offset + k)) (by omega)
    cases numpages with
    | zero =>
      simp only [copyInlinePages, hover, Bool.or_eq_true, decide_eq_true_eq]
      exact or_congr_right (by omega)
    | succ numpages =>
      rw [ih (by dsimp only; omega) (by omega) (by omega)]
      simp only [hover, Bool.or_eq_true, decide_eq_true_eq, or_assoc]
      exact or_congr_right (by omega)

/-- **More Read chunks are never put together**, since `svc_rdma_copy_inline_range` fails. -/
theorem readMultipleChunks_fails (info : SvcRdmaReadInfo) (arg : RqArg) :
    ∃ info', svcRdmaReadMultipleChunks remote n c info arg = (info', arg, some .einval) ∧
      info' = (svcRdmaCopyInlineRange n c.recvBuf info 0 (firstPosition c.reads)).1 :=
  ⟨_, rfl, rfl⟩

theorem readMultipleChunks_contained :
    c.Contained (svcRdmaReadMultipleChunks remote n c { pages := pages } c.decoded) ↔
      (firstPosition c.reads).toNat ≤ 4096 * n ∨
        2 ^ 32 ≤ (firstPosition c.reads).toNat + 4095 := by
  obtain ⟨info, heq, hinfo⟩ := @readMultipleChunks_fails remote n c { pages := pages } c.decoded
  rw [heq, contained_decoded, ← Bool.not_eq_true, hinfo]
  generalize firstPosition c.reads = position
  rw [svcRdmaCopyInlineRange]
  rw [Nat.zero_add]
  by_cases hwrap : position.toNat + 4095 < 2 ^ 32
  · have hpages : pagesFor position.toNat = (position.toNat + 4095) / 4096 := by
      rw [pagesFor, Nat.mod_eq_of_lt hwrap]
    rw [copyInlinePages_overrun rfl (by omega) (by omega)]
    simp only [Bool.false_eq_true, false_or, Nat.zero_add]
    omega
  have hpages : pagesFor position.toNat = 0 := by
    unfold pagesFor
    omega
  rw [hpages, copyInlinePages]
  simp only [Bool.false_eq_true, not_false_eq_true, true_iff]
  omega

/-! ### A call chunk -/

variable {call : SvcRdmaChunk}

theorem readSpecial_eq : svcRdmaReadSpecial remote n call c { pages := pages } c.decoded =
    match runPlan remote n (callPlan call c.reads) { pages := pages } with
    | (info, some e) => (info, c.decoded, some e)
    | (info, none) => (info, pagesArg info c.decoded, none) := by
  rewrite [svcRdmaReadSpecial, readCallChunk_eq _ _ rfl]
  cases runPlan remote n (callPlan call c.reads) { pages := pages } with
  | mk info e => cases e <;> rfl

theorem pagesArg_lengths (info : SvcRdmaReadInfo) (c : RecvCall) :
    (pagesArg info c.decoded).headLen.toNat = min 4096 info.riTotalbytes.toNat ∧
      (pagesArg info c.decoded).pageLen.toNat = info.riTotalbytes.toNat - min 4096 info.riTotalbytes.toNat ∧
      (pagesArg info c.decoded).tailLen.toNat = 0 := by
  refine ⟨?_, ?_, rfl⟩
  · simp only [pagesArg, toNat_ofNat]
    omega
  · have hmin : (ofNat 32 (min 4096 info.riTotalbytes.toNat)).toNat = min 4096 info.riTotalbytes.toNat := by
      rw [toNat_ofNat]
      omega
    simp only [pagesArg]
    rw [toNat_sub_of_le (by rw [le_def]; omega), hmin]

theorem readSpecial_contained :
    c.Contained (svcRdmaReadSpecial remote n call c { pages := pages } c.decoded) ↔
      ¬ Overrun n 0 (lengths (callPlan call c.reads).reads) := by
  have hover : _ ↔ Overrun n 0 _ := @overrun_runPlan remote n pages (callPlan call c.reads)
  rw [readSpecial_eq, ← hover, Bool.not_eq_true]
  cases runPlan remote n (callPlan call c.reads) { pages := pages } with
  | mk info e =>
    cases e with
    | some e => exact contained_decoded _ _
    | none =>
      refine ⟨fun h => h.pages, fun h => ⟨h, ?_, by simp [pagesArg, RecvCall.decoded]⟩⟩
      change (pagesArg info c.decoded).headLen.toNat ≤ 4096
      rw [(pagesArg_lengths _ _).1]
      omega

/-- **A call chunk** is put together just when it is alone and can be read. -/
theorem readSpecial_reassembled (hn : n ≤ 259)
    (hlength : call.chLength = ofNat 32 (totalLength call.chSegments))
    (hmsg : weave remote (segmentBytes remote call.chSegments ++ c.inline) 0 c.reads = some msg)
    (hfits : totalLength call.chSegments + c.inline.length + chunksLength c.reads ≤ 4096 * n) :
    c.Reassembled msg (svcRdmaReadSpecial remote n call c { pages := pages } c.decoded) ↔
      c.reads = [] ∧ c.inline = [] ∧ Readable call.chSegments := by
  rw [readSpecial_eq]
  constructor
  · intro h
    cases hrun : runPlan remote n (callPlan call c.reads) { pages := pages } with
    | mk info e =>
      rw [hrun] at h
      cases e with
      | some e => cases h.ok
      | none =>
        obtain ⟨hcomplete, htotal, hsegs⟩ := of_runPlan hrun
        have htotal : info.riTotalbytes = ofNat 32 (totalLength (callPlan call c.reads).reads) := by
          simpa using htotal
        obtain ⟨hhead, hpage, htail⟩ := pagesArg_lengths info c
        have hinline : c.inline = [] := by
          have hlen := h.len
          simp only [hhead, hpage, htail] at hlen
          simp only [pagesArg, RecvCall.decoded, toNat_add, toNat_ofNat] at hlen
          rw [← length_eq_zero_iff]
          omega
        rw [hinline, append_nil] at hmsg
        obtain ⟨hplaced, hmsglen⟩ := weave_spec hmsg
        rw [length_segmentBytes] at hplaced hmsglen
        have hreads : c.reads = [] := by
          by_contra hreads
          apply callPlan_total_ne hreads hlength hplaced (by omega) hcomplete hsegs
          have hlen := congrArg length h.flatten
          rw [RqArg.length_flatten, hhead, hpage, htail] at hlen
          rw [← htotal]
          apply BitVec.eq_of_toNat_eq
          rw [toNat_ofNat]
          omega
        rw [hreads] at hcomplete hsegs
        refine ⟨hreads, hinline, ?_, hsegs⟩
        simpa [callPlan, ReadPlan.of] using hcomplete
  · rintro ⟨hreads, hinline, hsegs⟩
    obtain ⟨info, hrun, -, htotal, hbytes⟩ := @runPlan_fits remote n pages _ hn hsegs (by omega)
    have hplan : callPlan call c.reads = .of call.chSegments := by
      rw [hreads]
      rfl
    rw [hplan, hrun]
    obtain ⟨hhead, hpage, htail⟩ := pagesArg_lengths info c
    have htotal' : info.riTotalbytes.toNat = totalLength call.chSegments := by
      rw [htotal, toNat_ofNat]
      omega
    rw [htotal'] at hhead hpage
    rw [hreads, hinline, append_nil] at hmsg
    cases hmsg
    have hlength := @length_segmentBytes remote call.chSegments
    generalize segmentBytes remote call.chSegments = msg, totalLength call.chSegments = total at *
    refine ⟨rfl, ?_, ?_⟩
    · have hfirst : ((range (min 4096 total)).map fun k => info.pages 0 k) =
          msg.take (min 4096 total) := by
        rw [← drop_zero (l := msg), ← hbytes _ 0 (by omega)]
        refine map_congr_left fun k hk => ?_
        rw [mem_range] at hk
        rw [pageByte, Nat.zero_add, Nat.div_eq_of_lt (by omega), Nat.mod_eq_of_lt (by omega)]
      have hlast : ((range (total - min 4096 total)).map
          fun k => pageByte info.pages (4096 * 1 + k)) =
            msg.drop (min 4096 total) := by
        by_cases hshort : total ≤ 4096
        · rw [Nat.min_eq_right hshort, drop_of_length_le (by rw [hlength])]
          simp
        · rw [Nat.min_eq_left (by omega), hbytes _ _ (by omega), take_of_length_le]
          simp [hlength]
      rw [RqArg.flatten, hhead, hpage]
      change map (fun k => info.pages 0 k) _ ++ (map (fun k => pageByte info.pages (4096 * 1 + k)) _ ++ []) = _
      rw [hfirst, hlast, append_nil, take_append_drop]
    · simp only [hhead, hpage, htail]
      simp only [pagesArg, RecvCall.decoded, hinline, length_nil, toNat_add, htotal', toNat_ofNat]
      omega

/-- **Reassembly, as it is.**  A call that fits is put together and nothing goes out of bounds, just when it is of one of
two kinds and the places of its Reads allow it. -/
theorem svcRdmaProcessReadList_iff (remote : RemoteMemory) (pages : Nat → Nat → BitVec 8) (hn : n ≤ 259) (hc : c.Parsed) :
    ((∀ msg, c.message remote = some msg → c.pagedBytes ≤ 4096 * n →
        c.Reassembled msg (svcRdmaProcessReadList remote n c pages)) ∧
      c.Contained (svcRdmaProcessReadList remote n c pages)) ↔
    ((c.message remote).isSome = true → c.pagedBytes ≤ 4096 * n → c.Single) ∧ c.Bounded n := by
  have hcases : ∀ {P : Prop} {R : List (BitVec 8) → Prop},
      (∀ msg, c.message remote = some msg → c.pagedBytes ≤ 4096 * n → (R msg ↔ P)) →
      ((∀ msg, c.message remote = some msg → c.pagedBytes ≤ 4096 * n → R msg) ↔
        ((c.message remote).isSome = true → c.pagedBytes ≤ 4096 * n → P)) := by
    intro P R h
    constructor
    · intro hall hsome hfits
      obtain ⟨msg, hmsg⟩ := Option.isSome_iff_exists.1 hsome
      exact (h msg hmsg hfits).1 (hall msg hmsg hfits)
    · intro hall msg hmsg hfits
      exact (h msg hmsg hfits).2 (hall (by simp [hmsg]) hfits)
  obtain ⟨header, inline, call, reads⟩ := c
  cases call with
  | some call =>
    refine and_congr (hcases fun msg hmsg hfits => ?_) ?_
    · refine (readSpecial_reassembled hn (hc.call call rfl) hmsg hfits).trans ?_
      cases reads with
      | nil | cons => simp [RecvCall.Single]
    · refine readSpecial_contained.trans ?_
      cases reads <;> simp [RecvCall.Bounded, RecvCall.plannedReads]
  | none =>
    match reads with
    | [chunk] =>
      refine and_congr (hcases fun msg hmsg hfits => ?_) ?_
      · exact readDataItem_reassembled hn hc (hc.reads chunk (by simp)) hmsg hfits
      · exact readDataItem_contained hc
    | [] | _ :: _ :: _ =>
      refine and_congr (hcases fun msg _ _ => ⟨fun h => ?_, False.elim⟩) ?_
      · cases h.ok
      · refine (@readMultipleChunks_contained remote _ _ _).trans ?_
        simp [RecvCall.Bounded, RecvCall.plannedReads, firstPosition, lengths, not_overrun_nil]

/-- The transport header of an RDMA_MSG with these lists. -/
def transportHeader (lists : List (BitVec 32)) : List (BitVec 8) :=
  ([1, 1, 128, 0] ++ lists).flatMap fun (w : BitVec 32) => [24, 16, 8, 0].map fun i => w.extractLsb' i 8

/-- Eight bytes inline, with a Read chunk of four bytes behind the first four. -/
def sampleDataItem : RecvCall where
  header := transportHeader [1, 4, 9, 4, 0, 0, 0, 0, 0]
  inline := [1, 2, 3, 4, 5, 6, 7, 8]
  call := none
  reads := [{ chPosition := 4, chLength := 4, chSegments := [⟨9, 4, 0⟩], room := 1 }]

theorem svcRdmaProcessReadList_iff_sample :
    sampleDataItem.Parsed ∧ sampleDataItem.message (fun _ k => k.setWidth 8) = some [1, 2, 3, 4, 0, 1, 2, 3, 5, 6, 7, 8] ∧
      sampleDataItem.Reassembled [1, 2, 3, 4, 0, 1, 2, 3, 5, 6, 7, 8]
        (svcRdmaProcessReadList (fun _ k => k.setWidth 8) 2 sampleDataItem fun _ _ => 0) := by
  have hparsed : sampleDataItem.Parsed :=
    @RecvCall.parsed_of_xdrCheckReadList (fun _ => true) [1, 4, 9, 4, 0, 0, 0, 0, 0] _ _ [1, 2, 3, 4, 5, 6, 7, 8] rfl (by decide)
  have hmsg : sampleDataItem.message (fun _ k => k.setWidth 8) = some [1, 2, 3, 4, 0, 1, 2, 3, 5, 6, 7, 8] := by decide
  have hsingle : sampleDataItem.Single := ⟨by decide, by decide, by decide⟩
  have hbounded : sampleDataItem.Bounded 2 := by
    refine ⟨fun h => ?_, fun _ _ => by decide⟩
    rcases overrun_cons.1 h with h | ⟨c', -, h⟩
    · revert h
      decide
    · exact not_overrun_nil h
  exact ⟨hparsed, hmsg, ((svcRdmaProcessReadList_iff _ _ (by decide) hparsed).2 ⟨fun _ _ => hsingle, hbounded⟩).1 _ hmsg
    (by decide)⟩

/-- Two Read chunks of four bytes, at positions 4 and 8; no Write list and no Reply chunk. -/
def twoReadChunks : List (BitVec 32) := [1, 4, 9, 4, 0, 0, 1, 8, 9, 4, 0, 0, 0, 0, 0]

def lateReadChunk : List (BitVec 32) := [1, 8, 9, 4, 0, 0, 0, 0, 0]

/-- Two Read chunks that would fit are refused, and a Read chunk behind four bytes of inline content makes a tail that
wraps around. -/
theorem svcRdmaProcessReadList_fails :
    (∃ r c, xdrCheckReadList (fun _ => true) twoReadChunks = some r ∧ c = .ofLists (transportHeader twoReadChunks) [1, 2, 3, 4] r ∧
      c.message (fun _ k => k.setWidth 8) = some [1, 2, 3, 4, 0, 1, 2, 3, 0, 1, 2, 3] ∧ c.pagedBytes ≤ 4096 * 2 ∧
      (svcRdmaProcessReadList (fun _ k => k.setWidth 8) 2 c fun _ _ => 0).2.2 = some .einval) ∧
    ∃ r c, xdrCheckReadList (fun _ => true) lateReadChunk = some r ∧ c = .ofLists (transportHeader lateReadChunk) [1, 2, 3, 4] r ∧
      (svcRdmaProcessReadList (fun _ k => k.setWidth 8) 2 c fun _ _ => 0).2.2 = none ∧
      (svcRdmaProcessReadList (fun _ k => k.setWidth 8) 2 c fun _ _ => 0).2.1.tailLen = -4 :=
  ⟨⟨_, _, rfl, rfl, by decide, by decide, by decide⟩, ⟨_, _, rfl, rfl, by decide, by decide⟩⟩

end Vastnfs.Sunrpc
