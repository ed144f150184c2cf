import Vastnfs.Lib.Bytes
import Vastnfs.Lib.ReplayWindow

/-!
# Sequence numbers of a security context

The server takes every sequence number of a GSS context at most once (`net/sunrpc/auth_gss/svcauth_gss.c`): it keeps
the greatest number seen and a bitmap of the last `GSS_SEQ_WIN` numbers, which it clears as the greatest number advances.

* `gssCheckSeqNum`, `gssVerifyHeader`: the functions.
* `gssCheckSeqNum_spec`: one call, against the list of the numbers seen.
* `gssCheckSeqNum_exact`: over all sequences of calls a number is accepted just when it is new and inside the window.
* `netobjInside_iff`: when the tokens of a header stay inside the message.
* `gssVerifyHeader_once`: no two calls with one sequence number get past the header.
-/

namespace Vastnfs.Sunrpc

open ReplayWindow List BitVec

/-! ## The window -/

def gssSeqWin : Nat := 128

def maxseq : BitVec 32 := 0x80000000#32

/-- `struct gss_svc_seq_data`; a new context has it cleared. -/
structure GssSvcSeqData where
  sdMax : BitVec 32 := 0
  sdWin : BitVec gssSeqWin := 0
deriving DecidableEq

/-- The loop of `gss_check_seq_num` that moves the window number by number. -/
def slideTo (seqNum : BitVec 32) : Nat → GssSvcSeqData → GssSvcSeqData
  | 0, sd => sd
  | fuel + 1, sd =>
    if sd.sdMax < seqNum then
      let sdMax := sd.sdMax + 1
      slideTo seqNum fuel { sdMax := sdMax, sdWin := clearBit sd.sdWin sdMax.toNat }
    else sd

def gssCheckSeqNum (sd : GssSvcSeqData) (seqNum : BitVec 32) : GssSvcSeqData × Bool :=
  if sd.sdMax < seqNum then
    let sd :=
      if sd.sdMax + BitVec.ofNat 32 gssSeqWin ≤ seqNum then { sdMax := seqNum, sdWin := 0 }
      else slideTo seqNum (seqNum - sd.sdMax).toNat sd
    ({ sd with sdWin := setBit sd.sdWin seqNum.toNat }, true)
  else if seqNum + BitVec.ofNat 32 gssSeqWin ≤ sd.sdMax then (sd, false)
  -- `__test_and_set_bit`
  else ({ sd with sdWin := setBit sd.sdWin seqNum.toNat }, !testBit sd.sdWin seqNum.toNat)

/-- What the window stands for. -/
structure Sees (sd : GssSvcSeqData) (seen : List Nat) : Prop where
  top : sd.sdMax.toNat = top seen
  small : sd.sdMax ≤ maxseq
  marks : Marks sd.sdWin sd.sdMax.toNat seen

theorem sees_init : Sees {} [] := by
  refine ⟨rfl, by decide, ?_, ?_⟩
  · nofun
  · intro i _ _
    simp [testBit]

section

variable {sd : GssSvcSeqData} {seen : List Nat} {seqNum : BitVec 32}

theorem slideTo_spec (fuel : Nat) (h : Marks sd.sdWin sd.sdMax.toNat seen) (hfuel : sd.sdMax.toNat + fuel = seqNum.toNat) :
    (slideTo seqNum fuel sd).sdMax = seqNum ∧ Marks (slideTo seqNum fuel sd).sdWin seqNum.toNat seen := by
  induction fuel generalizing sd with
  | zero =>
    have heq : sd.sdMax = seqNum := eq_of_toNat_eq (by omega)
    exact ⟨heq, heq ▸ h⟩
  | succ fuel ih =>
    have hlt : sd.sdMax < seqNum := by
      rw [lt_def]
      omega
    have hsucc : (sd.sdMax + 1).toNat = sd.sdMax.toNat + 1 := by
      rw [toNat_add, show BitVec.toNat (1 : BitVec 32) = 1 from rfl]
      omega
    simp only [slideTo, if_pos hlt]
    refine ih ?_ ?_
    · show Marks (clearBit sd.sdWin (sd.sdMax + 1).toNat) (sd.sdMax + 1).toNat seen
      rw [hsucc]
      exact h.slide (by decide)
    · show (sd.sdMax + 1).toNat + fuel = seqNum.toNat
      omega

theorem setBit_of_testBit {win : BitVec gssSeqWin} {n : Nat} (h : testBit win n = true) : setBit win n = win := by
  apply eq_of_getLsbD_eq
  intro i hi
  have hn : n % gssSeqWin < gssSeqWin := Nat.mod_lt _ (by decide)
  simp only [setBit, getLsbD_or, getLsbD_twoPow, hn, decide_true, Bool.true_and]
  by_cases hin : n % gssSeqWin = i
  · subst hin
    simp [testBit] at h
    simp [h]
  · simp [hin]

/-- **One call** of `gss_check_seq_num`: it answers, and remembers, what the list of the numbers seen says. -/
theorem gssCheckSeqNum_spec (h : Sees sd seen) (hseq : seqNum ≤ maxseq) :
    ((gssCheckSeqNum sd seqNum).2 = true ↔ Admits gssSeqWin seen seqNum.toNat) ∧
      Sees (gssCheckSeqNum sd seqNum).1 (offer gssSeqWin seen seqNum.toNat) := by
  set admits := Admits gssSeqWin seen seqNum.toNat
  have htop := h.top
  have hmax : maxseq.toNat = 2 ^ 31 := rfl
  have hwin : gssSeqWin = 128 := rfl
  have hahead : ∀ x : BitVec 32, x ≤ maxseq → (x + BitVec.ofNat 32 gssSeqWin).toNat = x.toNat + gssSeqWin := by
    intro x hx
    have := le_def.1 hx
    simp only [toNat_add, toNat_ofNat, hwin]
    omega
  unfold gssCheckSeqNum
  by_cases hnew : sd.sdMax < seqNum
  · -- the number is above all seen so far, and the window moves to it
    rw [if_pos hnew]
    have hgt := lt_def.1 hnew
    have hadmits : admits := by
      refine ⟨fun hmem => ?_, by omega⟩
      have := h.marks.below _ hmem
      omega
    have hmoved : ∃ win, (if sd.sdMax + BitVec.ofNat 32 gssSeqWin ≤ seqNum then ⟨seqNum, 0⟩
        else slideTo seqNum (seqNum - sd.sdMax).toNat sd : GssSvcSeqData) = ⟨seqNum, win⟩ ∧ Marks win seqNum.toNat seen := by
      split_ifs with hfar
      · have hfar' := le_def.1 hfar
        rw [hahead _ h.small] at hfar'
        exact ⟨0, rfl, h.marks.jump hfar'⟩
      have hfuel : sd.sdMax.toNat + (seqNum - sd.sdMax).toNat = seqNum.toNat := by
        rw [BitVec.toNat_sub_of_le (BitVec.le_of_lt hnew)]
        omega
      obtain ⟨heq, hmarks⟩ := slideTo_spec _ h.marks hfuel
      exact ⟨_, congrArg (GssSvcSeqData.mk · _) heq, hmarks⟩
    obtain ⟨win, heq, hmarks⟩ := hmoved
    simp only [heq, offer_of_admits hadmits, hadmits, true_and]
    refine ⟨?_, hseq, hmarks.mark (by decide) le_rfl (Nat.lt_add_of_pos_right (by decide))⟩
    show seqNum.toNat = max seqNum.toNat (top seen)
    omega
  · rw [if_neg hnew]
    have hle : seqNum ≤ sd.sdMax := BitVec.not_lt.1 hnew
    have hle' := le_def.1 hle
    have hahead' := hahead seqNum hseq
    split_ifs with hlow
    · have hlow' := le_def.1 hlow
      have hnot : ¬ admits := fun hadmits => by
        have := hadmits.2
        omega
      simp only [offer_of_not_admits hnot, hnot, true_and]
      exact h
    have hhigh : ¬ (seqNum + BitVec.ofNat 32 gssSeqWin).toNat ≤ sd.sdMax.toNat := fun hle => hlow (le_def.2 hle)
    have hin : sd.sdMax.toNat < seqNum.toNat + gssSeqWin := by omega
    have hbit := h.marks.bit _ hle' hin
    by_cases hmem : seqNum.toNat ∈ seen
    · have hnot : ¬ admits := fun hadmits => hadmits.1 hmem
      have hset : testBit sd.sdWin seqNum.toNat = true := by simp [hbit, hmem]
      simp only [offer_of_not_admits hnot, hnot, hset, setBit_of_testBit hset, Bool.not_true, Bool.false_eq_true, true_and]
      exact h
    have hadmits : admits := ⟨hmem, by omega⟩
    have hclear : testBit sd.sdWin seqNum.toNat = false := by simp [hbit, hmem]
    simp only [offer_of_admits hadmits, hadmits, hclear, Bool.not_false, true_and]
    refine ⟨?_, h.small, h.marks.mark (by decide) hle' hin⟩
    show sd.sdMax.toNat = max seqNum.toNat (top seen)
    omega

end

/-! ## Sequences of calls -/

/-- Calls of `gss_check_seq_num` one after the other, with the numbers accepted, the last one first. -/
def gssCheckAll : List (BitVec 32) → GssSvcSeqData × List Nat
  | [] => ({}, [])
  | seqNum :: before =>
    let r := gssCheckAll before
    let c := gssCheckSeqNum r.1 seqNum
    (c.1, if c.2 then seqNum.toNat :: r.2 else r.2)

/-- After every sequence of calls the window stands for the numbers accepted, and none was accepted twice. -/
theorem gssCheckAll_spec (calls : List (BitVec 32)) (hcalls : ∀ n ∈ calls, n ≤ maxseq) :
    Sees (gssCheckAll calls).1 (gssCheckAll calls).2 ∧ (gssCheckAll calls).2.Nodup := by
  induction calls with
  | nil => exact ⟨sees_init, nodup_nil⟩
  | cons seqNum before ih =>
    obtain ⟨hsees, hnodup⟩ := ih fun n hn => hcalls n (mem_cons_of_mem _ hn)
    obtain ⟨hiff, hsees'⟩ := gssCheckSeqNum_spec hsees (hcalls seqNum mem_cons_self)
    have haccepted : (gssCheckAll (seqNum :: before)).2 = offer gssSeqWin (gssCheckAll before).2 seqNum.toNat := by
      simp [gssCheckAll, offer, hiff]
    rw [haccepted]
    exact ⟨hsees', offer_nodup hnodup _⟩

/-- **Replay protection.** Over every sequence of calls with numbers up to `MAXSEQ` no number is accepted twice, and the
next call is accepted just when its number has not been accepted and exceeds the greatest accepted one less `GSS_SEQ_WIN`. -/
theorem gssCheckSeqNum_exact (calls : List (BitVec 32)) (hcalls : ∀ n ∈ calls, n ≤ maxseq) :
    (gssCheckAll calls).2.Nodup ∧
      ∀ seqNum, seqNum ≤ maxseq → ((gssCheckSeqNum (gssCheckAll calls).1 seqNum).2 = true ↔
        seqNum.toNat ∉ (gssCheckAll calls).2 ∧
          (((gssCheckAll calls).2.foldr max 0 : Nat) : Int) - gssSeqWin < seqNum.toNat) := by
  obtain ⟨hsees, hnodup⟩ := gssCheckAll_spec calls hcalls
  refine ⟨hnodup, fun seqNum hseq => (gssCheckSeqNum_spec hsees hseq).1.trans ?_⟩
  have htop : top (gssCheckAll calls).2 = (gssCheckAll calls).2.foldr max 0 := rfl
  unfold Admits
  rw [htop]
  constructor
  · rintro ⟨hnew, hlt⟩
    exact ⟨hnew, by omega⟩
  · rintro ⟨hnew, hlt⟩
    exact ⟨hnew, by omega⟩

/-- Numbers in no order, with repetitions and one that has fallen out of the window. -/
theorem gssCheckSeqNum_exact_sample :
    (gssCheckAll [3, 300, 2, 3, 3, 1]).2 = [300, 2, 3, 1] ∧ (gssCheckAll [3, 300, 2, 3, 3, 1]).2.Nodup :=
  ⟨by decide, (gssCheckSeqNum_exact [3, 300, 2, 3, 3, 1] (by simp [maxseq])).1⟩

/-! ## Verifying the header -/

/-- What the header of a call is answered with: `SVC_DENIED` with its status, `SVC_DROP` or `SVC_OK`. -/
inductive GssVerdict
  | badverf | credproblem | ctxproblem | drop | ok
deriving DecidableEq

/-- A call on a context: what follows the credential, whether it is visited again, and its sequence number. -/
structure GssCall where
  argv : List (BitVec 8)
  rqDeferred : Bool
  gcSeq : BitVec 32

def svcGetnl (argv : List (BitVec 8)) : BitVec 32 × List (BitVec 8) :=
  ((argv.take 4).foldl (fun n b => n <<< 8 ||| b.zeroExtend 32) 0, argv.drop 4)

def roundUpToQuad (i : BitVec 32) : BitVec 32 := (i + 3) &&& ~~~3#32

/-- The length and where the data starts. -/
def svcSafeGetnetobj (argv : List (BitVec 8)) : Option ((BitVec 32 × List (BitVec 8)) × List (BitVec 8)) :=
  if argv.length < 4 then none
  else
    let (len, argv) := svcGetnl argv
    let l := roundUpToQuad len
    -- the comparison takes a negative `l` for a huge one
    if l.toInt < 0 ∨ argv.length < l.toNat then none else some ((len, argv), argv.drop l.toNat)

/-- What `svc_safe_getnetobj` takes from `argv` lies inside it, and `argv` goes on right behind its padding. -/
def NetobjInside (argv : List (BitVec 8)) : Prop :=
  ∀ len data rest, svcSafeGetnetobj argv = some ((len, data), rest) →
    data = argv.drop 4 ∧ (len.toNat + 3) / 4 * 4 ≤ data.length ∧ rest = data.drop ((len.toNat + 3) / 4 * 4)

/-- **Tokens stay inside the message** just when the rounding of the announced length does not wrap. -/
theorem netobjInside_iff (argv : List (BitVec 8)) :
    NetobjInside argv ↔ argv.length < 4 ∨ (svcGetnl argv).1.toNat ≤ 2 ^ 32 - 4 := by
  unfold NetobjInside svcSafeGetnetobj
  by_cases hhead : argv.length < 4
  · simp [hhead]
  rw [if_neg hhead, or_iff_right hhead]
  rcases hget : svcGetnl argv with ⟨len, data⟩
  have hdata : data = argv.drop 4 := (congrArg Prod.snd hget).symm
  have hround : (roundUpToQuad len).toNat = _ := Bytes.toNat_roundUp len
  dsimp only
  constructor
  · intro h
    by_contra hlen
    -- the length rounds to nothing, and whatever is left holds it
    have hzero : roundUpToQuad len = 0 := toNat_inj.1 (by simp; omega)
    obtain ⟨-, hle, hrest⟩ := h _ _ _ (if_neg (by simp [hzero]))
    rw [hzero] at hrest
    have := congrArg length hrest
    simp at this
    omega
  · intro hlen _ _ _ h
    split at h
    · cases h
    · cases h
      rw [Nat.mod_eq_of_lt (by omega)] at hround
      exact ⟨hdata, by omega, by rw [hround]⟩

/-- A length of `2 ^ 32 - 1` with nothing behind it is taken for a token. -/
theorem netobjInside_wraps : ¬ NetobjInside [255, 255, 255, 255] :=
  fun h => absurd (h (2 ^ 32 - 1) [] [] (by decide)).2.1 (by decide)

def rpcAuthGss : BitVec 32 := 6

/-- `gss_verify_mic` is given by the checksums it takes. -/
def gssVerifyHeader (verifyMic : BitVec 32 × List (BitVec 8) → Bool) (sd : GssSvcSeqData) (call : GssCall) :
    GssSvcSeqData × GssVerdict :=
  if call.argv.length < 4 then (sd, .badverf)
  else
    let (flavor, argv) := svcGetnl call.argv
    if flavor ≠ rpcAuthGss then (sd, .badverf)
    else
      match svcSafeGetnetobj argv with
      | none => (sd, .badverf)
      | some (checksum, _) =>
        if call.rqDeferred then (sd, .ok)
        else if !verifyMic checksum then (sd, .credproblem)
        else if maxseq < call.gcSeq then (sd, .ctxproblem)
        else
          let r := gssCheckSeqNum sd call.gcSeq
          if r.2 then (r.1, .ok) else (r.1, .drop)

variable (verifyMic : BitVec 32 × List (BitVec 8) → Bool)

/-- A call either leaves the window alone, or its number is checked; a call that is not visited again passes only so. -/
theorem gssVerifyHeader_cases (sd : GssSvcSeqData) (call : GssCall) :
    ((gssVerifyHeader verifyMic sd call).1 = sd ∧
        ((gssVerifyHeader verifyMic sd call).2 = .ok → call.rqDeferred = true)) ∨
      (call.gcSeq ≤ maxseq ∧ (gssVerifyHeader verifyMic sd call).1 = (gssCheckSeqNum sd call.gcSeq).1 ∧
        ((gssVerifyHeader verifyMic sd call).2 = .ok ↔ (gssCheckSeqNum sd call.gcSeq).2 = true)) := by
  unfold gssVerifyHeader
  split
  · simp
  dsimp only
  split
  · simp
  split
  · simp
  split
  · rename_i hdeferred
    exact .inl ⟨rfl, fun _ => hdeferred⟩
  split
  · simp
  split
  · simp
  rename_i hle
  refine .inr ⟨BitVec.not_lt.1 hle, ?_⟩
  split <;> simp_all

/-- The headers of calls verified one after the other, with the numbers of the new calls that passed. -/
def gssVerifyAll : List GssCall → GssSvcSeqData × List Nat
  | [] => ({}, [])
  | call :: before =>
    let r := gssVerifyAll before
    let v := gssVerifyHeader verifyMic r.1 call
    (v.1, if v.2 = .ok ∧ call.rqDeferred = false then call.gcSeq.toNat :: r.2 else r.2)

/-- **No two new calls** with one sequence number get past the header, whatever else is verified in between. -/
theorem gssVerifyHeader_once (calls : List GssCall) : (gssVerifyAll verifyMic calls).2.Nodup := by
  -- the numbers that passed are among those the window has seen
  suffices h : ∃ seen, Sees (gssVerifyAll verifyMic calls).1 seen ∧ (∀ n ∈ (gssVerifyAll verifyMic calls).2, n ∈ seen) ∧
      (gssVerifyAll verifyMic calls).2.Nodup from h.choose_spec.2.2
  induction calls with
  | nil => exact ⟨[], sees_init, by simp [gssVerifyAll], nodup_nil⟩
  | cons call before ih =>
    obtain ⟨seen, hsees, hsub, hnodup⟩ := ih
    simp only [gssVerifyAll]
    rcases gssVerifyHeader_cases verifyMic (gssVerifyAll verifyMic before).1 call with ⟨hsame, hok⟩ | ⟨hle, hsd, hok⟩
    · have hnot : ¬ ((gssVerifyHeader verifyMic (gssVerifyAll verifyMic before).1 call).2 = .ok ∧ call.rqDeferred = false) := by
        rintro ⟨hpass, hnew⟩
        simp [hok hpass] at hnew
      rw [hsame, if_neg hnot]
      exact ⟨seen, hsees, hsub, hnodup⟩
    obtain ⟨hiff, hsees'⟩ := gssCheckSeqNum_spec hsees hle
    rw [hsd]
    refine ⟨_, hsees', ?_⟩
    by_cases hadmits : Admits gssSeqWin seen call.gcSeq.toNat
    · have hfresh : call.gcSeq.toNat ∉ (gssVerifyAll verifyMic before).2 := fun hmem => hadmits.1 (hsub _ hmem)
      rw [offer_of_admits hadmits]
      split
      · exact ⟨forall_mem_cons.2 ⟨mem_cons_self, fun n hn => mem_cons_of_mem _ (hsub n hn)⟩,
          nodup_cons.2 ⟨hfresh, hnodup⟩⟩
      · exact ⟨fun n hn => mem_cons_of_mem _ (hsub n hn), hnodup⟩
    have hnot : ¬ ((gssVerifyHeader verifyMic (gssVerifyAll verifyMic before).1 call).2 = .ok ∧
        call.rqDeferred = false) := fun hpass => hadmits (hiff.1 (hok.1 hpass.1))
    rw [offer_of_not_admits hadmits, if_neg hnot]
    exact ⟨hsub, hnodup⟩

end Vastnfs.Sunrpc
