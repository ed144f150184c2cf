import Mathlib.Data.List.Basic
import Vastnfs.Lib.Runs

/-!
# The bytes a direct write reports

A direct write is cut into page requests that go out in headers of neighbouring requests (`fs/nfs/direct.c`). Its result
is a count from the start of the write and a maximum that every failure lowers; unstable data waits for a COMMIT, and what
a COMMIT finds lost is written once more.

* `nfsDirectCountBytes`, `nfsDirectWriteCompletion`, `nfsDirectWriteReschedule`, `nfsDirectCommitComplete`: the functions.
* `DirectInv.step`: what every step keeps that rewrites nothing or everything.
* `reported_as_stored`: the count that is reported is what the server has.
-/

namespace Vastnfs.Nfs

open Runs

/-! ## The functions -/

/-- `dreq->flags` of a write. -/
inductive DreqFlags where
  | none | doCommit | reschedWrites | done
deriving DecidableEq

/-- Where a request is: in the header of the bytes from `start` up to `stop`, on the commit list, in a COMMIT, or released. -/
inductive DreqPlace where
  | header (start stop : Nat)
  | listed
  | commit (i : Nat)
  | released
deriving DecidableEq

/-- A byte of the write, with the place and the verifier of its request. What the server did is remembered with it: the
verifier of the unstable reply it is covered by, and whether it is on stable storage. -/
structure DreqByte (Verf : Type) where
  place : DreqPlace
  wbVerf : Verf
  acked : Option Verf := none
  safe : Bool := false

/-- A direct write whose first `sent` bytes have been sent: `error` is whether `dreq->error` is set, `reported` the count it
has completed with. -/
structure DreqState (Verf : Type) where
  sent : Nat
  count : Nat := 0
  maxCount : Nat
  error : Bool := false
  flags : DreqFlags := .none
  byte : Nat → DreqByte Verf
  reported : Option Nat := none

section

variable {Verf : Type}

/-- `nfs_direct_count_bytes` with `nfs_direct_handle_truncated`, for a header that ends at `dreqLen`. -/
def nfsDirectCountBytes (dreqLen : Nat) (failed : Bool) (s : DreqState Verf) : DreqState Verf :=
  let s := if failed ∧ dreqLen ≤ s.maxCount then
      { s with maxCount := dreqLen, count := min s.count dreqLen, error := true }
    else s
  { s with count := max s.count (min dreqLen s.maxCount) }

/-- What `nfs_direct_write_completion` does with a byte, `stored` by the reply or not. -/
def DreqByte.written (flags : DreqFlags) (stored stable : Bool) (verf : Verf) (c : DreqByte Verf) : DreqByte Verf :=
  let c := if stable then { c with safe := stored } else { c with acked := if stored then some verf else none }
  match flags with
  | .doCommit => { c with wbVerf := verf, place := .listed }
  | .reschedWrites => { c with place := .listed }
  | _ => { c with place := .released }

def nfsDirectWriteCompletion (start stop goodBytes : Nat) (stable : Bool) (verf : Verf) (s : DreqState Verf) :
    DreqState Verf :=
  let s := nfsDirectCountBytes (start + goodBytes) (goodBytes < stop - start) s
  let needCommit : Bool := goodBytes ≠ 0 ∧ !stable
  let s := if needCommit ∧ s.flags = .none then { s with flags := .doCommit } else s
  let flags := if needCommit then s.flags else .done
  { s with
    byte := fun b =>
      if (s.byte b).place = .header start stop then (s.byte b).written flags (b < start + goodBytes) stable verf
      else s.byte b }

def DreqState.move (s : DreqState Verf) (old : DreqPlace) (new : Nat → DreqPlace) (b : Nat) : DreqByte Verf :=
  if (s.byte b).place = old then { s.byte b with place := new b } else s.byte b

def nfsDirectWriteRescheduleIo (start stop : Nat) (s : DreqState Verf) : DreqState Verf :=
  { s with
    flags := if s.error then s.flags else .reschedWrites
    byte := s.move (.header start stop) fun _ => .listed }

/-- `group` names the header a byte goes out in, unless `nfs_pageio_add_request` fails. -/
def nfsDirectWriteReschedule (group : Nat → Option (Nat × Nat)) (s : DreqState Verf) : DreqState Verf :=
  let reqs := (List.range s.sent).filter fun b => (s.byte b).place = .listed
  { s with
    count := 0
    maxCount := reqs.length
    error := s.error || reqs.any fun b => (group b).isNone
    byte := fun b =>
      if (s.byte b).place = .listed then
        match group b with
        | some g => { s.byte b with place := .header g.1 g.2, acked := none }
        | none => { s.byte b with place := .released }
      else s.byte b }

/-- A COMMIT for each `bucket`, where memory allows it. -/
def nfsDirectWriteScheduleWork (memory : Bool) (bucket : Nat → Nat) (group : Nat → Option (Nat × Nat)) (s : DreqState Verf) :
    DreqState Verf :=
  match s.flags with
  | .doCommit =>
    if memory then { s with flags := .none, byte := s.move .listed fun b => .commit (bucket b) }
    else nfsDirectWriteReschedule group { s with flags := .none }
  | .reschedWrites => nfsDirectWriteReschedule group { s with flags := .none }
  | _ => { s with flags := .none, byte := s.move .listed fun _ => .released, reported := some s.count }

variable [DecidableEq Verf]

/-- `sync` is whether the level of the reply is above `NFS_UNSTABLE`. -/
def nfsDirectCommitComplete (i : Nat) (ok sync : Bool) (verf : Verf) (s : DreqState Verf) : DreqState Verf :=
  let s := if ok then s else { s with error := true, maxCount := 0, count := 0, flags := .done }
  let again (c : DreqByte Verf) : Bool := (ok ∧ s.flags ≠ .done) ∧ ¬ (sync ∧ c.wbVerf = verf)
  { s with
    flags := if ∃ b < s.sent, (s.byte b).place = .commit i ∧ again (s.byte b) then .reschedWrites else s.flags
    byte := fun b =>
      if (s.byte b).place = .commit i then
        if again (s.byte b) then { s.byte b with place := .listed }
        else { s.byte b with place := .released, safe := ok ∧ sync ∧ (s.byte b).acked = some verf }
      else s.byte b }

def nfsDirectReschedWrite (i : Nat) (s : DreqState Verf) : DreqState Verf :=
  { s with
    flags := if s.flags = .done then .done else .reschedWrites
    byte := s.move (.commit i) fun _ => .listed }

/-- A new header, which takes `b` and its neighbours. -/
def DreqState.Takes (s : DreqState Verf) (group : Nat → Option (Nat × Nat)) (g : Nat × Nat) (b : Nat) : Prop :=
  g.1 ≤ b ∧ b < g.2 ∧ g.2 ≤ s.sent ∧ ∀ b' < g.2, g.1 ≤ b' → (s.byte b').place = .listed ∧ group b' = some g

instance (s : DreqState Verf) (group : Nat → Option (Nat × Nat)) (g : Nat × Nat) (b : Nat) : Decidable (s.Takes group g b) :=
  inferInstanceAs (Decidable (_ ∧ _))

/-- What can happen to a direct write: the reply to a header, a header that has to be written again, the work that starts when
nothing is under way, the reply to a COMMIT, and a COMMIT that could not be made. -/
inductive DreqEvent (Verf : Type) where
  | write (start stop goodBytes : Nat) (stable : Bool) (verf : Verf)
  | redo (start stop : Nat)
  | work (memory : Bool) (bucket : Nat → Nat) (group : Nat → Option (Nat × Nat))
  | commit (i : Nat) (ok sync : Bool) (verf : Verf)
  | resched (i : Nat)

def dreqStep (s : DreqState Verf) : DreqEvent Verf → Option (DreqState Verf)
  | .write start stop goodBytes stable verf =>
    if (∃ b < s.sent, (s.byte b).place = .header start stop) ∧ goodBytes ≤ stop - start then
      some (nfsDirectWriteCompletion start stop goodBytes stable verf s)
    else none
  | .redo start stop =>
    if ∃ b < s.sent, (s.byte b).place = .header start stop then some (nfsDirectWriteRescheduleIo start stop s) else none
  | .work memory bucket group =>
    if s.reported = none ∧ (∀ b < s.sent, (s.byte b).place = .listed ∨ (s.byte b).place = .released) ∧
        ∀ b < s.sent, (s.byte b).place = .listed → ∀ g ∈ group b, s.Takes group g b then
      some (nfsDirectWriteScheduleWork memory bucket group s)
    else none
  | .commit i ok sync verf =>
    if ∃ b < s.sent, (s.byte b).place = .commit i then some (nfsDirectCommitComplete i ok sync verf s) else none
  | .resched i => if ∃ b < s.sent, (s.byte b).place = .commit i then some (nfsDirectReschedWrite i s) else none

end

/-! ## What is promised -/

section

variable {Verf : Type}

def DreqState.Stored (s : DreqState Verf) (b : Nat) : Prop := b < s.sent ∧ (s.byte b).safe = true

/-- A header has all the bytes from its start to its end. -/
def DreqState.Headers (s : DreqState Verf) : Prop :=
  ∀ b < s.sent, ∀ x y, (s.byte b).place = .header x y →
    x ≤ b ∧ b < y ∧ y ≤ s.sent ∧ ∀ b' < y, x ≤ b' → (s.byte b').place = .header x y

/-- A write of `len` bytes that has just been sent. -/
structure DirectFresh (len : Nat) (s : DreqState Verf) : Prop where
  headers : s.Headers
  bound : s.sent ≤ len
  start : s.count = 0 ∧ s.maxCount = len ∧ s.flags = .none ∧ s.reported = none
  bytes : ∀ b < s.sent, (∃ x y, (s.byte b).place = .header x y) ∧ (s.byte b).safe = false

/-- What is reported was stored, and a write that was stored whole is reported whole. -/
def Truthful (len : Nat) (s : DreqState Verf) : Prop :=
  ∀ n, s.reported = some n → (∀ b < n, s.Stored b) ∧ ((∀ b < len, s.Stored b) → n = len)

/-- Headers are redone only while there is no error, and the write is rescheduled as a whole. -/
def Whole (s : DreqState Verf) : DreqEvent Verf → Prop
  | .redo _ _ => s.error = false
  | .work memory _ group =>
    s.flags = .reschedWrites ∨ s.flags = .doCommit ∧ memory = false →
      ∀ b < s.sent, (s.byte b).place = .listed ∧ (group b).isSome
  | _ => True

instance (s : DreqState Verf) (e : DreqEvent Verf) : Decidable (Whole s e) := by
  cases e <;> dsimp only [Whole] <;> infer_instance

/-- A byte will be on stable storage if nothing fails. -/
def Coming (flags : DreqFlags) (c : DreqByte Verf) : Prop :=
  match c.place with
  | .header _ _ => True
  | .listed => flags = .reschedWrites ∨ c.acked = some c.wbVerf
  | .commit _ => c.acked = some c.wbVerf
  | .released => False

structure LostByte (c : DreqByte Verf) : Prop where
  safe : c.safe = false
  sent : ∀ x y, c.place ≠ .header x y
  acked : c.place ≠ .released → c.acked = none

structure DreqByteInv (flags : DreqFlags) (count maxCount b : Nat) (c : DreqByte Verf) : Prop where
  clear : c.place ≠ .released → c.safe = false
  listed : flags = .none → c.place ≠ .listed
  kept : flags ≠ .done → b < maxCount → c.safe = true ∨ Coming flags c
  counted : flags = .none ∨ flags = .doCommit → (∀ x y, c.place ≠ .header x y) → b < maxCount → b < count

/-- What holds of a write that has been rescheduled as a whole each time. -/
structure DirectInv (len : Nat) (s : DreqState Verf) : Prop where
  headers : s.Headers
  bound : s.sent ≤ len
  count_le : s.count ≤ s.maxCount ∧ s.count ≤ s.sent
  done : s.flags = .done → s.maxCount = 0
  bytes : ∀ b < s.sent, DreqByteInv s.flags s.count s.maxCount b (s.byte b)
  lost : s.flags = .done ∨ s.maxCount < s.sent → ∃ b < s.sent, LostByte (s.byte b)
  reported : ∀ n, s.reported = some n → s.count = n ∧ s.flags = .none ∧ ∀ b < s.sent, (s.byte b).place = .released

end

/-! ## The steps -/

variable {Verf : Type} {len maxCount count b : Nat} {s : DreqState Verf} {flags : DreqFlags} {c : DreqByte Verf}
  {place : DreqPlace}

theorem directCountBytes_spec (dreqLen : Nat) (failed : Bool) (hle : s.count ≤ s.maxCount) :
    ∃ count maxCount error, nfsDirectCountBytes dreqLen failed s =
        { s with count := count, maxCount := maxCount, error := error } ∧
      maxCount ≤ s.maxCount ∧ (maxCount < s.maxCount → maxCount = dreqLen ∧ failed = true) ∧
      (failed = true → maxCount ≤ dreqLen) ∧ count ≤ maxCount ∧ count ≤ max s.count dreqLen ∧
      ∀ b < maxCount, b < s.count ∨ b < dreqLen → b < count := by
  unfold nfsDirectCountBytes
  split <;> exact ⟨_, _, _, rfl, by grind⟩

/-- A byte whose place and verifier stay, while the maximum sinks and the count below it does not. -/
theorem DreqByteInv.mono {flags' : DreqFlags} {count' maxCount' : Nat} (h : DreqByteInv flags count maxCount b c)
    (hmax : maxCount' ≤ maxCount) (hcount : b < maxCount' → b < count → b < count')
    (hflags : flags' = flags ∨ flags = .none ∧ flags' = .doCommit ∨ flags ≠ .done ∧ flags' = .reschedWrites) :
    DreqByteInv flags' count' maxCount' b c where
  clear := h.clear
  listed := by rintro rfl; exact h.listed (by simpa [eq_comm] using hflags)
  kept := by
    intro hne hb
    refine (h.kept (by grind) (by omega)).imp_right fun hc => ?_
    unfold Coming at hc ⊢
    split at hc <;> grind
  counted := fun hf hs hb => hcount hb (h.counted (by grind) hs (by omega))

theorem DreqByteInv.written {fate : DreqFlags} {stored stable : Bool} (hclear : c.safe = false)
    (hstored : b < maxCount → stored = true ∧ b < count)
    (hfate : fate = flags ∧ flags ≠ .none ∧ stable = false ∨ fate = .done ∧ (stable = true ∨ stored = false))
    (verf : Verf) : DreqByteInv flags count maxCount b (c.written fate stored stable verf) := by
  rcases hfate with ⟨rfl, hne, rfl⟩ | ⟨rfl, hst⟩
  · refine ⟨?_, fun h0 => absurd h0 hne, fun hdone hb => ?_, fun _ _ hb => (hstored hb).2⟩
    · cases fate <;> simp [DreqByte.written, hclear]
    · have := (hstored hb).1
      cases fate <;> simp_all [DreqByte.written, Coming]
  · refine ⟨by simp [DreqByte.written], by simp [DreqByte.written], fun _ hb => ?_, fun _ _ hb => (hstored hb).2⟩
    cases stable <;> simp_all [DreqByte.written]

theorem DirectInv.map (h : DirectInv len s) {f : Nat → DreqByte Verf} {error : Bool} {reported : Option Nat}
    (hplace : ∀ b x y, (f b).place = .header x y →
      (s.byte b).place = .header x y ∧ ∀ b', (s.byte b').place = .header x y → (f b').place = .header x y)
    (hcount : count ≤ maxCount ∧ count ≤ s.sent) (hdone : flags = .done → maxCount = 0)
    (hbytes : ∀ b < s.sent, DreqByteInv flags count maxCount b (f b))
    (hlost : flags = .done ∨ maxCount < s.sent → ∃ b < s.sent, LostByte (f b))
    (hreported : ∀ n, reported = some n → count = n ∧ flags = .none ∧ ∀ b < s.sent, (f b).place = .released) :
    DirectInv len ⟨s.sent, count, maxCount, error, flags, f, reported⟩ where
  headers := by
    intro b hb x y hpl
    obtain ⟨hpl, hall⟩ := hplace b x y hpl
    obtain ⟨hx, hy, hsent, hin⟩ := h.headers b hb x y hpl
    exact ⟨hx, hy, hsent, fun b' hb' hx' => hall b' (hin b' hb' hx')⟩
  bound := h.bound
  count_le := hcount
  done := hdone
  bytes := hbytes
  lost := hlost
  reported := hreported

theorem DirectInv.not_reported (h : DirectInv len s) (hne : place ≠ .released)
    (hex : ∃ b < s.sent, (s.byte b).place = place) {n : Nat} : s.reported ≠ some n := by
  obtain ⟨b, hb, rfl⟩ := hex
  exact fun hn => hne ((h.reported n hn).2.2 b hb)

theorem DirectInv.write (h : DirectInv len s) {start stop good : Nat} (stable : Bool) (verf : Verf)
    (hex : ∃ b < s.sent, (s.byte b).place = .header start stop) (hgood : good ≤ stop - start) :
    DirectInv len (nfsDirectWriteCompletion start stop good stable verf s) := by
  have hnone {n : Nat} : s.reported ≠ some n := h.not_reported (by simp) hex
  obtain ⟨b₀, hb₀, hpl₀⟩ := hex
  obtain ⟨hstart, hstop, hsent, hin⟩ := h.headers b₀ hb₀ _ _ hpl₀
  obtain ⟨count, maxCount, error, heq, hmax, hlow, hfailed, hle, hcount, hgrow⟩ :=
    directCountBytes_spec (start + good) (good < stop - start) h.count_le.1
  unfold nfsDirectWriteCompletion
  rw [heq]
  extract_lets s₁ needCommit t fate
  obtain ⟨flags, ht, hflags, hfate⟩ : ∃ flags,
      t = { s with count := count, maxCount := maxCount, error := error, flags := flags } ∧
      (flags = s.flags ∨ s.flags = .none ∧ flags = .doCommit) ∧
      (fate = flags ∧ flags ≠ .none ∧ stable = false ∨ fate = .done ∧ (stable = true ∨ good = 0)) := by
    by_cases hneed : needCommit = true
    · have hn : good ≠ 0 ∧ stable = false := by simpa [needCommit] using hneed
      by_cases h0 : s.flags = .none
      · exact ⟨.doCommit, by simp [t, s₁, hneed, h0], .inr ⟨h0, rfl⟩, .inl (by simp [fate, t, s₁, hneed, h0, hn.2])⟩
      · exact ⟨s.flags, by simp [t, s₁, h0], .inl rfl, .inl (by simp [fate, t, s₁, hneed, h0, hn.2])⟩
    · have hn : stable = true ∨ good = 0 := by simpa [needCommit, or_iff_not_imp_right] using hneed
      exact ⟨s.flags, by simp [t, s₁, hneed], .inl rfl, .inr ⟨by simp [fate, hneed], hn⟩⟩
  rw [ht]
  have hkeep (c : DreqByte Verf) (stored : Bool) (x y : Nat) : (c.written fate stored stable verf).place ≠ .header x y := by
    unfold DreqByte.written
    cases fate <;> simp
  refine h.map (by grind) ⟨hle, ?_⟩ (fun hd => ?_) (fun b hb => ?_) (fun hl => ?_) fun n hn => absurd hn hnone
  · have := h.count_le
    show count ≤ s.sent
    omega
  · have := h.done (by grind)
    show maxCount = 0
    omega
  · split
    · next hpl =>
      have hpl : (s.byte b).place = _ := hpl
      obtain ⟨hx, hy, -⟩ := h.headers b hb _ _ hpl
      refine DreqByteInv.written ((h.bytes b hb).clear (by simp [hpl])) (fun hlt => ?_) ?_ verf
      · -- a byte of the header that counts was stored by this reply
        have hb' : b < start + good := by
          by_cases hf : good < stop - start
          · have := hfailed (by simpa using hf)
            have : b < maxCount := hlt
            omega
          · omega
        exact ⟨by simpa using hb', hgrow b hlt (.inr hb')⟩
      · exact hfate.imp_right fun hd => ⟨hd.1, hd.2.imp_right fun h0 => by simpa [h0] using hx⟩
    · exact (h.bytes b hb).mono hmax (fun hb hs => hgrow b hb (.inl hs)) (hflags.imp_right .inl)
  · by_cases hold : s.flags = .done ∨ s.maxCount < s.sent
    · obtain ⟨b, hb, hlost⟩ := h.lost hold
      exact ⟨b, hb, by rwa [if_neg (hlost.sent _ _)]⟩
    -- the first byte the reply leaves out
    obtain ⟨-, hf⟩ := hlow (by grind)
    have hf : good < stop - start := by simpa using hf
    have hb : start + good < s.sent := by omega
    have hpl := hin (start + good) (by omega) (by omega)
    have hclear := (h.bytes _ hb).clear (by simp [hpl])
    refine ⟨start + good, hb, ?_⟩
    rw [if_pos hpl]
    refine ⟨?_, hkeep _ _, ?_⟩ <;> unfold DreqByte.written <;> cases stable <;> cases hc : fate <;> simp_all

theorem LostByte.move {old : DreqPlace} {new : Nat → DreqPlace} (h : LostByte (s.byte b)) (hold : old ≠ .released)
    (hnew : ∀ x y, new b ≠ .header x y) : LostByte (s.move old new b) := by
  unfold DreqState.move
  split
  · next hpl => exact ⟨h.safe, hnew, fun _ => h.acked (hpl ▸ hold)⟩
  · exact h

section

variable (h : DirectInv len s)
include h

theorem DirectInv.relist (hplace : place ≠ .released)
    (hex : ∃ b < s.sent, (s.byte b).place = place) (hflags : flags = .reschedWrites ∨ flags = .done ∧ s.flags = .done) :
    DirectInv len { s with flags := flags, byte := s.move place fun _ => .listed } := by
  refine h.map (by grind [DreqState.move]) h.count_le (fun hd => h.done (by grind)) (fun b hb => ?_) (fun hl => ?_) fun n hn =>
    absurd hn (h.not_reported hplace hex)
  · have hinv := h.bytes b hb
    unfold DreqState.move
    split
    · next hpl =>
      refine ⟨fun _ => hinv.clear (hpl ▸ hplace), ?_, fun hdone _ => .inr (.inl ?_), ?_⟩ <;> grind
    obtain hd | hd := em (s.flags = .done)
    · -- nothing counts any more
      have := h.done hd
      exact ⟨hinv.clear, by grind, by grind, by grind⟩
    · exact hinv.mono (Nat.le_refl _) (fun _ => id) (by grind)
  · obtain ⟨b, hb, hlost⟩ := h.lost (by grind)
    exact ⟨b, hb, hlost.move hplace (by simp)⟩

theorem DirectInv.schedule (hflags : s.flags = .doCommit) (bucket : Nat → Nat) :
    DirectInv len { s with flags := .none, byte := s.move .listed fun b => .commit (bucket b) } := by
  refine h.map (by grind [DreqState.move]) h.count_le (by simp) (fun b hb => ?_) (fun hl => ?_) fun n hn => ?_
  · have hinv := h.bytes b hb
    have hkept := hinv.kept (by simp [hflags])
    have hcounted := hinv.counted (by simp [hflags])
    unfold DreqState.move
    split
    · next hpl =>
      refine ⟨fun _ => hinv.clear (by simp [hpl]), by simp, fun _ hlt => ?_, fun _ _ => hcounted (by simp [hpl])⟩
      simpa [Coming, hpl, hflags] using hkept hlt
    next hpl =>
    refine ⟨hinv.clear, fun _ => hpl, fun _ hlt => (hkept hlt).imp_right fun hc => ?_, fun _ => hcounted⟩
    unfold Coming at hc ⊢
    split at hc <;> simp_all
  · obtain ⟨b, hb, hlost⟩ := h.lost (by grind)
    exact ⟨b, hb, hlost.move (by simp) (by simp)⟩
  · have := (h.reported n hn).2.1
    simp [hflags] at this

theorem DirectInv.reschedule {group : Nat → Option (Nat × Nat)}
    (hwhole : ∀ b < s.sent, (s.byte b).place = .listed ∧ (group b).isSome)
    (hgroup : ∀ b < s.sent, ∀ g ∈ group b, s.Takes group g b) (hnone : s.reported = none) :
    DirectInv len (nfsDirectWriteReschedule group { s with flags := .none }) := by
  have hall : (List.range s.sent).filter (fun b => (s.byte b).place = .listed) = List.range s.sent :=
    List.filter_eq_self.2 fun b hb => by simp [(hwhole b (List.mem_range.1 hb)).1]
  have hbyte (b : Nat) (hb : b < s.sent) : ∃ g, group b = some g ∧
      (nfsDirectWriteReschedule group { s with flags := .none }).byte b =
        { s.byte b with place := .header g.1 g.2, acked := none } := by
    obtain ⟨g, hg⟩ := Option.isSome_iff_exists.1 (hwhole b hb).2
    exact ⟨g, hg, by simp [nfsDirectWriteReschedule, (hwhole b hb).1, hg]⟩
  have hmax : (nfsDirectWriteReschedule group { s with flags := .none }).maxCount = s.sent := by
    simp [nfsDirectWriteReschedule, hall]
  constructor
  · intro b hb x y hpl
    obtain ⟨g, hg, heq⟩ := hbyte b hb
    rw [heq] at hpl
    cases hpl
    obtain ⟨hx, hy, hsent, hin⟩ := hgroup b hb g hg
    refine ⟨hx, hy, hsent, fun b' hb' hx' => ?_⟩
    obtain ⟨g', hg', heq'⟩ := hbyte b' (by omega)
    cases (hin b' hb' hx').2.symm.trans hg'
    rw [heq']
  · exact h.bound
  · exact ⟨Nat.zero_le _, Nat.zero_le _⟩
  · nofun
  · intro b hb
    obtain ⟨g, -, heq⟩ := hbyte b hb
    have hclear := (h.bytes b hb).clear (by simp [(hwhole b hb).1])
    rw [heq]
    exact ⟨fun _ => hclear, by simp, by simp [Coming], fun _ hne => absurd rfl (hne _ _)⟩
  · rw [hmax]
    rintro (hd | hd)
    · cases hd
    · exact absurd hd (Nat.lt_irrefl _)
  · intro n hn
    cases hnone.symm.trans hn

theorem DirectInv.finish (hflags : s.flags = .none ∨ s.flags = .done)
    (hidle : ∀ b < s.sent, (s.byte b).place = .listed ∨ (s.byte b).place = .released) :
    DirectInv len { s with flags := .none, byte := s.move .listed fun _ => .released, reported := some s.count } := by
  have hreleased (b : Nat) (hb : b < s.sent) : (s.move .listed (fun _ => .released) b).place = .released := by
    unfold DreqState.move
    rcases hidle b hb with hpl | hpl <;> simp [hpl]
  refine h.map (by grind [DreqState.move]) h.count_le (by simp) (fun b hb => ?_) (fun hl => ?_) ?_
  · rcases hflags with hf | hf
    · unfold DreqState.move
      rw [if_neg ((h.bytes b hb).listed hf), ← hf]
      exact h.bytes b hb
    · have h0 := h.done hf
      exact ⟨by simp [hreleased b hb], by simp [hreleased b hb], by simp [h0], by simp [h0]⟩
  · obtain ⟨b, hb, hlost⟩ := h.lost (by grind)
    exact ⟨b, hb, hlost.move (by simp) (by simp)⟩
  · rintro n ⟨⟩
    exact ⟨rfl, rfl, hreleased⟩

end

theorem DirectFresh.inv (h : DirectFresh len s) : DirectInv len s where
  __ := h
  count_le := by simp [h.start]
  done := by simp [h.start]
  bytes := by
    intro b hb
    obtain ⟨⟨x, y, hpl⟩, hsafe⟩ := h.bytes b hb
    exact ⟨fun _ => hsafe, by simp [hpl], by simp [Coming, hpl], fun _ hne => absurd hpl (hne x y)⟩
  lost := by have := h.bound; have := h.start.2.1; simp [h.start]; omega
  reported := by simp [h.start]

theorem DirectInv.truthful (h : DirectInv len s) : Truthful len s := by
  intro n hn
  obtain ⟨rfl, hnone, hreleased⟩ := h.reported n hn
  have := h.count_le
  refine ⟨fun b hb => ⟨by omega, ?_⟩, fun hall => ?_⟩
  · have hb' : b < s.sent := by omega
    simpa [Coming, hreleased b hb'] using (h.bytes b hb').kept (by simp [hnone]) (by omega)
  · -- a byte that is missing in the count was lost
    have hsent : s.sent = len :=
      Nat.le_antisymm h.bound (Nat.le_of_not_lt fun hlt => absurd (hall _ hlt).1 (Nat.lt_irrefl _))
    have hmax : ¬ s.maxCount < s.sent := by
      intro hlt
      obtain ⟨b, hb, hlost⟩ := h.lost (.inr hlt)
      cases hlost.safe.symm.trans (hall b (by omega)).2
    refine Nat.le_antisymm (by omega) (Nat.le_of_not_lt fun hlt => ?_)
    have := (h.bytes s.count (by omega)).counted (.inl hnone) (by simp [hreleased s.count (by omega)]) (by omega)
    omega

variable [DecidableEq Verf]

theorem DirectInv.commit (h : DirectInv len s) {i : Nat} (ok sync : Bool) (verf : Verf)
    (hex : ∃ b < s.sent, (s.byte b).place = .commit i) : DirectInv len (nfsDirectCommitComplete i ok sync verf s) := by
  have hnone {n : Nat} : s.reported ≠ some n := h.not_reported (by simp) hex
  cases ok with
  | false =>
    -- everything is given up
    simp only [nfsDirectCommitComplete, Bool.false_eq_true, false_and, decide_false, and_false]
    rw [if_neg (by simp)]
    refine h.map (by grind) (by simp) (by simp) (fun b hb => ?_) (fun _ => ?_) fun n hn => absurd hn hnone
    · have := (h.bytes b hb).clear
      constructor <;> grind
    · obtain ⟨b, hb, hpl⟩ := hex
      exact ⟨b, hb, by rw [if_pos hpl]; exact ⟨rfl, by simp, by simp⟩⟩
  | true =>
    unfold nfsDirectCommitComplete
    extract_lets s₁ again
    rw [show s₁ = s from rfl]
    have hagain (c : DreqByte Verf) : again c = true ↔ s.flags ≠ .done ∧ ¬ (sync = true ∧ c.wbVerf = verf) := by
      simp [again, s₁, imp_iff_not_or]
    obtain ⟨flags, hfl, hresched, hflags⟩ : ∃ flags,
        (if ∃ b < s.sent, (s.byte b).place = .commit i ∧ again (s.byte b) then .reschedWrites else s.flags) = flags ∧
        (∀ b < s.sent, (s.byte b).place = .commit i → again (s.byte b) = true → flags = .reschedWrites) ∧
        (flags = s.flags ∨ s.flags ≠ .done ∧ flags = .reschedWrites) := by
      refine ⟨_, rfl, fun b hb hpl hag => if_pos ⟨b, hb, hpl, hag⟩, ?_⟩
      split
      · next hany =>
        obtain ⟨b, -, -, hag⟩ := hany
        exact .inr ⟨((hagain _).1 hag).1, rfl⟩
      · exact .inl rfl
    rw [hfl]
    refine h.map (by grind) h.count_le (fun hd => h.done (by grind)) (fun b hb => ?_) (fun hl => ?_) fun n hn =>
      absurd hn hnone
    · have hinv := h.bytes b hb
      have hmono := hinv.mono (Nat.le_refl _) (fun _ => id) (hflags.imp_right .inr)
      split
      · rename_i hpl
        have hclear := hinv.clear (by simp [hpl])
        by_cases hag : again (s.byte b) = true
        · -- the byte is written again
          rw [if_pos hag, hresched b hb hpl hag]
          exact ⟨fun _ => hclear, by simp, fun _ _ => .inr (.inl rfl), by simp⟩
        rw [if_neg hag]
        refine ⟨by simp, by simp, fun hne hlt => .inl ?_, fun hf _ => hmono.counted hf (by simp [hpl])⟩
        -- a byte that counts was stored under the verifier that has come back
        obtain ⟨hsync, hverf⟩ := not_not.1 fun hn => hag ((hagain _).2 ⟨by grind, hn⟩)
        simpa [hsync, hclear, Coming, hpl, hverf] using hmono.kept hne hlt
      · rename_i hpl
        exact hmono
    · obtain ⟨b, hb, hlost⟩ := h.lost (by grind)
      refine ⟨b, hb, ?_⟩
      by_cases hpl : (s.byte b).place = .commit i
      · have hacked := hlost.acked (by simp [hpl])
        rw [if_pos hpl]
        split
        · exact ⟨hlost.safe, by simp, fun _ => hacked⟩
        · exact ⟨by simp [hacked], by simp, by simp⟩
      · rwa [if_neg hpl]

theorem DirectInv.step (s : DreqState Verf) (e : DreqEvent Verf) (t : DreqState Verf) (h : DirectInv len s)
    (hwhole : Whole s e) (ht : dreqStep s e = some t) : DirectInv len t := by
  cases e with
  | write start stop goodBytes stable verf =>
    obtain ⟨⟨hex, hgood⟩, rfl⟩ := of_guarded ht
    exact h.write stable verf hex hgood
  | redo start stop =>
    obtain ⟨hex, rfl⟩ := of_guarded ht
    have hne : s.error = false := hwhole
    exact h.relist (by simp) hex (.inl (by simp [hne]))
  | commit i ok sync verf =>
    obtain ⟨hex, rfl⟩ := of_guarded ht
    exact h.commit ok sync verf hex
  | resched i =>
    obtain ⟨hex, rfl⟩ := of_guarded ht
    exact h.relist (by simp) hex (by grind)
  | work memory bucket group =>
    obtain ⟨⟨hnone, hidle, hgroup⟩, rfl⟩ := of_guarded ht
    have hresched (hw : s.flags = .reschedWrites ∨ s.flags = .doCommit ∧ memory = false) :=
      h.reschedule (hwhole hw) (fun b hb => hgroup b hb (hwhole hw b hb).1) hnone
    unfold nfsDirectWriteScheduleWork
    split
    · next hf =>
      cases memory with
      | true => exact h.schedule hf bucket
      | false => exact hresched (.inr ⟨hf, rfl⟩)
    · next hf => exact hresched (.inl hf)
    · next hc hr => exact h.finish (by cases hf : s.flags <;> simp_all) hidle

/-- **The count that is reported** is what the server has, in every run in which headers are redone only before an error and
the write is rescheduled as a whole. -/
theorem reported_as_stored (h : DirectFresh len s) (es : List (DreqEvent Verf)) (hwhole : EachStep dreqStep Whole s es) :
    Always dreqStep (Truthful len) s es :=
  always_of_eachStep (fun hi => DirectInv.step _ _ _ hi) DirectInv.truthful h.inv hwhole

def twoHeaders : DreqState Nat where
  sent := 8
  maxCount := 8
  byte b := ⟨if b < 4 then .header 0 4 else .header 4 8, 0, none, false⟩

theorem twoHeaders_fresh : DirectFresh 8 twoHeaders where
  headers := by
    intro b hb x y hpl
    have hpl : (if b < 4 then DreqPlace.header 0 4 else .header 4 8) = .header x y := hpl
    have hb : b < 8 := hb
    simp only [twoHeaders]
    split at hpl <;> cases hpl <;> grind
  bound := Nat.le_refl _
  start := ⟨rfl, rfl, rfl, rfl⟩
  bytes b _ := by simp only [twoHeaders]; split <;> simp

/-- The server restarts before the COMMIT: both headers are written again, and all is reported. -/
theorem reported_as_stored_restart :
    let es : List (DreqEvent Nat) := [.write 0 4 4 false 1, .write 4 8 4 false 2, .work true (fun _ => 0) fun _ => none,
      .commit 0 true true 3, .work true (fun _ => 0) fun _ => some (0, 8), .write 0 8 8 true 3,
      .work true (fun _ => 0) fun _ => none]
    (run dreqStep twoHeaders es).map DreqState.reported = some (some 8) ∧ Always dreqStep (Truthful 8) twoHeaders es :=
  ⟨by decide, reported_as_stored twoHeaders_fresh _ (by decide)⟩

/-- The second header is redone after the first has failed: its bytes are reported as the first of the write. -/
theorem reported_not_stored : ¬ Always dreqStep (Truthful 8) twoHeaders
    [.redo 4 8, .write 0 4 0 true 0, .work true (fun _ => 0) fun _ => some (4, 8), .write 4 8 4 true 0,
      .work true (fun _ => 0) fun _ => none] := by
  intro h
  have hsafe := ((run_of_always h rfl 4 (by decide)).1 0 (by decide)).2
  revert hsafe
  decide

end Vastnfs.Nfs
