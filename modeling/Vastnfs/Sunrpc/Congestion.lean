import Mathlib.Algebra.Order.Ring.Int
import Mathlib.Data.Finset.Card
import Vastnfs.Lib.Runs

/-!
# The congestion window of a transport

`net/sunrpc/xprt.c`: a request of a transport with congestion control needs a credit. `cong` counts the credits given
out, `cwnd` is the window, and `xprt_adjust_cwnd` moves the window after a reply or a timeout.

* `CongInv.step`: a step succeeds and keeps the credits and the window.
* `congestion_window`: the window in every run.
-/

namespace Vastnfs.Sunrpc

open Runs

def rpcCwndscale : Nat := 256

def rpcMaxSlotTableLimit : Nat := 65536

/-- `RPC_MAXCWND`, shifted in an `unsigned int`. -/
def rpcMaxcwnd (maxReqs : Nat) : Nat := maxReqs * 2 ^ 8 % 2 ^ 32

/-- What `struct rpc_xprt` has for congestion control, and the requests with `rq_cong` set. -/
structure CongXprt where
  cong : Nat := 0
  cwnd : Nat := rpcCwndscale
  rqCong : Finset Nat := ∅

def xprtGetCong (s : CongXprt) (req : Nat) : CongXprt × Bool :=
  if req ∈ s.rqCong then (s, true)
  else if s.cwnd ≤ s.cong then (s, false)
  else ({ s with rqCong := insert req s.rqCong, cong := (s.cong + rpcCwndscale) % 2 ^ 64 }, true)

def xprtPutCong (s : CongXprt) (req : Nat) : CongXprt :=
  if req ∈ s.rqCong then
    { s with rqCong := s.rqCong.erase req, cong := (s.cong + 2 ^ 64 - rpcCwndscale) % 2 ^ 64 }
  else s

/-- `xprt_adjust_cwnd`, which divides by the window. -/
def xprtAdjustCwnd (maxReqs : Nat) (s : CongXprt) (req : Nat) (result : Int) : Option CongXprt :=
  if 0 ≤ result ∧ s.cwnd ≤ s.cong then
    if s.cwnd = 0 then none
    else
      let cwnd := s.cwnd + (rpcCwndscale * rpcCwndscale + s.cwnd / 2) / s.cwnd
      some (xprtPutCong { s with cwnd := min cwnd (rpcMaxcwnd maxReqs) } req)
  else if result = -110 then some (xprtPutCong { s with cwnd := max (s.cwnd / 2) rpcCwndscale } req)
  else some (xprtPutCong s req)

inductive CongEvent where
  | get (req : Nat)
  | put (req : Nat)
  | adjust (req : Nat) (result : Int)

def congStep (maxReqs : Nat) (s : CongXprt) : CongEvent → Option CongXprt
  | .get req => some (xprtGetCong s req).1
  | .put req => some (xprtPutCong s req)
  | .adjust req result => xprtAdjustCwnd maxReqs s req result

/-- The credits are those of the requests, and the window is within its bounds. -/
structure CongInv (maxReqs : Nat) (s : CongXprt) : Prop where
  counted : s.cong = rpcCwndscale * s.rqCong.card
  small : s.cong < 2 ^ 25
  low : rpcCwndscale ≤ s.cwnd
  high : s.cwnd ≤ rpcMaxcwnd maxReqs

section

variable {maxReqs : Nat} {s t : CongXprt} {req : Nat} {ev : CongEvent}

theorem CongInv.setCwnd (h : CongInv maxReqs s) {cwnd : Nat} (hlow : rpcCwndscale ≤ cwnd) (hhigh : cwnd ≤ rpcMaxcwnd maxReqs) :
    CongInv maxReqs { s with cwnd := cwnd } := ⟨h.counted, h.small, hlow, hhigh⟩

theorem CongInv.put (h : CongInv maxReqs s) (req : Nat) : CongInv maxReqs (xprtPutCong s req) := by
  obtain ⟨hcount, hsmall, hlow, hhigh⟩ := h
  unfold xprtPutCong
  split_ifs with hreq
  · have hcard := Finset.card_erase_add_one hreq
    refine ⟨?_, ?_, hlow, hhigh⟩
    all_goals simp only [rpcCwndscale] at hcount ⊢; omega
  · exact ⟨hcount, hsmall, hlow, hhigh⟩

theorem CongInv.get (hslots : maxReqs ≤ rpcMaxSlotTableLimit) (h : CongInv maxReqs s) (req : Nat) :
    CongInv maxReqs (xprtGetCong s req).1 := by
  unfold xprtGetCong
  split
  · exact h
  rename_i hreq
  split_ifs with hopen
  · exact h
  obtain ⟨hcount, hsmall, hlow, hhigh⟩ := h
  have hcard := Finset.card_insert_of_notMem hreq
  refine ⟨?_, ?_, hlow, hhigh⟩
  all_goals simp only [rpcCwndscale, rpcMaxSlotTableLimit, rpcMaxcwnd] at *; omega

theorem CongInv.adjust (hpos : 0 < maxReqs) (hslots : maxReqs ≤ rpcMaxSlotTableLimit) (h : CongInv maxReqs s) (req : Nat)
    (result : Int) : ∃ t, xprtAdjustCwnd maxReqs s req result = some t ∧ CongInv maxReqs t := by
  have hmax : rpcCwndscale ≤ rpcMaxcwnd maxReqs := by simp only [rpcCwndscale, rpcMaxSlotTableLimit, rpcMaxcwnd] at *; omega
  unfold xprtAdjustCwnd
  split
  · have hne : s.cwnd ≠ 0 := by have := h.low; unfold rpcCwndscale at this; omega
    rw [if_neg hne]
    exact ⟨_, rfl, (h.setCwnd (le_min (Nat.le_add_right_of_le h.low) hmax) (min_le_right _ _)).put req⟩
  split
  · have hhalf := (Nat.div_le_self s.cwnd 2).trans h.high
    exact ⟨_, rfl, (h.setCwnd (le_max_right _ _) (max_le hhalf hmax)).put req⟩
  · exact ⟨_, rfl, h.put req⟩

theorem CongInv.step (hpos : 0 < maxReqs) (hslots : maxReqs ≤ rpcMaxSlotTableLimit) (h : CongInv maxReqs s) (ev : CongEvent) :
    ∃ t, congStep maxReqs s ev = some t ∧ CongInv maxReqs t := by
  cases ev with
  | get req => exact ⟨_, rfl, h.get hslots req⟩
  | put req => exact ⟨_, rfl, h.put req⟩
  | adjust req result => exact h.adjust hpos hslots req result

theorem put_rqCong (s : CongXprt) (req : Nat) : (xprtPutCong s req).rqCong ⊆ s.rqCong := by
  unfold xprtPutCong
  split
  · exact Finset.erase_subset _ _
  · exact Finset.Subset.refl _

theorem congStep_credit (hstep : congStep maxReqs s ev = some t) (hreq : req ∉ s.rqCong) (hcredit : req ∈ t.rqCong) :
    ev = .get req ∧ s.cong < s.cwnd := by
  cases ev with
  | get req' =>
    cases hstep
    unfold xprtGetCong at hcredit
    split at hcredit
    · exact absurd hcredit hreq
    split at hcredit
    · exact absurd hcredit hreq
    rcases Finset.mem_insert.1 hcredit with rfl | hin
    · exact ⟨rfl, by omega⟩
    · exact absurd hin hreq
  | put req' => cases hstep; exact absurd (put_rqCong _ _ hcredit) hreq
  | adjust req' result =>
    simp only [congStep, xprtAdjustCwnd] at hstep
    repeat' split at hstep
    all_goals cases hstep; try exact absurd (put_rqCong _ _ hcredit) hreq

end

/-- **The congestion window.** -/
theorem congestion_window {maxReqs : Nat} (hpos : 0 < maxReqs) (hslots : maxReqs ≤ rpcMaxSlotTableLimit) (es : List CongEvent) :
    ∃ s, run (congStep maxReqs) {} es = some s ∧ s.cong = rpcCwndscale * s.rqCong.card ∧
      rpcCwndscale ≤ s.cwnd ∧ s.cwnd ≤ rpcMaxcwnd maxReqs ∧
      ∀ ev t req, congStep maxReqs s ev = some t → req ∉ s.rqCong → req ∈ t.rqCong → ev = .get req ∧ s.cong < s.cwnd := by
  have hinit : CongInv maxReqs {} :=
    ⟨rfl, by decide, le_rfl, by simp only [rpcCwndscale, rpcMaxSlotTableLimit, rpcMaxcwnd] at *; omega⟩
  obtain ⟨s, hrun, h⟩ := run_total (fun s ev h => CongInv.step hpos hslots h ev) hinit es
  exact ⟨s, hrun, h.counted, h.low, h.high, fun ev t req hstep hreq hcredit => congStep_credit hstep hreq hcredit⟩

/-- Two slots: the window stays closed to a second request until the first is answered. -/
theorem congestion_window_two : ∃ s, run (congStep 2) {} [.get 0, .get 1, .adjust 0 0, .get 1] = some s ∧
    s.cong = rpcCwndscale * s.rqCong.card ∧ s.cwnd ≤ rpcMaxcwnd 2 :=
  let ⟨s, hrun, hcount, _, hhigh, _⟩ := congestion_window (by decide) (by decide) [.get 0, .get 1, .adjust 0 0, .get 1]
  ⟨s, hrun, hcount, hhigh⟩

end Vastnfs.Sunrpc
