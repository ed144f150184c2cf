import Mathlib.Logic.Basic

/-!
# Triples for programs that can fail

A program is an `EStateM` action: it changes a state, and what it has done stays done when it fails.

* `Triple`: from a state with `P` the program returns with `Q`, or fails with `E`.
* `triple_bind`, `triple_check`, `triple_modify`: the rules for its steps.
-/

namespace Triples

variable {ε σ α β : Type}

/-- From every state with `P` the program returns a result with `Q`, or fails in a state with `E`. -/
def Triple (P : σ → Prop) (x : EStateM ε σ α) (Q : α → σ → Prop) (E : σ → Prop) : Prop :=
  ∀ s, P s → match x s with
    | .ok a t => Q a t
    | .error _ t => E t

def check (c : Bool) (e : ε) : EStateM ε σ Unit := if c then pure () else throw e

variable {P P' : σ → Prop} {E : σ → Prop} {x : EStateM ε σ α}

variable {Q : α → σ → Prop}

theorem triple_pure {a : α} (h : ∀ s, P s → Q a s) : Triple P (pure a : EStateM ε σ α) Q E := h

theorem triple_throw {e : ε} (h : ∀ s, P s → E s) : Triple P (throw e : EStateM ε σ α) Q E := h

theorem triple_modify {f : σ → σ} {Q : Unit → σ → Prop} (h : ∀ s, P s → Q () (f s)) :
    Triple P (modify f : EStateM ε σ Unit) Q E := h

theorem triple_get : Triple P (get : EStateM ε σ σ) (fun a s => P s ∧ a = s) E := fun _ hs => ⟨hs, rfl⟩

theorem triple_set {t : σ} {Q : Unit → σ → Prop} (h : ∀ s, P s → Q () t) : Triple P (set t : EStateM ε σ Unit) Q E := h

theorem triple_fact {p : Prop} (hx : p → Triple P x Q E) : Triple (fun s => p ∧ P s) x Q E :=
  fun s hs => hx hs.1 s hs.2

theorem triple_bind {R : α → σ → Prop} {Q : β → σ → Prop} {f : α → EStateM ε σ β} (hx : Triple P x R E)
    (hf : ∀ a, Triple (R a) (f a) Q E) : Triple P (x >>= f) Q E := by
  intro s hs
  have hs' := hx s hs
  change match EStateM.bind x f s with
    | .ok a t => Q a t
    | .error _ t => E t
  unfold EStateM.bind
  cases hxs : x s with
  | error e t =>
    rw [hxs] at hs'
    exact hs'
  | ok a t =>
    rw [hxs] at hs'
    exact hf a t hs'

theorem triple_check {c : Bool} {e : ε} (h : ∀ s, P s → E s) :
    Triple P (check c e : EStateM ε σ Unit) (fun _ s => P s ∧ c = true) E := by
  unfold check
  split
  · rename_i hc
    exact triple_pure fun s hs => ⟨hs, hc⟩
  · exact triple_throw h

theorem triple_imp (hP : ∀ s, P' s → P s) (hx : Triple P x Q E) : Triple P' x Q E :=
  fun s hs => hx s (hP s hs)

theorem Triple.of_ok (hx : Triple P x Q E) {s t : σ} {a : α} (hs : P s) (h : x s = .ok a t) : Q a t := by
  have := hx s hs
  rwa [h] at this

end Triples
