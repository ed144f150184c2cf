import Mathlib.Tactic.ByContra

/-!
# Runs of a labelled step function

A system is a partial step function `step : σ → ε → Option σ`, where `none` says that the event
cannot happen in that state. A run is a list of events.

* `always_of_eachStep`: a property kept by every step that meets a condition holds in every
  state of a run whose steps all meet it.
* `always_iff_eachStep`: when a step that misses the condition destroys the property, the
  condition is also necessary.
* `canReach_of_rank`: a goal can be reached when some step always brings it nearer.
-/

namespace Runs

variable {σ ε : Type*} (step : σ → ε → Option σ)

/-- The state after the events `es`, if each of them can happen in its turn. -/
def run : σ → List ε → Option σ
  | s, [] => some s
  | s, e :: es => (step s e).bind fun t => run t es

/-- `P` holds in every state the events pass through, the first one included. -/
def Always (P : σ → Prop) : σ → List ε → Prop
  | s, [] => P s
  | s, e :: es => P s ∧ ∀ t, step s e = some t → Always P t es

/-- Every step the events make meets `C`, read in the state the step starts from. -/
def EachStep (C : σ → ε → Prop) : σ → List ε → Prop
  | _, [] => True
  | s, e :: es => ∀ t, step s e = some t → C s e ∧ EachStep C t es

/-- Some events lead to `Q`, each of them meeting `C`. -/
def CanReach (C : σ → ε → Prop) (Q : σ → Prop) (s : σ) : Prop :=
  ∃ es t, EachStep step C s es ∧ run step s es = some t ∧ Q t

/-- Whether the steps of a run meet a condition can be computed along the run. -/
instance decidableEachStep (C : σ → ε → Prop) [∀ s e, Decidable (C s e)] :
    ∀ (s : σ) (es : List ε), Decidable (EachStep step C s es)
  | _, [] => isTrue trivial
  | s, e :: es =>
    match hstep : step s e with
    | none => isTrue fun t ht => by
        rw [hstep] at ht
        cases ht
    | some t =>
      have := decidableEachStep C t es
      decidable_of_iff (C s e ∧ EachStep step C t es)
        ⟨fun h t' ht' => Option.some.inj (hstep.symm.trans ht') ▸ h, fun h => h t hstep⟩

/-- A guarded step that is taken meets its guard. -/
theorem of_guarded {p : Prop} [Decidable p] {s t : σ} (h : (if p then some s else none) = some t) : p ∧ s = t := by
  obtain ⟨hp, hsome⟩ := Option.ite_none_right_eq_some.mp h
  exact ⟨hp, Option.some.inj hsome⟩

variable {step}

theorem run_append : ∀ (es fs : List ε) (s : σ), run step s (es ++ fs) = (run step s es).bind fun t => run step t fs
  | [], _, _ => rfl
  | e :: es, fs, s => by
    rw [List.cons_append, run, run]
    cases step s e with
    | none => rfl
    | some t => exact run_append es fs t

variable {J P : σ → Prop} {C D : σ → ε → Prop}

theorem always_head {s : σ} : ∀ {es : List ε}, Always step P s es → P s
  | [], h => h
  | _ :: _, h => h.1

theorem always_imp {Q : σ → Prop} (hPQ : ∀ s, P s → Q s) :
    ∀ {es : List ε} {s : σ}, Always step P s es → Always step Q s es
  | [], _, h => hPQ _ h
  | _ :: _, _, h => ⟨hPQ _ h.1, fun t ht => always_imp hPQ (h.2 t ht)⟩

theorem run_of_always :
    ∀ {es : List ε} {s t : σ}, Always step P s es → run step s es = some t → P t
  | [], _, _, h, hrun => by
    cases hrun
    exact h
  | _ :: _, _, _, h, hrun => by
    obtain ⟨u, hu, hrest⟩ := Option.bind_eq_some_iff.1 hrun
    exact run_of_always (h.2 u hu) hrest

theorem always_snoc {e : ε} :
    ∀ {es : List ε} {s t u : σ}, Always step P s es → run step s es = some t → step t e = some u → P u →
      Always step P s (es ++ [e])
  | [], _, _, _, h, hrun, hstep, hu => by
    cases hrun
    refine ⟨h, fun v hv => ?_⟩
    cases hstep.symm.trans hv
    exact hu
  | _ :: _, _, _, _, h, hrun, hstep, hu => by
    obtain ⟨v, hv, hrest⟩ := Option.bind_eq_some_iff.1 hrun
    refine ⟨h.1, fun v' hv' => ?_⟩
    cases hv.symm.trans hv'
    exact always_snoc (h.2 v hv) hrest hstep hu

theorem run_total (hstep : ∀ s e, J s → ∃ t, step s e = some t ∧ J t) :
    ∀ {s : σ}, J s → ∀ es : List ε, ∃ t, run step s es = some t ∧ J t
  | s, hs, [] => ⟨s, rfl, hs⟩
  | s, hs, e :: es => by
    obtain ⟨u, hu, hJ⟩ := hstep s e hs
    obtain ⟨t, ht, hJt⟩ := run_total hstep hJ es
    exact ⟨t, by rw [run, hu]; exact ht, hJt⟩

theorem always_of_invariant (hstep : ∀ s e t, J s → step s e = some t → J t) :
    ∀ {es : List ε} {s : σ}, J s → Always step J s es
  | [], _, hs => hs
  | e :: _, s, hs => ⟨hs, fun t ht => always_of_invariant hstep (hstep s e t hs ht)⟩

theorem run_invariant (hstep : ∀ s e t, J s → step s e = some t → J t) {es : List ε} {s t : σ} (hs : J s)
    (hrun : run step s es = some t) : J t :=
  run_of_always (always_of_invariant hstep hs) hrun

theorem EachStep.and :
    ∀ {es : List ε} {s : σ}, EachStep step C s es → EachStep step D s es → EachStep step (fun s e => C s e ∧ D s e) s es
  | [], _, _, _ => trivial
  | _ :: _, _, hC, hD => fun t ht => ⟨⟨(hC t ht).1, (hD t ht).1⟩, (hC t ht).2.and (hD t ht).2⟩

/-- What the states of an invariant say about a step holds of every step of a run. -/
theorem eachStep_of_invariant (hJ : ∀ s e t, J s → step s e = some t → J t)
    (hC : ∀ s e t, J s → step s e = some t → C s e) : ∀ {es : List ε} {s : σ}, J s → EachStep step C s es
  | [], _, _ => trivial
  | e :: _, s, hs => fun t ht => ⟨hC s e t hs ht, eachStep_of_invariant hJ hC (hJ s e t hs ht)⟩

/-- The same for an invariant that only the steps meeting a condition keep. -/
theorem EachStep.imp_of_invariant (hJ : ∀ s e t, J s → C s e → step s e = some t → J t)
    (hD : ∀ s e t, J s → C s e → step s e = some t → D s e) :
    ∀ {es : List ε} {s : σ}, J s → EachStep step C s es → EachStep step D s es
  | [], _, _, _ => trivial
  | e :: _, s, hs, h => fun t ht =>
    ⟨hD s e t hs (h t ht).1 ht, (h t ht).2.imp_of_invariant hJ hD (hJ s e t hs (h t ht).1 ht)⟩

section

variable {C : σ → ε → Prop} {P Q : σ → Prop} {s t : σ} {e : ε}

theorem CanReach.refl (hs : Q s) : CanReach step C Q s := ⟨[], s, trivial, rfl, hs⟩

theorem CanReach.head (hC : C s e) (ht : step s e = some t) (h : CanReach step C Q t) : CanReach step C Q s := by
  obtain ⟨es, u, hes, hrun, hu⟩ := h
  refine ⟨e :: es, u, fun t' ht' => ?_, ?_, hu⟩
  · cases ht.symm.trans ht'
    exact ⟨hC, hes⟩
  · rw [run, ht]
    exact hrun

/-- What can be reached from where one can get to can be reached. -/
theorem CanReach.bind (h : CanReach step C P s) (hPQ : ∀ t, P t → CanReach step C Q t) : CanReach step C Q s := by
  obtain ⟨es, u, hes, hrun, hu⟩ := h
  induction es generalizing s with
  | nil =>
    cases hrun
    exact hPQ _ hu
  | cons e es ih =>
    obtain ⟨t, ht, hrest⟩ := Option.bind_eq_some_iff.1 hrun
    exact CanReach.head (hes t ht).1 ht (ih (hes t ht).2 hrest)

/-- **The rank rule.**  If from every state of `I` short of the goal some good step leads to a state
of `I` of smaller rank, the goal can be reached. -/
theorem canReach_of_rank {I : σ → Prop} (rank : σ → Nat)
    (hprogress : ∀ s, I s → ¬ Q s → ∃ e t, C s e ∧ step s e = some t ∧ (Q t ∨ I t ∧ rank t < rank s))
    (hs : I s) : CanReach step C Q s := by
  induction hn : rank s using Nat.strongRecOn generalizing s with
  | ind n ih =>
    by_cases hQ : Q s
    · exact CanReach.refl hQ
    obtain ⟨e, t, hC, ht, hgoal | ⟨hI, hlt⟩⟩ := hprogress s hs hQ
    · exact CanReach.head hC ht (CanReach.refl hgoal)
    · exact CanReach.head hC ht (ih (rank t) (hn ▸ hlt) hI rfl)

end

/-- **The conditional invariant rule.**  `J` is kept by the steps meeting `C`, and `P` follows from it. -/
theorem always_of_eachStep (hJ : ∀ {s e t}, J s → C s e → step s e = some t → J t) (hP : ∀ {s}, J s → P s) :
    ∀ {es : List ε} {s : σ}, J s → EachStep step C s es → Always step P s es
  | [], _, hs, _ => hP hs
  | _ :: _, _, hs, h => ⟨hP hs, fun t ht => always_of_eachStep hJ hP (hJ hs (h t ht).1 ht) (h t ht).2⟩

/-- **The exact rule.**  `J` is kept by every step, `P` by the steps meeting `C`. If a step that misses `C` destroys `P`,
then `P` holds in every state of a run just when each of its steps meets `C`. -/
theorem always_iff_eachStep (hJ : ∀ s e t, J s → step s e = some t → J t)
    (hgood : ∀ s e t, J s → P s → C s e → step s e = some t → P t)
    (hbad : ∀ s e t, J s → P s → ¬ C s e → step s e = some t → ¬ P t)
    {es : List ε} {s : σ} (hs : J s) (hP : P s) :
    Always step P s es ↔ EachStep step C s es := by
  refine ⟨fun h => ?_, always_of_eachStep (J := fun s => J s ∧ P s)
    (fun hs hC ht => ⟨hJ _ _ _ hs.1 ht, hgood _ _ _ hs.1 hs.2 hC ht⟩) And.right ⟨hs, hP⟩⟩
  induction es generalizing s with
  | nil => trivial
  | cons e es ih =>
    intro t ht
    have hrest := h.2 t ht
    have hC : C s e := by
      by_contra hC
      exact hbad s e t hs hP hC ht (always_head hrest)
    exact ⟨hC, ih (hJ s e t hs ht) (hgood s e t hs hP hC ht) hrest⟩

end Runs
