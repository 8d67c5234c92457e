import Mathlib.Data.List.Basic

/-!
# `Lib.Transition` — labelled transition systems and their runs

A system is a relation `Step : σ → ε → σ → Prop`; a **run** is a list of labels with the states it leads
through. Everything here is about runs of any length and is used in four ways:

* `Run.invariant` — what every step preserves holds in every state reached;
* `Run.invariant_of` — the same for the runs whose labels all meet a guard (a bound on the clock, a
  branch not taken);
* `Run.simulate` — a step-by-step simulation lifts to runs;
* `Run.observe` — so does one that matches only the steps an observer can see.

`RunOf` is the runs whose steps all have a property of their own; `runOf_congr` exchanges a property of the
steps for the exact condition on it. `Along` says the same of a sequence of events that may not get to its
end: every event has the property in the state the ones before leave. A function that can fail is followed
through a list of events by `List.foldlM`; `tracks_iff` says when it tracks a reference that cannot, `abstracts_iff`
when a function that cannot fail goes with its abstraction.
-/

namespace Transition

variable {σ ε τ δ : Type}

/-- A run of `Step`: the labels of its steps, between the first state and the last. -/
inductive Run (Step : σ → ε → σ → Prop) : σ → List ε → σ → Prop where
  | nil {s} : Run Step s [] s
  | cons {s s' s'' e es} : Step s e s' → Run Step s' es s'' → Run Step s (e :: es) s''

variable {Step : σ → ε → σ → Prop}

theorem Run.single {s s' : σ} {e : ε} (h : Step s e s') : Run Step s [e] s' :=
  .cons h .nil

theorem Run.append {s s' s'' : σ} {es es' : List ε} (h : Run Step s es s')
    (h' : Run Step s' es' s'') : Run Step s (es ++ es') s'' := by
  induction h with
  | nil => exact h'
  | cons hs _ ih => exact .cons hs (ih h')

theorem Run.snoc {s s' s'' : σ} {es : List ε} {e : ε} (h : Run Step s es s') (hs : Step s' e s'') :
    Run Step s (es ++ [e]) s'' :=
  h.append (.single hs)

/-- A step before a run, where all that is asked is how it ends. -/
theorem Run.exists_cons {P : σ → Prop} {s s' : σ} {e : ε} {es : List ε} (hs : Step s e s')
    (h : ∃ s'', Run Step s' es s'' ∧ P s'') : ∃ s'', Run Step s (e :: es) s'' ∧ P s'' := by
  obtain ⟨s'', hrun, hP⟩ := h
  exact ⟨s'', .cons hs hrun, hP⟩

/-- A run over `es ++ es'` passes through a state between the two halves. -/
theorem Run.split {s s'' : σ} {es es' : List ε} (h : Run Step s (es ++ es') s'') :
    ∃ s', Run Step s es s' ∧ Run Step s' es' s'' := by
  induction es generalizing s with
  | nil => exact ⟨s, .nil, h⟩
  | cons e es ih =>
    cases h with
    | cons hs hr =>
      obtain ⟨s', h₁, h₂⟩ := ih hr
      exact ⟨s', .cons hs h₁, h₂⟩

/-- A run takes a step with each of its labels. -/
theorem Run.through {s s' : σ} {es : List ε} {e : ε} (h : Run Step s es s') (he : e ∈ es) :
    ∃ before s₁ s₂ after, es = before ++ e :: after ∧ Run Step s before s₁ ∧ Step s₁ e s₂ ∧ Run Step s₂ after s' := by
  obtain ⟨before, after, rfl⟩ := List.append_of_mem he
  obtain ⟨s₁, hbefore, hrest⟩ := h.split
  cases hrest with
  | cons hs hafter => exact ⟨before, s₁, _, after, rfl, hbefore, hs, hafter⟩

/-- **Guarded invariant.** What every step with a label in `G` preserves, every run over such labels
    preserves. -/
theorem Run.invariant_of {I : σ → Prop} {G : ε → Prop}
    (hstep : ∀ s e s', I s → G e → Step s e s' → I s') {s s' : σ} {es : List ε}
    (h : Run Step s es s') (hG : ∀ e ∈ es, G e) (hs : I s) : I s' := by
  induction h with
  | nil => exact hs
  | cons hst _ ih =>
    have hGe := hG _ List.mem_cons_self
    exact ih (fun e he => hG e (List.mem_cons_of_mem _ he)) (hstep _ _ _ hs hGe hst)

/-- **Invariant.** What every step preserves, every run preserves. -/
theorem Run.invariant {I : σ → Prop} (hstep : ∀ s e s', I s → Step s e s' → I s') {s s' : σ}
    {es : List ε} (h : Run Step s es s') (hs : I s) : I s' :=
  h.invariant_of (G := fun _ => True) (fun s e s' hi _ hst => hstep s e s' hi hst)
    (fun _ _ => trivial) hs

/-- **Simulation.** If every step of `Step` is matched by a step of `AStep` under `R`, every run is. -/
theorem Run.simulate {AStep : τ → δ → τ → Prop} {R : σ → τ → Prop} (lab : ε → δ)
    (hsim : ∀ s e s' t, R s t → Step s e s' → ∃ t', AStep t (lab e) t' ∧ R s' t')
    {s s' : σ} {es : List ε} (h : Run Step s es s') {t : τ} (ht : R s t) :
    ∃ t', Run AStep t (es.map lab) t' ∧ R s' t' := by
  induction h generalizing t with
  | nil => exact ⟨t, .nil, ht⟩
  | cons hst _ ih =>
    obtain ⟨t₁, ha, hr⟩ := hsim _ _ _ _ ht hst
    obtain ⟨t₂, hrun, hr₂⟩ := ih hr
    exact ⟨t₂, .cons ha hrun, hr₂⟩

/-- **Observation.** If the steps with a label in `seen` are matched by steps of `AStep` that show it, and
    the others leave the abstract state as it is, then so a run is by what can be seen of it. -/
theorem Run.observe {AStep : τ → δ → τ → Prop} {R : σ → τ → Prop} {seen : ε → Bool}
    {Shows : ε → δ → Prop} (hquiet : ∀ s e s' t, R s t → Step s e s' → seen e = false → R s' t)
    (hseen : ∀ s e s' t, R s t → Step s e s' → seen e = true → ∃ d t', Shows e d ∧ AStep t d t' ∧ R s' t')
    {s s' : σ} {es : List ε} (h : Run Step s es s') {t : τ} (ht : R s t) :
    ∃ ds t', List.Forall₂ Shows (es.filter seen) ds ∧ Run AStep t ds t' ∧ R s' t' := by
  induction h generalizing t with
  | nil => exact ⟨[], t, .nil, .nil, ht⟩
  | @cons s s₁ s' e es hst _ ih =>
    cases he : seen e with
    | false =>
      rw [List.filter_cons_of_neg (by rw [he]; exact Bool.false_ne_true)]
      exact ih (hquiet _ _ _ _ ht hst he)
    | true =>
      obtain ⟨d, t₁, hd, ha, hr⟩ := hseen _ _ _ _ ht hst he
      obtain ⟨ds, t₂, hds, hrun, hr₂⟩ := ih hr
      rw [List.filter_cons_of_pos he]
      exact ⟨d :: ds, t₂, .cons hd hds, .cons ha hrun, hr₂⟩

/-! ## Runs whose steps all have a property -/

/-- A run all of whose steps are `P`. -/
def RunOf (Step P : σ → ε → σ → Prop) : σ → List ε → σ → Prop :=
  Run (fun s e s' => Step s e s' ∧ P s e s')

variable {P P' : σ → ε → σ → Prop}

/-- The steps of such a run are steps. -/
theorem RunOf.run {s s' : σ} {es : List ε} (h : RunOf Step P s es s') : Run Step s es s' := by
  unfold RunOf at h
  induction h with
  | nil => exact .nil
  | cons hst _ ih => exact .cons hst.1 ih

/-- What every step of the kind preserves holds at the end. -/
theorem RunOf.invariant {I : σ → Prop} (hstep : ∀ s e s', I s → Step s e s' → P s e s' → I s')
    {s s' : σ} {es : List ε} (h : RunOf Step P s es s') (hs : I s) : I s' :=
  Run.invariant (fun s e s' hi hst => hstep s e s' hi hst.1 hst.2) h hs

/-- **Exact conditions**, where an invariant holds: the steps of the one kind keep it, and there every step is `P`
    exactly when it is `P'`. -/
theorem runOf_congr_of {I : σ → Prop} (hI : ∀ s e s', I s → Step s e s' → P s e s' → I s')
    (h : ∀ s e s', I s → Step s e s' → (P s e s' ↔ P' s e s')) {s s' : σ} {es : List ε} (hs : I s) :
    RunOf Step P s es s' ↔ RunOf Step P' s es s' := by
  constructor
  · intro hrun
    unfold RunOf at hrun
    induction hrun with
    | nil => exact .nil
    | cons hst _ ih => exact .cons ⟨hst.1, (h _ _ _ hs hst.1).mp hst.2⟩ (ih (hI _ _ _ hs hst.1 hst.2))
  · intro hrun
    unfold RunOf at hrun
    induction hrun with
    | nil => exact .nil
    | cons hst _ ih =>
      have hP := (h _ _ _ hs hst.1).mpr hst.2
      exact .cons ⟨hst.1, hP⟩ (ih (hI _ _ _ hs hst.1 hP))

/-- **Exact conditions.** Where every step is `P` exactly when it is `P'`, the runs are the same. -/
theorem runOf_congr (h : ∀ s e s', Step s e s' → (P s e s' ↔ P' s e s')) {s s' : σ} {es : List ε} :
    RunOf Step P s es s' ↔ RunOf Step P' s es s' :=
  runOf_congr_of (I := fun _ => True) (fun _ _ _ _ _ _ => trivial) (fun s e s' _ => h s e s') trivial

/-! ## Events that may end the run -/

/-- Every event has the property `P` in the states the events before it lead to. -/
def Along (Step : σ → ε → σ → Prop) (P : σ → ε → Prop) : σ → List ε → Prop
  | _, [] => True
  | s, e :: es => P s e ∧ ∀ s', Step s e s' → Along Step P s' es

/-- **Exact conditions**, where an invariant holds. -/
theorem along_congr {P P' : σ → ε → Prop} {I : σ → Prop} (hI : ∀ s e s', I s → Step s e s' → I s')
    (h : ∀ s e, I s → (P s e ↔ P' s e)) {es : List ε} :
    ∀ {s : σ}, I s → (Along Step P s es ↔ Along Step P' s es) := by
  induction es with
  | nil => exact fun _ => Iff.rfl
  | cons e es ih =>
    intro s hs
    refine and_congr (h s e hs) ?_
    exact forall_congr' fun s' => forall_congr' fun hstep => ih (hI s e s' hs hstep)

/-! ## Functions that can fail -/

/-- **Tracking.** If one event keeps the state `R`-related to the reference exactly when it is harmless for the
    reference, then every prefix of a list of events does exactly when each event is harmless for the
    reference as the events before it leave it. `I` is what holds beside `R` whatever the events do. -/
theorem tracks_iff {φ : Type} {step : σ → ε → Except φ σ} {astep : τ → ε → τ} {G : ε → Prop}
    {I R : σ → τ → Prop} {Harmless : τ → ε → Prop}
    (hI : ∀ s t e s', G e → I s t → step s e = .ok s' → I s' (astep t e))
    (hiff : ∀ s t e, G e → I s t → R s t →
      ((∃ s', step s e = .ok s' ∧ R s' (astep t e)) ↔ Harmless t e)) :
    ∀ {es : List ε} {s : σ} {t : τ}, (∀ e ∈ es, G e) → I s t → R s t →
      ((∀ pre, pre <+: es → ∃ s', pre.foldlM step s = .ok s' ∧ R s' (pre.foldl astep t)) ↔
        ∀ pre e, pre ++ [e] <+: es → Harmless (pre.foldl astep t) e) := by
  intro es
  induction es with
  | nil =>
    intro s t _ _ hr
    constructor
    · intro _ pre e hpre
      exact absurd (List.prefix_nil.mp hpre) (List.append_ne_nil_of_right_ne_nil _ (List.cons_ne_nil _ _))
    · intro _ pre hpre
      rw [List.prefix_nil.mp hpre]
      exact ⟨s, rfl, hr⟩
  | cons e es ih =>
    intro s t hG hi hr
    have hGe := hG e List.mem_cons_self
    have hGes : ∀ e' ∈ es, G e' := fun e' he' => hG e' (List.mem_cons_of_mem _ he')
    have hone := hiff s t e hGe hi hr
    constructor
    · intro hall
      -- the first event gives the state the rest starts from
      obtain ⟨s₁, hs₁, hr₁⟩ := hall [e] (List.cons_prefix_cons.mpr ⟨rfl, List.nil_prefix⟩)
      have hstep : step s e = .ok s₁ := by
        rw [List.foldlM_cons] at hs₁
        cases h : step s e with
        | error f =>
          rw [h] at hs₁
          cases hs₁
        | ok s₂ =>
          rw [h] at hs₁
          exact hs₁
      have hrest := (ih hGes (hI s t e s₁ hGe hi hstep) hr₁).mp (by
        intro pre hpre
        obtain ⟨s', hs', hr'⟩ := hall (e :: pre) (List.cons_prefix_cons.mpr ⟨rfl, hpre⟩)
        rw [List.foldlM_cons, hstep] at hs'
        exact ⟨s', hs', hr'⟩)
      intro pre e' hpre
      cases pre with
      | nil =>
        obtain ⟨rfl, -⟩ := List.cons_prefix_cons.mp hpre
        exact hone.mp ⟨s₁, hstep, hr₁⟩
      | cons a pre =>
        obtain ⟨rfl, htail⟩ := List.cons_prefix_cons.mp hpre
        exact hrest pre e' htail
    · intro hall
      obtain ⟨s₁, hstep, hr₁⟩ := hone.mpr (hall [] e (List.cons_prefix_cons.mpr ⟨rfl, List.nil_prefix⟩))
      have hrest := (ih hGes (hI s t e s₁ hGe hi hstep) hr₁).mpr (by
        intro pre e' hpre
        exact hall (e :: pre) e' (List.cons_prefix_cons.mpr ⟨rfl, hpre⟩))
      intro pre hpre
      cases pre with
      | nil => exact ⟨s, rfl, hr⟩
      | cons a pre =>
        obtain ⟨rfl, htail⟩ := List.cons_prefix_cons.mp hpre
        obtain ⟨s', hs', hr'⟩ := hrest pre htail
        refine ⟨s', ?_, hr'⟩
        rw [List.foldlM_cons, hstep]
        exact hs'

/-- **Abstraction.** A function that cannot fail goes with its abstraction through a list of events exactly as long as
each event is harmless for the abstraction. -/
theorem abstracts_iff {step : σ → ε → σ} {astep : τ → ε → τ} {abs : σ → τ} {I : σ → Prop} {Harmless : τ → ε → Prop}
    (hI : ∀ s e, I s → I (step s e))
    (hiff : ∀ s e, I s → (abs (step s e) = astep (abs s) e ↔ Harmless (abs s) e)) {es : List ε} {s : σ} (hs : I s) :
    (∀ pre, pre <+: es → abs (pre.foldl step s) = pre.foldl astep (abs s)) ↔
      ∀ pre e, pre ++ [e] <+: es → Harmless (pre.foldl astep (abs s)) e := by
  have htracks := @tracks_iff σ ε τ Empty (fun s e => .ok (step s e)) astep (fun _ => True) (fun s _ => I s)
    (fun s t => abs s = t) Harmless ?_ ?_ es s (abs s) (fun _ _ => trivial) hs rfl
  · have hfold (pre : List ε) :
        pre.foldlM (fun s e => (.ok (step s e) : Except Empty σ)) s = .ok (pre.foldl step s) := List.foldlM_pure
    simpa [hfold] using htracks
  · intro s t e s' _ h hstep
    cases hstep
    exact hI s e h
  · intro s t e _ h habs
    rw [← habs, ← hiff s e h]
    constructor
    · rintro ⟨s', hstep, habs'⟩
      cases hstep
      exact habs'
    · intro habs'
      exact ⟨_, rfl, habs'⟩

end Transition
