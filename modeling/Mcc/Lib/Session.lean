import Mcc.Lib.Transition

/-!
# `Lib.Session` — logs of sessions

Who is told of sessions is told that one began, what was said in it, and that it ended. A log of such notes is
in order if it is a run of `Step`, which says what may come next: `true` while a session is open.

## Contents
- **What a log in order is.** `run_iff`: sessions from their beginning to their end, one after the other, and
  perhaps one that is still open.
- **One session.** `run_once`: where no second one begins, that is at most one.
- **Systems that keep a log.** `log_run`: a system all of whose steps make notes in order keeps a log in order.
-/

namespace Session

open Transition

variable {δ ω σ ε : Type}

/-- What is told of a session. -/
inductive Note (δ ω : Type) where
  | began
  | said (d : δ)
  | ended (how : ω)
deriving DecidableEq, Repr

/-- What may be told next, and whether a session is open then. -/
inductive Step : Bool → Note δ ω → Bool → Prop where
  | began : Step false .began true
  | said (d : δ) : Step true (.said d) true
  | ended (how : ω) : Step true (.ended how) false

/-- A session that is open. -/
def opened (ds : List δ) : List (Note δ ω) := .began :: ds.map .said

/-- A session from its beginning to its end. -/
def closed (s : List δ × ω) : List (Note δ ω) := opened s.1 ++ [.ended s.2]

/-- What was said, in all sessions. -/
def said (l : List (Note δ ω)) : List δ :=
  l.filterMap fun note => match note with
    | .said d => some d
    | _ => none

@[simp] theorem said_append (l l' : List (Note δ ω)) : said (l ++ l') = said l ++ said l' := List.filterMap_append

@[simp] theorem said_map (ds : List δ) : said (ds.map .said : List (Note δ ω)) = ds := by
  unfold said
  rw [List.filterMap_map]
  exact List.filterMap_some

@[simp] theorem said_opened (ds : List δ) : said (opened ds : List (Note δ ω)) = ds := said_map ds

@[simp] theorem said_closed (s : List δ × ω) : said (closed s : List (Note δ ω)) = s.1 := by
  unfold closed
  rw [said_append, said_opened]
  exact List.append_nil _

/-- How many sessions began. -/
def begins (l : List (Note δ ω)) : ℕ :=
  l.countP fun note => match note with
    | .began => true
    | _ => false

@[simp] theorem begins_append (l l' : List (Note δ ω)) : begins (l ++ l') = begins l + begins l' :=
  List.countP_append

@[simp] theorem begins_map (ds : List δ) : begins (ds.map .said : List (Note δ ω)) = 0 := by
  unfold begins
  rw [List.countP_map, List.countP_eq_zero]
  intro d _
  exact Bool.false_ne_true

@[simp] theorem begins_opened (ds : List δ) : begins (opened ds : List (Note δ ω)) = 1 := by
  have hsaid := begins_map (ω := ω) ds
  unfold begins at hsaid ⊢
  unfold opened
  rw [List.countP_cons_of_pos rfl, hsaid]

@[simp] theorem begins_closed (s : List δ × ω) : begins (closed s : List (Note δ ω)) = 1 := by
  unfold closed
  rw [begins_append, begins_opened]
  rfl

/-! ## What a log in order is -/

/-- A session stays open while things are said in it. -/
theorem run_said (ds : List δ) : Run (Step (ω := ω)) true (ds.map .said) true := by
  induction ds with
  | nil => exact .nil
  | cons d ds ih => exact .cons (.said d) ih

theorem run_opened (ds : List δ) : Run (Step (ω := ω)) false (opened ds) true := .cons .began (run_said ds)

theorem run_closed (s : List δ × ω) : Run Step false (closed s) false := (run_opened s.1).snoc (.ended s.2)

theorem run_past (past : List (List δ × ω)) : Run Step false (past.flatMap closed) false := by
  induction past with
  | nil => exact .nil
  | cons s past ih =>
    rw [List.flatMap_cons]
    exact (run_closed s).append ih

/-- Where a session is open, things are said in it and it may end. -/
theorem run_open {l : List (Note δ ω)} {b : Bool} (h : Run Step true l b) :
    ∃ ds : List δ, (l = ds.map .said ∧ b = true) ∨
      ∃ how rest, l = ds.map .said ++ .ended how :: rest ∧ Run Step false rest b := by
  induction l with
  | nil =>
    cases h
    exact ⟨[], Or.inl ⟨rfl, rfl⟩⟩
  | cons note l ih =>
    cases h with
    | cons hstep hrest =>
      cases hstep with
      | said d =>
        obtain ⟨ds, ⟨rfl, hb⟩ | ⟨how, rest, rfl, hrun⟩⟩ := ih hrest
        · exact ⟨d :: ds, Or.inl ⟨rfl, hb⟩⟩
        · exact ⟨d :: ds, Or.inr ⟨how, rest, rfl, hrun⟩⟩
      | ended how => exact ⟨[], Or.inr ⟨how, l, rfl, hrest⟩⟩

/-- **A log in order** is sessions from their beginning to their end, and perhaps one that is still open. -/
theorem run_iff {l : List (Note δ ω)} {b : Bool} :
    Run Step false l b ↔ ∃ past : List (List δ × ω), (l = past.flatMap closed ∧ b = false) ∨
      ∃ ds, l = past.flatMap closed ++ opened ds ∧ b = true := by
  constructor
  · intro h
    -- by the length: a session that ends leaves a shorter log
    induction hn : l.length using Nat.strongRecOn generalizing l with
    | _ n ih =>
      cases h with
      | nil => exact ⟨[], Or.inl ⟨rfl, rfl⟩⟩
      | cons hstep hrest =>
        cases hstep with
        | began =>
          obtain ⟨ds, ⟨rfl, hb⟩ | ⟨how, rest, rfl, hrun⟩⟩ := run_open hrest
          · exact ⟨[], Or.inr ⟨ds, rfl, hb⟩⟩
          · have hshort : rest.length < n := by
              rw [← hn]
              simp only [List.length_cons, List.length_append, List.length_map]
              omega
            have hsplit : Note.began :: (ds.map Note.said ++ .ended how :: rest) = closed (ds, how) ++ rest := by
              simp [closed, opened]
            obtain ⟨past, ⟨hpast, hb⟩ | ⟨ds', hpast, hb⟩⟩ := ih rest.length hshort hrun rfl
            · exact ⟨(ds, how) :: past, Or.inl ⟨by rw [hsplit, hpast, List.flatMap_cons], hb⟩⟩
            · refine ⟨(ds, how) :: past, Or.inr ⟨ds', ?_, hb⟩⟩
              rw [hsplit, hpast, List.flatMap_cons, List.append_assoc]
  · rintro ⟨past, ⟨rfl, rfl⟩ | ⟨ds, rfl, rfl⟩⟩
    · exact run_past past
    · exact (run_past past).append (run_opened ds)

theorem begins_past (past : List (List δ × ω)) : begins (past.flatMap closed) = past.length := by
  induction past with
  | nil => rfl
  | cons s past ih =>
    rw [List.flatMap_cons, begins_append, begins_closed, ih, List.length_cons, Nat.add_comm]

/-- **One session**: where no second one begins, none has, one is open, or one has ended. -/
theorem run_once {l : List (Note δ ω)} {b : Bool} (h : Run Step false l b) (hone : begins l ≤ 1) :
    (l = [] ∧ b = false) ∨ (∃ ds, l = opened ds ∧ b = true) ∨ ∃ s, l = closed s ∧ b = false := by
  obtain ⟨past, ⟨rfl, hb⟩ | ⟨ds, rfl, hb⟩⟩ := run_iff.mp h
  · rw [begins_past] at hone
    match past, hone with
    | [], _ => exact Or.inl ⟨rfl, hb⟩
    | [s], _ => exact Or.inr (Or.inr ⟨s, by simp, hb⟩)
    | _ :: _ :: _, hone =>
      simp only [List.length_cons] at hone
      omega
  · rw [begins_append, begins_past, begins_opened] at hone
    have hnil : past = [] := List.length_eq_zero_iff.mp (by omega)
    subst hnil
    exact Or.inr (Or.inl ⟨ds, rfl, hb⟩)

/-! ## Systems that keep a log -/

/-- **A system's log**: if every step makes the notes that are in order where it starts, every run does. `Open` is
    whether a session is open, `I` what else the steps keep. -/
theorem log_run {Sys : σ → ε → σ → Prop} {note : ε → Option (Note δ ω)} {Open : σ → Bool} {I : σ → Prop}
    (hI : ∀ s e s', I s → Sys s e s' → I s')
    (hquiet : ∀ s e s', I s → Sys s e s' → note e = none → Open s' = Open s)
    (hnote : ∀ s e s' d, I s → Sys s e s' → note e = some d → Step (Open s) d (Open s'))
    {s s' : σ} {es : List ε} (h : Run Sys s es s') (hs : I s) :
    Run Step (Open s) (es.filterMap note) (Open s') := by
  induction h with
  | nil => exact .nil
  | @cons s s₁ s' e es hstep _ ih =>
    have hrest := ih (hI _ _ _ hs hstep)
    cases hd : note e with
    | none =>
      rw [List.filterMap_cons_none hd, ← hquiet _ _ _ hs hstep hd]
      exact hrest
    | some d =>
      rw [List.filterMap_cons_some hd]
      exact .cons (hnote _ _ _ _ hs hstep hd) hrest

end Session
