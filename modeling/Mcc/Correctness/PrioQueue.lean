import Mcc.Correctness.Heap

/-!
# `Correctness.PrioQueue` — who sleeps on, and what is returned

`add` puts its element into the heap and signals nobody. So nobody is ever woken (`Step.woken_eq`), and a getter that
sleeps does so for good. The queue holds something while all getters sleep exactly after an element has been added to
sleeping getters: they fall asleep only where there is nothing, and `prioQueue_right_iff` says so of every run. What is
returned is what was added, each element once at most, in any case (`run_kept`).

## Contents
- **Values.** One section, and a run.
- **Sleepers.** One section.
- **Runs.** `prioQueue_right_iff`.
-/

namespace Mcc

open CondVar StdHeap Transition

namespace PrioQueue

variable {α τ : Type} [LinearOrder α] [DecidableEq τ] {alg : HeapAlgorithms α} {getters : Set τ}
  {P P' : PrioQueue α τ}

/-! ## Values -/

/-- All that is added. -/
def allAdded (ls : List (PrioSection α τ)) : Multiset α := ls.flatMap PrioSection.added

/-- All that is returned. -/
def allReturned (ls : List (PrioSection α τ)) : Multiset α := ls.flatMap PrioSection.returned

omit [DecidableEq τ] in
/-- What `tryget` does to the heap, and `get` when it comes to it. -/
theorem taken_cases (hord : P.mQueue.Ordered) (alg : HeapAlgorithms α) :
    (P.mQueue.mData = [] ∧ P.mQueue.pop alg = none) ∨ ∃ e mQueue, P.mQueue.pop alg = some (e, mQueue) ∧
      mQueue.Ordered ∧ P.mQueue.contents = e ::ₘ mQueue.contents := by
  rcases hord.pop_cases alg with hnone | ⟨e, mQueue, hpop, -, -, hord', hcontents⟩
  · exact Or.inl hnone
  · exact Or.inr ⟨e, mQueue, hpop, hord', hcontents⟩

theorem enter_kept (hord : P.mQueue.Ordered) (alg : HeapAlgorithms α) (t : τ) : (P.enter alg t).2.mQueue.Ordered ∧
    P.mQueue.contents = ((P.enter alg t).1.toList : Multiset α) + (P.enter alg t).2.mQueue.contents := by
  unfold enter
  rcases taken_cases hord alg with ⟨-, hnone⟩ | ⟨e, mQueue, hpop, hord', hcontents⟩
  · simp [hnone, hord]
  · simp [hpop, hord', hcontents]

omit [DecidableEq τ] in
theorem tryget_kept (hord : P.mQueue.Ordered) (alg : HeapAlgorithms α) : (P.tryget alg).2.mQueue.Ordered ∧
    P.mQueue.contents = ((P.tryget alg).1.toList : Multiset α) + (P.tryget alg).2.mQueue.contents := by
  unfold tryget
  rcases taken_cases hord alg with ⟨-, hnone⟩ | ⟨e, mQueue, hpop, hord', hcontents⟩
  · simp [hnone, hord]
  · simp [hpop, hord', hcontents]

/-- **One section loses nothing.** -/
theorem Step.kept {l : PrioSection α τ} (h : Step alg getters P l P') (hord : P.mQueue.Ordered) :
    P'.mQueue.Ordered ∧
      P.mQueue.contents + (l.added : Multiset α) = (l.returned : Multiset α) + P'.mQueue.contents := by
  cases h with
  | @add t e =>
    refine ⟨hord.push alg e, ?_⟩
    simp [PrioSection.added, PrioSection.returned, hord.contents_push alg, add_comm]
  | tryget =>
    obtain ⟨hord', hcontents⟩ := tryget_kept hord alg
    exact ⟨hord', by simpa [PrioSection.added, PrioSection.returned] using hcontents⟩
  | @get t =>
    obtain ⟨hord', hcontents⟩ := enter_kept hord alg t
    exact ⟨hord', by simpa [PrioSection.added, PrioSection.returned] using hcontents⟩
  | @resume t =>
    obtain ⟨hord', hcontents⟩ := enter_kept hord alg t
    exact ⟨hord', by simpa [PrioSection.added, PrioSection.returned] using hcontents⟩

/-- **A run loses nothing.** -/
theorem run_kept {ls : List (PrioSection α τ)} (h : Run (Step alg getters) P ls P') (hord : P.mQueue.Ordered) :
    P.mQueue.contents + allAdded ls = allReturned ls + P'.mQueue.contents := by
  induction h with
  | nil => simp [allAdded, allReturned]
  | @cons P P₁ P' l ls hstep _ ih =>
    obtain ⟨hord₁, hone⟩ := hstep.kept hord
    have hadded : allAdded (l :: ls) = (l.added : Multiset α) + allAdded ls := by simp [allAdded]
    have hreturned : allReturned (l :: ls) = (l.returned : Multiset α) + allReturned ls := by simp [allReturned]
    calc P.mQueue.contents + allAdded (l :: ls)
        = (P.mQueue.contents + (l.added : Multiset α)) + allAdded ls := by rw [hadded, add_assoc]
      _ = (l.returned : Multiset α) + (P₁.mQueue.contents + allAdded ls) := by rw [hone, add_assoc]
      _ = allReturned (l :: ls) + P'.mQueue.contents := by rw [ih hord₁, hreturned, add_assoc]

/-! ## Sleepers -/

/-- Every getter sleeps, and there is one. -/
def AllAsleep (getters : Set τ) (P : PrioQueue α τ) : Prop :=
  getters.Nonempty ∧ ∀ t ∈ getters, P.phase t = .asleep ()

/-- **The getters are stranded**: all of them sleep, none is woken, and there is something for them. -/
structure Stranded (getters : Set τ) (P : PrioQueue α τ) : Prop where
  asleep : AllAsleep getters P
  unwoken : woken P.phase = ∅
  waiting : P.mQueue.mData ≠ []

/-- A `get` goes to sleep where there is nothing, and is outside with what it took otherwise. -/
theorem enter_phase (hord : P.mQueue.Ordered) (alg : HeapAlgorithms α) (t : τ) :
    ((P.enter alg t).2.phase = Function.update P.phase t (.asleep ()) ∧ (P.enter alg t).2.mQueue.mData = []) ∨
      (P.enter alg t).2.phase = Function.update P.phase t .outside := by
  unfold enter
  rcases taken_cases hord alg with ⟨hempty, hnone⟩ | ⟨e, mQueue, hpop, -, -⟩
  · simp [hnone, hempty]
  · simp [hpop]

theorem enter_woken (hord : P.mQueue.Ordered) (alg : HeapAlgorithms α) (t : τ) :
    woken (P.enter alg t).2.phase = woken P.phase \ {t} := by
  rcases enter_phase hord alg t with ⟨hphase, -⟩ | hphase
  · rw [hphase, woken_leave (by simp)]
  · rw [hphase, woken_leave (by simp)]

omit [DecidableEq τ] in
theorem tryget_phase (P : PrioQueue α τ) (alg : HeapAlgorithms α) : (P.tryget alg).2.phase = P.phase := by
  unfold tryget
  cases P.mQueue.pop alg <;> rfl

/-- **Nobody is ever woken.** -/
theorem Step.woken_eq {l : PrioSection α τ} (h : Step alg getters P l P') (hord : P.mQueue.Ordered)
    (hnone : woken P.phase = ∅) : woken P'.phase = ∅ := by
  cases h with
  | add => exact hnone
  | tryget => rw [tryget_phase, hnone]
  | get | resume => rw [enter_woken hord, hnone, Set.empty_sdiff]

omit [DecidableEq τ] in
/-- What makes a heap longer is not left without. -/
theorem push_ne_nil (hord : P.mQueue.Ordered) (alg : HeapAlgorithms α) (e : α) : (P.mQueue.push alg e).mData ≠ [] := by
  intro hempty
  have hcontents := hord.contents_push alg e
  rw [Heap.contents, hempty] at hcontents
  exact absurd hcontents.symm (Multiset.cons_ne_zero)

omit [DecidableEq τ] in
/-- `tryget` leaves nothing where there was nothing. -/
theorem tryget_nil (alg : HeapAlgorithms α) (hempty : P.mQueue.mData = []) : (P.tryget alg).2.mQueue.mData = [] := by
  simp [tryget, Heap.pop, hempty]

/-- Where the getters are not stranded, a section strands them exactly if it adds while all of them sleep. -/
theorem Step.stranded_iff {l : PrioSection α τ} (h : Step alg getters P l P') (hord : P.mQueue.Ordered)
    (hnone : woken P.phase = ∅) (hnot : ¬ Stranded getters P) :
    ¬ Stranded getters P' ↔ ∀ t e, l = .add t e → ¬ AllAsleep getters P := by
  cases h with
  | @add t e =>
    constructor
    · rintro hnot' _ _ - hasleep
      exact hnot' ⟨hasleep, hnone, push_ne_nil hord alg e⟩
    · intro hawake hstranded
      exact hawake t e rfl hstranded.asleep
  | tryget =>
    refine iff_of_true ?_ (by simp)
    rintro ⟨hasleep, hwoken, hwaiting⟩
    unfold AllAsleep at hasleep
    rw [tryget_phase] at hasleep hwoken
    exact hnot ⟨hasleep, hwoken, fun hempty => hwaiting (tryget_nil alg hempty)⟩
  | @get t ht =>
    refine iff_of_true ?_ (by simp)
    rintro ⟨⟨-, hasleep⟩, -, hwaiting⟩
    rcases enter_phase hord alg t with ⟨-, hempty⟩ | hphase
    · exact hwaiting hempty
    · -- who has got something does not sleep
      have hself := hasleep t ht
      rw [hphase, Function.update_self] at hself
      cases hself
  | @resume t ht =>
    have hmem := mem_woken ht
    rw [hnone] at hmem
    exact absurd hmem (Set.notMem_empty t)

/-! ## Runs -/

omit [DecidableEq τ] in
theorem ordered_start : (start : PrioQueue α τ).mQueue.Ordered := Heap.ordered_new

omit [DecidableEq τ] [LinearOrder α] in
theorem woken_start : woken (start : PrioQueue α τ).phase = ∅ := by
  apply Set.eq_empty_of_forall_notMem
  rintro t ⟨k, hk⟩
  simp [start] at hk

omit [DecidableEq τ] [LinearOrder α] in
theorem not_stranded_start : ¬ Stranded getters (start : PrioQueue α τ) := by
  intro h
  exact h.waiting (by simp [start, Heap.new])

/-- **When a queue is right** in a run: no state in it strands the getters, and what is returned was added, exactly
if nothing is added while all getters sleep. -/
theorem prioQueue_right_iff (alg : HeapAlgorithms α) (getters : Set τ) (ls : List (PrioSection α τ))
    (P : PrioQueue α τ) :
    RunOf (Step alg getters) (fun _ _ P' => ¬ Stranded getters P') start ls P ∧
        allAdded ls = allReturned ls + P.mQueue.contents ↔
      RunOf (Step alg getters) (fun P l _ => ∀ t e, l = .add t e → ¬ AllAsleep getters P) start ls P := by
  let I (P : PrioQueue α τ) : Prop := P.mQueue.Ordered ∧ woken P.phase = ∅ ∧ ¬ Stranded getters P
  have hiff : RunOf (Step alg getters) (fun _ _ P' => ¬ Stranded getters P') start ls P ↔
      RunOf (Step alg getters) (fun P l _ => ∀ t e, l = .add t e → ¬ AllAsleep getters P) start ls P := by
    refine runOf_congr_of (I := I) ?_ ?_ ⟨ordered_start, woken_start, not_stranded_start⟩
    · rintro P l P' ⟨hord, hnone, -⟩ hstep hnot'
      exact ⟨(hstep.kept hord).1, hstep.woken_eq hord hnone, hnot'⟩
    · rintro P l P' ⟨hord, hnone, hnot⟩ hstep
      exact hstep.stranded_iff hord hnone hnot
  rw [hiff]
  refine and_iff_left_of_imp fun hrun => ?_
  have hkept := run_kept hrun.run ordered_start
  simpa [start, Heap.new, Heap.contents] using hkept

/-- **A stranded getter**: it calls `get` on the empty queue, and 1 is added. -/
theorem add_wakes_nobody : ¬ ∀ (ls : List (PrioSection ℕ ℕ)) (P : PrioQueue ℕ ℕ),
    Run (Step (.sorting ℕ) {0}) start ls P → ¬ Stranded {0} P := by
  intro h
  have hget : Step (.sorting ℕ) {0} start (.get 0 none) ((start : PrioQueue ℕ ℕ).enter (.sorting ℕ) 0).2 :=
    Step.get (Set.mem_singleton 0) rfl
  have hasleep : AllAsleep {0} ((start : PrioQueue ℕ ℕ).enter (.sorting ℕ) 0).2 :=
    ⟨Set.singleton_nonempty 0, by simp [start, Heap.new, Heap.pop, enter]⟩
  have hord := (hget.kept ordered_start).1
  have hnone := hget.woken_eq ordered_start woken_start
  have hawake : ((start : PrioQueue ℕ ℕ).enter (.sorting ℕ) 0).2.phase 1 = .outside := by
    simp [start, Heap.new, Heap.pop, enter]
  have hadd : Step (.sorting ℕ) {0} ((start : PrioQueue ℕ ℕ).enter (.sorting ℕ) 0).2 (.add 1 1) _ := Step.add hawake
  exact h _ _ (.cons hget (.single hadd)) ⟨hasleep, hnone, push_ne_nil hord (.sorting ℕ) 1⟩

end PrioQueue

end Mcc
