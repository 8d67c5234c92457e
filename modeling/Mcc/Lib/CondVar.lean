import Mathlib.Data.Set.Card

/-!
# `Lib.CondVar` — threads at a condition variable

The threads that use one condition variable, each in its own phase: outside, asleep in a wait, woken (by a
signal or spuriously) but not yet back in its critical section, or timed out and not yet back. `κ` is what a
thread remembers of its wait.

Someone who sleeps waits for an item. There is no lost wake-up as long as every item is **covered**: while
anyone sleeps, there are at least as many woken threads as items.

## Contents
- **One thread changes phase.** What becomes of the set of the woken.
- **Rules.** `Covered`, by what the program does: an item comes with a signal, is taken, a wait begins or ends.
-/

namespace CondVar

/-- Where a thread is. -/
inductive Phase (κ : Type) where
  | outside
  | asleep (k : κ)
  | woken (k : κ)
  | timedOut
deriving DecidableEq

variable {τ κ : Type}

/-- The threads that have been woken and are not back yet. -/
def woken (p : τ → Phase κ) : Set τ := {t | ∃ k, p t = .woken k}

/-- Someone sleeps. -/
def Sleeps (p : τ → Phase κ) : Prop := ∃ t k, p t = .asleep k

theorem mem_woken {p : τ → Phase κ} {t : τ} {k : κ} (h : p t = .woken k) : t ∈ woken p := ⟨k, h⟩

variable [DecidableEq τ]

/-! ## One thread changes phase -/

section Change

variable {p : τ → Phase κ} {t : τ}

/-- A thread that was not woken is. -/
theorem woken_wake (k : κ) : woken (Function.update p t (.woken k)) = insert t (woken p) := by
  ext u
  by_cases hu : u = t
  · subst hu
    exact ⟨fun _ => Set.mem_insert _ _, fun _ => ⟨k, Function.update_self _ _ _⟩⟩
  · simp only [woken, Set.mem_ofPred_eq, Set.mem_insert_iff, Function.update_of_ne hu, hu, false_or]

/-- A thread goes elsewhere. -/
theorem woken_leave {v : Phase κ} (hv : ∀ k, v ≠ .woken k) :
    woken (Function.update p t v) = woken p \ {t} := by
  ext u
  by_cases hu : u = t
  · subst hu
    refine iff_of_false ?_ (fun h => h.2 rfl)
    rintro ⟨k, hk⟩
    rw [Function.update_self] at hk
    exact hv k hk
  · simp only [woken, Set.mem_ofPred_eq, Set.mem_sdiff, Set.mem_singleton_iff, Function.update_of_ne hu, hu,
      not_false_iff, and_true]

/-- Nobody falls asleep by someone's going elsewhere. -/
theorem Sleeps.of_update {v : Phase κ} (hv : ∀ k, v ≠ .asleep k) (h : Sleeps (Function.update p t v)) :
    Sleeps p := by
  obtain ⟨u, k, hu⟩ := h
  by_cases hut : u = t
  · rw [hut, Function.update_self] at hu
    exact absurd hu (hv k)
  · rw [Function.update_of_ne hut] at hu
    exact ⟨u, k, hu⟩

end Change

/-! ## Rules -/

/-- **No wake-up is lost**: while anyone sleeps, the `n` items are covered by woken threads. -/
structure Covered (n : ℕ) (p : τ → Phase κ) : Prop where
  finite : (woken p).Finite
  covers : Sleeps p → n ≤ (woken p).ncard

variable {n : ℕ} {p : τ → Phase κ} {t : τ}

omit [DecidableEq τ] in
/-- An item is taken by someone who was not woken for it. -/
theorem Covered.mono {m : ℕ} (h : Covered n p) (hle : m ≤ n) : Covered m p :=
  ⟨h.finite, fun hs => le_trans hle (h.covers hs)⟩

/-- One more is woken. -/
theorem ncard_wake (hfin : (woken p).Finite) {k : κ} (ht : p t = .asleep k) :
    (woken (Function.update p t (.woken k))).ncard = (woken p).ncard + 1 := by
  have hnot : t ∉ woken p := by
    rintro ⟨k', hk'⟩
    rw [ht] at hk'
    cases hk'
  rw [woken_wake, Set.ncard_insert_of_notMem hnot hfin]

/-- **Signal.** An item comes, and a sleeper is woken. -/
theorem Covered.signal (h : Covered n p) {k : κ} (ht : p t = .asleep k) :
    Covered (n + 1) (Function.update p t (.woken k)) where
  finite := by
    rw [woken_wake]
    exact h.finite.insert t
  covers := by
    intro _
    rw [ncard_wake h.finite ht]
    exact Nat.add_le_add_right (h.covers ⟨t, k, ht⟩) 1

/-- A sleeper wakes by itself. -/
theorem Covered.spurious (h : Covered n p) {k : κ} (ht : p t = .asleep k) :
    Covered n (Function.update p t (.woken k)) :=
  (h.signal ht).mono (Nat.le_succ n)

/-- Someone who was not woken goes on without sleeping. -/
theorem Covered.pass (h : Covered n p) {v : Phase κ} (ht : t ∉ woken p) (hw : ∀ k, v ≠ .woken k)
    (ha : ∀ k, v ≠ .asleep k) : Covered n (Function.update p t v) := by
  have hsame : woken (Function.update p t v) = woken p := by
    rw [woken_leave hw, Set.sdiff_singleton_eq_self ht]
  constructor
  · rw [hsame]
    exact h.finite
  · intro hs
    rw [hsame]
    exact h.covers (hs.of_update ha)

/-- **Take.** A woken thread comes back and takes an item. -/
theorem Covered.take (h : Covered (n + 1) p) {k : κ} (ht : p t = .woken k) :
    Covered n (Function.update p t .outside) where
  finite := by
    rw [woken_leave (fun _ => by simp)]
    exact h.finite.subset Set.sdiff_subset
  covers := by
    intro hs
    have hle := h.covers (hs.of_update (fun _ => by simp))
    have hone := Set.ncard_sdiff_singleton_add_one (mem_woken ht) h.finite
    rw [woken_leave (fun _ => by simp)]
    omega

/-- **Wait.** Someone goes to sleep where there is no item. -/
theorem Covered.sleep (h : Covered 0 p) (k : κ) : Covered 0 (Function.update p t (.asleep k)) where
  finite := by
    rw [woken_leave (fun _ => by simp)]
    exact h.finite.subset Set.sdiff_subset
  covers := fun _ => Nat.zero_le _

end CondVar
