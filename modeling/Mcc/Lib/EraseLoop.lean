import Mathlib.Data.List.Basic

/-!
# `Lib.EraseLoop` — a loop that erases elements of what it walks through

`for(i = begin(); i != end(); ++i) if(gone) erase(i);` walks through a container and erases elements under its
own iterator. What it should do is `survivors`: visit every element, keep those no round erases, in their
order. What it does is another matter once a round erases: `++i` then advances an iterator whose element is no
longer there, which no container defines.

## Contents
- **The loop.** `walk`; `gone j a` says whether round `j`, at the element `a`, erases.
- **What it comes to.** `walk_eq_some_iff`: it gets to its end exactly if no round erases, and has then visited
  and kept everything. `Spares.survivors_eq`: so that is when it does what it should.
-/

namespace EraseLoop

variable {α : Type}

/-- The elements no round erases, in their order; the first is round `j`'s. -/
def survivors (gone : ℕ → α → Bool) : ℕ → List α → List α
  | _, [] => []
  | j, a :: l => if gone j a then survivors gone (j + 1) l else a :: survivors gone (j + 1) l

/-- Where the iterator stands after a round. -/
inductive Iterator where
  | valid
  | erased

/-- `++i`. -/
def Iterator.advance : Iterator → Option Unit
  | valid => some ()
  | erased => none

/-- The loop from round `j` on: the elements visited and the elements kept. -/
def walk (gone : ℕ → α → Bool) : ℕ → List α → Option (List α × List α)
  | _, [] => some ([], [])
  | j, a :: l => do
    let i := if gone j a then Iterator.erased else .valid
    i.advance
    let (visited, kept) ← walk gone (j + 1) l
    return (a :: visited, if gone j a then kept else a :: kept)

/-- No round erases. -/
def Spares (gone : ℕ → α → Bool) (j : ℕ) (l : List α) : Prop := ∀ k a, l[k]? = some a → gone (j + k) a = false

variable {gone : ℕ → α → Bool}

theorem spares_nil {j : ℕ} : Spares gone j [] := by
  intro k a h
  simp at h

theorem spares_cons_iff {j : ℕ} {a : α} {l : List α} :
    Spares gone j (a :: l) ↔ gone j a = false ∧ Spares gone (j + 1) l := by
  constructor
  · intro h
    refine ⟨h 0 a rfl, ?_⟩
    intro k b hb
    have hk := h (k + 1) b (by simpa using hb)
    rwa [Nat.add_assoc, Nat.add_comm 1 k]
  · rintro ⟨hfirst, hrest⟩ k b hb
    cases k with
    | zero =>
      obtain rfl : a = b := by simpa using hb
      exact hfirst
    | succ k =>
      have hk := hrest k b (by simpa using hb)
      rwa [Nat.add_assoc, Nat.add_comm 1 k] at hk

/-- Where nothing is erased everything survives. -/
theorem Spares.survivors_eq {l : List α} : ∀ {j : ℕ}, Spares gone j l → survivors gone j l = l := by
  induction l with
  | nil => exact fun _ => rfl
  | cons a l ih =>
    intro j h
    obtain ⟨hfirst, hrest⟩ := spares_cons_iff.mp h
    unfold survivors
    simp [hfirst, ih hrest]

/-- **The loop gets to its end** exactly if no round erases, and has then visited and kept everything. -/
theorem walk_eq_some_iff {l : List α} : ∀ {j : ℕ} {r : List α × List α},
    walk gone j l = some r ↔ Spares gone j l ∧ r = (l, l) := by
  induction l with
  | nil =>
    intro j r
    simp [walk, spares_nil, eq_comm]
  | cons a l ih =>
    intro j r
    rw [spares_cons_iff]
    unfold walk
    cases hgone : gone j a with
    | true =>
      -- what is advanced has been erased
      simp [Iterator.advance]
    | false =>
      simp only [Bool.false_eq_true, if_false, Iterator.advance, Option.bind_eq_bind, Option.bind_some, true_and]
      constructor
      · intro h
        obtain ⟨rest, hwalk, hr⟩ := Option.bind_eq_some_iff.mp h
        obtain ⟨hrest, rfl⟩ := ih.mp hwalk
        exact ⟨hrest, (Option.some.inj hr).symm⟩
      · rintro ⟨hrest, rfl⟩
        rw [ih.mpr ⟨hrest, rfl⟩]
        rfl

end EraseLoop
