import Mathlib.Data.Finset.Card
import Mathlib.Logic.Relation

/-!
# `Lib.Forest` — forests given by their parents, and sets that flow upward

A **forest** is a partial map to the parent that raises the depth by one, so its trees can be of any shape and
any number. What is used of it:

* `Child.unique` — what is at or below one child of a node is not at or below another;
* `mem_iff_transGen` — where every node collects the children it is linked to and what these have collected,
  it has collected what it can reach over the links, and nothing else.
-/

open Relation

/-- A forest: the parent of each node, and a depth that says that there are no cycles. -/
structure Forest (α : Type) where
  parent : α → Option α
  depth : α → ℕ
  depth_parent : ∀ {c p}, parent c = some p → depth c = depth p + 1

namespace Forest

variable {α : Type} (F : Forest α)

/-- `c` is a child of `p`. -/
def Child (p c : α) : Prop := F.parent c = some p

/-- `m` is below `n`. -/
def Below (n m : α) : Prop := TransGen F.Child n m

variable {F}

theorem Child.below {p c : α} (h : F.Child p c) : F.Below p c := TransGen.single h

theorem Child.below_of_below {p c m : α} (h : F.Child p c) (hm : F.Below c m) : F.Below p m :=
  TransGen.head h hm

/-- Going down, the depth grows. -/
theorem Below.depth_lt {n m : α} (h : F.Below n m) : F.depth n < F.depth m := by
  induction h with
  | single hc =>
    rw [F.depth_parent hc]
    exact Nat.lt_succ_self _
  | tail _ hc ih =>
    rw [F.depth_parent hc]
    omega

theorem Below.ne {n m : α} (h : F.Below n m) : n ≠ m := by
  rintro rfl
  exact lt_irrefl _ h.depth_lt

/-- Two nodes above one node are in line. -/
theorem inLine {c d m : α} (hc : ReflTransGen F.Child c m) (hd : ReflTransGen F.Child d m) :
    ReflTransGen F.Child c d ∨ ReflTransGen F.Child d c := by
  have hunique : Relator.RightUnique (Function.swap F.Child) := by
    intro m p q hp hq
    exact Option.some.inj ((show F.parent m = some p from hp).symm.trans hq)
  rcases ReflTransGen.total_of_right_unique hunique hc.swap hd.swap with h | h
  · exact Or.inr h.swap
  · exact Or.inl h.swap

/-- **Children of one node share nothing**: what is at or below one is not at or below another. -/
theorem Child.unique {p c d m : α} (hc : F.Child p c) (hd : F.Child p d) (hcm : m = c ∨ F.Below c m)
    (hdm : m = d ∨ F.Below d m) : c = d := by
  have hdepth : F.depth c = F.depth d := (F.depth_parent hc).trans (F.depth_parent hd).symm
  have hsame : ∀ {a b}, ReflTransGen F.Child a b → F.depth a = F.depth b → a = b := by
    intro a b hab heq
    rcases reflTransGen_iff_eq_or_transGen.mp hab with rfl | hbelow
    · rfl
    · exact absurd heq (ne_of_lt (Below.depth_lt hbelow))
  rcases inLine (reflTransGen_iff_eq_or_transGen.mpr hcm) (reflTransGen_iff_eq_or_transGen.mpr hdm) with h | h
  · exact hsame h hdepth
  · exact (hsame h hdepth.symm).symm

/-- **What is collected is what is linked.** Every node has collected the nodes it is linked to and what these
    have collected; and nothing that is not deeper, so that no node is passed round without having been linked. -/
theorem mem_iff_transGen {Link : α → α → Prop} {S : α → Set α}
    (hS : ∀ n m, m ∈ S n ↔ ∃ d, Link n d ∧ (m = d ∨ m ∈ S d)) (hlink : ∀ n d, Link n d → F.depth n < F.depth d)
    (hdeep : ∀ n m, m ∈ S n → F.depth n < F.depth m) (n m : α) : m ∈ S n ↔ TransGen Link n m := by
  constructor
  · -- induction on how far above `m` the node is
    have hall : ∀ k n, F.depth m - F.depth n ≤ k → m ∈ S n → TransGen Link n m := by
      intro k
      induction k with
      | zero =>
        intro n hk hm
        have hlt := hdeep n m hm
        omega
      | succ k ih =>
        intro n hk hm
        obtain ⟨d, hd, rfl | hmd⟩ := (hS n m).mp hm
        · exact TransGen.single hd
        · have hlt := hlink n d hd
          have hdm := hdeep d m hmd
          exact TransGen.head hd (ih d (by omega) hmd)
    exact hall _ n le_rfl
  · intro h
    induction h using TransGen.head_induction_on with
    | single hd => exact (hS _ m).mpr ⟨m, hd, Or.inl rfl⟩
    | head hd _ ih => exact (hS _ m).mpr ⟨_, hd, Or.inr ih⟩

end Forest
