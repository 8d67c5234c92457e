import Mathlib.Data.List.Sort
import Mathlib.Order.Basic

/-!
# `Lib.Heap` — binary heaps in a list

A list is a heap if no element is above its parent, the one at half its place. Then none is above the first
(`IsHeap.le_head`).

`HeapAlgorithms` are two functions that meet the specification of `push_heap` and `pop_heap`: the first makes a heap
of a heap and an element behind it, the second puts the first element last and makes a heap of the others. How they do
it is left open; `HeapAlgorithms.sorting` sorts.
-/

namespace StdHeap

variable {α : Type} [LinearOrder α]

/-- No element is above its parent. -/
def IsHeap (l : List α) : Prop := ∀ i a b, l[i + 1]? = some a → l[i / 2]? = some b → a ≤ b

theorem isHeap_nil : IsHeap ([] : List α) := by simp [IsHeap]

/-- **The first element is a maximum.** -/
theorem IsHeap.le_head {l : List α} (h : IsHeap l) {m : α} (hm : l.head? = some m) : ∀ a ∈ l, a ≤ m := by
  rw [List.head?_eq_getElem?] at hm
  have hindex (i : ℕ) (a : α) (ha : l[i]? = some a) : a ≤ m := by
    induction i using Nat.strongRecOn generalizing a with
    | ind i ih =>
      cases i with
      | zero =>
        rw [hm, Option.some.injEq] at ha
        exact le_of_eq ha.symm
      | succ i =>
        -- its parent is there, and not above the first
        obtain ⟨hlt, -⟩ := List.getElem?_eq_some_iff.mp ha
        have hparent : l[i / 2]? = some l[i / 2] := List.getElem?_eq_getElem (by omega)
        exact le_trans (h i a _ ha hparent) (ih (i / 2) (by omega) _ hparent)
  intro a ha
  obtain ⟨i, hi⟩ := List.getElem?_of_mem ha
  exact hindex i a hi

/-- What is in descending order is a heap. -/
theorem isHeap_of_pairwise {l : List α} (h : l.Pairwise (· ≥ ·)) : IsHeap l := by
  intro i a b ha hb
  obtain ⟨hi, rfl⟩ := List.getElem?_eq_some_iff.mp ha
  obtain ⟨hj, rfl⟩ := List.getElem?_eq_some_iff.mp hb
  exact List.pairwise_iff_getElem.mp h (i / 2) (i + 1) hj hi (by omega)

/-- `std::push_heap` and `std::pop_heap`. -/
structure HeapAlgorithms (α : Type) [LinearOrder α] where
  pushHeap : List α → List α
  popHeap : List α → List α
  pushHeap_perm : ∀ l e, IsHeap l → (pushHeap (l ++ [e])).Perm (l ++ [e])
  isHeap_pushHeap : ∀ l e, IsHeap l → IsHeap (pushHeap (l ++ [e]))
  popHeap_perm : ∀ l, IsHeap l → (popHeap l).Perm l
  isHeap_dropLast : ∀ l, IsHeap l → IsHeap (popHeap l).dropLast
  getLast?_popHeap : ∀ l, IsHeap l → (popHeap l).getLast? = l.head?

/-- In descending order. -/
def sortDown (l : List α) : List α := l.mergeSort fun a b => decide (b ≤ a)

theorem sortDown_perm (l : List α) : (sortDown l).Perm l := List.mergeSort_perm _ _

theorem isHeap_sortDown (l : List α) : IsHeap (sortDown l) := by
  apply isHeap_of_pairwise
  have hsorted := @List.pairwise_mergeSort α (fun a b => decide (b ≤ a))
    (by simpa using fun a b c h h' => le_trans h' h) (by simpa using fun a b => le_total b a) l
  exact hsorted.imp fun h => by simpa using h

theorem sortDown_eq_self {l : List α} (h : l.Pairwise (· ≥ ·)) : sortDown l = l :=
  List.mergeSort_of_pairwise (h.imp fun hab => by simpa using hab)

/-- Sorting is one way to do it. -/
def HeapAlgorithms.sorting (α : Type) [LinearOrder α] : HeapAlgorithms α where
  pushHeap := sortDown
  popHeap l := sortDown l.tail ++ l.head?.toList
  pushHeap_perm l e _ := sortDown_perm (l ++ [e])
  isHeap_pushHeap l e _ := isHeap_sortDown (l ++ [e])
  popHeap_perm l _ := by
    cases l with
    | nil => simp [sortDown]
    | cons a l => simpa using ((sortDown_perm l).append_right [a]).trans (List.perm_append_singleton a l)
  isHeap_dropLast l _ := by
    cases l with
    | nil => simpa [sortDown] using isHeap_nil
    | cons a l => simpa using isHeap_sortDown l
  getLast?_popHeap l _ := by
    cases l with
    | nil => simp [sortDown]
    | cons a l => simp

end StdHeap
