import Mcc.Model.PrioQueue

/-!
# `Correctness.Heap` — what a heap hands out

`pop_heap` puts the maximum last, so `pop` takes a maximum: in every run, whatever the algorithms do beside what is
specified of them. `top` reads the last element too, without that. It is right exactly where the last element happens to
be a maximum (`heap_right_iff`).

## Contents
- **Calls.** The order is kept, and `pop` takes a maximum (`Ordered.pop_cases`).
- **Runs.** Nothing is lost (`Ordered.pushed_eq`), and what is drained descends.
- **`top`.** `heap_right_iff`.
-/

namespace Mcc

namespace Heap

open StdHeap Transition

variable {α : Type} [LinearOrder α] {alg : HeapAlgorithms α} {h h' : Heap α}

/-! ## Calls -/

/-- The vector is in heap order. -/
def Ordered (h : Heap α) : Prop := IsHeap h.mData

/-- The contents of the heap. -/
def contents (h : Heap α) : Multiset α := h.mData

/-- A maximum of the contents. -/
def IsTop (h : Heap α) (e : α) : Prop := e ∈ h.mData ∧ ∀ a ∈ h.mData, a ≤ e

theorem ordered_new : (new : Heap α).Ordered := isHeap_nil

theorem Ordered.push (hord : h.Ordered) (alg : HeapAlgorithms α) (e : α) : (h.push alg e).Ordered :=
  alg.isHeap_pushHeap h.mData e hord

theorem Ordered.contents_push (hord : h.Ordered) (alg : HeapAlgorithms α) (e : α) :
    (h.push alg e).contents = e ::ₘ h.contents := by
  have hperm := (alg.pushHeap_perm h.mData e hord).trans (List.perm_append_singleton e h.mData)
  exact Multiset.coe_eq_coe.mpr hperm

/-- **`pop` takes a maximum**, the first element, and only fails where there is nothing. -/
theorem Ordered.pop_cases (hord : h.Ordered) (alg : HeapAlgorithms α) : (h.mData = [] ∧ h.pop alg = none) ∨
    ∃ e h', h.pop alg = some (e, h') ∧ h.mData.head? = some e ∧ h.IsTop e ∧ h'.Ordered ∧
      h.contents = e ::ₘ h'.contents := by
  cases hdata : h.mData with
  | nil => exact Or.inl ⟨rfl, by simp [pop, hdata]⟩
  | cons e rest =>
    right
    have hhead : h.mData.head? = some e := by simp [hdata]
    have hlast := (alg.getLast?_popHeap h.mData hord).trans hhead
    obtain ⟨init, hinit⟩ := List.getLast?_eq_some_iff.mp hlast
    have hordered := alg.isHeap_dropLast h.mData hord
    have hperm := alg.popHeap_perm h.mData hord
    rw [hinit] at hordered hperm
    rw [List.dropLast_concat] at hordered
    refine ⟨e, ⟨init⟩, ?_, by simp, ⟨by simp [hdata], hord.le_head hhead⟩, hordered, ?_⟩
    · unfold pop
      rw [hinit]
      simp [hdata]
    · exact Multiset.coe_eq_coe.mpr (hperm.symm.trans (List.perm_append_singleton e init))

@[simp] theorem after_push (h : Heap α) (e : α) : h.after alg (.push e) = h.push alg e := rfl

@[simp] theorem after_top (h : Heap α) : h.after alg .top = h := rfl

theorem after_pop {e : α} (hpop : h.pop alg = some (e, h')) : h.after alg .pop = h' := by simp [after, hpop]

theorem after_pop_none (hpop : h.pop alg = none) : h.after alg .pop = h := by simp [after, hpop]

/-- Every call keeps the order. -/
theorem Ordered.after (hord : h.Ordered) (alg : HeapAlgorithms α) (op : HeapOp α) : (h.after alg op).Ordered := by
  cases op with
  | push e => exact hord.push alg e
  | top => exact hord
  | pop =>
    rcases hord.pop_cases alg with ⟨-, hnone⟩ | ⟨e, h', hpop, -, -, hord', -⟩
    · rwa [after_pop_none hnone]
    · rwa [after_pop hpop]

/-! ## Runs -/

/-- The elements that are pushed. -/
def pushed : List (HeapOp α) → Multiset α
  | [] => 0
  | .push e :: ops => e ::ₘ pushed ops
  | _ :: ops => pushed ops

/-- The elements that `pop` hands out, in order. -/
def popped (alg : HeapAlgorithms α) : Heap α → List (HeapOp α) → List α
  | _, [] => []
  | h, .pop :: ops => ((h.pop alg).map Prod.fst).toList ++ popped alg (h.after alg .pop) ops
  | h, op :: ops => popped alg (h.after alg op) ops

/-- The heap after all the calls. -/
def run (alg : HeapAlgorithms α) (h : Heap α) : List (HeapOp α) → Heap α
  | [] => h
  | op :: ops => run alg (h.after alg op) ops

theorem popped_pop {e : α} (hpop : h.pop alg = some (e, h')) (ops : List (HeapOp α)) :
    popped alg h (.pop :: ops) = e :: popped alg h' ops := by
  simp [popped, after_pop hpop, hpop]

theorem popped_pop_none (hpop : h.pop alg = none) (ops : List (HeapOp α)) :
    popped alg h (.pop :: ops) = popped alg h ops := by
  simp [popped, after_pop_none hpop, hpop]

theorem Ordered.run (hord : h.Ordered) (alg : HeapAlgorithms α) (ops : List (HeapOp α)) : (h.run alg ops).Ordered := by
  induction ops generalizing h with
  | nil => exact hord
  | cons op ops ih => exact ih (hord.after alg op)

/-- **Nothing is lost**: what was there and what is pushed is what is popped and what is left. -/
theorem Ordered.pushed_eq (hord : h.Ordered) (alg : HeapAlgorithms α) (ops : List (HeapOp α)) :
    h.contents + pushed ops = (popped alg h ops : Multiset α) + (h.run alg ops).contents := by
  induction ops generalizing h with
  | nil => simp [pushed, popped, Heap.run]
  | cons op ops ih =>
    have hrest := ih (hord.after alg op)
    unfold Heap.run
    cases op with
    | push e =>
      rw [after_push] at hrest ⊢
      rw [hord.contents_push alg, Multiset.cons_add, ← Multiset.add_cons] at hrest
      exact hrest
    | top => exact hrest
    | pop =>
      rcases hord.pop_cases alg with ⟨-, hnone⟩ | ⟨e, h', hpop, -, -, -, hcontents⟩
      · rw [after_pop_none hnone] at hrest ⊢
        rw [popped_pop_none hnone]
        exact hrest
      · rw [after_pop hpop] at hrest ⊢
        rw [popped_pop hpop, hcontents, Multiset.cons_add, ← Multiset.cons_coe, Multiset.cons_add, ← hrest]
        rfl

/-- Only what is in the heap is drained. -/
theorem Ordered.mem_of_drain (hord : h.Ordered) {n : ℕ} {a : α} (ha : a ∈ popped alg h (List.replicate n .pop)) :
    a ∈ h.contents := by
  have hnone : pushed (List.replicate n (.pop : HeapOp α)) = 0 := by
    clear ha
    induction n with
    | zero => simp [pushed]
    | succ n ih => simpa [List.replicate_succ, pushed] using ih
  have hall := hord.pushed_eq alg (List.replicate n .pop)
  rw [hnone, add_zero] at hall
  rw [hall]
  simp [ha]

/-- **What is drained descends.** -/
theorem Ordered.drain (hord : h.Ordered) (n : ℕ) :
    (popped alg h (List.replicate n .pop)).Pairwise (· ≥ ·) := by
  induction n generalizing h with
  | zero => simp [popped]
  | succ n ih =>
    rw [List.replicate_succ]
    rcases hord.pop_cases alg with ⟨-, hnone⟩ | ⟨e, h', hpop, -, htop, hord', hcontents⟩
    · rw [popped_pop_none hnone]
      exact ih hord
    · rw [popped_pop hpop, List.pairwise_cons]
      refine ⟨fun a ha => htop.2 a ?_, ih hord'⟩
      have hmem : a ∈ h.contents := by
        rw [hcontents]
        exact Multiset.mem_cons_of_mem (hord'.mem_of_drain ha)
      exact hmem

/-! ## `top` -/

/-- What a call does is right: `pop` takes a maximum and fails only where there is nothing, and `top` returns what `pop`
would. -/
def Right (alg : HeapAlgorithms α) (h : Heap α) : HeapOp α → Prop
  | .push e => (h.push alg e).contents = e ::ₘ h.contents
  | .pop => (h.pop alg = none ↔ h.mData = []) ∧
      ∀ e h', h.pop alg = some (e, h') → h.IsTop e ∧ h.contents = e ::ₘ h'.contents
  | .top => h.top = (h.pop alg).map Prod.fst

/-- **A heap is right** over a sequence of calls: each of them is, nothing is lost, and what is drained then
descends. -/
structure HeapRight (alg : HeapAlgorithms α) (ops : List (HeapOp α)) : Prop where
  calls : Along (Step alg) (Right alg) new ops
  kept : pushed ops = (popped alg new ops : Multiset α) + (new.run alg ops).contents
  drains : ∀ n, (popped alg (new.run alg ops) (List.replicate n .pop)).Pairwise (· ≥ ·)

/-- Where `top` is called the last element is a maximum, if there is one. -/
def TopLast (h : Heap α) (op : HeapOp α) : Prop :=
  op = .top → ∀ e, h.mData.getLast? = some e → ∀ a ∈ h.mData, a ≤ e

/-- `top` is right exactly then. -/
theorem Ordered.right_iff (hord : h.Ordered) (alg : HeapAlgorithms α) (op : HeapOp α) :
    Right alg h op ↔ TopLast h op := by
  unfold TopLast
  cases op with
  | push e => simp [Right, hord.contents_push alg]
  | pop =>
    refine iff_of_true ?_ (by simp)
    rcases hord.pop_cases alg with ⟨hempty, hnone⟩ | ⟨e, h', hpop, hhead, htop, -, hcontents⟩
    · simp [Right, hempty, hnone]
    · refine ⟨?_, ?_⟩
      · have hne : h.mData ≠ [] := fun hempty => by simp [hempty] at hhead
        simp [hpop, hne]
      · intro e₁ h₁ h₁pop
        rw [hpop, Option.some.injEq, Prod.mk.injEq] at h₁pop
        obtain ⟨rfl, rfl⟩ := h₁pop
        exact ⟨htop, hcontents⟩
  | top =>
    simp only [Right, true_implies]
    rcases hord.pop_cases alg with ⟨hempty, hnone⟩ | ⟨m, h', hpop, hhead, htop, -, -⟩
    · simp [top, hempty, hnone]
    · have hne : h.mData ≠ [] := fun hempty => by simp [hempty] at hhead
      have hlast : h.mData.getLast? = some (h.mData.getLast hne) := List.getLast?_eq_some_getLast hne
      have htop' : h.top = some (h.mData.getLast hne) := by simp [top, hne, hlast]
      rw [htop', hpop, hlast, Option.map_some, Option.some.injEq]
      constructor
      · rintro heq e he a ha
        rw [← Option.some.inj he, heq]
        exact htop.2 a ha
      · intro hmax
        exact le_antisymm (htop.2 _ (List.getLast_mem hne)) (hmax _ rfl m htop.1)

/-- **When a heap is right**: `top` is called only where the last element of the vector is a maximum, or where there
is none. -/
theorem heap_right_iff (alg : HeapAlgorithms α) (ops : List (HeapOp α)) :
    HeapRight alg ops ↔ Along (Step alg) TopLast new ops := by
  have halong : Along (Step alg) (Right alg) new ops ↔ Along (Step alg) TopLast new ops :=
    along_congr (fun h op h' hord hstep => hstep ▸ hord.after alg op) (fun h op hord => hord.right_iff alg op)
      ordered_new
  constructor
  · intro hright
    exact halong.mp hright.calls
  · intro htop
    have hkept := (@ordered_new α _).pushed_eq alg ops
    refine ⟨halong.mpr htop, ?_, fun n => (ordered_new.run alg ops).drain n⟩
    simpa [contents, new] using hkept

/-- **`top` is not the maximum**: after 2 and 1 the vector is 2, 1, and `top` returns 1. -/
theorem top_not_next : ¬ ∀ ops : List (HeapOp ℕ), HeapRight (.sorting ℕ) ops := by
  intro h
  have hcalls := (h [.push 2, .push 1, .top]).calls
  have hdata : ((new.push (.sorting ℕ) 2).push (.sorting ℕ) 1).mData = [2, 1] := by
    simp [Heap.push, new, HeapAlgorithms.sorting, sortDown_eq_self]
  have hord := (ordered_new.push (.sorting ℕ) 2).push (.sorting ℕ) 1
  have hlast := (hord.right_iff (.sorting ℕ) .top).mp (((hcalls.2 _ rfl).2 _ rfl).1) rfl 1
  rw [hdata] at hlast
  exact absurd (hlast (by simp) 2 (by simp)) (by decide)

end Heap

end Mcc
