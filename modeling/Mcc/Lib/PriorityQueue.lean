import Mathlib

/-!
# `Lib.PriorityQueue` — what a priority queue promises, and popping while a test holds

A priority queue exposes a **minimal** element and nothing else: among elements that compare equal the
choice is the implementation's. The class below states that contract over an arbitrary container `Q`, so a
client proved against it holds for every implementation, whatever its tie-breaking.

## Contents
- **Contract.** `PriorityQueue Q α`: `empty`/`push`/`top`/`pop`, with the contents as a multiset.
- **Purging.** `popWhile p q` pops the top while `p` holds of it. The test may depend on how many elements
  were popped already (a clock that is read afresh at every test).
- **Draining.** `drain q` is the order elements are handed out in; it says when a purge removes all that pass
  the test (`contents_popWhile_iff`).
- **An implementation.** `PriorityQueue.ofArgmin`: an unordered list with a linear search for the top.
-/

/-- The contract of a priority queue over `<`: `top` is an element no other element is below. -/
class PriorityQueue (Q : Type) (α : outParam Type) [LT α] where
  empty : Q
  push : α → Q → Q
  top : Q → Option α
  pop : Q → Q
  contents : Q → Multiset α
  contents_empty : contents empty = 0
  contents_push : ∀ a q, contents (push a q) = a ::ₘ contents q
  top_none : ∀ q, top q = none → contents q = 0
  top_not_lt : ∀ q a, top q = some a → ∀ b ∈ contents q, ¬ b < a
  cons_pop : ∀ q a, top q = some a → a ::ₘ contents (pop q) = contents q

namespace PriorityQueue

variable {Q α : Type} [LT α] [PriorityQueue Q α]

/-! ## Membership -/

instance : Membership α Q := ⟨fun q a => a ∈ contents q⟩

theorem mem_iff {a : α} {q : Q} : a ∈ q ↔ a ∈ contents q := Iff.rfl

@[simp] theorem not_mem_empty (a : α) : a ∉ (empty : Q) := by
  rw [mem_iff, contents_empty]
  exact Multiset.notMem_zero a

@[simp] theorem mem_push {a b : α} {q : Q} : b ∈ push a q ↔ b = a ∨ b ∈ q := by
  rw [mem_iff, contents_push, Multiset.mem_cons, mem_iff]

/-- The top is an element of the queue. -/
theorem top_mem {q : Q} {a : α} (h : top q = some a) : a ∈ q := by
  rw [mem_iff, ← cons_pop q a h]
  exact Multiset.mem_cons_self a _

/-- No element is below the top. -/
theorem not_lt_top {q : Q} {a b : α} (h : top q = some a) (hb : b ∈ q) : ¬ b < a :=
  top_not_lt q a h b hb

theorem top_eq_none_iff {q : Q} : top q = none ↔ ∀ a : α, a ∉ q := by
  constructor
  · intro h a ha
    rw [mem_iff, top_none q h] at ha
    exact Multiset.notMem_zero a ha
  · intro h
    cases ht : top q with
    | none => rfl
    | some a => exact absurd (top_mem ht) (h a)

theorem exists_top_of_mem {q : Q} {a : α} (h : a ∈ q) : ∃ b, top q = some b := by
  cases ht : top q with
  | none => exact absurd h (top_eq_none_iff.mp ht a)
  | some b => exact ⟨b, rfl⟩

theorem mem_of_mem_pop {q : Q} {a b : α} (h : top q = some a) (hb : b ∈ pop q) : b ∈ q := by
  rw [mem_iff, ← cons_pop q a h]
  exact Multiset.mem_cons_of_mem hb

/-- Popping removes only the top. -/
theorem mem_pop_of_ne {q : Q} {a b : α} (h : top q = some a) (hb : b ∈ q) (hne : b ≠ a) :
    b ∈ pop q := by
  rw [mem_iff, ← cons_pop q a h] at hb
  exact (Multiset.mem_cons.mp hb).resolve_left hne

/-! ## Popping while a test holds -/

/-- `while(!q.empty() && p(q.top())) q.pop();` — `p i` is the test made after `i` pops. -/
def popWhileFuel (p : ℕ → α → Bool) : ℕ → ℕ → Q → Q
  | 0, _, q => q
  | k + 1, i, q =>
    match top q with
    | none => q
    | some a => if p i a then popWhileFuel p k (i + 1) (pop q) else q

/-- The loop, with the fuel it can use at most: one round for each element. -/
def popWhile (p : ℕ → α → Bool) (q : Q) : Q :=
  popWhileFuel p (Multiset.card (contents q)) 0 q

theorem card_pop {q : Q} {a : α} (h : top q = some a) :
    Multiset.card (contents (pop q)) + 1 = Multiset.card (contents q) := by
  rw [← cons_pop q a h, Multiset.card_cons]

/-- **Purging only removes.** -/
theorem mem_of_mem_popWhileFuel {p : ℕ → α → Bool} {b : α} :
    ∀ {k i : ℕ} {q : Q}, b ∈ popWhileFuel p k i q → b ∈ q := by
  intro k
  induction k with
  | zero => intro i q h; exact h
  | succ k ih =>
    intro i q h
    unfold popWhileFuel at h
    cases ht : top q with
    | none => simpa only [ht] using h
    | some a =>
      simp only [ht] at h
      by_cases hp : p i a = true
      · rw [if_pos hp] at h
        exact mem_of_mem_pop ht (ih h)
      · rw [if_neg hp] at h
        exact h

/-- **Purging keeps what never fails the test.** -/
theorem mem_popWhileFuel {p : ℕ → α → Bool} {b : α} (hb : ∀ i, p i b = false) :
    ∀ {k i : ℕ} {q : Q}, b ∈ q → b ∈ popWhileFuel p k i q := by
  intro k
  induction k with
  | zero => intro i q h; exact h
  | succ k ih =>
    intro i q h
    unfold popWhileFuel
    cases ht : top q with
    | none => exact h
    | some a =>
      simp only
      by_cases hp : p i a = true
      · rw [if_pos hp]
        refine ih (mem_pop_of_ne ht h ?_)
        intro he
        rw [he] at hb
        exact absurd hp (by simp [hb i])
      · rw [if_neg hp]
        exact h

/-- **Where the loop stops.** With enough fuel the queue is empty or its top fails the test. -/
theorem top_popWhileFuel {p : ℕ → α → Bool} {b : α} :
    ∀ {k i : ℕ} {q : Q}, Multiset.card (contents q) ≤ k →
      top (popWhileFuel p k i q) = some b → ∃ j, p j b = false := by
  intro k
  induction k with
  | zero =>
    intro i q hk h
    have hz : contents q = 0 := Multiset.card_eq_zero.mp (Nat.le_zero.mp hk)
    have hm : b ∈ contents q := top_mem h
    rw [hz] at hm
    exact absurd hm (Multiset.notMem_zero b)
  | succ k ih =>
    intro i q hk h
    unfold popWhileFuel at h
    cases ht : top q with
    | none =>
      simp only [ht] at h
      cases h
    | some a =>
      simp only [ht] at h
      by_cases hp : p i a = true
      · rw [if_pos hp] at h
        have hc := card_pop ht
        exact ih (by omega) h
      · rw [if_neg hp, ht] at h
        cases h
        exact ⟨i, by simpa using hp⟩

theorem mem_of_mem_popWhile {p : ℕ → α → Bool} {b : α} {q : Q} (h : b ∈ popWhile p q) : b ∈ q :=
  mem_of_mem_popWhileFuel h

theorem mem_popWhile {p : ℕ → α → Bool} {b : α} {q : Q} (hb : ∀ i, p i b = false) (h : b ∈ q) :
    b ∈ popWhile p q :=
  mem_popWhileFuel hb h

theorem top_popWhile {p : ℕ → α → Bool} {b : α} {q : Q} (h : top (popWhile p q) = some b) :
    ∃ j, p j b = false :=
  top_popWhileFuel (Nat.le_refl _) h

/-! ## The order elements are handed out in -/

/-- The first `k` elements that `top` and `pop` hand out. -/
def drainFuel : ℕ → Q → List α
  | 0, _ => []
  | k + 1, q =>
    match top q with
    | none => []
    | some a => a :: drainFuel k (pop q)

/-- All of them. -/
def drain (q : Q) : List α := drainFuel (Multiset.card (contents q)) q

theorem coe_drainFuel :
    ∀ {k : ℕ} {q : Q}, Multiset.card (contents q) ≤ k → (drainFuel k q : Multiset α) = contents q := by
  intro k
  induction k with
  | zero =>
    intro q hk
    rw [Multiset.card_eq_zero.mp (Nat.le_zero.mp hk)]
    rfl
  | succ k ih =>
    intro q hk
    unfold drainFuel
    cases ht : top q with
    | none => rw [top_none q ht, Multiset.coe_nil]
    | some a =>
      have hc := card_pop ht
      simp only
      rw [← Multiset.cons_coe, ih (by omega), cons_pop q a ht]

/-- **Draining** hands out what is in the queue. -/
theorem coe_drain (q : Q) : (drain q : Multiset α) = contents q := coe_drainFuel (Nat.le_refl _)

theorem mem_drain {q : Q} {a : α} : a ∈ drain q ↔ a ∈ q := by
  rw [mem_iff, ← coe_drain, Multiset.mem_coe]

theorem pairwise_drainFuel : ∀ {k : ℕ} {q : Q}, Multiset.card (contents q) ≤ k →
    (drainFuel k q).Pairwise fun a b => ¬ b < a := by
  intro k
  induction k with
  | zero => exact fun _ => List.Pairwise.nil
  | succ k ih =>
    intro q hk
    unfold drainFuel
    cases ht : top q with
    | none => exact List.Pairwise.nil
    | some a =>
      have hc := card_pop ht
      have hle : Multiset.card (contents (pop q)) ≤ k := by omega
      refine List.pairwise_cons.mpr ⟨?_, ih hle⟩
      intro b hb
      rw [← Multiset.mem_coe, coe_drainFuel hle] at hb
      exact not_lt_top ht (mem_of_mem_pop ht hb)

/-- Nobody is handed out after one it is below. -/
theorem pairwise_drain (q : Q) : (drain q).Pairwise fun a b => ¬ b < a := pairwise_drainFuel (Nat.le_refl _)

/-! ## What a purge leaves -/

omit [LT α] in
/-- Dropping the first elements that pass is dropping all that pass exactly if these come first. -/
theorem coe_dropWhile_iff {p : α → Bool} {l : List α} :
    (l.dropWhile p : Multiset α) = (l.filter fun a => !p a : List α) ↔
      l.Pairwise fun a b => p b = true → p a = true := by
  induction l with
  | nil => simp
  | cons a l ih =>
    rw [List.pairwise_cons]
    cases hp : p a with
    | true => simp [hp, ih]
    | false =>
      rw [List.dropWhile_cons_of_neg (by simp [hp]), List.filter_cons_of_pos (by simp [hp]),
        ← Multiset.cons_coe, ← Multiset.cons_coe, Multiset.cons_inj_right, Multiset.coe_eq_coe]
      constructor
      · intro hperm
        have hall : ∀ b ∈ l, (!p b) = true := by
          apply List.filter_eq_self.mp
          exact List.filter_sublist.eq_of_length hperm.length_eq.symm
        refine ⟨fun b hb hpb => ?_, List.pairwise_of_forall_mem_list fun b _ c hc hpc => ?_⟩
        · have hnot := hall b hb
          rw [hpb] at hnot
          cases hnot
        · have hnot := hall c hc
          rw [hpc] at hnot
          cases hnot
      · rintro ⟨hfirst, -⟩
        have hall : ∀ b ∈ l, (!p b) = true := by
          intro b hb
          cases hpb : p b with
          | true => exact absurd (hfirst b hb hpb) Bool.false_ne_true
          | false => rfl
        rw [List.filter_eq_self.mpr hall]

/-- Purging by a test that does not change drops the first elements that pass. -/
theorem contents_popWhileFuel {p : α → Bool} :
    ∀ {k i : ℕ} {q : Q}, Multiset.card (contents q) ≤ k →
      contents (popWhileFuel (fun _ => p) k i q) = ((drainFuel k q).dropWhile p : List α) := by
  intro k
  induction k with
  | zero =>
    intro i q hk
    exact (Multiset.card_eq_zero.mp (Nat.le_zero.mp hk)).trans Multiset.coe_nil.symm
  | succ k ih =>
    intro i q hk
    unfold popWhileFuel drainFuel
    cases ht : top q with
    | none => exact (top_none q ht).trans Multiset.coe_nil.symm
    | some a =>
      have hc := card_pop ht
      have hle : Multiset.card (contents (pop q)) ≤ k := by omega
      simp only
      cases hp : p a with
      | true => rw [if_pos rfl, List.dropWhile_cons_of_pos hp, ih hle]
      | false =>
        rw [if_neg Bool.false_ne_true, List.dropWhile_cons_of_neg (by simp [hp]), ← Multiset.cons_coe,
          coe_drainFuel hle, cons_pop q a ht]

/-- **An exact purge.** What is left is what does not pass the test exactly if the queue hands out whatever
    passes before anything that does not. -/
theorem contents_popWhile_iff {p : α → Bool} {q : Q} :
    contents (popWhile (fun _ => p) q) = (contents q).filter (fun a => (!p a) = true) ↔
      (drain q).Pairwise fun a b => p b = true → p a = true := by
  have hleft : contents (popWhile (fun _ => p) q) = ((drain q).dropWhile p : List α) :=
    contents_popWhileFuel (Nat.le_refl _)
  rw [hleft, ← coe_drain, Multiset.filter_coe, ← coe_dropWhile_iff]
  simp

/-- A purge is exact only where nothing that does not pass is below something that does. -/
theorem not_lt_of_pairwise_drain {p : α → Bool} {q : Q}
    (h : (drain q).Pairwise fun a b => p b = true → p a = true) {a b : α} (ha : a ∈ q) (hb : b ∈ q)
    (hpa : p a = true) (hpb : p b = false) : ¬ b < a := by
  -- said of both orders at once, it holds of any two elements
  have hboth : (drain q).Pairwise fun a b =>
      (p a = true → p b = false → ¬ b < a) ∧ (p b = true → p a = false → ¬ a < b) := by
    apply ((pairwise_drain q).and h).imp
    rintro c d ⟨hlt, hp⟩
    refine ⟨fun _ _ => hlt, ?_⟩
    intro hd hc
    rw [hp hd] at hc
    cases hc
  have hself : ∀ c ∈ drain q, (p c = true → p c = false → ¬ c < c) ∧ (p c = true → p c = false → ¬ c < c) :=
    fun c _ => by simp +contextual
  have hflip := hboth.imp And.symm
  exact (List.Pairwise.forall_of_forall_of_flip hself hboth hflip (mem_drain.mpr ha) (mem_drain.mpr hb)).1 hpa hpb

end PriorityQueue

/-! ## An implementation -/

/-- Contents in the order they were pushed, the top found by a linear search for the least key. -/
@[reducible]
def PriorityQueue.ofArgmin {α κ : Type} [LT α] [LinearOrder κ] [DecidableEq α] (key : α → κ)
    (hkey : ∀ a b : α, a < b → key a < key b) : PriorityQueue (List α) α where
  empty := []
  push a l := l ++ [a]
  top l := l.argmin key
  pop l := match l.argmin key with
    | none => l
    | some a => l.erase a
  contents l := (l : Multiset α)
  contents_empty := rfl
  contents_push a l := by
    rw [← Multiset.coe_add, Multiset.coe_singleton, add_comm, Multiset.singleton_add]
  top_none l h := by
    rw [List.argmin_eq_none.mp h, Multiset.coe_nil]
  top_not_lt l a h b hb hlt :=
    List.not_lt_of_mem_argmin (Multiset.mem_coe.mp hb) h (hkey b a hlt)
  cons_pop l a h := by
    rw [h]
    exact Multiset.cons_erase (Multiset.mem_coe.mpr (List.argmin_mem h))
