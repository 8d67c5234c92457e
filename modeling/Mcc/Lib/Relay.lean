import Mcc.Lib.Transition

/-!
# `Lib.Relay` — a question along a line of stations, and its answer on the way back

Stations `0 … k` stand in a line; link `i` joins station `i` and station `i + 1`. A question leaves station
`0`. Each station it reaches passes it on or answers it, and each station an answer reaches passes it back,
until station `0` has it. The question and the answer are **one token**, and `Phase` says where it is.

## Contents
- `exchange_of_done` — what happened, station by station, when the answer is home.
- `length_le` — no run is longer than `2 * k`.
- `passed` — where the token is, once a station has passed the answer back.
-/

namespace Relay

open Transition

variable {A : Type}

/-- Where the token is. -/
inductive Phase (A : Type) where
  /-- the question, on link `i` -/
  | down (i : ℕ)
  /-- the answer, on link `i` -/
  | up (i : ℕ) (a : A)
  | done (a : A)

/-- What the station at the end of link `i` sees. -/
inductive Event (A : Type) where
  /-- Station `i + 1` receives the question, and answers it or not. -/
  | request (i : ℕ) (answer : Option A)
  /-- Station `i` receives the answer. -/
  | response (i : ℕ) (a : A)

/-- The moves of the token. Station `k`, at the end of link `k - 1`, can only answer. -/
inductive Step (k : ℕ) : Phase A → Event A → Phase A → Prop where
  | forward {i} : i + 1 < k → Step k (.down i) (.request i none) (.down (i + 1))
  | answer {i a} : i < k → Step k (.down i) (.request i (some a)) (.up i a)
  | relay {i a} : Step k (.up (i + 1) a) (.response (i + 1) a) (.up i a)
  | finish {a} : Step k (.up 0 a) (.response 0 a) (.done a)

/-! ## How long it takes -/

/-- The moves that are left, at most. -/
def Phase.remaining (k : ℕ) : Phase A → ℕ
  | .down i => 2 * k - i
  | .up i _ => i + 1
  | .done _ => 0

theorem Step.remaining_lt {k : ℕ} {φ ψ : Phase A} {e : Event A} (h : Step k φ e ψ) :
    ψ.remaining k < φ.remaining k := by
  cases h with
  | forward hi =>
    simp only [Phase.remaining]
    omega
  | answer hi =>
    simp only [Phase.remaining]
    omega
  | relay =>
    simp only [Phase.remaining]
    omega
  | finish =>
    simp only [Phase.remaining]
    omega

theorem length_add_remaining_le {k : ℕ} {φ ψ : Phase A} {tr : List (Event A)} (h : Run (Step k) φ tr ψ) :
    tr.length + ψ.remaining k ≤ φ.remaining k := by
  induction h with
  | nil => simp
  | cons hs _ ih =>
    have hlt := hs.remaining_lt
    rw [List.length_cons]
    omega

/-- **Every run ends.** -/
theorem length_le {k : ℕ} {ψ : Phase A} {tr : List (Event A)} (h : Run (Step k) (.down 0) tr ψ) :
    tr.length ≤ 2 * k := by
  have hle := length_add_remaining_le h
  simp only [Phase.remaining] at hle
  omega

/-! ## What happened -/

/-- The answer on its way back over links `i, …, 0`. -/
def responses (a : A) : ℕ → List (Event A)
  | 0 => [.response 0 a]
  | i + 1 => .response (i + 1) a :: responses a i

/-- The question on its way over links `i, …, i + n`; the station at the end answers. -/
def requests (a : A) : ℕ → ℕ → List (Event A)
  | i, 0 => [.request i (some a)]
  | i, n + 1 => .request i none :: requests a (i + 1) n

/-- **A whole exchange**: the question over links `0, …, n`, the answer over the same links back. -/
def exchange (n : ℕ) (a : A) : List (Event A) := requests a 0 n ++ responses a n

theorem responses_of_done {k i : ℕ} {tr : List (Event A)} {a b : A}
    (h : Run (Step k) (.up i a) tr (.done b)) : a = b ∧ tr = responses a i := by
  induction i generalizing tr with
  | zero =>
    cases h with
    | cons hs hr =>
      cases hs
      cases hr with
      | nil => exact ⟨rfl, rfl⟩
      | cons hs _ => cases hs
  | succ i ih =>
    cases h with
    | cons hs hr =>
      cases hs
      obtain ⟨rfl, rfl⟩ := ih hr
      exact ⟨rfl, rfl⟩

theorem requests_of_done {k i : ℕ} {tr : List (Event A)} {a : A}
    (h : Run (Step k) (.down i) tr (.done a)) :
    ∃ n, i + n < k ∧ tr = requests a i n ++ responses a (i + n) := by
  induction tr generalizing i with
  | nil => cases h
  | cons e tr ih =>
    cases h with
    | cons hs hr =>
      cases hs with
      | forward hi =>
        obtain ⟨n, hn, rfl⟩ := ih hr
        refine ⟨n + 1, by omega, ?_⟩
        rw [show i + (n + 1) = i + 1 + n by omega]
        rfl
      | answer hi =>
        obtain ⟨rfl, rfl⟩ := responses_of_done hr
        exact ⟨0, hi, rfl⟩

/-- **An answer that is home** has gone over the links of the question, each once. -/
theorem exchange_of_done {k : ℕ} {tr : List (Event A)} {a : A}
    (h : Run (Step k) (.down 0) tr (.done a)) : ∃ n < k, tr = exchange n a := by
  obtain ⟨n, hn, rfl⟩ := requests_of_done h
  rw [Nat.zero_add] at hn ⊢
  exact ⟨n, hn, rfl⟩

/-! ## Where the token is -/

/-- The token is on a link of the line. -/
def Phase.On (k : ℕ) : Phase A → Prop
  | .down i => i < k
  | .up i _ => i < k
  | .done _ => True

theorem Step.on {k : ℕ} {φ ψ : Phase A} {e : Event A} (h : Step k φ e ψ) (hon : φ.On k) : ψ.On k := by
  cases h with
  | forward hi => exact hi
  | answer hi => exact hi
  | relay =>
    simp only [Phase.On] at hon ⊢
    omega
  | finish => trivial

/-- An answer stays what it is and only moves towards station `0`. -/
theorem of_run_up {k i : ℕ} {ψ : Phase A} {tr : List (Event A)} {a : A}
    (h : Run (Step k) (.up i a) tr ψ) : (∃ j ≤ i, ψ = .up j a) ∨ ψ = .done a := by
  induction i generalizing tr with
  | zero =>
    cases h with
    | nil => exact Or.inl ⟨0, Nat.le_refl 0, rfl⟩
    | cons hs hr =>
      cases hs
      cases hr with
      | nil => exact Or.inr rfl
      | cons hs _ => cases hs
  | succ i ih =>
    cases h with
    | nil => exact Or.inl ⟨i + 1, Nat.le_refl _, rfl⟩
    | cons hs hr =>
      cases hs
      rcases ih hr with ⟨j, hj, rfl⟩ | rfl
      · exact Or.inl ⟨j, by omega, rfl⟩
      · exact Or.inr rfl

/-- **A station that has passed the answer back** lies behind it. -/
theorem passed {k i : ℕ} {φ ψ : Phase A} {tr : List (Event A)} {a : A} (h : Run (Step k) φ tr ψ)
    (hon : φ.On k) (hi : .response i a ∈ tr) : i < k ∧ ((∃ j < i, ψ = .up j a) ∨ ψ = .done a) := by
  obtain ⟨before, φ₁, φ₂, after, -, hbefore, hs, hafter⟩ := h.through hi
  have hon₁ : φ₁.On k := hbefore.invariant (fun _ _ _ hon hs => hs.on hon) hon
  cases hs with
  | relay =>
    refine ⟨hon₁, ?_⟩
    rcases of_run_up hafter with ⟨j, hj, rfl⟩ | rfl
    · exact Or.inl ⟨j, by omega, rfl⟩
    · exact Or.inr rfl
  | finish =>
    refine ⟨hon₁, Or.inr ?_⟩
    cases hafter with
    | nil => rfl
    | cons hs _ => cases hs

end Relay
