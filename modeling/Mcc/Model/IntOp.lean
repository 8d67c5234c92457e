import Mcc.Model.Framing

/-!
# `Model.IntOp` — arithmetic that may overflow

The operations of an `int`, for the code whose results depend on it. What an `int` cannot hold is no result: the
language promises nothing then. Numbers are read from text with them, a digit at a time (`foldlM_pushDigit`).
-/

namespace Mcc

namespace IntOp

/-- The result of an operation, if an `int` holds it. -/
def int (n : Int) : Option Int := if IsInt n then some n else none

/-- `a + b` -/
def add (a b : Int) : Option Int := int (a + b)

/-- `a - b` -/
def sub (a b : Int) : Option Int := int (a - b)

/-- `a * b` -/
def mul (a b : Int) : Option Int := int (a * b)

theorem int_eq_some_iff {n m : Int} : int n = some m ↔ IsInt n ∧ n = m := by
  unfold int
  split_ifs with h
  · simp [h]
  · simp [h]

theorem int_of_range {n : Int} (hle : 0 ≤ n) (hlt : n < 2147483648) : int n = some n :=
  int_eq_some_iff.mpr ⟨⟨by omega, by omega⟩, by simp⟩

theorem add_of_range {a b : Int} (hle : 0 ≤ a + b) (hlt : a + b < 2147483648) : add a b = some (a + b) :=
  int_of_range hle hlt

theorem sub_of_range {a b : Int} (hle : 0 ≤ a - b) (hlt : a - b < 2147483648) : sub a b = some (a - b) :=
  int_of_range hle hlt

theorem mul_of_range {a b : Int} (hle : 0 ≤ a * b) (hlt : a * b < 2147483648) : mul a b = some (a * b) :=
  int_of_range hle hlt

/-- The next operation goes on with the result. -/
theorem bind_of_eq {α β : Type} {x : Option α} {a : α} {f : α → Option β} (h : x = some a) : (x >>= f) = f a := by
  simp [h]

/-- The next operation goes on exactly with a number an `int` holds. -/
theorem bind_int_eq_some_iff {α : Type} {n : Int} {f : Int → Option α} {a : α} :
    (int n >>= f) = some a ↔ IsInt n ∧ f n = some a := by
  unfold int
  split_ifs with h
  · simp [h]
  · simp [h]

/-! ## Digits -/

/-- `res *= 10; res += c - '0';` -/
def pushDigit (res : Int) (c : Char) : Option Int := do
  let res ← mul res 10
  add res ((c.toNat : Int) - ('0'.toNat : Int))

/-- A number only grows. -/
theorem le_ofDigitChars (l : List Char) (n : ℕ) : n ≤ Nat.ofDigitChars 10 l n := by
  induction l generalizing n with
  | nil => simp
  | cons c l ih =>
    rw [Nat.ofDigitChars_cons]
    have hrest := ih (10 * n + (c.toNat - '0'.toNat))
    omega

theorem pushDigit_eq {n : ℕ} {c : Char} (hc : c.isDigit = true) (hlt : 10 * n + (c.toNat - '0'.toNat) < 2147483648) :
    pushDigit n c = some ((10 * n + (c.toNat - '0'.toNat) : ℕ) : Int) := by
  have hzero : '0'.toNat ≤ c.toNat := by
    simp only [Char.isDigit, Bool.and_eq_true, decide_eq_true_eq] at hc
    exact hc.1
  have hval : '0'.toNat = 48 := by decide
  unfold pushDigit
  rw [bind_of_eq (mul_of_range (by omega) (by omega)), add_of_range (by omega) (by omega)]
  congr 1
  push_cast [Nat.cast_sub hzero]
  omega

/-- **The digits of a number are read as it**, if an `int` holds it. -/
theorem foldlM_pushDigit {l : List Char} {n : ℕ} (hl : ∀ c ∈ l, c.isDigit = true)
    (hlt : Nat.ofDigitChars 10 l n < 2147483648) :
    l.foldlM pushDigit (n : Int) = some (Nat.ofDigitChars 10 l n : Int) := by
  induction l generalizing n with
  | nil => simp
  | cons c l ih =>
    obtain ⟨hc, hl⟩ := List.forall_mem_cons.mp hl
    rw [Nat.ofDigitChars_cons] at hlt ⊢
    have hpush := pushDigit_eq hc (lt_of_le_of_lt (le_ofDigitChars l _) hlt)
    rw [List.foldlM_cons, bind_of_eq hpush, ih hl hlt]

end IntOp

end Mcc
