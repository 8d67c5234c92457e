import Mathlib.Data.List.Basic

/-!
# `Lib.Register` — one register for many users

Users write a register and read it. Where they share one, a read yields what was written last, by anybody;
where each has its own, it yields what the reader wrote last itself. The two agree exactly as long as no read
is disturbed, and then what a user reads depends on its own accesses only.

## Contents
- **Reads.** `sharedReads` and what is left (`final`), `ownReads`, `ReadsOwn`.
- **The two compared.** `sharedReads_eq_iff`.
- **Noninterference.** `ownReads_filter`, `sharedReads_congr`.
-/

namespace Register

variable {κ α : Type}

/-- An access to the register, by a user. -/
inductive Access (κ α : Type) where
  | write (who : κ) (value : α)
  | read (who : κ)

namespace Access

def who : Access κ α → κ
  | write u _ => u
  | read u => u

end Access

variable [DecidableEq κ]

/-! ## Reads -/

/-- What the reads of `k` yield, with one register for all, which holds `x`. -/
def sharedReads (k : κ) : α → List (Access κ α) → List α
  | _, [] => []
  | _, .write _ v :: as => sharedReads k v as
  | x, .read u :: as => if u = k then x :: sharedReads k x as else sharedReads k x as

/-- What the register holds in the end. -/
def final : α → List (Access κ α) → α
  | x, [] => x
  | _, .write _ v :: as => final v as
  | x, .read _ :: as => final x as

/-- What they yield with a register of its own for `k`. -/
def ownReads (k : κ) : α → List (Access κ α) → List α
  | _, [] => []
  | x, .write u v :: as => ownReads k (if u = k then v else x) as
  | x, .read u :: as => if u = k then x :: ownReads k x as else ownReads k x as

/-- At every read of `k`, the last value written (`x`) is the last value `k` wrote (`own`). -/
def ReadsOwn (k : κ) : α → α → List (Access κ α) → Prop
  | _, _, [] => True
  | own, _, .write u v :: as => ReadsOwn k (if u = k then v else own) v as
  | own, x, .read u :: as => (u = k → x = own) ∧ ReadsOwn k own x as

theorem sharedReads_append (k : κ) {as bs : List (Access κ α)} :
    ∀ {x : α}, sharedReads k x (as ++ bs) = sharedReads k x as ++ sharedReads k (final x as) bs := by
  induction as with
  | nil => exact rfl
  | cons a as ih =>
    intro x
    cases a with
    | write u v => exact ih
    | read u =>
      rw [List.cons_append, sharedReads, sharedReads, final, ih]
      by_cases hu : u = k
      · rw [if_pos hu, if_pos hu]
        rfl
      · rw [if_neg hu, if_neg hu]

/-! ## The two compared -/

/-- **Sharing is invisible** to `k` exactly as long as it is not disturbed. -/
theorem sharedReads_eq_iff (k : κ) {as : List (Access κ α)} :
    ∀ {own x : α}, sharedReads k x as = ownReads k own as ↔ ReadsOwn k own x as := by
  induction as with
  | nil => exact iff_of_true rfl trivial
  | cons a as ih =>
    intro own x
    cases a with
    | write u v => exact ih
    | read u =>
      unfold sharedReads ownReads ReadsOwn
      by_cases hu : u = k
      · rw [if_pos hu, if_pos hu, List.cons.injEq, ih]
        exact and_congr_left fun _ => ⟨fun h _ => h, fun h => h hu⟩
      · rw [if_neg hu, if_neg hu, ih]
        exact (and_iff_right fun h => absurd h hu).symm

/-! ## Noninterference -/

/-- A register of its own is no business of the others. -/
theorem ownReads_filter (k : κ) {as : List (Access κ α)} :
    ∀ {own : α}, ownReads k own (as.filter fun a => decide (a.who = k)) = ownReads k own as := by
  induction as with
  | nil => exact rfl
  | cons a as ih =>
    intro own
    by_cases ha : a.who = k
    · rw [List.filter_cons_of_pos (by simpa using ha)]
      cases a with
      | write u v => exact ih
      | read u =>
        unfold ownReads
        rw [ih]
    · rw [List.filter_cons_of_neg (by simpa using ha), ih]
      cases a with
      | write u v =>
        have hu : ¬ u = k := ha
        conv_rhs => rw [ownReads, if_neg hu]
      | read u =>
        have hu : ¬ u = k := ha
        conv_rhs => rw [ownReads, if_neg hu]

/-- **Noninterference.** Where `k` is not disturbed, what it reads is decided by its own accesses. -/
theorem sharedReads_congr (k : κ) {as bs : List (Access κ α)} {x : α}
    (hview : as.filter (fun a => decide (a.who = k)) = bs.filter fun a => decide (a.who = k))
    (ha : ReadsOwn k x x as) (hb : ReadsOwn k x x bs) :
    sharedReads k x as = sharedReads k x bs := by
  calc sharedReads k x as = ownReads k x as := (sharedReads_eq_iff k).mpr ha
    _ = ownReads k x (as.filter fun a => decide (a.who = k)) := (ownReads_filter k).symm
    _ = ownReads k x (bs.filter fun a => decide (a.who = k)) := by rw [hview]
    _ = ownReads k x bs := ownReads_filter k
    _ = sharedReads k x bs := ((sharedReads_eq_iff k).mpr hb).symm

end Register
