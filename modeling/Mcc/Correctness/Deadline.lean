import Mcc.Model.Conditional

/-!
# `Correctness.Deadline` — when a timed wait gets the deadline it wants

The whole seconds of the timeout go into the seconds, and once more, with the rest of it, into the nanoseconds; what
these are beyond a second is copied into the seconds and not taken away. So the deadline is right exactly while the
sum stays below a second (`deadline_right_iff`). Beyond it the call is refused at once, and `get` goes on forever
(`get_again`).
-/

namespace Mcc

namespace Conditional

variable {α : Type} {tv : TimeVal} {timeout : Int}

/-- **The deadline is right**: it is in range, it is the time that was asked for, and it is not refused. -/
structure DeadlineRight (α : Type) (tv : TimeVal) (timeout : Int) : Prop where
  range : 0 ≤ (deadline tv timeout).tvNsec ∧ (deadline tv timeout).tvNsec < 1000000000
  exact : (deadline tv timeout).tvSec * 10 ^ 9 + (deadline tv timeout).tvNsec =
    (tv.tvSec * 10 ^ 9 + tv.tvUsec * 10 ^ 3) + timeout * 10 ^ 6
  accepted : ∀ r : Rounds α, Documented r timeout → ∀ k, r.now k = tv →
    r.timedwait k (deadline tv timeout) ≠ einval

theorem store_of_nonneg {x : ℚ} (h : 0 ≤ x) : store x = ⌊x⌋ := if_pos h

theorem deadline_tvNsec (h : 0 ≤ timeout) : (deadline tv timeout).tvNsec = tv.tvUsec * 1000 + timeout * 1000000 := by
  have husec := tv.usec_nonneg
  have hsum : (tv.tvUsec : ℚ) * 1e3 + timeout * 1e6 = (tv.tvUsec * 1000 + timeout * 1000000 : Int) := by
    push_cast
    norm_num
  have hnonneg : (0 : ℚ) ≤ (tv.tvUsec * 1000 + timeout * 1000000 : Int) := Int.cast_nonneg (by omega)
  unfold deadline
  simp only [hsum]
  rw [store_of_nonneg hnonneg, Int.floor_intCast]

/-- A sum with a quotient, cut off. -/
theorem store_add_div {n m : Int} {d : ℕ} (hn : 0 ≤ n) (hm : 0 ≤ m) : store (n + m / d) = n + m / d := by
  have hnonneg : (0 : ℚ) ≤ n + m / d :=
    add_nonneg (Int.cast_nonneg hn) (div_nonneg (Int.cast_nonneg hm) (Nat.cast_nonneg d))
  rw [store_of_nonneg hnonneg, Int.floor_intCast_add, Rat.floor_intCast_div_natCast]

theorem deadline_tvSec (h : 0 ≤ timeout) : (deadline tv timeout).tvSec =
    tv.tvSec + timeout / 1000 + (deadline tv timeout).tvNsec / 1000000000 := by
  have hnsec : 0 ≤ (deadline tv timeout).tvNsec := by
    have husec := tv.usec_nonneg
    rw [deadline_tvNsec h]
    omega
  have hthousand : (1e3 : ℚ) = (1000 : ℕ) := by norm_num
  have hbillion : (1e9 : ℚ) = (1000000000 : ℕ) := by norm_num
  have hsec : store ((tv.tvSec : ℚ) + timeout / 1e3) = tv.tvSec + timeout / 1000 := by
    rw [hthousand]
    exact store_add_div tv.sec_nonneg h
  have hnonneg : 0 ≤ tv.tvSec + timeout / 1000 := add_nonneg tv.sec_nonneg (Int.ediv_nonneg h (by decide))
  calc (deadline tv timeout).tvSec
      = store ((store (tv.tvSec + timeout / 1e3) : Int) + ((deadline tv timeout).tvNsec : ℚ) / 1e9) := rfl
    _ = tv.tvSec + timeout / 1000 + (deadline tv timeout).tvNsec / 1000000000 := by
      rw [hsec, hbillion]
      exact store_add_div hnonneg hnsec

theorem valid_iff (h : 0 ≤ timeout) :
    (deadline tv timeout).Valid ↔ tv.tvUsec + 1000 * timeout < 1000000 := by
  have husec := tv.usec_nonneg
  unfold Timespec.Valid
  rw [deadline_tvNsec h]
  omega

/-- **When the deadline is right**: the microseconds and the timeout make less than a second together. -/
theorem deadline_right_iff (tv : TimeVal) (h : 0 ≤ timeout) :
    DeadlineRight α tv timeout ↔ tv.tvUsec + 1000 * timeout < 1000000 := by
  constructor
  · intro hright
    exact (valid_iff h).mp hright.range
  · intro hlt
    have hvalid := (valid_iff h).mpr hlt
    have husec := tv.usec_nonneg
    refine ⟨hvalid, ?_, ?_⟩
    · rw [deadline_tvSec h, deadline_tvNsec h]
      omega
    · intro r hdoc k hk hrefused
      exact (hdoc.einval_iff k _).mp hrefused hvalid

instance : DecidablePred Timespec.Valid := fun t => inferInstanceAs (Decidable (0 ≤ t.tvNsec ∧ t.tvNsec < 1000000000))

/-- A queue that stays empty: an invalid deadline is refused, and any other one passes. -/
def unsignalled (now : ℕ → TimeVal) : Rounds ℕ where
  now := now
  timedwait := fun _ t => if t.Valid then etimedout else einval
  mQueue := fun _ => []

theorem documented_unsignalled (now : ℕ → TimeVal) (timeout : Int) : Documented (unsignalled now) timeout where
  einval_iff := by
    intro k t
    by_cases hvalid : t.Valid <;> simp [unsignalled, hvalid, etimedout, einval]
  wakes := by
    intro k t hvalid
    exact Or.inr (if_pos hvalid)
  kept := fun _ _ => rfl

/-- Half a second, early in a second: the deadline is right, the wait is not refused, and `get` gives up after it. -/
theorem deadline_right_of_half : ∃ tv : TimeVal, DeadlineRight ℕ tv 500 ∧
    (unsignalled fun _ => tv).timedwait 0 (deadline tv 500) ≠ einval ∧
    get (unsignalled fun _ => tv) 500 0 = .returned false := by
  let tv : TimeVal := ⟨1700000000, 250000, by decide, by decide, by decide⟩
  have hright : DeadlineRight ℕ tv 500 := (deadline_right_iff tv (by decide)).mpr (by decide)
  have hvalid : (deadline tv 500).Valid := hright.range
  refine ⟨tv, hright, hright.accepted _ (documented_unsignalled _ 500) 0 rfl, ?_⟩
  simp [get, unsignalled, hvalid]

/-- **A second is too much**: the nanoseconds are 1500000000. -/
theorem deadline_wrong_for_second : ¬ ∀ (tv : TimeVal) (timeout : Int), 0 ≤ timeout → DeadlineRight ℕ tv timeout := by
  intro h
  have hrange := (h ⟨1700000000, 500000, by decide, by decide, by decide⟩ 1000 (by decide)).range
  rw [deadline_tvNsec (by decide)] at hrange
  exact absurd hrange (by decide)

/-- **An empty queue is waited for without end**: from a second on every round is refused, and nobody else gets
to the queue. -/
theorem get_again {r : Rounds α} (h : 1000 ≤ timeout) (hdoc : Documented r timeout) (hempty : r.mQueue 0 = []) (k : ℕ) :
    get r timeout k = .again := by
  have hinvalid (k : ℕ) : ¬ (deadline (r.now k) timeout).Valid := by
    have husec := (r.now k).usec_nonneg
    rw [valid_iff (by omega)]
    omega
  have hqueue : r.mQueue k = [] := by
    induction k with
    | zero => exact hempty
    | succ k ih => rw [hdoc.kept k (hinvalid k), ih]
  have hrefused := (hdoc.einval_iff k _).mpr (hinvalid k)
  unfold get
  simp [hqueue, hrefused, einval, etimedout]

end Conditional

end Mcc
