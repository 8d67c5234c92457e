import Mathlib.Data.Rat.Floor

/-!
# `Model.Conditional` — the deadline of a timed wait

`Conditional::Wait(mutex, timeout)` reads the clock, computes the deadline and hands it to
`pthread_cond_timedwait`; `Squeue::get(e, timeout)` calls it until there is an element or the time is out. The
constants are `double`s: the sums are exact here, and cut off where they are stored.
-/

namespace Mcc

namespace Conditional

/-- `struct timeval`, as `gettimeofday` fills it. -/
structure TimeVal where
  tvSec : Int
  tvUsec : Int
  sec_nonneg : 0 ≤ tvSec
  usec_nonneg : 0 ≤ tvUsec
  usec_lt : tvUsec < 1000000

/-- `struct timespec`. -/
structure Timespec where
  tvSec : Int
  tvNsec : Int
deriving DecidableEq, Repr

/-- A `double` is stored into an integer. -/
def store (x : ℚ) : Int := if 0 ≤ x then ⌊x⌋ else ⌈x⌉

/-- The deadline `Wait` computes. -/
def deadline (tv : TimeVal) (timeout : Int) : Timespec :=
  let t := { tvSec := store (tv.tvSec + timeout / 1e3), tvNsec := store (tv.tvUsec * 1e3 + timeout * 1e6) : Timespec }
  { t with tvSec := store (t.tvSec + t.tvNsec / 1e9) }

/-! ## `pthread_cond_timedwait` -/

/-- `EINVAL`. -/
def einval : Int := 22

/-- `ETIMEDOUT`. -/
def etimedout : Int := 110

/-- A deadline `pthread_cond_timedwait` accepts. -/
def Timespec.Valid (t : Timespec) : Prop := 0 ≤ t.tvNsec ∧ t.tvNsec < 1000000000

/-- What a `get` meets, round after round of its loop: the time, what `pthread_cond_timedwait` returns for a
deadline, and the queue at the test. -/
structure Rounds (α : Type) where
  now : ℕ → TimeVal
  timedwait : ℕ → Timespec → Int
  mQueue : ℕ → List α

variable {α : Type}

/-- A round of `while(mQueue.empty())`: what `get` returns, or nothing where it goes on; `abort()` returns nothing
either, but ends it. -/
inductive Round where
  | returned (b : Bool)
  | aborted
  | again
deriving DecidableEq

/-- `Squeue::get(e, timeout)`, round `k`. -/
def get (r : Rounds α) (timeout : Int) (k : ℕ) : Round :=
  if (r.mQueue k).isEmpty then
    let rc := r.timedwait k (deadline (r.now k) timeout)
    if rc = etimedout then .returned false
    else if rc < 0 then .aborted
    else .again
  else .returned true

/-- **What is documented**: a deadline is refused exactly if it is not valid, and then the mutex is not released,
so nobody changes the queue; otherwise the wait ends by a signal or by the timeout. -/
structure Documented (r : Rounds α) (timeout : Int) : Prop where
  einval_iff : ∀ k t, r.timedwait k t = einval ↔ ¬ t.Valid
  wakes : ∀ k t, t.Valid → r.timedwait k t = 0 ∨ r.timedwait k t = etimedout
  kept : ∀ k, ¬ (deadline (r.now k) timeout).Valid → r.mQueue (k + 1) = r.mQueue k

end Conditional

end Mcc
