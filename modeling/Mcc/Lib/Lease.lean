import Mathlib
import Mcc.Lib.Transition

/-!
# `Lib.Lease` — an exclusive resource held on a lease, with preemption by priority

One resource, claimants from a linear order, one holder at a time. A claim is granted when the holder does
not outrank the claimant or when the lease has run out; a grant starts a lease of `d` time units. A claim
that is not granted, and anything else that happens, leaves the lease alone.

**The law** (`Run.guarded`, `Guarded.refuses`): while `now ≤ T`, a lease held by a claimant of rank at least
`u` until at least `T` stays so whatever is claimed, and every claimant below `u` is refused.
-/

namespace Arbitration

open Transition

variable {P : Type} [LinearOrder P]

/-- Who holds the resource, and until when (inclusive). -/
structure Lease (P : Type) where
  holder : P
  expiry : Int

/-- A claim: who, the clock when the lease is tested, and the clock when a new lease starts. -/
structure Claim (P : Type) where
  claimant : P
  test : Int
  start : Int

def Lease.Expired (l : Lease P) (now : Int) : Prop := l.expiry < now

/-- The claim may be granted. -/
def Lease.Open (l : Lease P) (c : Claim P) : Prop := l.holder ≤ c.claimant ∨ l.Expired c.test

/-- One event: nothing happens to the lease, or an open claim is granted for `d`. -/
inductive Step (d : Int) : Lease P → Claim P → Lease P → Prop where
  | keep {l c} : Step d l c l
  | grant {l c} : l.Open c → Step d l c ⟨c.claimant, c.start + d⟩

/-- `l` is held by a claimant of rank at least `u` until at least `T`. -/
structure Guarded (u : P) (T : Int) (l : Lease P) : Prop where
  rank : u ≤ l.holder
  lasts : T ≤ l.expiry

/-- The clock of a claim lies between the start of a lease of `d` running to `T` and its end. -/
def Claim.During (d T : Int) (c : Claim P) : Prop := c.test ≤ T ∧ T ≤ c.start + d

/-- **A lower claimant is refused** while the lease lasts. -/
theorem Guarded.refuses {u : P} {T : Int} {l : Lease P} {c : Claim P} (h : Guarded u T l)
    (hc : c.test ≤ T) (hlt : c.claimant < u) : ¬ l.Open c := by
  rintro (hle | hexp)
  · exact absurd (lt_of_lt_of_le hlt (le_trans h.rank hle)) (lt_irrefl _)
  · have hlasts := h.lasts
    unfold Lease.Expired at hexp
    omega

/-- **One event keeps the lease guarded.** -/
theorem Guarded.step {d T : Int} {u : P} {l l' : Lease P} {c : Claim P} (h : Guarded u T l)
    (hc : c.During d T) (hstep : Step d l c l') : Guarded u T l' := by
  cases hstep with
  | keep => exact h
  | grant hopen =>
    refine ⟨?_, hc.2⟩
    by_contra hlt
    exact h.refuses hc.1 (not_le.mp hlt) hopen

/-- **A whole run keeps it guarded**, whatever is claimed meanwhile. -/
theorem Guarded.run {d T : Int} {u : P} {l l' : Lease P} {cs : List (Claim P)} (h : Guarded u T l)
    (hrun : Run (Step d) l cs l') (hcs : ∀ c ∈ cs, c.During d T) : Guarded u T l' :=
  hrun.invariant_of (G := Claim.During d T) (fun _ _ _ hi hc hst => hi.step hc hst) hcs h

/-- A grant guards the lease for its claimant until its end. -/
theorem guarded_grant {d : Int} (c : Claim P) : Guarded c.claimant (c.start + d) ⟨c.claimant, c.start + d⟩ :=
  ⟨le_refl _, Int.le_refl _⟩

end Arbitration
