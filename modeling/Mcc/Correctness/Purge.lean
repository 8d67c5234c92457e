import Mcc.Correctness.Trunk

/-!
# `Correctness.Purge` — when a purge removes every expired user

`checkTrunk` purges the trunks "to remove the users that have timed out". `updateUsers` looks at the top of
the queue only, and the queue is ordered by user, not by expiry: a purge stops at the first user it may keep.

## Contents
- **The thesis.** `PurgeExact now t`: what has not expired stays, and nothing else.
- **The condition.** The queue hands out the expired users first (`purge_exact_iff`), so none of them ranks above one
  that has not expired (`PurgeExact.le`).
-/

namespace Mcc

namespace Trunk

open PriorityQueue

variable {Q : Type} [PriorityQueue Q User]

/-- **An exact purge**, the clock standing at `now`: the users left are those of before that have not expired,
    and a trunk that carried a camera carries none exactly if nobody is left. -/
structure PurgeExact (now : Int) (t : Trunk Q) : Prop where
  users : contents (t.updateUsers fun _ => now).mUsers =
    (contents t.mUsers).filter fun u => u.isExpired now = false
  camera : t.mCameraId ≠ GlobalID.nullID →
    ((t.updateUsers fun _ => now).mCameraId = GlobalID.nullID ↔
      contents (t.updateUsers fun _ => now).mUsers = 0)

/-- The second half holds of every trunk. -/
theorem updateUsers_nullID_iff {t : Trunk Q} (hc : t.mCameraId ≠ GlobalID.nullID) (now : ℕ → Int) :
    (t.updateUsers now).mCameraId = GlobalID.nullID ↔ contents (t.updateUsers now).mUsers = 0 := by
  constructor
  · intro hnull
    by_contra hne
    have hbusy : (t.updateUsers now).empty = false := by
      obtain ⟨u, hu⟩ := Multiset.exists_mem_of_ne_zero hne
      exact nonempty_iff.mpr ⟨u, hu⟩
    rw [updateUsers_busy hbusy] at hnull
    exact hc hnull
  · intro hzero
    apply updateUsers_idle
    apply empty_iff.mpr
    intro u hu
    rw [mem_iff, hzero] at hu
    exact Multiset.notMem_zero u hu

/-- **When a purge is exact.** The queue hands out no expired user after one that has not expired. -/
theorem purge_exact_iff (t : Trunk Q) (now : Int) :
    PurgeExact now t ↔
      (drain t.mUsers).Pairwise fun u v => v.isExpired now = true → u.isExpired now = true := by
  have hqueue : contents (t.updateUsers fun _ => now).mUsers =
      contents (popWhile (fun _ (u : User) => u.isExpired now) t.mUsers) := by
    rw [updateUsers_mUsers]
  have hkept : (contents t.mUsers).filter (fun u => (!u.isExpired now) = true) =
      (contents t.mUsers).filter (fun u => u.isExpired now = false) := by simp
  rw [← contents_popWhile_iff (p := fun u : User => u.isExpired now), ← hqueue, hkept]
  exact ⟨fun h => h.users, fun h => ⟨h, fun hc => updateUsers_nullID_iff hc _⟩⟩

/-- A purge is exact only where no expired user ranks above one that has not expired. -/
theorem PurgeExact.le {t : Trunk Q} {now : Int} (h : PurgeExact now t) {u v : User} (hu : u ∈ t.mUsers)
    (hv : v ∈ t.mUsers) (hexp : u.isExpired now = true) (hlive : v.isExpired now = false) : u.mId ≤ v.mId :=
  not_lt.mp (not_lt_of_pairwise_drain ((purge_exact_iff t now).mp h) hu hv hexp hlive)

/-- The lease of the second user has run out, that of the first has not. -/
theorem purge_inexact_behind_live :
    ¬ PurgeExact 100 (⟨1, 2, ⟨1, 4⟩, [⟨⟨1, 1⟩, .keyboard, 20, 120⟩, ⟨⟨1, 2⟩, .keyboard, 20, 90⟩]⟩ :
      Trunk (List User)) := by
  intro h
  have hle := h.le (u := ⟨⟨1, 2⟩, .keyboard, 20, 90⟩) (v := ⟨⟨1, 1⟩, .keyboard, 20, 120⟩)
    (by simp [mem_iff, contents]) (by simp [mem_iff, contents]) (by decide) (by decide)
  revert hle
  decide

end Trunk

end Mcc
