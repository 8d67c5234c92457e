import Mcc.Lib.Lease
import Mcc.Model.Resource

/-!
# `Correctness.Ptz` — who may move a camera

One camera under any sequence of `processLocalPtz` calls, from local keyboards and from the parent alike.
The camera's `mPtzUser` is a lease in the sense of `Lib.Lease`: `ptz_simulates` matches every call by one
event of the abstract arbiter, and exclusion (`ptz_exclusion`) is the abstract law read back.

Release is where the code and its comments part. `releasePtz` compares instead of assigning, so an unlocked
camera keeps its last occupant, and the lock branch never asks whether that occupant has expired.
`ptz_release` says exactly which users a free camera accepts.
-/

namespace Mcc

open Transition Arbitration

/-- One call of `processLocalPtz` on the camera. -/
structure PtzCall where
  env : Env
  userId : GlobalID
  optcode : Int
  lockcode : Int

/-- The camera's steps, labelled with the call and its result. -/
def PtzStep (cam : Camera) (l : PtzCall × ProcessResult) (cam' : Camera) : Prop :=
  processLocalPtz l.1.env cam l.1.userId l.1.optcode l.1.lockcode = (l.2, cam')

instance (cam : Camera) (l : PtzCall × ProcessResult) (cam' : Camera) : Decidable (PtzStep cam l cam') :=
  inferInstanceAs (Decidable (_ = _))

namespace Camera

/-! ## Field lemmas -/

@[simp] theorem acquirePtz_mId (cam : Camera) (u : GlobalID) (now : Int) :
    (cam.acquirePtz u now).mPtzUser.mId = u := rfl

@[simp] theorem acquirePtz_mExpireTime (cam : Camera) (u : GlobalID) (now : Int) :
    (cam.acquirePtz u now).mPtzUser.mExpireTime = now + cam.mPtzUser.mExpire := rfl

@[simp] theorem acquirePtz_locked (cam : Camera) (u : GlobalID) (now : Int) :
    (cam.acquirePtz u now).mIsPtzLocked = cam.mIsPtzLocked := rfl

@[simp] theorem lockPtz_locked (cam : Camera) (u : GlobalID) (now : Int) :
    (cam.lockPtz u now).mIsPtzLocked = true := rfl

end Camera

@[simp] theorem unlockIfExpired_user (env : Env) (cam : Camera) :
    (unlockIfExpired env cam).mPtzUser = cam.mPtzUser := by
  unfold unlockIfExpired
  split
  · rfl
  · rfl

/-- A lock that has not run out at the head of the call stays. -/
theorem unlockIfExpired_of_not_expired {env : Env} {cam : Camera}
    (h : cam.mPtzUser.isExpired env.lock = false) : unlockIfExpired env cam = cam := by
  unfold unlockIfExpired
  rw [if_neg]
  rintro ⟨-, hexp⟩
  rw [h] at hexp
  cases hexp

/-- A lock that has run out is gone. -/
theorem unlockIfExpired_of_expired {env : Env} {cam : Camera}
    (h : cam.mPtzUser.isExpired env.lock = true) : (unlockIfExpired env cam).mIsPtzLocked = false := by
  unfold unlockIfExpired
  by_cases hl : cam.mIsPtzLocked = true
  · rw [if_pos ⟨hl, h⟩]
    rfl
  · rw [if_neg (fun hc => hl hc.1)]
    simpa using hl

/-! ## What one call can do -/

/-- The occupant does not stand in the user's way at the test of the call. -/
def Yields (env : Env) (cam : Camera) (u : GlobalID) : Prop :=
  cam.mPtzUser.mId ≤ u ∨ cam.mPtzUser.isExpired env.test = true

instance (env : Env) (cam : Camera) (u : GlobalID) : Decidable (Yields env cam u) :=
  inferInstanceAs (Decidable (_ ∨ _))

/-- The outcomes of `processLocalPtz`, for the camera as the head of the function leaves it. -/
inductive PtzOutcome (env : Env) (u : GlobalID) (lockcode : Int) (cam : Camera) :
    ProcessResult → Camera → Prop where
  /-- refused, nothing changes -/
  | refused : PtzOutcome env u lockcode cam .reject cam
  /-- operated under a lock that stays as it is -/
  | operated : cam.mIsPtzLocked = true → Yields env cam u → lockcode ≠ 1 → lockcode ≠ 2 →
      PtzOutcome env u lockcode cam .accept cam
  /-- a lock is released -/
  | unlocked : cam.mIsPtzLocked = true → Yields env cam u → lockcode = 2 →
      PtzOutcome env u lockcode cam .accept cam.unlockPtz
  /-- locked, by an unlocked camera's new occupant or over the lock in force -/
  | locked : lockcode = 1 → Yields env cam u →
      PtzOutcome env u lockcode cam .accept (cam.lockPtz u env.update)
  /-- occupied without a lock -/
  | acquired : cam.mIsPtzLocked = false → lockcode ≠ 1 → lockcode ≠ 2 → Yields env cam u →
      PtzOutcome env u lockcode cam .accept (cam.acquirePtz u env.update)

/-- **Every call has one of these outcomes.** -/
theorem processLocalPtz_outcome (env : Env) (cam : Camera) (u : GlobalID) (optcode lockcode : Int) :
    PtzOutcome env u lockcode (unlockIfExpired env cam)
      (processLocalPtz env cam u optcode lockcode).1 (processLocalPtz env cam u optcode lockcode).2 := by
  unfold processLocalPtz
  generalize unlockIfExpired env cam = cam
  by_cases hl : cam.mIsPtzLocked = true
  · simp only [hl, if_true]
    by_cases hy : cam.mPtzUser.mId ≤ u ∨ cam.mPtzUser.isExpired env.test = true
    · simp only [if_pos hy]
      by_cases h1 : lockcode = 1
      · rw [if_pos h1]
        exact .locked h1 hy
      · by_cases h2 : lockcode = 2
        · rw [if_neg h1, if_pos h2]
          exact .unlocked hl hy h2
        · rw [if_neg h1, if_neg h2]
          exact .operated hl hy h1 h2
    · simp only [if_neg hy]
      exact .refused
  · have hf : cam.mIsPtzLocked = false := by simpa using hl
    simp only [hf, Bool.false_eq_true, if_false]
    by_cases h1 : lockcode = 1
    · simp only [if_pos h1]
      by_cases hle : cam.mPtzUser.mId ≤ u
      · rw [if_pos hle]
        exact .locked h1 (Or.inl hle)
      · rw [if_neg hle]
        exact .refused
    · by_cases h2 : lockcode = 2
      · simp only [if_neg h1, if_pos h2]
        exact .refused
      · simp only [if_neg h1, if_neg h2]
        by_cases hy : cam.mPtzUser.mId ≤ u ∨ cam.mPtzUser.isExpired env.test = true
        · rw [if_pos hy]
          exact .acquired hf h1 h2 hy
        · rw [if_neg hy]
          exact .refused

/-- Every step of the camera has one of these outcomes. -/
theorem PtzStep.outcome {cam cam' : Camera} {l : PtzCall × ProcessResult} (h : PtzStep cam l cam') :
    PtzOutcome l.1.env l.1.userId l.1.lockcode (unlockIfExpired l.1.env cam) l.2 cam' := by
  have hout := processLocalPtz_outcome l.1.env cam l.1.userId l.1.optcode l.1.lockcode
  unfold PtzStep at h
  rw [h] at hout
  exact hout

/-! ## The camera as a lease -/

/-- The camera's occupation, seen as a lease. -/
def Camera.lease (cam : Camera) : Lease GlobalID := ⟨cam.mPtzUser.mId, cam.mPtzUser.mExpireTime⟩

/-- A call, seen as a claim. -/
def PtzCall.claim (c : PtzCall) : Claim GlobalID := ⟨c.userId, c.env.test, c.env.update⟩

/-- A camera whose occupant is granted `DEFAULT_EXPIRE`, and its lease. -/
def LeaseOf (cam : Camera) (l : Lease GlobalID) : Prop :=
  l = cam.lease ∧ cam.mPtzUser.mExpire = defaultExpire

theorem leaseOf_new (id junk : Int) : LeaseOf (Camera.new id junk) (Camera.new id junk).lease :=
  ⟨rfl, rfl⟩

/-- An occupation by `u` is a grant of the abstract arbiter. -/
theorem grant_of_yields {env : Env} {cam : Camera} {u : GlobalID} (hy : Yields env cam u)
    (hexp : cam.mPtzUser.mExpire = defaultExpire) :
    Arbitration.Step defaultExpire cam.lease ⟨u, env.test, env.update⟩
      (cam.acquirePtz u env.update).lease := by
  have hgrant : (cam.acquirePtz u env.update).lease = ⟨u, env.update + defaultExpire⟩ := by
    unfold Camera.lease
    rw [Camera.acquirePtz_mId, Camera.acquirePtz_mExpireTime, hexp]
  rw [hgrant]
  apply Arbitration.Step.grant (c := ⟨u, env.test, env.update⟩)
  rcases hy with hle | hx
  · exact Or.inl hle
  · exact Or.inr (User.isExpired_iff.mp hx)

/-- **The camera refines the abstract arbiter**, call by call. -/
theorem ptz_simulates (cam : Camera) (l : PtzCall × ProcessResult) (cam' : Camera) (a : Lease GlobalID)
    (hR : LeaseOf cam a) (hstep : PtzStep cam l cam') :
    ∃ a', Arbitration.Step defaultExpire a (PtzCall.claim l.1) a' ∧ LeaseOf cam' a' := by
  obtain ⟨rfl, hexp⟩ := hR
  obtain ⟨c, r⟩ := l
  -- the head of the call changes the lock flag only, never the lease
  have hlease : (unlockIfExpired c.env cam).lease = cam.lease := by
    unfold Camera.lease
    rw [unlockIfExpired_user]
  have hexp' : (unlockIfExpired c.env cam).mPtzUser.mExpire = defaultExpire := by
    rw [unlockIfExpired_user]
    exact hexp
  rw [← hlease]
  cases hstep.outcome with
  | refused => exact ⟨_, .keep, rfl, hexp'⟩
  | operated => exact ⟨_, .keep, rfl, hexp'⟩
  | unlocked => exact ⟨_, .keep, rfl, hexp'⟩
  | locked _ hy => exact ⟨_, grant_of_yields hy hexp', rfl, hexp'⟩
  | acquired _ _ _ hy => exact ⟨_, grant_of_yields hy hexp', rfl, hexp'⟩

/-! ## Exclusion -/

/-- The call made its user the occupant, through `acquirePtz` or `lockPtz`. -/
def MadeOccupant (c : PtzCall) (cam' : Camera) : Prop :=
  ∃ cam : Camera, cam' = cam.acquirePtz c.userId c.env.update ∨ cam' = cam.lockPtz c.userId c.env.update

/-- Whoever is made the occupant holds the camera for `DEFAULT_EXPIRE`. -/
theorem MadeOccupant.guarded {c : PtzCall} {cam' : Camera} (h : MadeOccupant c cam')
    (hexp : cam'.mPtzUser.mExpire = defaultExpire) :
    Guarded c.userId (c.env.update + defaultExpire) cam'.lease := by
  obtain ⟨cam, rfl | rfl⟩ := h
  · refine ⟨le_refl _, ?_⟩
    show c.env.update + defaultExpire ≤ c.env.update + cam.mPtzUser.mExpire
    rw [← hexp]
    exact le_refl _
  · refine ⟨le_refl _, ?_⟩
    show c.env.update + defaultExpire ≤ c.env.update + cam.mPtzUser.mExpire
    rw [← hexp]
    exact le_refl _

/-- A call below a guarded occupant is refused and leaves the camera as it is. -/
theorem refused_of_guarded {cam : Camera} {c : PtzCall} {u : GlobalID} {T : Int}
    (hg : Guarded u T cam.lease) (hlock : c.env.lock ≤ T) (htest : c.env.test ≤ T)
    (hlt : c.userId < u) :
    processLocalPtz c.env cam c.userId c.optcode c.lockcode = (.reject, cam) := by
  have hlasts : T ≤ cam.mPtzUser.mExpireTime := hg.lasts
  have hhead : unlockIfExpired c.env cam = cam :=
    unlockIfExpired_of_not_expired (User.isExpired_eq_false_iff.mpr (le_trans hlock hlasts))
  have hno : ¬ Yields c.env cam c.userId := by
    intro hy
    apply hg.refuses (c := c.claim) htest hlt
    rcases hy with hle | hx
    · exact Or.inl hle
    · exact Or.inr (User.isExpired_iff.mp hx)
  have hout := processLocalPtz_outcome c.env cam c.userId c.optcode c.lockcode
  rw [hhead] at hout
  generalize hres : processLocalPtz c.env cam c.userId c.optcode c.lockcode = res at hout
  obtain ⟨r, cam'⟩ := res
  cases hout with
  | refused => rfl
  | operated _ hy => exact absurd hy hno
  | unlocked _ hy => exact absurd hy hno
  | locked _ hy => exact absurd hy hno
  | acquired _ _ _ hy => exact absurd hy hno

/-- **PTZ exclusion.** On any camera, after any calls: once a call at time `t` has made `u` the occupant, and
    whatever calls follow, a call by a lower user that is handled no later than `t + 20` is rejected and
    changes nothing. (Unlocking in between does not help the lower user: it keeps the occupant.) -/
theorem ptz_exclusion {id junk : Int} {cam₁ cam₂ : Camera} {pre mid : List (PtzCall × ProcessResult)}
    {c late : PtzCall} {r : ProcessResult}
    (hpre : Run PtzStep (Camera.new id junk) (pre ++ [(c, r)]) cam₁) (hocc : MadeOccupant c cam₁)
    (hmid : Run PtzStep cam₁ mid cam₂)
    (hclock : Env.Chronological (c.env :: mid.map (fun l => l.1.env) ++ [late.env]))
    (hlate : late.env.test ≤ c.env.update + 20) (hlt : late.userId < c.userId) :
    processLocalPtz late.env cam₂ late.userId late.optcode late.lockcode = (.reject, cam₂) := by
  obtain ⟨_, -, -, hexp⟩ := hpre.simulate (fun l => PtzCall.claim l.1) ptz_simulates
    (leaseOf_new id junk)
  have hg : Guarded c.userId (c.env.update + defaultExpire) cam₁.lease := hocc.guarded hexp
  obtain ⟨_, hrun, rfl, -⟩ := hmid.simulate (fun l => PtzCall.claim l.1) ptz_simulates
    (t := cam₁.lease) ⟨rfl, hexp⟩
  have hlate' : late.env.Ordered := hclock.ordered _ (by simp)
  -- every call in between is clocked between the grant and the late call
  have hduring : ∀ a ∈ mid.map (fun l => PtzCall.claim l.1),
      a.During defaultExpire (c.env.update + defaultExpire) := by
    intro a ha
    obtain ⟨l, hl, rfl⟩ := List.mem_map.mp ha
    exact hclock.meanwhile hlate (List.mem_map_of_mem (f := fun l => l.1.env) hl)
  exact refused_of_guarded (hg.run hrun hduring) (le_trans hlate'.lock_test hlate) hlate hlt

/-- User 5 locks the camera at time 100, user 7 takes it at 105, and user 4 is refused at 110. -/
theorem ptz_exclusion_at_110 :
    processLocalPtz (Env.at 110) ⟨1, ⟨⟨0, 7⟩, .keyboard, 20, 125⟩, true⟩ ⟨0, 4⟩ 3 0 =
      (.reject, ⟨1, ⟨⟨0, 7⟩, .keyboard, 20, 125⟩, true⟩) := by
  let first : PtzCall := ⟨Env.at 100, ⟨0, 5⟩, 3, 1⟩
  let second : PtzCall := ⟨Env.at 105, ⟨0, 7⟩, 3, 1⟩
  let late : PtzCall := ⟨Env.at 110, ⟨0, 4⟩, 3, 0⟩
  let locked : Camera := ⟨1, ⟨⟨0, 5⟩, .keyboard, 20, 120⟩, true⟩
  have hpre : Run PtzStep (Camera.new 1 0) ([] ++ [(first, .accept)]) locked := .single (by decide)
  have hmid : Run PtzStep locked [(second, .accept)] ⟨1, ⟨⟨0, 7⟩, .keyboard, 20, 125⟩, true⟩ :=
    .single (by decide)
  have hclock : Env.Chronological (first.env :: [second.env] ++ [late.env]) :=
    Env.chronological_at [100, 105, 110] (by decide)
  exact @ptz_exclusion 1 0 _ _ _ _ _ late _ hpre ⟨Camera.new 1 0, Or.inr (by decide)⟩ hmid hclock
    (by decide) (by decide)

/-! ## Release -/

/-- The last accepted call of the sequence was an unlock. -/
def LastAcceptedUnlock (ls : List (PtzCall × ProcessResult)) : Prop :=
  ∃ pre c post, ls = pre ++ (c, .accept) :: post ∧ c.lockcode = 2 ∧ ∀ l ∈ post, l.2 ≠ .accept

/-- The first reading of the clock a call makes. -/
def Camera.firstReading (cam : Camera) (env : Env) : Int := if cam.mIsPtzLocked then env.lock else env.test

/-- The PTZ is free for the call: it was unlocked last, or its occupant has expired. -/
def PtzFree (ls : List (PtzCall × ProcessResult)) (cam : Camera) (env : Env) : Prop :=
  LastAcceptedUnlock ls ∨ cam.mPtzUser.isExpired (cam.firstReading env) = true

/-- The call is accepted and makes its user the occupant, with the lock it asked for. -/
def TakesOver (cam : Camera) (c : PtzCall) : Prop :=
  (processLocalPtz c.env cam c.userId c.optcode c.lockcode).1 = .accept ∧
  (processLocalPtz c.env cam c.userId c.optcode c.lockcode).2.mPtzUser.mId = c.userId ∧
  ((processLocalPtz c.env cam c.userId c.optcode c.lockcode).2.mIsPtzLocked = true ↔ c.lockcode = 1)

/-- An accepted unlock leaves the camera unlocked. -/
theorem PtzStep.unlocks {cam cam' : Camera} {c : PtzCall} (h : PtzStep cam (c, .accept) cam')
    (h2 : c.lockcode = 2) : cam'.mIsPtzLocked = false := by
  cases h.outcome with
  | operated _ _ _ hne => exact absurd h2 hne
  | unlocked => rfl
  | locked h1 => exact absurd (h1.symm.trans h2) (by decide)
  | acquired _ _ hne => exact absurd h2 hne

/-- A refused call locks nothing. -/
theorem PtzStep.stays_unlocked {cam cam' : Camera} {l : PtzCall × ProcessResult} (h : PtzStep cam l cam')
    (hl : l.2 ≠ .accept) (hcam : cam.mIsPtzLocked = false) : cam'.mIsPtzLocked = false := by
  have hhead : unlockIfExpired l.1.env cam = cam := by
    unfold unlockIfExpired
    rw [if_neg]
    rintro ⟨hlock, -⟩
    rw [hcam] at hlock
    cases hlock
  have hout := h.outcome
  rw [hhead] at hout
  obtain ⟨c, r⟩ := l
  cases hout with
  | refused => exact hcam
  | operated => exact absurd rfl hl
  | unlocked => rfl
  | locked => exact absurd rfl hl
  | acquired => exact absurd rfl hl

/-- **After an unlock** and refused calls the camera is unlocked. -/
theorem LastAcceptedUnlock.unlocked {cam cam' : Camera} {ls : List (PtzCall × ProcessResult)}
    (h : LastAcceptedUnlock ls) (hrun : Run PtzStep cam ls cam') : cam'.mIsPtzLocked = false := by
  obtain ⟨pre, c, post, rfl, h2, hpost⟩ := h
  obtain ⟨cam₁, -, hrun⟩ := hrun.split
  cases hrun with
  | cons hstep hrun =>
    exact hrun.invariant_of (I := fun k => k.mIsPtzLocked = false) (G := fun l => l.2 ≠ .accept)
      (fun _ _ _ hi hG hst => hst.stays_unlocked hG hi) hpost (hstep.unlocks h2)

/-- A free camera comes out of the head of the call unlocked. -/
theorem PtzFree.head_unlocked {cam₀ cam : Camera} {ls : List (PtzCall × ProcessResult)} {env : Env}
    (hfree : PtzFree ls cam env) (hrun : Run PtzStep cam₀ ls cam) :
    (unlockIfExpired env cam).mIsPtzLocked = false := by
  by_cases hl : cam.mIsPtzLocked = true
  · rcases hfree with hlast | hexp
    · rw [hlast.unlocked hrun] at hl
      cases hl
    · unfold Camera.firstReading at hexp
      rw [if_pos hl] at hexp
      exact unlockIfExpired_of_expired hexp
  · unfold unlockIfExpired
    rw [if_neg (fun hc => hl hc.1)]
    simpa using hl

/-- What an unlocked camera answers to a lock: the rank of the last occupant decides, expired or not. -/
theorem processLocalPtz_lock {env : Env} {cam : Camera} {u : GlobalID} {optcode : Int}
    (hl : (unlockIfExpired env cam).mIsPtzLocked = false) :
    processLocalPtz env cam u optcode 1 =
      if cam.mPtzUser.mId ≤ u then (.accept, (unlockIfExpired env cam).lockPtz u env.update)
      else (.reject, unlockIfExpired env cam) := by
  unfold processLocalPtz
  simp only [hl, Bool.false_eq_true, if_false, if_true, unlockIfExpired_user]

/-- What an unlocked camera answers to an operation. -/
theorem processLocalPtz_operate {env : Env} {cam : Camera} {u : GlobalID} {optcode : Int}
    (hl : (unlockIfExpired env cam).mIsPtzLocked = false) :
    processLocalPtz env cam u optcode 0 =
      if Yields env cam u then (.accept, (unlockIfExpired env cam).acquirePtz u env.update)
      else (.reject, unlockIfExpired env cam) := by
  unfold processLocalPtz Yields
  simp only [hl, Bool.false_eq_true, if_false, unlockIfExpired_user, show ¬ ((0 : Int) = 1) by decide,
    show ¬ ((0 : Int) = 2) by decide]
  rfl

/-- **PTZ release, as it is.** After any calls, a free camera is taken over by the next caller exactly when
    the former occupant does not outrank the caller, or the call is a plain operation and the former
    occupant has expired. So an unlock frees the camera for higher users only, and a lock is refused to a
    lower user however long ago the occupant expired. -/
theorem ptz_release {id junk : Int} {cam : Camera} {ls : List (PtzCall × ProcessResult)} {c : PtzCall}
    (hrun : Run PtzStep (Camera.new id junk) ls cam) (hfree : PtzFree ls cam c.env)
    (hcode : c.lockcode = 0 ∨ c.lockcode = 1) :
    TakesOver cam c ↔ cam.mPtzUser.mId ≤ c.userId ∨
      (c.lockcode = 0 ∧ cam.mPtzUser.isExpired c.env.test = true) := by
  have hhead := hfree.head_unlocked hrun
  unfold TakesOver
  rcases hcode with h0 | h1
  · rw [h0, processLocalPtz_operate hhead]
    by_cases hy : Yields c.env cam c.userId
    · rw [if_pos hy]
      exact ⟨fun _ => hy.imp (fun hle => hle) (fun hx => ⟨rfl, hx⟩), fun _ => ⟨rfl, rfl, by simp [Camera.acquirePtz_locked, hhead]⟩⟩
    · rw [if_neg hy]
      refine ⟨fun h => (nomatch h.1), ?_⟩
      rintro (hle | ⟨-, hx⟩)
      · exact absurd (Or.inl hle) hy
      · exact absurd (Or.inr hx) hy
  · rw [h1, processLocalPtz_lock hhead]
    by_cases hle : cam.mPtzUser.mId ≤ c.userId
    · rw [if_pos hle]
      exact ⟨fun _ => Or.inl hle, fun _ => ⟨rfl, rfl, by simp [Camera.lockPtz_locked]⟩⟩
    · rw [if_neg hle]
      refine ⟨fun h => (nomatch h.1), ?_⟩
      rintro (h | ⟨h, -⟩)
      · exact absurd h hle
      · exact absurd h (by decide)

/-- User 5 locks a new camera at 100 and unlocks it at 105. -/
theorem ptz_unlocked_at_105 : Run PtzStep (Camera.new 1 0)
    [(⟨Env.at 100, ⟨0, 5⟩, 3, 1⟩, .accept), (⟨Env.at 105, ⟨0, 5⟩, 3, 2⟩, .accept)]
    ⟨1, ⟨⟨0, 5⟩, .keyboard, 20, 120⟩, false⟩ := by
  have hlock : PtzStep (Camera.new 1 0) (⟨Env.at 100, ⟨0, 5⟩, 3, 1⟩, .accept)
      ⟨1, ⟨⟨0, 5⟩, .keyboard, 20, 120⟩, true⟩ := by decide
  have hunlock : PtzStep ⟨1, ⟨⟨0, 5⟩, .keyboard, 20, 120⟩, true⟩ (⟨Env.at 105, ⟨0, 5⟩, 3, 2⟩, .accept)
      ⟨1, ⟨⟨0, 5⟩, .keyboard, 20, 120⟩, false⟩ := by decide
  exact .cons hlock (.single hunlock)

/-- User 5 locks at 100 and unlocks at 105; at 110 the camera takes user 6. -/
theorem ptz_release_to_higher :
    TakesOver ⟨1, ⟨⟨0, 5⟩, .keyboard, 20, 120⟩, false⟩ ⟨Env.at 110, ⟨0, 6⟩, 3, 0⟩ :=
  (ptz_release ptz_unlocked_at_105
    (Or.inl ⟨[(⟨Env.at 100, ⟨0, 5⟩, 3, 1⟩, .accept)], ⟨Env.at 105, ⟨0, 5⟩, 3, 2⟩, [], rfl, rfl, by simp⟩)
    (Or.inl rfl)).mpr (Or.inl (by decide))

/-- **A free camera does not take everyone.** User 5 locks at 100 and unlocks at 105, and at 110 the free
    camera refuses user 4; and with the lock run out at 121, user 4 may not lock it either. -/
theorem ptz_release_refuses_lower :
    ¬ (∀ (id junk : Int) (cam : Camera) (ls : List (PtzCall × ProcessResult)) (c : PtzCall),
        Run PtzStep (Camera.new id junk) ls cam → PtzFree ls cam c.env → c.lockcode = 0 → TakesOver cam c) ∧
    ¬ (∀ (id junk : Int) (cam : Camera) (ls : List (PtzCall × ProcessResult)) (c : PtzCall),
        Run PtzStep (Camera.new id junk) ls cam → PtzFree ls cam c.env → c.lockcode = 1 → TakesOver cam c) := by
  have hlock : PtzStep (Camera.new 1 0) (⟨Env.at 100, ⟨0, 5⟩, 3, 1⟩, .accept)
      ⟨1, ⟨⟨0, 5⟩, .keyboard, 20, 120⟩, true⟩ := by decide
  constructor
  · intro h
    have htake := h 1 0 _ _ ⟨Env.at 110, ⟨0, 4⟩, 3, 0⟩ ptz_unlocked_at_105
      (Or.inl ⟨[_], _, [], rfl, rfl, by simp⟩) rfl
    exact absurd htake.1 (by decide)
  · intro h
    have htake := h 1 0 _ _ ⟨Env.at 121, ⟨0, 4⟩, 3, 1⟩ (.single hlock) (Or.inr (by decide)) rfl
    exact absurd htake.1 (by decide)

end Mcc
