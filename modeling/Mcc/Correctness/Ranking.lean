import Mcc.Correctness.Ptz
import Mcc.Correctness.Trunk

/-!
# `Correctness.Ranking` — who comes before whom

A camera in use is yielded to the greater id (`processLocalPtz`), a trunk in use to the smaller one
(`checkTrunk`, whose queue has the smallest id on top). Each rule is exact for the contested resource, so of
two users with different ids each may take one kind of resource from the other, and never both.
-/

namespace Mcc

open PriorityQueue

/-! ## A camera in use -/

/-- User `v` occupies the PTZ of the camera, and has not expired at any reading of the call. -/
structure Occupied (env : Env) (cam : Camera) (v : GlobalID) : Prop where
  occupant : cam.mPtzUser.mId = v
  lock : cam.mPtzUser.isExpired env.lock = false
  test : cam.mPtzUser.isExpired env.test = false

/-- **PTZ: the greater id.** A lock code 2 does not ask for an unlocked camera. -/
theorem Occupied.accepts_iff {env : Env} {cam : Camera} {u v : GlobalID} {optcode lockcode : Int}
    (h : Occupied env cam v) (hcode : cam.mIsPtzLocked = true ∨ lockcode ≠ 2) :
    (processLocalPtz env cam u optcode lockcode).1 = .accept ↔ v ≤ u := by
  have hyields : (cam.mPtzUser.mId ≤ u ∨ cam.mPtzUser.isExpired env.test = true) ↔ v ≤ u := by
    rw [h.occupant, h.test]
    simp
  unfold processLocalPtz
  rw [unlockIfExpired_of_not_expired h.lock]
  by_cases hlocked : cam.mIsPtzLocked = true
  · simp only [hlocked, if_true, hyields]
    by_cases hle : v ≤ u
    · simp [hle]
    · simp [hle]
  · have h2 : lockcode ≠ 2 := hcode.resolve_left hlocked
    simp only [if_neg hlocked, if_neg h2]
    by_cases h1 : lockcode = 1
    · simp only [if_pos h1, h.occupant]
      by_cases hle : v ≤ u
      · simp [hle]
      · simp [hle]
    · simp only [if_neg h1, hyields]
      by_cases hle : v ≤ u
      · simp [hle]
      · simp [hle]

/-! ## A trunk in use -/

namespace ResourceManager

variable {Q : Type} [PriorityQueue Q User]

/-- The trunk has users, all of them `v`. -/
def HeldBy (v : GlobalID) (t : Trunk Q) : Prop := t.empty = false ∧ ∀ w ∈ t.mUsers, w.mId = v

/-- After the purge no trunk is free or carries the camera, and only a trunk that `v` alone uses comes into
    question: every other one has a user that comes before `v`. -/
structure Contested (env : Env) (s : ResourceManager Q) (cid v : GlobalID) : Prop where
  carried : ∀ t ∈ purgeTrunks env s.mTrunks, t.mCameraId ≠ cid
  used : ∀ t ∈ purgeTrunks env s.mTrunks, t.empty = false
  held : ∃ t ∈ purgeTrunks env s.mTrunks, HeldBy v t
  others : ∀ t ∈ purgeTrunks env s.mTrunks, HeldBy v t ∨ ∃ w ∈ t.mUsers, w.mId < v

/-- `checkTrunk` grants the user a trunk that `v` alone uses. -/
def Takes (env : Env) (s : ResourceManager Q) (u v cid : GlobalID) : Prop :=
  ∃ i s' t, s.checkTrunk env u cid = .ok (some i, s') ∧ s'.mTrunks[i]? = some t ∧ HeldBy v t

theorem HeldBy.top {v : GlobalID} {t : Trunk Q} {u : User} (h : HeldBy v t) (htop : t.top = some u) :
    u.mId = v := h.2 u (top_mem htop)

/-- **Trunks: the smaller id.** -/
theorem Contested.takes_iff {env : Env} {s : ResourceManager Q} {u v cid : GlobalID}
    (h : Contested env s cid v) : Takes env s u v cid ↔ u < v := by
  have hcheck : ∀ r, findTrunk (purgeTrunks env s.mTrunks) u cid = .ok r →
      s.checkTrunk env u cid = .ok (r, { s with mTrunks := purgeTrunks env s.mTrunks }) := by
    intro r hr
    unfold checkTrunk
    simp only [hr]
    rfl
  obtain ⟨t₀, ht₀, hheld⟩ := h.held
  obtain ⟨u₀, htop₀⟩ := Trunk.exists_top hheld.1
  have hv : u₀.mId = v := hheld.top htop₀
  obtain ⟨r, hr⟩ := findTrunk_ok (List.ne_nil_of_mem ht₀) u cid
  constructor
  · rintro ⟨i, s', t, hok, ht, hby⟩
    rw [hcheck r hr] at hok
    cases hok
    cases findTrunk_choice hr with
    | carrying hi hcid => exact absurd hcid (h.carried _ (List.mem_of_getElem? hi))
    | free _ hi hempty =>
      have hused := h.used _ (List.mem_of_getElem? hi)
      rw [hempty] at hused
      cases hused
    | preempted _ _ hi htop hlt =>
      have hsame : _ = t := Option.some.inj (hi.symm.trans ht)
      subst hsame
      rw [← hby.top htop]
      exact hlt
  · intro hlt
    cases findTrunk_choice hr with
    | carrying hi hcid => exact absurd hcid (h.carried _ (List.mem_of_getElem? hi))
    | free _ hi hempty =>
      have hused := h.used _ (List.mem_of_getElem? hi)
      rw [hempty] at hused
      cases hused
    | @preempted i t w _ _ hi htop _ hmax =>
      have hle : v ≤ w.mId := hv ▸ hmax t₀ ht₀ u₀ htop₀
      refine ⟨i, _, t, hcheck _ hr, hi, ?_⟩
      -- a trunk with a user before `v` would not have the greatest top
      rcases h.others t (List.mem_of_getElem? hi) with hby | ⟨x, hx, hxv⟩
      · exact hby
      · exact absurd (lt_of_le_of_lt (Trunk.top_le htop hx) hxv) (not_lt.mpr hle)
    | none _ _ hmax =>
      have hle : v ≤ u := hv ▸ hmax t₀ ht₀ u₀ htop₀
      exact absurd hlt (not_lt.mpr hle)

end ResourceManager

/-! ## The two rules together -/

open ResourceManager in
/-- **Opposite orders.** Of two users with different ids the greater may take a camera from the smaller, the
    smaller may take a trunk from the greater; so no two users are ranked the same way. -/
theorem orders_opposite {Q : Type} [PriorityQueue Q User] {env env' : Env} {cam : Camera}
    {s : ResourceManager Q} {u v cid : GlobalID} {optcode lockcode : Int} (hne : u ≠ v)
    (hcam : Occupied env cam v) (hcode : cam.mIsPtzLocked = true ∨ lockcode ≠ 2)
    (htrunk : Contested env' s cid v) :
    ¬ ((processLocalPtz env cam u optcode lockcode).1 = .accept ↔ Takes env' s u v cid) ∧
      ((processLocalPtz env cam u optcode lockcode).1 = .accept ↔ v < u) ∧
      (Takes env' s u v cid ↔ u < v) := by
  have hptz : (processLocalPtz env cam u optcode lockcode).1 = .accept ↔ v < u :=
    (hcam.accepts_iff hcode).trans (Ne.le_iff_lt hne.symm)
  have htakes : Takes env' s u v cid ↔ u < v := htrunk.takes_iff
  refine ⟨?_, hptz, htakes⟩
  rw [hptz, htakes]
  intro hsame
  rcases lt_or_gt_of_ne hne with hlt | hlt
  · exact lt_asymm hlt (hsame.mpr hlt)
  · exact lt_asymm hlt (hsame.mp hlt)

/-- A camera that user (9, 4) occupies until 120, and a manager whose trunk it uses until then. -/
def contestedCamera : Camera := ⟨4, ⟨⟨9, 4⟩, .keyboard, 20, 120⟩, false⟩

def contestedManager : ResourceManager (List User) :=
  { (ResourceManager.configured 0 1 1 [4, 5] [1] [(1, 2)] : ResourceManager (List User)) with
    mTrunks := [⟨1, 2, ⟨1, 4⟩, [⟨⟨9, 4⟩, .keyboard, 20, 120⟩]⟩] }

open ResourceManager in
theorem orders_opposite_at_110 :
    ¬ ((processLocalPtz (Env.at 110) contestedCamera ⟨9, 5⟩ 1 0).1 = .accept ↔
        Takes (Env.at 110) contestedManager ⟨9, 5⟩ ⟨9, 4⟩ ⟨1, 5⟩) := by
  have hpurge : purgeTrunks (Env.at 110) contestedManager.mTrunks = contestedManager.mTrunks := rfl
  have hheld : HeldBy ⟨9, 4⟩ (⟨1, 2, ⟨1, 4⟩, [⟨⟨9, 4⟩, .keyboard, 20, 120⟩]⟩ : Trunk (List User)) := by
    refine ⟨rfl, ?_⟩
    intro w hw
    rw [List.mem_singleton.mp hw]
  have hcontested : Contested (Env.at 110) contestedManager ⟨1, 5⟩ ⟨9, 4⟩ := by
    constructor
    · intro t ht
      rw [hpurge] at ht
      rw [List.mem_singleton.mp ht]
      decide
    · intro t ht
      rw [hpurge] at ht
      rw [List.mem_singleton.mp ht]
      rfl
    · exact ⟨_, List.mem_singleton.mpr rfl, hheld⟩
    · intro t ht
      rw [hpurge] at ht
      rw [List.mem_singleton.mp ht]
      exact Or.inl hheld
  exact (orders_opposite (by decide) ⟨rfl, rfl, rfl⟩ (Or.inr (by decide)) hcontested).1

/-- **User (9, 5) may take the camera from (9, 4) and not the trunk**; with (9, 3) it is the other way. -/
theorem ptz_and_trunk_disagree :
    ((processLocalPtz (Env.at 110) contestedCamera ⟨9, 5⟩ 1 0).1 = .accept ∧
      (contestedManager.checkTrunk (Env.at 110) ⟨9, 5⟩ ⟨1, 5⟩).map Prod.fst = .ok none) ∧
    ((processLocalPtz (Env.at 110) contestedCamera ⟨9, 3⟩ 1 0).1 = .reject ∧
      (contestedManager.checkTrunk (Env.at 110) ⟨9, 3⟩ ⟨1, 5⟩).map Prod.fst = .ok (some 0)) :=
  ⟨⟨rfl, rfl⟩, rfl, rfl⟩

end Mcc
