import Mcc.Correctness.Trunk

/-!
# `Correctness.TrunkSearch` — what `checkTrunk` decides

`checkTrunk` makes four passes over the trunks, each behind the one before it: the purge, the search for the
camera, the search for a trunk without users, and the search for the trunk whose least user is greatest.
`TrunkDecision` states what it is for, without reference to the passes: which trunk may be taken by which
rule. The last section proves that the code always takes the one this admits.

## Contents
- **First positions.** `IsFirst`, and the two searches by a test.
- **The greatest top.** A strict comparison keeps the first of the maxima.
- **The decision.** `TrunkDecision`, its uniqueness, and the main theorem.
-/

namespace Mcc

open PriorityQueue

namespace ResourceManager

/-! ## First positions -/

section First

variable {α : Type} {l : List α} {P : α → Prop} {i j : ℕ}

/-- Position `i` is the first one whose element is as `P` says. -/
structure IsFirst (l : List α) (P : α → Prop) (i : ℕ) : Prop where
  holds : ∃ a, l[i]? = some a ∧ P a
  first : ∀ j a, l[j]? = some a → P a → i ≤ j

theorem IsFirst.unique (hi : IsFirst l P i) (hj : IsFirst l P j) : i = j := by
  obtain ⟨a, ha, hPa⟩ := hi.holds
  obtain ⟨b, hb, hPb⟩ := hj.holds
  exact le_antisymm (hi.first j b hb hPb) (hj.first i a ha hPa)

/-- There is no first where there is none. -/
theorem IsFirst.exists (h : IsFirst l P i) : ∃ a ∈ l, P a := by
  obtain ⟨a, ha, hPa⟩ := h.holds
  exact ⟨a, List.mem_of_getElem? ha, hPa⟩

theorem isFirst_of_findIdx? {p : α → Bool} (hp : ∀ a, p a = true ↔ P a) (h : l.findIdx? p = some i) :
    IsFirst l P i := by
  obtain ⟨a, ha, hpa, hfirst⟩ := getElem?_of_findIdx? h
  exact ⟨⟨a, ha, (hp a).mp hpa⟩, fun j b hb hPb => hfirst j b hb ((hp b).mpr hPb)⟩

theorem none_of_findIdx? {p : α → Bool} (hp : ∀ a, p a = true ↔ P a) (h : l.findIdx? p = none) :
    ∀ a ∈ l, ¬ P a := by
  intro a ha hPa
  have hfalse := List.findIdx?_eq_none_iff.mp h a ha
  rw [(hp a).mpr hPa] at hfalse
  cases hfalse

end First

variable {Q : Type} [PriorityQueue Q User]

/-! ## The greatest top -/

/-- The trunk has users, and no trunk of the list has a greater `top()`. -/
def HasMaxTop (ts : List (Trunk Q)) (t : Trunk Q) : Prop :=
  ∃ u, t.top = some u ∧ ∀ t' ∈ ts, ∀ u', t'.top = some u' → u'.mId ≤ u.mId

/-- **The loop keeps the first of the maxima**: the best so far, where no later top is greater, or else a
    later position all tops before which are smaller. -/
theorem maxTopFrom_first :
    ∀ {ts : List (Trunk Q)} {i : ℕ} {best r : ℕ × User}, maxTopFrom ts i best = .ok r →
      r = best ∨ ∃ k, r.1 = i + k ∧ best.2.mId < r.2.mId ∧
        ∀ j t u, ts[j]? = some t → t.top = some u → j < k → u.mId < r.2.mId := by
  intro ts
  induction ts with
  | nil =>
    intro i best r h
    cases h
    exact Or.inl rfl
  | cons t ts ih =>
    intro i best r h
    unfold maxTopFrom at h
    cases htop : t.top with
    | none =>
      simp only [htop] at h
      cases h
    | some u =>
      simp only [htop] at h
      by_cases hlt : best.2.mId < u.mId
      · -- this trunk is the best so far
        rw [if_pos hlt] at h
        rcases ih h with rfl | ⟨k, hk, hgt, hbefore⟩
        · exact Or.inr ⟨0, rfl, hlt, fun j t' u' _ _ hj => absurd hj (Nat.not_lt_zero j)⟩
        · refine Or.inr ⟨k + 1, by omega, hlt.trans hgt, ?_⟩
          intro j t' u' ht' hu' hj
          cases j with
          | zero =>
            cases ht'
            rw [htop] at hu'
            cases hu'
            exact hgt
          | succ j => exact hbefore j t' u' ht' hu' (by omega)
      · rw [if_neg hlt] at h
        rcases ih h with rfl | ⟨k, hk, hgt, hbefore⟩
        · exact Or.inl rfl
        · refine Or.inr ⟨k + 1, by omega, hgt, ?_⟩
          intro j t' u' ht' hu' hj
          cases j with
          | zero =>
            cases ht'
            rw [htop] at hu'
            cases hu'
            exact lt_of_le_of_lt (not_lt.mp hlt) hgt
          | succ j => exact hbefore j t' u' ht' hu' (by omega)

/-- The search yields the first trunk with the greatest top, and that top. -/
theorem maxTop_isFirst {ts : List (Trunk Q)} {r : ℕ × User} (h : maxTop ts = .ok r) :
    IsFirst ts (HasMaxTop ts) r.1 ∧ ∃ t, ts[r.1]? = some t ∧ t.top = some r.2 := by
  obtain ⟨⟨t, ht, htop⟩, hall⟩ := maxTop_spec h
  refine ⟨⟨⟨t, ht, r.2, htop, hall⟩, ?_⟩, t, ht, htop⟩
  intro j t' ht' hmax
  obtain ⟨u', htop', hall'⟩ := hmax
  have hge : r.2.mId ≤ u'.mId := hall' t (List.mem_of_getElem? ht) r.2 htop
  unfold maxTop at h
  cases ts with
  | nil => cases h
  | cons t₀ ts =>
    cases htop₀ : t₀.top with
    | none =>
      simp only [htop₀] at h
      cases h
    | some u₀ =>
      simp only [htop₀] at h
      rcases maxTopFrom_first h with rfl | ⟨k, hk, -, hbefore⟩
      · exact Nat.zero_le j
      · by_contra hlt
        exact absurd (hbefore j t' u' ht' htop' (by omega)) (not_lt.mpr hge)

/-! ## The decision -/

/-- Rule 1: the trunk already carries the camera. -/
def OnCamera (cid : GlobalID) (t : Trunk Q) : Prop := t.mCameraId = cid

/-- Rule 2: nobody is queued on the trunk. -/
def IsFree (t : Trunk Q) : Prop := t.empty = true

/-- A trunk the user gets by no rule: busy with another camera, and with a user that does not rank behind. -/
def Refuses (user cid : GlobalID) (t : Trunk Q) : Prop :=
  ¬ OnCamera cid t ∧ ∃ u ∈ t.mUsers, u.mId ≤ user

/-- **What `checkTrunk` is to decide** about purged trunks. -/
inductive TrunkDecision (ts : List (Trunk Q)) (user cid : GlobalID) : Option ℕ → Prop where
  | carrying {i} : IsFirst ts (OnCamera cid) i → TrunkDecision ts user cid (some i)
  | free {i} : (∀ t ∈ ts, ¬ OnCamera cid t) → IsFirst ts IsFree i → TrunkDecision ts user cid (some i)
  /-- Rule 3: the trunk's least user is the greatest of the trunks' least users, and the user is before it -/
  | preempted {i t u} : (∀ t ∈ ts, ¬ OnCamera cid t) → (∀ t ∈ ts, ¬ IsFree t) → IsFirst ts (HasMaxTop ts) i →
      ts[i]? = some t → t.top = some u → user < u.mId → TrunkDecision ts user cid (some i)
  | refused : (∀ t ∈ ts, Refuses user cid t) → TrunkDecision ts user cid none

theorem not_isFree_iff {t : Trunk Q} : ¬ IsFree t ↔ t.empty = false := by
  unfold IsFree
  rw [Bool.not_eq_true]

/-- A trunk refuses exactly while it is busy with another camera and its top does not rank behind. -/
theorem refuses_iff {user cid : GlobalID} {t : Trunk Q} :
    Refuses user cid t ↔ ¬ OnCamera cid t ∧ ¬ IsFree t ∧ ∀ u, t.top = some u → u.mId ≤ user := by
  constructor
  · rintro ⟨hother, v, hv, hle⟩
    refine ⟨hother, not_isFree_iff.mpr (Trunk.nonempty_iff.mpr ⟨v, hv⟩), ?_⟩
    intro u hu
    exact le_trans (Trunk.top_le hu hv) hle
  · rintro ⟨hother, hbusy, htop⟩
    obtain ⟨u, hu⟩ := Trunk.exists_top (not_isFree_iff.mp hbusy)
    exact ⟨hother, u, top_mem hu, htop u hu⟩

/-- Where a trunk is taken by rule 3, not every trunk refuses. -/
theorem not_all_refuse {ts : List (Trunk Q)} {user cid : GlobalID} {i : ℕ} {t : Trunk Q} {u : User}
    (ht : ts[i]? = some t) (htop : t.top = some u) (hlt : user < u.mId) :
    ¬ ∀ t ∈ ts, Refuses user cid t := by
  intro hall
  obtain ⟨-, -, hle⟩ := refuses_iff.mp (hall t (List.mem_of_getElem? ht))
  exact absurd (hle u htop) (not_le.mpr hlt)

/-- **One decision is admitted**, the rules being tried in their order. -/
theorem TrunkDecision.unique {ts : List (Trunk Q)} {user cid : GlobalID} {r r' : Option ℕ}
    (h : TrunkDecision ts user cid r) (h' : TrunkDecision ts user cid r') : r = r' := by
  cases h with
  | carrying hi =>
    obtain ⟨t, ht, hc⟩ := hi.exists
    cases h' with
    | carrying hj => rw [hi.unique hj]
    | free hother => exact absurd hc (hother t ht)
    | preempted hother => exact absurd hc (hother t ht)
    | refused hall => exact absurd hc (hall t ht).1
  | free hother hi =>
    obtain ⟨t, ht, hfree⟩ := hi.exists
    cases h' with
    | carrying hj =>
      obtain ⟨t', ht', hc⟩ := hj.exists
      exact absurd hc (hother t' ht')
    | free _ hj => rw [hi.unique hj]
    | preempted _ hbusy => exact absurd hfree (hbusy t ht)
    | refused hall => exact absurd hfree (refuses_iff.mp (hall t ht)).2.1
  | preempted hother hbusy hi ht htop hlt =>
    cases h' with
    | carrying hj =>
      obtain ⟨t', ht', hc⟩ := hj.exists
      exact absurd hc (hother t' ht')
    | free _ hj =>
      obtain ⟨t', ht', hfree⟩ := hj.exists
      exact absurd hfree (hbusy t' ht')
    | preempted _ _ hj => rw [hi.unique hj]
    | refused hall => exact absurd hall (not_all_refuse ht htop hlt)
  | refused hall =>
    cases h' with
    | carrying hj =>
      obtain ⟨t', ht', hc⟩ := hj.exists
      exact absurd hc (hall t' ht').1
    | free _ hj =>
      obtain ⟨t', ht', hfree⟩ := hj.exists
      exact absurd hfree (refuses_iff.mp (hall t' ht')).2.1
    | preempted _ _ _ ht htop hlt => exact absurd hall (not_all_refuse ht htop hlt)
    | refused => rfl

/-- **The searches decide as stated.** -/
theorem findTrunk_decision {ts : List (Trunk Q)} {user cid : GlobalID} {r : Option ℕ}
    (h : findTrunk ts user cid = .ok r) : TrunkDecision ts user cid r := by
  have hcarries : ∀ t : Trunk Q, decide (t.mCameraId = cid) = true ↔ OnCamera cid t := fun t =>
    decide_eq_true_iff
  have hfree : ∀ t : Trunk Q, t.empty = true ↔ IsFree t := fun _ => Iff.rfl
  unfold findTrunk at h
  cases hcid : ts.findIdx? (fun t => decide (t.mCameraId = cid)) with
  | some i =>
    rw [hcid] at h
    cases h
    exact .carrying (isFirst_of_findIdx? hcarries hcid)
  | none =>
    rw [hcid] at h
    have hother := none_of_findIdx? hcarries hcid
    cases hempty : ts.findIdx? (fun t => t.empty) with
    | some i =>
      rw [hempty] at h
      cases h
      exact .free hother (isFirst_of_findIdx? hfree hempty)
    | none =>
      rw [hempty] at h
      have hbusy := none_of_findIdx? hfree hempty
      obtain ⟨⟨i, u⟩, hmax, h⟩ := bind_eq_ok h
      obtain ⟨hfirst, t, ht, htop⟩ := maxTop_isFirst hmax
      simp only [pure, Except.pure] at h
      by_cases hgt : u.mId > user
      · rw [if_pos hgt] at h
        cases h
        exact .preempted hother hbusy hfirst ht htop hgt
      · rw [if_neg hgt] at h
        cases h
        refine .refused fun t' ht' => refuses_iff.mpr ⟨hother t' ht', hbusy t' ht', ?_⟩
        intro u' hu'
        exact le_trans ((maxTop_spec hmax).2 t' ht' u' hu') (not_lt.mp hgt)

/-- **`checkTrunk` decides exactly as designed.** On any trunks, as long as there is one, it ends without
    taking the top of an empty queue; it changes nothing beyond the purge; its answer is the one decision the
    rules admit, no trunk exactly if all refuse; and a trunk taken from its users by rule 3 holds only users
    behind the requester. -/
theorem checkTrunk_exact (env : Env) (s : ResourceManager Q) (user cid : GlobalID) (hne : s.mTrunks ≠ []) :
    ∃ r, s.checkTrunk env user cid = .ok (r, s.purged env) ∧
      (∀ r', TrunkDecision (purgeTrunks env s.mTrunks) user cid r' ↔ r' = r) ∧
      (r = none ↔ ∀ t ∈ purgeTrunks env s.mTrunks, Refuses user cid t) ∧
      ((∀ t ∈ purgeTrunks env s.mTrunks, ¬ OnCamera cid t ∧ ¬ IsFree t) →
        ∀ i t, r = some i → (purgeTrunks env s.mTrunks)[i]? = some t → ∀ u ∈ t.mUsers, user < u.mId) := by
  have hne' : purgeTrunks env s.mTrunks ≠ [] := by
    unfold purgeTrunks
    rwa [Ne, List.mapIdx_eq_nil_iff]
  obtain ⟨r, hr⟩ := findTrunk_ok hne' user cid
  have hdec := findTrunk_decision hr
  refine ⟨r, ?_, ?_, ?_, ?_⟩
  · unfold checkTrunk
    simp only [hr]
    rfl
  · intro r'
    constructor
    · exact fun h' => h'.unique hdec
    · rintro rfl
      exact hdec
  · constructor
    · rintro rfl
      cases hdec with
      | refused hall => exact hall
    · intro hall
      exact hdec.unique (.refused hall)
  · rintro hbusy i t rfl ht u hu
    have hmem := List.mem_of_getElem? ht
    cases hdec with
    | carrying hi =>
      obtain ⟨t', ht', hc⟩ := hi.exists
      exact absurd hc (hbusy t' ht').1
    | free _ hi =>
      obtain ⟨t', ht', hfree⟩ := hi.exists
      exact absurd hfree (hbusy t' ht').2
    | preempted _ _ _ ht' htop hlt =>
      rw [ht] at ht'
      cases ht'
      exact lt_of_lt_of_le hlt (Trunk.top_le htop hu)

/-- Two trunks with users of ids 3 and 7: a user of id 5 gets the second one. -/
theorem checkTrunk_exact_two :
    ∃ s : ResourceManager (List User),
      (s.mTrunks.map fun t => t.mUsers.map fun u => u.mId.lid) = [[3], [7]] ∧
      TrunkDecision (purgeTrunks (Env.at 0) s.mTrunks) ⟨2, 5⟩ ⟨1, 6⟩ (some 1) := by
  let start : ResourceManager (List User) := configured 0 1 1 [4] [1] [(1, 2)]
  let s : ResourceManager (List User) := { start with
    mTrunks := [⟨1, 1, ⟨1, 4⟩, [⟨⟨2, 3⟩, .keyboard, 20, 50⟩]⟩, ⟨2, 2, ⟨1, 5⟩, [⟨⟨2, 7⟩, .keyboard, 20, 50⟩]⟩] }
  obtain ⟨r, hr, hdec, -⟩ := checkTrunk_exact (Env.at 0) s ⟨2, 5⟩ ⟨1, 6⟩ (List.cons_ne_nil _ _)
  have hone : s.checkTrunk (Env.at 0) ⟨2, 5⟩ ⟨1, 6⟩ = .ok (some 1, s.purged (Env.at 0)) := rfl
  rw [hone] at hr
  have heq : some 1 = r := congrArg Prod.fst (Except.ok.inj hr)
  exact ⟨s, rfl, (hdec (some 1)).mpr heq⟩

end ResourceManager

end Mcc
