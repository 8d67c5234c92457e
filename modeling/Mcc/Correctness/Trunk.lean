import Mcc.Correctness.Steps

/-!
# `Correctness.Trunk` — what a trunk carries

The parent's requests share the trunks. `checkTrunk` purges them and searches three times: a trunk that
carries the camera, a trunk without users, the trunk whose first user ranks last. `findTrunk_choice` says
once what each search proves about the trunk it finds; the invariant of the trunks (`TrunksOk`) follows from
it, and with it the run theorem `trunk_invariant`.

## Contents
- **One trunk.** `updateUsers` and `push`, by what they keep.
- **The search.** `TrunkChoice`.
- **The invariant.** A trunk carries a camera exactly while it has users; no camera is carried twice.
-/

namespace Mcc

open Transition PriorityQueue

variable {Q : Type} [PriorityQueue Q User]

/-! ## One trunk -/

namespace Trunk

theorem empty_iff {t : Trunk Q} : t.empty = true ↔ ∀ u : User, u ∉ t.mUsers := by
  unfold empty
  rw [Option.isNone_iff_eq_none]
  exact top_eq_none_iff

theorem nonempty_iff {t : Trunk Q} : t.empty = false ↔ ∃ u : User, u ∈ t.mUsers := by
  rw [← Bool.not_eq_true, empty_iff]
  push Not
  rfl

theorem exists_top {t : Trunk Q} (h : t.empty = false) : ∃ u, t.top = some u := by
  obtain ⟨u, hu⟩ := nonempty_iff.mp h
  exact exists_top_of_mem hu

/-- The first user is the least. -/
theorem top_le {t : Trunk Q} {u v : User} (h : t.top = some u) (hv : v ∈ t.mUsers) : u.mId ≤ v.mId := by
  have hlt : ¬ v < u := not_lt_top h hv
  exact not_lt.mp hlt

/-- `updateUsers` decides by the queue it leaves whether the trunk still carries anything. -/
theorem updateUsers_mUsers (t : Trunk Q) (now : ℕ → Int) :
    (t.updateUsers now).mUsers = popWhile (fun j (u : User) => u.isExpired (now j)) t.mUsers := by
  unfold updateUsers
  simp only
  split <;> rfl

theorem updateUsers_idle {t : Trunk Q} {now : ℕ → Int} (h : (t.updateUsers now).empty = true) :
    (t.updateUsers now).mCameraId = GlobalID.nullID := by
  unfold updateUsers at h ⊢
  simp only at h ⊢
  by_cases he : empty { t with mUsers := popWhile (fun j (u : User) => u.isExpired (now j)) t.mUsers } = true
  · rw [if_pos he]
  · rw [if_neg he] at h
    exact absurd h he

theorem updateUsers_busy {t : Trunk Q} {now : ℕ → Int} (h : (t.updateUsers now).empty = false) :
    (t.updateUsers now).mCameraId = t.mCameraId := by
  unfold updateUsers at h ⊢
  simp only at h ⊢
  by_cases he : empty { t with mUsers := popWhile (fun j (u : User) => u.isExpired (now j)) t.mUsers } = true
  · rw [if_pos he] at h
    exact absurd he (Bool.not_eq_true _ ▸ h)
  · rw [if_neg he]

@[simp] theorem updateUsers_mOutport (t : Trunk Q) (now : ℕ → Int) :
    (t.updateUsers now).mOutport = t.mOutport := by
  unfold updateUsers
  simp only
  split <;> rfl

@[simp] theorem updateUsers_mId (t : Trunk Q) (now : ℕ → Int) : (t.updateUsers now).mId = t.mId := by
  unfold updateUsers
  simp only
  split <;> rfl

@[simp] theorem push_mId (t : Trunk Q) (user : User) : (t.push user).mId = t.mId := rfl

@[simp] theorem push_mOutport (t : Trunk Q) (user : User) : (t.push user).mOutport = t.mOutport := rfl

/-- Purging queues nobody. -/
theorem mem_of_mem_updateUsers {t : Trunk Q} {now : ℕ → Int} {u : User}
    (h : u ∈ (t.updateUsers now).mUsers) : u ∈ t.mUsers := by
  rw [updateUsers_mUsers] at h
  exact mem_of_mem_popWhile h

/-- Purging keeps a user that has not expired. -/
theorem mem_updateUsers {t : Trunk Q} {now : ℕ → Int} {u : User} (hu : ∀ j, u.isExpired (now j) = false)
    (h : u ∈ t.mUsers) : u ∈ (t.updateUsers now).mUsers := by
  rw [updateUsers_mUsers]
  exact mem_popWhile hu h

/-- What is on top of a purged trunk had not expired when it was looked at. -/
theorem top_updateUsers {t : Trunk Q} {now : ℕ → Int} {u : User} (h : (t.updateUsers now).top = some u) :
    ∃ j, u.isExpired (now j) = false := by
  unfold top at h
  rw [updateUsers_mUsers] at h
  exact top_popWhile h

theorem nonempty_of_updateUsers {t : Trunk Q} {now : ℕ → Int} (h : (t.updateUsers now).empty = false) :
    t.empty = false := by
  obtain ⟨u, hu⟩ := nonempty_iff.mp h
  exact nonempty_iff.mpr ⟨u, mem_of_mem_updateUsers hu⟩

/-- A trunk granted to a user for a camera. -/
def grant (t : Trunk Q) (user : User) (cid : GlobalID) : Trunk Q := { t.push user with mCameraId := cid }

@[simp] theorem grant_mCameraId (t : Trunk Q) (user : User) (cid : GlobalID) :
    (t.grant user cid).mCameraId = cid := rfl

theorem mem_grant {t : Trunk Q} {user u : User} {cid : GlobalID} :
    u ∈ (t.grant user cid).mUsers ↔ u = user ∨ u ∈ t.mUsers := mem_push

theorem grant_nonempty (t : Trunk Q) (user : User) (cid : GlobalID) : (t.grant user cid).empty = false :=
  nonempty_iff.mpr ⟨user, mem_grant.mpr (Or.inl rfl)⟩

end Trunk

namespace ResourceManager

theorem getElem?_purgeTrunks (env : Env) (ts : List (Trunk Q)) (i : ℕ) :
    (purgeTrunks env ts)[i]? = ts[i]?.map (fun t => t.updateUsers (env.purge i)) := by
  unfold purgeTrunks
  rw [List.getElem?_mapIdx]

/-- A purged trunk is some trunk, purged. -/
theorem of_getElem?_purgeTrunks {env : Env} {ts : List (Trunk Q)} {i : ℕ} {t : Trunk Q}
    (h : (purgeTrunks env ts)[i]? = some t) : ∃ t₀, ts[i]? = some t₀ ∧ t = t₀.updateUsers (env.purge i) := by
  rw [getElem?_purgeTrunks] at h
  obtain ⟨t₀, ht₀, rfl⟩ := Option.map_eq_some_iff.mp h
  exact ⟨t₀, ht₀, rfl⟩

/-! ## The search -/

/-- The loop over the tops finds the greatest, and the trunk it is on. -/
theorem maxTopFrom_spec :
    ∀ {ts : List (Trunk Q)} {i : ℕ} {best r : ℕ × User}, maxTopFrom ts i best = .ok r →
      (r = best ∨ ∃ k t, ts[k]? = some t ∧ t.top = some r.2 ∧ r.1 = i + k) ∧
      best.2.mId ≤ r.2.mId ∧ ∀ t ∈ ts, ∀ u, t.top = some u → u.mId ≤ r.2.mId := by
  intro ts
  induction ts with
  | nil =>
    intro i best r h
    cases h
    exact ⟨Or.inl rfl, le_refl _, fun t ht => absurd ht List.not_mem_nil⟩
  | cons t ts ih =>
    intro i best r h
    unfold maxTopFrom at h
    cases htop : t.top with
    | none =>
      simp only [htop] at h
      cases h
    | some u =>
      simp only [htop] at h
      obtain ⟨hfrom, hle, hall⟩ := ih h
      -- the comparison left the greater of the two in the accumulator
      have hboth : best.2.mId ≤ r.2.mId ∧ u.mId ≤ r.2.mId := by
        by_cases hlt : best.2.mId < u.mId
        · rw [if_pos hlt] at hle
          exact ⟨le_trans hlt.le hle, hle⟩
        · rw [if_neg hlt] at hle
          exact ⟨hle, le_trans (not_lt.mp hlt) hle⟩
      refine ⟨?_, hboth.1, ?_⟩
      · rcases hfrom with hr | ⟨k, t', ht', htop', hk⟩
        · by_cases hlt : best.2.mId < u.mId
          · rw [if_pos hlt] at hr
            right
            exact ⟨0, t, rfl, by rw [hr]; exact htop, by rw [hr]; rfl⟩
          · rw [if_neg hlt] at hr
            exact Or.inl hr
        · right
          exact ⟨k + 1, t', ht', htop', by omega⟩
      · intro t' ht' u' hu'
        rcases List.mem_cons.mp ht' with rfl | hmem
        · rw [htop] at hu'
          cases hu'
          exact hboth.2
        · exact hall t' hmem u' hu'

theorem maxTop_spec {ts : List (Trunk Q)} {r : ℕ × User} (h : maxTop ts = .ok r) :
    (∃ t, ts[r.1]? = some t ∧ t.top = some r.2) ∧ ∀ t ∈ ts, ∀ u, t.top = some u → u.mId ≤ r.2.mId := by
  unfold maxTop at h
  cases ts with
  | nil => cases h
  | cons t ts =>
    cases htop : t.top with
    | none =>
      simp only [htop] at h
      cases h
    | some u =>
      simp only [htop] at h
      obtain ⟨hfrom, -, hall⟩ := maxTopFrom_spec h
      refine ⟨?_, hall⟩
      rcases hfrom with rfl | ⟨k, t', ht', htop', hk⟩
      · exact ⟨t, rfl, htop⟩
      · exact ⟨t', by rw [hk, Nat.zero_add]; exact ht', htop'⟩

/-- What the three searches of `checkTrunk` prove about their result. -/
inductive TrunkChoice (ts : List (Trunk Q)) (user cid : GlobalID) : Option ℕ → Prop where
  /-- the first trunk that carries the camera -/
  | carrying {i t} : ts[i]? = some t → t.mCameraId = cid →
      (∀ j t', ts[j]? = some t' → t'.mCameraId = cid → i ≤ j) → TrunkChoice ts user cid (some i)
  /-- the first trunk without users -/
  | free {i t} : (∀ t' ∈ ts, t'.mCameraId ≠ cid) → ts[i]? = some t → t.empty = true →
      (∀ j t', ts[j]? = some t' → t'.empty = true → i ≤ j) → TrunkChoice ts user cid (some i)
  /-- the trunk whose first user comes last; the request's user comes before it -/
  | preempted {i t u} : (∀ t' ∈ ts, t'.mCameraId ≠ cid) → (∀ t' ∈ ts, t'.empty = false) →
      ts[i]? = some t → t.top = some u → user < u.mId →
      (∀ t' ∈ ts, ∀ u', t'.top = some u' → u'.mId ≤ u.mId) → TrunkChoice ts user cid (some i)
  | none : (∀ t' ∈ ts, t'.mCameraId ≠ cid) → (∀ t' ∈ ts, t'.empty = false) →
      (∀ t' ∈ ts, ∀ u', t'.top = some u' → u'.mId ≤ user) → TrunkChoice ts user cid none

theorem getElem?_of_findIdx? {α : Type} {p : α → Bool} {l : List α} {i : ℕ} (h : l.findIdx? p = some i) :
    ∃ a, l[i]? = some a ∧ p a = true ∧ ∀ j b, l[j]? = some b → p b = true → i ≤ j := by
  obtain ⟨hi, hp, hbefore⟩ := List.findIdx?_eq_some_iff_getElem.mp h
  refine ⟨l[i], List.getElem?_eq_getElem hi, hp, ?_⟩
  intro j b hj hb
  by_contra hlt
  obtain ⟨hj', rfl⟩ := List.getElem?_eq_some_iff.mp hj
  exact hbefore j (not_le.mp hlt) hb

/-- **The search, search by search.** -/
theorem findTrunk_choice {ts : List (Trunk Q)} {user cid : GlobalID} {r : Option ℕ}
    (h : findTrunk ts user cid = .ok r) : TrunkChoice ts user cid r := by
  unfold findTrunk at h
  cases hcid : ts.findIdx? (fun t => decide (t.mCameraId = cid)) with
  | some i =>
    rw [hcid] at h
    cases h
    obtain ⟨t, ht, hp, hfirst⟩ := getElem?_of_findIdx? hcid
    exact .carrying ht (of_decide_eq_true hp) (fun j t' hj hc => hfirst j t' hj (decide_eq_true hc))
  | none =>
    rw [hcid] at h
    have hother : ∀ t' ∈ ts, t'.mCameraId ≠ cid := fun t' ht' =>
      of_decide_eq_false (List.findIdx?_eq_none_iff.mp hcid t' ht')
    cases hfree : ts.findIdx? (fun t => t.empty) with
    | some i =>
      rw [hfree] at h
      cases h
      obtain ⟨t, ht, hp, hfirst⟩ := getElem?_of_findIdx? hfree
      exact .free hother ht hp hfirst
    | none =>
      rw [hfree] at h
      have hbusy : ∀ t' ∈ ts, t'.empty = false := List.findIdx?_eq_none_iff.mp hfree
      obtain ⟨⟨i, u⟩, hmax, h⟩ := bind_eq_ok h
      obtain ⟨⟨t, ht, htop⟩, hall⟩ := maxTop_spec hmax
      simp only [pure, Except.pure] at h
      by_cases hgt : u.mId > user
      · rw [if_pos hgt] at h
        cases h
        exact .preempted hother hbusy ht htop hgt hall
      · rw [if_neg hgt] at h
        cases h
        refine .none hother hbusy ?_
        intro t' ht' u' hu'
        exact le_trans (hall t' ht' u' hu') (not_lt.mp hgt)

theorem maxTopFrom_ok :
    ∀ {ts : List (Trunk Q)}, (∀ t ∈ ts, t.empty = false) → ∀ i best, ∃ r, maxTopFrom ts i best = .ok r := by
  intro ts
  induction ts with
  | nil => exact fun _ i best => ⟨best, rfl⟩
  | cons t ts ih =>
    intro hbusy i best
    obtain ⟨u, hu⟩ := Trunk.exists_top (hbusy t List.mem_cons_self)
    unfold maxTopFrom
    simp only [hu]
    exact ih (fun t' ht' => hbusy t' (List.mem_cons_of_mem _ ht')) _ _

/-- **The search ends without a fault** on any trunks, as long as there is one. -/
theorem findTrunk_ok {ts : List (Trunk Q)} (hne : ts ≠ []) (user cid : GlobalID) :
    ∃ r, findTrunk ts user cid = .ok r := by
  unfold findTrunk
  cases hcid : ts.findIdx? (fun t => decide (t.mCameraId = cid)) with
  | some i => exact ⟨some i, rfl⟩
  | none =>
    cases hfree : ts.findIdx? (fun t => t.empty) with
    | some i => exact ⟨some i, rfl⟩
    | none =>
      have hbusy : ∀ t ∈ ts, t.empty = false := List.findIdx?_eq_none_iff.mp hfree
      cases ts with
      | nil => exact absurd rfl hne
      | cons t ts =>
        obtain ⟨u, hu⟩ := Trunk.exists_top (hbusy t List.mem_cons_self)
        obtain ⟨r, hr⟩ := maxTopFrom_ok hbusy 0 (0, u)
        have hmax : maxTop (t :: ts) = .ok r := by
          unfold maxTop
          simp only [hu]
          exact hr
        simp only [hmax]
        exact ⟨_, rfl⟩

/-- The trunk found exists. -/
theorem TrunkChoice.getElem? {ts : List (Trunk Q)} {user cid : GlobalID} {i : ℕ}
    (h : TrunkChoice ts user cid (some i)) : ∃ t, ts[i]? = some t := by
  cases h with
  | carrying ht => exact ⟨_, ht⟩
  | free _ ht => exact ⟨_, ht⟩
  | preempted _ _ ht => exact ⟨_, ht⟩

/-- **A `SWITCH` faults on a repeated id only**, where there are trunks. -/
theorem onClientRxSwitch_ok (env : Env) {s : ResourceManager Q} {request : AgentRequest}
    (hne : s.mTrunks ≠ []) (hid : request.mTo ≠ s.mMatrixId → request.mId ∉ s.mProcessContexts) :
    ∃ s' out, s.onClientRxSwitch env request = .ok (s', out) := by
  have hne' : purgeTrunks env s.mTrunks ≠ [] := by
    unfold purgeTrunks
    rwa [Ne, List.mapIdx_eq_nil_iff]
  obtain ⟨r, hr⟩ := findTrunk_ok hne' request.user request.camera
  have hend := onClientRxSwitch_end env s request
  cases hx : s.onClientRxSwitch env request with
  | ok o => exact ⟨o.1, o.2, rfl⟩
  | error f =>
    rw [hx] at hend
    cases hend with
    | noSearch hfind =>
      rw [hr] at hfind
      cases hfind
    | noTrunk hfind hnone =>
      obtain ⟨t, ht⟩ := (findTrunk_choice hfind).getElem?
      rw [hnone] at ht
      cases ht
    | repeated _ hto _ hctx => exact absurd hctx (hid hto)

/-- Every `SWITCH` has a step, unless it is to be passed on under an id in use. -/
theorem switch_step_ok (env : Env) {s : ResourceManager Q} {request : AgentRequest} (hne : s.mTrunks ≠ [])
    (hmeth : request.mMethod = .switch) (hid : request.mTo ≠ s.mMatrixId → request.mId ∉ s.mProcessContexts) :
    ∃ s' out, Step s (⟨env, .clientRequest request⟩, out) s' := by
  obtain ⟨s', out, hok⟩ := onClientRxSwitch_ok env hne hid
  exact ⟨s', out, (step_switch_iff hmeth).mpr hok⟩

/-! ## The invariant -/

/-- **What the trunks of a manager carry**: cameras of the matrix `mid` with an id in `cams`. -/
structure TrunksOk (mid : Int) (cams : Int → Prop) (ts : List (Trunk Q)) : Prop where
  /-- nothing, without users -/
  idle : ∀ t ∈ ts, t.empty = true → t.mCameraId = GlobalID.nullID
  /-- a camera of this matrix, with users -/
  carries : ∀ t ∈ ts, t.empty = false → ∃ c, t.mCameraId = ⟨mid, c⟩ ∧ cams c
  /-- each camera on one trunk only -/
  unique : ∀ (i j : ℕ) (t t' : Trunk Q), ts[i]? = some t → ts[j]? = some t' → t.empty = false → t'.empty = false →
    t.mCameraId = t'.mCameraId → i = j

theorem TrunksOk.mono {mid : Int} {cams cams' : Int → Prop} {ts : List (Trunk Q)}
    (h : TrunksOk mid cams ts) (hsub : ∀ c, cams c → cams' c) : TrunksOk mid cams' ts :=
  { h with
    carries := by
      intro t ht hbusy
      obtain ⟨c, hc, hin⟩ := h.carries t ht hbusy
      exact ⟨c, hc, hsub c hin⟩ }

/-- New trunks have no users and carry nothing. -/
theorem trunksOk_new {mid : Int} {cams : Int → Prop} {ts : List (Trunk Q)}
    (hnew : ∀ t ∈ ts, ∃ id outport, t = Trunk.new id outport) : TrunksOk mid cams ts := by
  have hempty : ∀ t ∈ ts, t.empty = true := by
    intro t ht
    obtain ⟨id, outport, rfl⟩ := hnew t ht
    exact Trunk.empty_iff.mpr fun u => PriorityQueue.not_mem_empty u
  constructor
  · intro t ht _
    obtain ⟨id, outport, rfl⟩ := hnew t ht
    rfl
  · intro t ht hbusy
    rw [hempty t ht] at hbusy
    cases hbusy
  · intro i j t t' ht _ hbusy _ _
    rw [hempty t (List.mem_of_getElem? ht)] at hbusy
    cases hbusy

/-- **Purging keeps the invariant.** -/
theorem TrunksOk.purge {mid : Int} {cams : Int → Prop} {ts : List (Trunk Q)} (h : TrunksOk mid cams ts)
    (env : Env) : TrunksOk mid cams (purgeTrunks env ts) := by
  constructor
  · intro t ht hidle
    obtain ⟨i, hi⟩ := List.getElem?_of_mem ht
    obtain ⟨t₀, -, rfl⟩ := of_getElem?_purgeTrunks hi
    exact Trunk.updateUsers_idle hidle
  · intro t ht hbusy
    obtain ⟨i, hi⟩ := List.getElem?_of_mem ht
    obtain ⟨t₀, ht₀, rfl⟩ := of_getElem?_purgeTrunks hi
    rw [Trunk.updateUsers_busy hbusy]
    exact h.carries t₀ (List.mem_of_getElem? ht₀) (Trunk.nonempty_of_updateUsers hbusy)
  · intro i j t t' hi hj hbusy hbusy' heq
    obtain ⟨t₀, ht₀, rfl⟩ := of_getElem?_purgeTrunks hi
    obtain ⟨t₀', ht₀', rfl⟩ := of_getElem?_purgeTrunks hj
    rw [Trunk.updateUsers_busy hbusy, Trunk.updateUsers_busy hbusy'] at heq
    exact h.unique i j t₀ t₀' ht₀ ht₀' (Trunk.nonempty_of_updateUsers hbusy)
      (Trunk.nonempty_of_updateUsers hbusy') heq

/-- A trunk that carries a camera of the matrix has users. -/
theorem TrunksOk.busy {mid c : Int} {cams : Int → Prop} {ts : List (Trunk Q)} (h : TrunksOk mid cams ts)
    (hmid : 0 ≤ mid) {t : Trunk Q} (ht : t ∈ ts) (hc : t.mCameraId = ⟨mid, c⟩) : t.empty = false := by
  by_contra hempty
  have hnull := h.idle t ht (by simpa using hempty)
  rw [hc] at hnull
  have hneg : mid = -1 := congrArg GlobalID.mid hnull
  omega

/-- After a grant, position by position. -/
theorem getElem?_modify_grant {ts : List (Trunk Q)} {i j : ℕ} {user : User} {cid : GlobalID} {t : Trunk Q}
    (h : (ts.modify i fun t => t.grant user cid)[j]? = some t) :
    (j = i ∧ ∃ t₀, ts[j]? = some t₀ ∧ t = t₀.grant user cid) ∨ (j ≠ i ∧ ts[j]? = some t) := by
  rw [List.getElem?_modify] at h
  obtain ⟨t₀, ht₀, rfl⟩ := Option.map_eq_some_iff.mp h
  by_cases hij : i = j
  · rw [if_pos hij]
    exact Or.inl ⟨hij.symm, t₀, ht₀, rfl⟩
  · rw [if_neg hij]
    exact Or.inr ⟨fun he => hij he.symm, ht₀⟩

/-- Where the search ends, no other trunk with users carries the camera. -/
theorem TrunkChoice.only {mid c : Int} {cams : Int → Prop} {ts : List (Trunk Q)} {user : GlobalID} {i : ℕ}
    (h : TrunkChoice ts user ⟨mid, c⟩ (some i)) (hok : TrunksOk mid cams ts) (hmid : 0 ≤ mid) :
    ∀ j t, ts[j]? = some t → t.mCameraId = ⟨mid, c⟩ → j = i := by
  intro j t' hj hc
  cases h with
  | @carrying _ t ht hcid =>
    exact hok.unique j i t' t hj ht (hok.busy hmid (List.mem_of_getElem? hj) hc)
      (hok.busy hmid (List.mem_of_getElem? ht) hcid) (hc.trans hcid.symm)
  | free hother => exact absurd hc (hother t' (List.mem_of_getElem? hj))
  | preempted hother => exact absurd hc (hother t' (List.mem_of_getElem? hj))

/-- **A grant keeps the invariant.** -/
theorem TrunksOk.grant {mid c : Int} {cams : Int → Prop} {ts : List (Trunk Q)} (h : TrunksOk mid cams ts)
    (hmid : 0 ≤ mid) {user : GlobalID} {i : ℕ} (hi : TrunkChoice ts user ⟨mid, c⟩ (some i)) (hc : cams c)
    (entry : User) : TrunksOk mid cams (ts.modify i fun t => t.grant entry ⟨mid, c⟩) := by
  have honly := hi.only h hmid
  constructor
  · intro t ht hidle
    obtain ⟨j, hj⟩ := List.getElem?_of_mem ht
    rcases getElem?_modify_grant hj with ⟨-, t₀, -, rfl⟩ | ⟨-, ht⟩
    · rw [Trunk.grant_nonempty] at hidle
      cases hidle
    · exact h.idle t (List.mem_of_getElem? ht) hidle
  · intro t ht hbusy
    obtain ⟨j, hj⟩ := List.getElem?_of_mem ht
    rcases getElem?_modify_grant hj with ⟨-, t₀, -, rfl⟩ | ⟨-, ht⟩
    · exact ⟨c, rfl, hc⟩
    · exact h.carries t (List.mem_of_getElem? ht) hbusy
  · intro j k t t' hj hk hbusy hbusy' heq
    rcases getElem?_modify_grant hj with ⟨hji, t₀, -, rfl⟩ | ⟨-, hj₀⟩
    · rcases getElem?_modify_grant hk with ⟨hki, -⟩ | ⟨-, hk₀⟩
      · exact hji.trans hki.symm
      · exact hji.trans (honly k t' hk₀ heq.symm).symm
    · rcases getElem?_modify_grant hk with ⟨hki, t₀, -, rfl⟩ | ⟨-, hk₀⟩
      · exact (honly j t hj₀ heq).trans hki.symm
      · exact h.unique j k t t' hj₀ hk₀ hbusy hbusy' heq

/-- The invariant, for the manager's own matrix and cameras. -/
def TrunkInv (s : ResourceManager Q) : Prop := TrunksOk s.mMatrixId (fun c => c ∈ s.mCameras) s.mTrunks

/-- **Every `SWITCH` keeps the invariant.** -/
theorem ClientSwitchOutcome.trunkInv {env : Env} {s s' : ResourceManager Q} {request : AgentRequest}
    {out : List Action} (h : ClientSwitchOutcome env s request s' out) (hmid : 0 ≤ s.mMatrixId)
    (hinv : TrunkInv s) : TrunkInv s' := by
  have hpurge : TrunksOk s.mMatrixId (fun c => c ∈ s.mCameras) (purgeTrunks env s.mTrunks) := hinv.purge env
  cases h with
  | busy => exact hpurge
  | granted hfind _ hto hcam =>
    have hchoice := findTrunk_choice hfind
    rw [AgentMessage.camera, hto] at hchoice
    exact hpurge.grant hmid hchoice hcam _
  | noCamera => exact hpurge
  | noMatrix => exact hpurge
  | forwarded => exact hpurge

/-- **Every event keeps the invariant.** -/
theorem Step.trunkInv {s s' : ResourceManager Q} {l : Event × List Action} (h : Step s l s')
    (hmid : 0 ≤ s.mMatrixId) (hinv : TrunkInv s) : TrunkInv s' := by
  rcases h.trunks with htrunks | ⟨request, -, -, hout⟩
  · have hkeeps := h.keeps
    unfold TrunkInv
    rw [hkeeps.matrixId, htrunks]
    exact hinv.mono hkeeps.cameras
  · exact hout.trunkInv hmid hinv

/-- The two ends of every trunk. -/
def ports (s : ResourceManager Q) : List (Int × Int) := s.mTrunks.map fun t => (t.mId, t.mOutport)

/-- **No event changes the trunks' ends**, nor adds or removes a trunk. -/
theorem Step.ports {s s' : ResourceManager Q} {l : Event × List Action} (h : Step s l s') :
    s'.ports = s.ports := by
  have hpurge : (purgeTrunks l.1.env s.mTrunks).map (fun t => (t.mId, t.mOutport)) = s.ports := by
    apply List.ext_getElem?
    intro i
    unfold ResourceManager.ports
    rw [List.getElem?_map, List.getElem?_map, getElem?_purgeTrunks, Option.map_map]
    cases s.mTrunks[i]? with
    | none => rfl
    | some t => simp [Trunk.updateUsers_mId, Trunk.updateUsers_mOutport]
  rcases h.trunks with htrunks | ⟨request, -, -, hout⟩
  · unfold ResourceManager.ports
    rw [htrunks]
  · generalize l.2 = out at hout
    cases hout with
    | busy => exact hpurge
    | @granted i =>
      refine Eq.trans ?_ hpurge
      apply List.ext_getElem?
      intro j
      -- a grant changes the users and the camera of one trunk
      show (((purgeTrunks l.1.env s.mTrunks).modify i _).map _)[j]? = _
      rw [List.getElem?_map, List.getElem?_map, List.getElem?_modify]
      cases (purgeTrunks l.1.env s.mTrunks)[j]? with
      | none => rfl
      | some t =>
        by_cases hij : i = j
        · simp [hij, Trunk.push_mId, Trunk.push_mOutport]
        · simp [hij]
    | noCamera => exact hpurge
    | noMatrix => exact hpurge
    | forwarded => exact hpurge

theorem Step.trunks_length {s s' : ResourceManager Q} {l : Event × List Action} (h : Step s l s') :
    s'.mTrunks.length = s.mTrunks.length := by
  have hlength := congrArg List.length h.ports
  unfold ResourceManager.ports at hlength
  rw [List.length_map, List.length_map] at hlength
  exact hlength

/-- A trunk after the event has the ends of one before it. -/
theorem Step.mem_trunks {s s' : ResourceManager Q} {l : Event × List Action} (h : Step s l s') {t : Trunk Q}
    (ht : t ∈ s'.mTrunks) : ∃ t₀ ∈ s.mTrunks, t₀.mId = t.mId ∧ t₀.mOutport = t.mOutport := by
  have hmem : (t.mId, t.mOutport) ∈ s'.ports := List.mem_map.mpr ⟨t, ht, rfl⟩
  rw [h.ports] at hmem
  obtain ⟨t₀, ht₀, heq⟩ := List.mem_map.mp hmem
  exact ⟨t₀, ht₀, congrArg Prod.fst heq, congrArg Prod.snd heq⟩

/-- A trunk before the event has the ends of one after it. -/
theorem Step.mem_trunks_of {s s' : ResourceManager Q} {l : Event × List Action} (h : Step s l s')
    {t : Trunk Q} (ht : t ∈ s.mTrunks) : ∃ t' ∈ s'.mTrunks, t'.mId = t.mId ∧ t'.mOutport = t.mOutport := by
  have hmem : (t.mId, t.mOutport) ∈ s.ports := List.mem_map.mpr ⟨t, ht, rfl⟩
  rw [← h.ports] at hmem
  obtain ⟨t', ht', heq⟩ := List.mem_map.mp hmem
  exact ⟨t', ht', congrArg Prod.fst heq, congrArg Prod.snd heq⟩

/-- There is always a trunk. -/
theorem Reachable.some_trunk {s : ResourceManager Q} (h : Reachable s) : s.mTrunks ≠ [] := by
  refine h.induct (I := fun s => s.mTrunks ≠ []) (fun _ h0 => h0.some_trunk) ?_
  intro s l s' hne hstep hnil
  have hlen := hstep.trunks_length
  rw [hnil] at hlen
  exact hne (List.eq_nil_of_length_eq_zero hlen.symm)

/-- The invariant in every state of a run from new trunks. -/
theorem trunkInv_of_run {s₀ s : ResourceManager Q} {ls : List (Event × List Action)}
    (hnew : ∀ t ∈ s₀.mTrunks, ∃ id outport, t = Trunk.new id outport) (hmid : 0 ≤ s₀.mMatrixId)
    (hrun : Run Step s₀ ls s) : TrunkInv s ∧ s.mMatrixId = s₀.mMatrixId := by
  refine hrun.invariant (I := fun s => TrunkInv s ∧ s.mMatrixId = s₀.mMatrixId) ?_ ⟨trunksOk_new hnew, rfl⟩
  rintro s l s' ⟨hinv, hid⟩ hstep
  exact ⟨hstep.trunkInv (by rw [hid]; exact hmid) hinv, hstep.keeps.matrixId.trans hid⟩

/-- **What the trunks carry, in every reachable state.** Trunks without users carry nothing; a trunk with
    users carries a known camera of this matrix, and no other trunk with users carries the same one; and a
    `SWITCH` that is not answered 200 only purges. -/
theorem trunk_invariant {s₀ s : ResourceManager Q} {ls : List (Event × List Action)}
    (hnew : ∀ t ∈ s₀.mTrunks, ∃ id outport, t = Trunk.new id outport) (hmid : 0 ≤ s₀.mMatrixId)
    (hrun : Run Step s₀ ls s) :
    TrunksOk s.mMatrixId (fun c => c ∈ s.mCameras) s.mTrunks ∧
    ∀ env request out s', request.mMethod = .switch → Step s (⟨env, .clientRequest request⟩, out) s' →
      (∀ response, .clientRespond response ∈ out → response.mStatusCode ≠ 200) →
      s'.mTrunks = purgeTrunks env s.mTrunks := by
  refine ⟨(trunkInv_of_run hnew hmid hrun).1, ?_⟩
  intro env request out s' hmeth hstep hnot
  cases hstep.request hmeth with
  | busy => rfl
  | @granted i trunk => exact absurd rfl (hnot (request.switchAnswer env 200 "Ok" trunk.mOutport) (by simp))
  | noCamera => rfl
  | noMatrix => rfl
  | forwarded => rfl

/-- One camera, one trunk, and a request for it: the trunk is found to carry it. -/
theorem trunk_invariant_after_grant :
    ∃ s : ResourceManager (List User), s.mTrunks.map (fun t => t.mCameraId) = [⟨1, 4⟩] ∧
      TrunksOk s.mMatrixId (fun c => c ∈ s.mCameras) s.mTrunks := by
  let start : ResourceManager (List User) := configured 0 1 1 [4] [1] [(1, 2)]
  have hnew : Initial start := configured_initial (List.cons_ne_nil _ _)
  have hrun := run_of_exec [⟨Env.at 100, .clientRequest ⟨0, 9, 1, .request, .switch, 77, fun _ => 4⟩⟩]
    (s := start) rfl
  exact ⟨_, rfl, (trunk_invariant hnew.trunks (by decide) hrun).1⟩

end ResourceManager

end Mcc
