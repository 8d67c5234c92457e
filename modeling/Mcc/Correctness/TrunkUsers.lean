import Mcc.Correctness.Trunk

/-!
# `Correctness.TrunkUsers` — for which camera a queued user was granted the trunk

A ghost record beside the manager keeps, for every trunk and user, the camera of the last grant. As long as
no grant preempts a trunk, everybody queued on it was granted it for the camera it carries: the camera only
changes on an empty trunk. A preemption writes the new camera and leaves the old users in the queue;
`trunk_users` has both sides.
-/

namespace Mcc

open Transition PriorityQueue

namespace ResourceManager

variable {Q : Type} [PriorityQueue Q User]

/-! ## The ghost record -/

/-- For every trunk and user, the camera the user was last granted the trunk for. -/
abbrev Grants := ℕ × GlobalID → Option GlobalID

/-- The grant an event makes: trunk, user and camera. -/
def grantOf (s : ResourceManager Q) (ev : Event) : Option (ℕ × GlobalID × GlobalID) :=
  match ev.input with
  | .clientRequest request =>
    if request.mMethod = .switch ∧ request.mTo = s.mMatrixId ∧ request.mContent.swiCameraid ∈ s.mCameras then
      match findTrunk (purgeTrunks ev.env s.mTrunks) request.user request.camera with
      | .ok (some i) => some (i, request.user, request.camera)
      | _ => none
    else none
  | _ => none

/-- A grant replaces what was recorded for its trunk and user. -/
def Grants.record (g : Grants) : Option (ℕ × GlobalID × GlobalID) → Grants
  | none => g
  | some (i, user, cid) => Function.update g (i, user) (some cid)

/-- The manager's steps, with the record. -/
def GStep (p : ResourceManager Q × Grants) (l : Event × List Action) (p' : ResourceManager Q × Grants) : Prop :=
  Step p.1 l p'.1 ∧ p'.2 = p.2.record (grantOf p.1 l.1)

/-- Every user of a trunk who has not expired by `now` was last granted it for the camera it carries. -/
def UsersOk (now : Int) (p : ResourceManager Q × Grants) : Prop :=
  ∀ (i : ℕ) (trunk : Trunk Q), p.1.mTrunks[i]? = some trunk → ∀ e : User, e ∈ trunk.mUsers →
    e.isExpired now = false → p.2 (i, e.mId) = some trunk.mCameraId

/-- Every queued user of a trunk, expired or not, was last granted it for the camera it carries. -/
def QueuedOk (p : ResourceManager Q × Grants) : Prop :=
  ∀ (i : ℕ) (trunk : Trunk Q), p.1.mTrunks[i]? = some trunk → ∀ e : User, e ∈ trunk.mUsers →
    p.2 (i, e.mId) = some trunk.mCameraId

/-- In the state before the event: a known camera is asked for that no trunk carries, every trunk has
    users, and the first user of one of them comes after the user of the request. -/
def Preempts (s : ResourceManager Q) (ev : Event) : Prop :=
  ∃ request, ev.input = .clientRequest request ∧ request.mMethod = .switch ∧
    request.mTo = s.mMatrixId ∧ request.mContent.swiCameraid ∈ s.mCameras ∧
    (∀ t ∈ purgeTrunks ev.env s.mTrunks, t.mCameraId ≠ request.camera) ∧
    (∀ t ∈ purgeTrunks ev.env s.mTrunks, t.empty = false) ∧
    ∃ t ∈ purgeTrunks ev.env s.mTrunks, ∃ u : User, t.top = some u ∧ request.user < u.mId

/-! ## What the record says of a step -/

/-- A granted `SWITCH` is recorded. -/
theorem grantOf_granted {s : ResourceManager Q} {env : Env} {request : AgentRequest} {i : ℕ}
    (hmeth : request.mMethod = .switch) (hto : request.mTo = s.mMatrixId)
    (hcam : request.mContent.swiCameraid ∈ s.mCameras)
    (hfind : findTrunk (purgeTrunks env s.mTrunks) request.user request.camera = .ok (some i)) :
    grantOf s ⟨env, .clientRequest request⟩ = some (i, request.user, request.camera) := by
  unfold grantOf
  simp only
  rw [if_pos ⟨hmeth, hto, hcam⟩, hfind]

/-- Nothing else is. -/
theorem grantOf_eq_none {s : ResourceManager Q} {ev : Event}
    (h : ∀ request i, ev.input = .clientRequest request → request.mMethod = .switch →
      request.mTo = s.mMatrixId → request.mContent.swiCameraid ∈ s.mCameras →
      findTrunk (purgeTrunks ev.env s.mTrunks) request.user request.camera ≠ .ok (some i)) :
    grantOf s ev = none := by
  obtain ⟨env, input⟩ := ev
  unfold grantOf
  cases input with
  | clientRequest request =>
    simp only
    by_cases hc : request.mMethod = .switch ∧ request.mTo = s.mMatrixId ∧
        request.mContent.swiCameraid ∈ s.mCameras
    · rw [if_pos hc]
      cases hfind : findTrunk (purgeTrunks env s.mTrunks) request.user request.camera with
      | error f => rfl
      | ok r =>
        cases r with
        | none => rfl
        | some i => exact absurd hfind (h request i rfl hc.1 hc.2.1 hc.2.2)
    · rw [if_neg hc]
  | localSwitch => rfl
  | localPtz => rfl
  | serverResponse => rfl
  | register => rfl
  | disconnect => rfl
  | connected => rfl
  | disconnected => rfl

/-- A `SWITCH` that finds a trunk for a known camera of this matrix is recorded and made. -/
theorem GStep.granted {s s' : ResourceManager Q} {g g' : Grants} {env : Env} {request : AgentRequest}
    {out : List Action} {i : ℕ} (h : GStep (s, g) (⟨env, .clientRequest request⟩, out) (s', g'))
    (hmeth : request.mMethod = .switch) (hto : request.mTo = s.mMatrixId)
    (hcam : request.mContent.swiCameraid ∈ s.mCameras)
    (hfind : findTrunk (purgeTrunks env s.mTrunks) request.user request.camera = .ok (some i)) :
    g' = Function.update g (i, request.user) (some request.camera) ∧
      s'.mTrunks = (purgeTrunks env s.mTrunks).modify i fun t => t.grant (request.entry env) request.camera := by
  obtain ⟨hstep, hg⟩ := h
  simp only at hstep hg
  constructor
  · rw [hg, grantOf_granted hmeth hto hcam hfind]
    rfl
  · cases hstep.request hmeth with
    | busy hnone =>
      rw [hfind] at hnone
      cases hnone
    | granted hk =>
      rw [hfind] at hk
      cases hk
      rw [AgentMessage.camera, hto]
      rfl
    | noCamera _ _ _ hunknown => exact absurd hcam hunknown
    | noMatrix _ _ hfar => exact absurd hto hfar
    | forwarded _ _ hfar => exact absurd hto hfar

/-- **A step, by its grant**: none is made and the trunks are at most purged, or there is one. -/
theorem GStep.cases {s s' : ResourceManager Q} {g g' : Grants} {env : Env} {input : Input}
    {out : List Action} (h : GStep (s, g) (⟨env, input⟩, out) (s', g')) :
    (g' = g ∧ (s'.mTrunks = s.mTrunks ∨ s'.mTrunks = (s.purged env).mTrunks)) ∨
    ∃ request i, input = .clientRequest request ∧ request.mMethod = .switch ∧
      request.mTo = s.mMatrixId ∧ request.mContent.swiCameraid ∈ s.mCameras ∧
      findTrunk (purgeTrunks env s.mTrunks) request.user request.camera = .ok (some i) := by
  by_cases hgrant : ∃ request i, input = .clientRequest request ∧ request.mMethod = .switch ∧
      request.mTo = s.mMatrixId ∧ request.mContent.swiCameraid ∈ s.mCameras ∧
      findTrunk (purgeTrunks env s.mTrunks) request.user request.camera = .ok (some i)
  · exact Or.inr hgrant
  · left
    obtain ⟨hstep, hg⟩ := h
    simp only at hstep hg
    constructor
    · rw [hg, grantOf_eq_none]
      · rfl
      · intro request i hin hmeth hto hcam hfind
        exact hgrant ⟨request, i, hin, hmeth, hto, hcam, hfind⟩
    · rcases hstep.trunks with htrunks | ⟨request, hin, hmeth, hout⟩
      · exact Or.inl htrunks
      · right
        simp only at hin hout
        cases hout with
        | busy => rfl
        | granted hfind _ hto hcam => exact absurd ⟨request, _, hin, hmeth, hto, hcam, hfind⟩ hgrant
        | noCamera => rfl
        | noMatrix => rfl
        | forwarded => rfl

/-! ## One step -/

/-- Purging leaves a subset of the users, and the camera as long as somebody is left. -/
theorem QueuedOk.purge {s : ResourceManager Q} {g : Grants} (h : QueuedOk (s, g)) (env : Env) :
    QueuedOk (s.purged env, g) := by
  intro i trunk htrunk e he
  obtain ⟨t₀, ht₀, rfl⟩ := of_getElem?_purgeTrunks htrunk
  rw [Trunk.updateUsers_busy (Trunk.nonempty_iff.mpr ⟨e, he⟩)]
  exact h i t₀ ht₀ e (Trunk.mem_of_mem_updateUsers he)

/-- **A grant without preemption keeps everybody's camera**: the trunk carried it already, or had no users. -/
theorem QueuedOk.step {p p' : ResourceManager Q × Grants} {l : Event × List Action} (h : QueuedOk p)
    (hstep : GStep p l p') (hnot : ¬ Preempts p.1 l.1) : QueuedOk p' := by
  obtain ⟨s, g⟩ := p
  obtain ⟨s', g'⟩ := p'
  obtain ⟨⟨env, input⟩, out⟩ := l
  have hpurge := h.purge env
  rcases hstep.cases with ⟨rfl, hsame | hpurged⟩ | ⟨request, i, rfl, hmeth, hto, hcam, hfind⟩
  · intro i trunk htrunk e he
    exact h i trunk (hsame ▸ htrunk) e he
  · intro i trunk htrunk e he
    exact hpurge i trunk (hpurged ▸ htrunk) e he
  · obtain ⟨rfl, htrunks⟩ := hstep.granted hmeth hto hcam hfind
    intro j trunk htrunk e he
    rw [show (s', _).1.mTrunks = _ from htrunks] at htrunk
    show Function.update g (i, request.user) (some request.camera) (j, e.mId) = some trunk.mCameraId
    -- the record changes for the user of the request on trunk `i` alone
    rcases getElem?_modify_grant htrunk with ⟨rfl, t, ht, rfl⟩ | ⟨hne, ht⟩
    · by_cases hu : e.mId = request.user
      · rw [hu, Function.update_self]
        rfl
      · rw [Function.update_of_ne (fun hc => hu (congrArg Prod.snd hc))]
        -- someone who was queued before the grant
        have hbefore : e ∈ t.mUsers := by
          rcases Trunk.mem_grant.mp he with rfl | hmem
          · exact absurd rfl hu
          · exact hmem
        have hold : g (j, e.mId) = some t.mCameraId := hpurge j t ht e hbefore
        rw [Trunk.grant_mCameraId, hold]
        cases findTrunk_choice hfind with
        | carrying ht' hcid =>
          rw [ht, Option.some.injEq] at ht'
          rw [ht', hcid]
        | free _ ht' hempty =>
          rw [ht, Option.some.injEq] at ht'
          rw [← ht', Trunk.empty_iff] at hempty
          exact absurd hbefore (hempty e)
        | preempted hother hbusy ht' htop hlt =>
          exact absurd ⟨request, rfl, hmeth, hto, hcam, hother, hbusy, _, List.mem_of_getElem? ht', _, htop,
            hlt⟩ hnot
    · rw [Function.update_of_ne (fun hc => hne (congrArg Prod.fst hc))]
      exact hpurge j trunk ht e he

/-- **A preemption leaves a stale user**: the one it found on top, who has not expired. -/
theorem QueuedOk.preempted {p p' : ResourceManager Q × Grants} {l : Event × List Action} (h : QueuedOk p)
    (hstep : GStep p l p') (hpre : Preempts p.1 l.1) :
    ∃ (i j : ℕ) (trunk : Trunk Q) (e : User), p'.1.mTrunks[i]? = some trunk ∧ e ∈ trunk.mUsers ∧
      e.isExpired (l.1.env.purge i j) = false ∧ p'.2 (i, e.mId) ≠ some trunk.mCameraId := by
  obtain ⟨s, g⟩ := p
  obtain ⟨s', g'⟩ := p'
  obtain ⟨⟨env, input⟩, out⟩ := l
  obtain ⟨request, rfl, hmeth, hto, hcam, hother, hbusy, t', ht', u', htop', hlt'⟩ := hpre
  simp only at hto hcam hother hbusy ht'
  obtain ⟨r, hr⟩ := findTrunk_ok (List.ne_nil_of_mem ht') request.user request.camera
  cases findTrunk_choice hr with
  | carrying ht hcid => exact absurd hcid (hother _ (List.mem_of_getElem? ht))
  | free _ ht hempty =>
    rw [hbusy _ (List.mem_of_getElem? ht)] at hempty
    cases hempty
  | none _ _ hall => exact absurd (lt_of_lt_of_le hlt' (hall t' ht' u' htop')) (lt_irrefl _)
  | @preempted i t u _ _ ht htop hlt _ =>
    obtain ⟨rfl, htrunks⟩ := hstep.granted hmeth hto hcam hr
    -- the user on top is younger than its lease, and not the one of the request
    obtain ⟨t₀, -, rfl⟩ := of_getElem?_purgeTrunks ht
    obtain ⟨j, hfresh⟩ := Trunk.top_updateUsers htop
    refine ⟨i, j, (t₀.updateUsers (env.purge i)).grant (request.entry env) request.camera, u, ?_,
      Trunk.mem_grant.mpr (Or.inr (top_mem htop)), hfresh, ?_⟩
    · rw [show (s', _).1.mTrunks = _ from htrunks, List.getElem?_modify, ht]
      simp
    · show Function.update g (i, request.user) (some request.camera) (i, u.mId) ≠ some request.camera
      rw [Function.update_of_ne (fun hc => hlt.ne' (congrArg Prod.snd hc))]
      have hold : g (i, u.mId) = some (t₀.updateUsers (env.purge i)).mCameraId :=
        h.purge env i _ ht u (top_mem htop)
      rw [hold]
      intro hc
      exact hother _ (List.mem_of_getElem? ht) (Option.some.inj hc)

/-! ## Runs -/

/-- A recorded step that preempts no trunk. -/
def GStepKeeping (p : ResourceManager Q × Grants) (l : Event × List Action) (p' : ResourceManager Q × Grants) :
    Prop := GStep p l p' ∧ ¬ Preempts p.1 l.1

/-- New trunks have no users to speak of. -/
theorem queuedOk_new {s : ResourceManager Q} {g : Grants}
    (hnew : ∀ t ∈ s.mTrunks, ∃ id outport, t = Trunk.new id outport) : QueuedOk (s, g) := by
  intro i trunk htrunk e he
  obtain ⟨id, outport, rfl⟩ := hnew trunk (List.mem_of_getElem? htrunk)
  exact absurd he (PriorityQueue.not_mem_empty e)

/-- **The users of a trunk and the camera it carries.** In every run from new trunks in which no step
    preempts, at every time, every unexpired user of a trunk was last granted it for the camera it carries.
    And the first step that preempts ends it: it leaves the user it found on top, unexpired at that reading
    of the clock, among the users of a trunk that now carries another camera. -/
theorem trunk_users {s₀ : ResourceManager Q} {g₀ : Grants} {p : ResourceManager Q × Grants}
    {ls : List (Event × List Action)}
    (hnew : ∀ t ∈ s₀.mTrunks, ∃ id outport, t = Trunk.new id outport)
    (hrun : Run GStepKeeping (s₀, g₀) ls p) :
    (∀ now, UsersOk now p) ∧
    ∀ l p', GStep p l p' → Preempts p.1 l.1 →
      ∃ i j, ¬ UsersOk (l.1.env.purge i j) p' := by
  have hqueued : QueuedOk p :=
    hrun.invariant (fun _ _ _ hi hst => hi.step hst.1 hst.2) (queuedOk_new hnew)
  constructor
  · intro now i trunk htrunk e he _
    exact hqueued i trunk htrunk e he
  · intro l p' hstep hpre
    obtain ⟨i, j, trunk, e, htrunk, he, hfresh, hstale⟩ := hqueued.preempted hstep hpre
    exact ⟨i, j, fun hok => hstale (hok i trunk htrunk e he hfresh)⟩

/-- One trunk, granted to user (9, 1) for camera 4 at 100: at 105 its user is a user of camera 4. -/
theorem trunk_users_at_105 :
    ∃ p : ResourceManager (List User) × Grants, p.1.mTrunks.map (fun t => t.mCameraId) = [⟨1, 4⟩] ∧
      UsersOk 105 p := by
  let start : ResourceManager (List User) := configured 0 1 1 [4, 5] [1] [(1, 2)]
  have hnew : Initial start := configured_initial (List.cons_ne_nil _ _)
  have hgrant : GStep (start, fun _ => none)
      (⟨Env.at 100, .clientRequest ⟨1, 9, 1, .request, .switch, 77, fun _ => 4⟩⟩, _) (_, _) :=
    ⟨step_of_eq rfl, rfl⟩
  refine ⟨(_, _), rfl, (trunk_users hnew.trunks (.single ⟨hgrant, ?_⟩)).1 105⟩
  rintro ⟨_, -, -, -, -, -, hbusy, -⟩
  exact absurd (hbusy (Trunk.new 1 2) List.mem_cons_self) (by decide)

/-- **A preempted trunk keeps the users of the camera it lost.** User (9, 1) is granted the only trunk for
    camera 4 at 100; user (9, 0) preempts it for camera 5 at 101, and then (9, 1), unexpired, is a user of a
    trunk it was never granted for camera 5. -/
theorem preempted_trunk_keeps_users :
    ¬ ∀ (s₀ : ResourceManager (List User)) (ls : List (Event × List Action))
        (p : ResourceManager (List User) × Grants),
        Initial s₀ → Run GStep (s₀, fun _ => none) ls p →
        ∀ l p', GStep p l p' → UsersOk l.1.env.update p' := by
  intro h
  have hok := h (configured 0 1 1 [4, 5] [1] [(1, 2)])
    [(⟨Env.at 100, .clientRequest ⟨1, 9, 1, .request, .switch, 77, fun _ => 4⟩⟩, _)] (_, _)
    (configured_initial (by decide)) (.single ⟨step_of_eq rfl, rfl⟩)
    (⟨Env.at 101, .clientRequest ⟨0, 9, 1, .request, .switch, 78, fun _ => 5⟩⟩, _) (_, _)
    ⟨step_of_eq rfl, rfl⟩
  have hstale : some (⟨1, 4⟩ : GlobalID) = some ⟨1, 5⟩ :=
    hok 0 ⟨1, 2, ⟨1, 5⟩, [⟨⟨9, 1⟩, .keyboard, 20, 120⟩, ⟨⟨9, 0⟩, .keyboard, 20, 121⟩]⟩ rfl
      ⟨⟨9, 1⟩, .keyboard, 20, 120⟩ (Multiset.mem_coe.mpr List.mem_cons_self) (by decide)
  exact absurd hstale (by decide)

end ResourceManager

end Mcc
