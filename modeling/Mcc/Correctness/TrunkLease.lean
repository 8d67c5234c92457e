import Mcc.Correctness.Trunk

/-!
# `Correctness.TrunkLease` — a granted trunk is kept for its user

A `SWITCH` answered 200 queues its user on the trunk until `t + 20`. The queue shows its least user only, so
the protection cannot be read off the top; what carries it is the entry itself (`Leased`): while the clock
stays within the lease no purge removes it, and while it is there the trunk is neither free nor open to
preemption by anyone who does not come before the user. `trunk_lease` is the run theorem.
-/

namespace Mcc

open Transition PriorityQueue

namespace ResourceManager

variable {Q : Type} [PriorityQueue Q User]

/-- The user is queued on trunk `i` until at least `T`. -/
def Leased (i : ℕ) (u : GlobalID) (T : Int) (s : ResourceManager Q) : Prop :=
  ∃ trunk, s.mTrunks[i]? = some trunk ∧ ∃ e : User, e ∈ trunk.mUsers ∧ e.mId = u ∧ T ≤ e.mExpireTime

/-- Trunk `i` carries the camera. -/
def Carries (i : ℕ) (cid : GlobalID) (s : ResourceManager Q) : Prop :=
  ∃ trunk, s.mTrunks[i]? = some trunk ∧ trunk.mCameraId = cid

/-- What trunk `i` carries, if there is such a trunk. -/
def carried (s : ResourceManager Q) (i : ℕ) : Option GlobalID := (s.mTrunks[i]?).map fun t => t.mCameraId

omit [PriorityQueue Q User] in
theorem carries_iff {i : ℕ} {cid : GlobalID} {s : ResourceManager Q} : Carries i cid s ↔ s.carried i = some cid := by
  unfold Carries carried
  rw [Option.map_eq_some_iff]

/-! ## One step -/

/-- Within the lease a purge keeps the entry, so what the trunk carries. -/
theorem Leased.purged {i : ℕ} {u : GlobalID} {T lo : Int} {s : ResourceManager Q} {env : Env}
    (h : Leased i u T s) (hw : env.Within lo T) :
    Leased i u T (s.purged env) ∧ (s.purged env).carried i = s.carried i := by
  obtain ⟨trunk, htrunk, e, he, hu, hT⟩ := h
  have hfresh : ∀ j, e.isExpired (env.purge i j) = false := fun j =>
    User.isExpired_eq_false_iff.mpr (le_trans (hw.purge i j).2 hT)
  have hkept : e ∈ (trunk.updateUsers (env.purge i)).mUsers := Trunk.mem_updateUsers hfresh he
  have hget : (s.purged env).mTrunks[i]? = some (trunk.updateUsers (env.purge i)) := by
    show (purgeTrunks env s.mTrunks)[i]? = _
    rw [getElem?_purgeTrunks, htrunk]
    rfl
  refine ⟨⟨_, hget, e, hkept, hu, hT⟩, ?_⟩
  unfold carried
  rw [hget, htrunk]
  exact congrArg some (Trunk.updateUsers_busy (Trunk.nonempty_iff.mpr ⟨e, hkept⟩))

/-- A grant keeps every entry. -/
theorem Leased.grantTrunk {i k : ℕ} {u cid : GlobalID} {T : Int} {s : ResourceManager Q} {entry : User}
    (h : Leased i u T s) : Leased i u T (s.grantTrunk k entry cid) := by
  obtain ⟨trunk, htrunk, e, he, hu, hT⟩ := h
  by_cases hk : k = i
  · refine ⟨trunk.grant entry cid, ?_, e, Trunk.mem_grant.mpr (Or.inr he), hu, hT⟩
    show (s.mTrunks.modify k _)[i]? = _
    rw [List.getElem?_modify, htrunk, hk]
    simp [Trunk.grant]
  · refine ⟨trunk, ?_, e, he, hu, hT⟩
    show (s.mTrunks.modify k _)[i]? = _
    rw [List.getElem?_modify, htrunk]
    simp [hk]

/-- **Within the lease no event removes the entry.** -/
theorem Leased.step {i : ℕ} {u : GlobalID} {T lo : Int} {s s' : ResourceManager Q} {l : Event × List Action}
    (h : Leased i u T s) (hw : l.1.env.Within lo T) (hstep : Step s l s') : Leased i u T s' := by
  rcases hstep.trunks with htrunks | ⟨request, -, -, hout⟩
  · unfold Leased
    rw [htrunks]
    exact h
  · have hpurged := (h.purged hw).1
    generalize l.2 = out at hout
    cases hout with
    | busy => exact hpurged
    | granted => exact hpurged.grantTrunk
    | noCamera => exact hpurged
    | noMatrix => exact hpurged
    | forwarded => exact hpurged

/-- A trunk whose entry does not come after the user is neither free nor preempted by that user: the search
    ends there only because the trunk carries the camera already. -/
theorem Leased.choice {i : ℕ} {u user cid : GlobalID} {T : Int} {s : ResourceManager Q}
    (h : Leased i u T s) (hle : u ≤ user) (hchoice : TrunkChoice s.mTrunks user cid (some i)) :
    Carries i cid s := by
  obtain ⟨trunk, htrunk, e, he, hu, -⟩ := h
  cases hchoice with
  | carrying ht hcid => exact ⟨_, ht, hcid⟩
  | free _ ht hempty =>
    rw [htrunk, Option.some.injEq] at ht
    rw [← ht, Trunk.empty_iff] at hempty
    exact absurd he (hempty e)
  | @preempted _ t top _ _ ht htop hlt =>
    rw [htrunk, Option.some.injEq] at ht
    rw [← ht] at htop
    -- preemption is by a user before everybody on the trunk
    have htopu : top.mId ≤ u := hu ▸ Trunk.top_le htop he
    exact absurd (lt_of_lt_of_le hlt (le_trans htopu hle)) (lt_irrefl _)

theorem carried_grantTrunk {i k : ℕ} {cid : GlobalID} {s : ResourceManager Q} {entry : User} :
    (s.grantTrunk k entry cid).carried i = if k = i then (s.carried i).map (fun _ => cid) else s.carried i := by
  unfold carried
  show Option.map _ ((s.mTrunks.modify k _)[i]?) = _
  rw [List.getElem?_modify]
  by_cases hk : k = i
  · rw [if_pos hk]
    cases s.mTrunks[i]? with
    | none => rfl
    | some t => simp [hk]
  · rw [if_neg hk]
    cases s.mTrunks[i]? with
    | none => rfl
    | some t => simp [hk]

/-- **Within the lease only an earlier user's `SWITCH` put on the trunk changes what it carries.** -/
theorem Leased.carried_eq {i : ℕ} {u : GlobalID} {T lo : Int} {s s' : ResourceManager Q}
    {l : Event × List Action} (h : Leased i u T s) (hw : l.1.env.Within lo T) (hstep : Step s l s')
    (hbelow : ∀ request, l.1.input = .clientRequest request → request.mMethod = .switch → request.user < u →
      findTrunk (purgeTrunks l.1.env s.mTrunks) request.user request.camera ≠ .ok (some i)) :
    s'.carried i = s.carried i := by
  rcases hstep.trunks with htrunks | ⟨request, hin, hmeth, hout⟩
  · unfold carried
    rw [htrunks]
  · obtain ⟨hpurged, hcarried⟩ := h.purged hw
    generalize l.2 = out at hout
    cases hout with
    | busy => exact hcarried
    | @granted k trunk hfind htrunk hto hcam =>
      rw [carried_grantTrunk]
      by_cases hk : k = i
      · rw [if_pos hk]
        rw [hk] at hfind
        -- the user does not come before `u`, so the trunk carried this camera before
        have hle : u ≤ request.user := not_lt.mp fun hlt => hbelow request hin hmeth hlt hfind
        have hsame := carries_iff.mp (hpurged.choice hle (findTrunk_choice hfind))
        rw [hsame, ← hcarried, hsame]
        show some (⟨s.mMatrixId, request.mContent.swiCameraid⟩ : GlobalID) = some request.camera
        rw [AgentMessage.camera, hto]
      · rw [if_neg hk]
        exact hcarried
    | noCamera => exact hcarried
    | noMatrix => exact hcarried
    | forwarded => exact hcarried

/-- **A `SWITCH` for a camera that is carried is granted**, on the trunk that carries it. -/
theorem step_of_carries {i : ℕ} {c T lo : Int} {u : GlobalID} {s : ResourceManager Q} {trunk : Trunk Q}
    {env : Env} {request : AgentRequest} (hinv : TrunkInv s) (hmid : 0 ≤ s.mMatrixId)
    (hleased : Leased i u T s) (hw : env.Within lo T) (htrunk : s.mTrunks[i]? = some trunk)
    (hcarried : trunk.mCameraId = ⟨s.mMatrixId, c⟩) (hmeth : request.mMethod = .switch)
    (hcam : request.camera = ⟨s.mMatrixId, c⟩) :
    ∃ s' out, Step s (⟨env, .clientRequest request⟩, out) s' ∧
      .clientRespond (request.switchAnswer env 200 "Ok" trunk.mOutport) ∈ out := by
  have hto : request.mTo = s.mMatrixId := congrArg GlobalID.mid hcam
  have hc : request.mContent.swiCameraid = c := congrArg GlobalID.lid hcam
  have hne : s.mTrunks ≠ [] := List.ne_nil_of_mem (List.mem_of_getElem? htrunk)
  obtain ⟨s', out, hstep⟩ := switch_step_ok env hne hmeth (fun hfar => absurd hto hfar)
  refine ⟨s', out, hstep, ?_⟩
  -- the purge leaves the trunk carrying the camera, and no other trunk does
  have hpurge : TrunksOk s.mMatrixId (fun c => c ∈ s.mCameras) (purgeTrunks env s.mTrunks) := hinv.purge env
  have hget : (purgeTrunks env s.mTrunks)[i]? = some (trunk.updateUsers (env.purge i)) := by
    rw [getElem?_purgeTrunks, htrunk]
    rfl
  have hcarried' : (trunk.updateUsers (env.purge i)).mCameraId = ⟨s.mMatrixId, c⟩ := by
    have hsame := (hleased.purged hw).2
    unfold carried at hsame
    rw [show (s.purged env).mTrunks[i]? = _ from hget, htrunk] at hsame
    exact (Option.some.inj hsame).trans hcarried
  have hmem := List.mem_of_getElem? hget
  cases hstep.request hmeth with
  | busy hfind =>
    cases findTrunk_choice hfind with
    | none hother => exact absurd (hcarried'.trans hcam.symm) (hother _ hmem)
  | @granted k trunk' hfind htrunk' _ _ =>
    have hchoice := findTrunk_choice hfind
    rw [hcam] at hchoice
    have hk : i = k := hchoice.only hpurge hmid i _ hget hcarried'
    rw [← hk, hget, Option.some.injEq] at htrunk'
    rw [← htrunk', Trunk.updateUsers_mOutport]
    simp
  | noCamera _ _ _ hunknown =>
    -- what a trunk carries is a known camera
    obtain ⟨c', hc', hin⟩ := hpurge.carries _ hmem (hpurge.busy hmid hmem hcarried')
    rw [hcarried', GlobalID.mk.injEq] at hc'
    rw [hc, hc'.2] at hunknown
    exact absurd hin hunknown
  | noMatrix _ _ hfar => exact absurd hto hfar
  | forwarded _ _ hfar => exact absurd hto hfar

/-! ## Runs -/

/-- A step at which `checkTrunk` puts no user before `u` on trunk `i`. -/
def Undisturbed (i : ℕ) (u : GlobalID) (s : ResourceManager Q) (l : Event × List Action)
    (s' : ResourceManager Q) : Prop :=
  Step s l s' ∧ ∀ request, l.1.input = .clientRequest request → request.mMethod = .switch →
    request.user < u → findTrunk (purgeTrunks l.1.env s.mTrunks) request.user request.camera ≠ .ok (some i)

/-- A run whose clock stays within the lease. -/
def WithinLease (t : Int) (ls : List (Event × List Action)) : Prop := ∀ l ∈ ls, l.1.env.Within t (t + 20)

/-- The entry stays for the whole lease, whoever preempts the trunk meanwhile. -/
theorem Leased.run {i : ℕ} {u : GlobalID} {t : Int} {s s' : ResourceManager Q}
    {ls : List (Event × List Action)} (h : Leased i u (t + 20) s) (hrun : Run Step s ls s')
    (hw : WithinLease t ls) : Leased i u (t + 20) s' :=
  hrun.invariant_of (G := fun l => l.1.env.Within t (t + 20)) (fun _ _ _ hi hG hst => hi.step hG hst)
    (fun l hl => hw l hl) h

/-- The trunk keeps its camera until an earlier user is put on it. -/
theorem Leased.carried_run {i : ℕ} {u : GlobalID} {t : Int} {s s' : ResourceManager Q}
    {ls : List (Event × List Action)} (h : Leased i u (t + 20) s) (hrun : Run (Undisturbed i u) s ls s')
    (hw : WithinLease t ls) : Leased i u (t + 20) s' ∧ s'.carried i = s.carried i := by
  refine hrun.invariant_of (I := fun k => Leased i u (t + 20) k ∧ k.carried i = s.carried i)
    (G := fun l => l.1.env.Within t (t + 20)) ?_ (fun l hl => hw l hl) ⟨h, rfl⟩
  rintro s₁ l s₂ ⟨hi, hsame⟩ hG ⟨hstep, hbelow⟩
  exact ⟨hi.step hG hstep, (hi.carried_eq hG hstep hbelow).trans hsame⟩

/-- A `SWITCH` answered 200 leases the trunk it found to its user, for the camera asked for. -/
theorem leased_of_answer {i : ℕ} {env : Env} {request : AgentRequest} {s s' : ResourceManager Q}
    {out : List Action} (hmeth : request.mMethod = .switch)
    (hstep : Step s (⟨env, .clientRequest request⟩, out) s')
    (hfind : findTrunk (purgeTrunks env s.mTrunks) request.user request.camera = .ok (some i))
    (hanswer : ∃ response, .clientRespond response ∈ out ∧ response.mStatusCode = 200) :
    Leased i request.user (env.update + 20) s' ∧ s'.carried i = some request.camera ∧
      request.mTo = s.mMatrixId := by
  obtain ⟨response, hmem, hcode⟩ := hanswer
  cases hstep.request hmeth with
  | busy hnone =>
    rw [hfind] at hnone
    cases hnone
  | @granted k trunk hk htrunk hto _ =>
    rw [hfind] at hk
    cases hk
    have hget : ((s.purged env).grantTrunk i (request.entry env)
        ⟨s.mMatrixId, request.mContent.swiCameraid⟩).mTrunks[i]? =
          some (trunk.grant (request.entry env) ⟨s.mMatrixId, request.mContent.swiCameraid⟩) := by
      show ((purgeTrunks env s.mTrunks).modify i _)[i]? = _
      rw [List.getElem?_modify, htrunk]
      simp [Trunk.grant]
    refine ⟨⟨_, hget, request.entry env, Trunk.mem_grant.mpr (Or.inl rfl), rfl, le_refl _⟩, ?_, hto⟩
    unfold carried
    rw [hget]
    show some (⟨s.mMatrixId, request.mContent.swiCameraid⟩ : GlobalID) = some request.camera
    rw [AgentMessage.camera, hto]
  -- the other answers are 404, and a request sent on is not answered here
  | noCamera =>
    simp only [List.mem_singleton, Action.clientRespond.injEq] at hmem
    rw [hmem] at hcode
    exact absurd (show (404 : Int) = 200 from hcode) (by decide)
  | noMatrix =>
    simp only [List.mem_singleton, Action.clientRespond.injEq] at hmem
    rw [hmem] at hcode
    exact absurd (show (404 : Int) = 200 from hcode) (by decide)
  | forwarded =>
    simp only [List.mem_singleton] at hmem
    cases hmem

/-- **Trunk lease.** From new trunks, after any history, let a `SWITCH` of user `u` be answered 200 on trunk
    `i` at time `t`. Then while the clock stays within `[t, t + 20]`:
    until the first `SWITCH` of an earlier user that is put on the trunk, the trunk carries the camera and
    `u` is among its users; no request of a user who does not come before `u` ever changes what the trunk
    carries; and every `SWITCH` for the camera while the trunk carries it is answered 200 with its outport. -/
theorem trunk_lease {s₀ s₁ s₂ : ResourceManager Q} {pre : List (Event × List Action)} {env : Env}
    {request : AgentRequest} {out : List Action} {i : ℕ}
    (hnew : ∀ t ∈ s₀.mTrunks, ∃ id outport, t = Trunk.new id outport) (hmid : 0 ≤ s₀.mMatrixId)
    (hpre : Run Step s₀ pre s₁) (hmeth : request.mMethod = .switch)
    (hstep : Step s₁ (⟨env, .clientRequest request⟩, out) s₂)
    (hfind : findTrunk (purgeTrunks env s₁.mTrunks) request.user request.camera = .ok (some i))
    (hanswer : ∃ response, .clientRespond response ∈ out ∧ response.mStatusCode = 200) :
    (∀ mid s₃, Run (Undisturbed i request.user) s₂ mid s₃ → WithinLease env.update mid →
      ∃ trunk, s₃.mTrunks[i]? = some trunk ∧ trunk.mCameraId = request.camera ∧
        ∃ e : User, e ∈ trunk.mUsers ∧ e.mId = request.user) ∧
    (∀ mid s₃ env' request' out' s₄, Run Step s₂ mid s₃ → WithinLease env.update mid →
      env'.Within env.update (env.update + 20) → request.user ≤ AgentMessage.user request' →
      Step s₃ (⟨env', .clientRequest request'⟩, out') s₄ → s₄.carried i = s₃.carried i) ∧
    (∀ mid s₃ env' request' trunk, Run Step s₂ mid s₃ → WithinLease env.update mid →
      env'.Within env.update (env.update + 20) → s₃.mTrunks[i]? = some trunk →
      trunk.mCameraId = request.camera → request'.mMethod = .switch →
      AgentMessage.camera request' = request.camera →
      ∃ s₄ out', Step s₃ (⟨env', .clientRequest request'⟩, out') s₄ ∧
        .clientRespond (request'.switchAnswer env' 200 "Ok" trunk.mOutport) ∈ out') := by
  obtain ⟨hleased, hcarried, hto⟩ := leased_of_answer hmeth hstep hfind hanswer
  have hrun₂ := hpre.snoc hstep
  refine ⟨?_, ?_, ?_⟩
  · intro mid s₃ hrun hw
    obtain ⟨⟨trunk, htrunk, e, he, hu, -⟩, hsame⟩ := hleased.carried_run hrun hw
    refine ⟨trunk, htrunk, ?_, e, he, hu⟩
    obtain ⟨trunk', htrunk', hcid⟩ := carries_iff.mpr (hsame.trans hcarried)
    rw [htrunk, Option.some.injEq] at htrunk'
    rw [htrunk', hcid]
  · intro mid s₃ env' request' out' s₄ hrun hw hw' hle hstep'
    refine (hleased.run hrun hw).carried_eq hw' hstep' ?_
    rintro request'' hin - hlt
    cases hin
    exact absurd (lt_of_lt_of_le hlt hle) (lt_irrefl _)
  · intro mid s₃ env' request' trunk hrun hw hw' htrunk hcid hmeth' hcam
    obtain ⟨hinv, hid⟩ := trunkInv_of_run hnew hmid (hrun₂.append hrun)
    have hid₁ := (trunkInv_of_run hnew hmid hpre).2
    have hrequest : request.camera = ⟨s₃.mMatrixId, request.mContent.swiCameraid⟩ := by
      rw [AgentMessage.camera, hto, hid₁, hid]
    exact step_of_carries hinv (by rw [hid]; exact hmid) (hleased.run hrun hw) hw' htrunk
      (hcid.trans hrequest) hmeth' (hcam.trans hrequest)

/-- User (9, 0) is granted the only trunk at 100. At 105 it still carries the camera for that user, although
    user (12, 0) has asked for another one. -/
theorem trunk_lease_at_105 :
    ∃ s : ResourceManager (List User), ∃ trunk, s.mTrunks[0]? = some trunk ∧ trunk.mCameraId = ⟨1, 4⟩ ∧
      ∃ e : User, e ∈ trunk.mUsers ∧ e.mId = ⟨9, 0⟩ := by
  let start : ResourceManager (List User) := configured 0 1 1 [4, 5] [1] [(1, 2)]
  let request : AgentRequest := ⟨0, 9, 1, .request, .switch, 77, fun _ => 4⟩
  have hnew : Initial start := configured_initial (List.cons_ne_nil _ _)
  have hgrant : Step start (⟨Env.at 100, .clientRequest request⟩, _) _ := step_of_eq rfl
  refine ⟨_, (trunk_lease (i := 0) hnew.trunks (by decide) .nil rfl hgrant rfl
      ⟨_, List.mem_cons_of_mem _ (List.mem_cons_of_mem _ List.mem_cons_self), rfl⟩).1
    [(⟨Env.at 105, .clientRequest ⟨0, 12, 1, .request, .switch, 78, fun _ => 5⟩⟩, _)] _
    (.single ⟨step_of_eq rfl, fun _ heq _ hlt => absurd (Input.clientRequest.inj heq ▸ hlt) (by decide)⟩) ?_⟩
  intro l hl
  rw [List.mem_singleton.mp hl]
  exact Env.within_at (by decide) (by decide)

end ResourceManager

end Mcc
