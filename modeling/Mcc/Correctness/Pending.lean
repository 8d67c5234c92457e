import Mcc.Correctness.Traffic

/-!
# `Correctness.Pending` — requests that wait for an answer

A request a manager sends to a child leaves a context under its id, and the answer is recognised by it. Three
places store contexts, and they treat an id that is already pending differently: a local switch replaces the
context, a local PTZ message keeps it and sends its request all the same, a request of the parent fails an
assertion. So no request is lost exactly as long as every id that comes in is new (`pending_requests`), and a
request of the parent is served exactly where its handler meets none of the three ways to fail that are left
(`parent_request_served`).

## Contents
- **One event.** `ContextStep`, by what it does to the contexts.
- **Runs.** `pending_requests`.
- **Requests of the parent.** `parent_request_served`.
-/

namespace Mcc

open Transition ResourceManager PriorityQueue

/-! ## One event -/

namespace ResourceManager

variable {Q : Type}

/-- The context an event stores for the request it sends. -/
def contextOf (ev : Event) (request : AgentRequest) : ProcessContext :=
  match ev.input with
  | .localSwitch kb msg => ⟨request.mId, kb, msg⟩
  | .localPtz kb msg => ⟨request.mId, kb, { msg with cameraId := request.camera }⟩
  | _ => ⟨request.mId, none, KeyboardMessage.new⟩

/-- The local switch asks a child: the monitor is there and free, the camera of a known child matrix. -/
def SwitchForwards (env : Env) (s : ResourceManager Q) (msg : KeyboardMessage) : Prop :=
  ∃ m matrix, s.mMonitors.deref msg.monitorId = some m ∧ ¬ InUse env m msg.keyboardId ∧
    msg.cameraId.mid ≠ s.mMatrixId ∧ s.matchMatrix msg.cameraId.mid = some matrix

theorem SwitchOutcome.pending {env : Env} {s s' : ResourceManager Q} {msg : KeyboardMessage}
    {kb : KeyboardPtr} {r : ProcessResult} {out : List Action} (h : SwitchOutcome env s msg kb r s' out) :
    (¬ SwitchForwards env s msg ∧ s'.mProcessContexts = s.mProcessContexts ∧ toChildren out = []) ∨
      SwitchForwards env s msg ∧ (∃ fd, toChildren out = [(fd, s.switchRequest env msg)]) ∧
        s'.mProcessContexts = s.mProcessContexts.insert env.rand ⟨env.rand, kb, msg⟩ := by
  cases h with
  | noMonitor hm =>
    refine Or.inl ⟨?_, rfl, rfl⟩
    rintro ⟨m, -, hsome, -⟩
    rw [hm] at hsome
    cases hsome
  | inUse hm huse =>
    refine Or.inl ⟨?_, rfl, rfl⟩
    rintro ⟨m, -, hsome, hnot, -⟩
    rw [hm, Option.some.injEq] at hsome
    exact hnot (hsome ▸ huse)
  | noCamera _ _ hmid => exact Or.inl ⟨fun ⟨_, _, _, _, hne, _⟩ => hne hmid, rfl, rfl⟩
  | taken _ _ hmid => exact Or.inl ⟨fun ⟨_, _, _, _, hne, _⟩ => hne hmid, rfl, rfl⟩
  | noMatrix _ _ _ hmatrix =>
    refine Or.inl ⟨?_, rfl, rfl⟩
    rintro ⟨_, _, -, -, -, hsome⟩
    rw [hmatrix] at hsome
    cases hsome
  | sent hm huse hmid hmatrix => exact Or.inr ⟨⟨_, _, hm, huse, hmid, hmatrix⟩, ⟨_, rfl⟩, rfl⟩

/-- The local PTZ message is for a camera of a known child matrix. -/
def PtzForwards (s : ResourceManager Q) (msg : KeyboardMessage) : Prop :=
  ∃ matrix, msg.cameraId.mid ≠ s.mMatrixId ∧ s.matchMatrix msg.cameraId.mid = some matrix

theorem PtzMessageOutcome.pending {env : Env} {s s' : ResourceManager Q} {msg : KeyboardMessage}
    {kb : KeyboardPtr} {r : ProcessResult} {out : List Action}
    (h : PtzMessageOutcome env s msg kb r s' out) :
    (¬ PtzForwards s msg ∧ s'.mProcessContexts = s.mProcessContexts ∧ toChildren out = []) ∨
      PtzForwards s msg ∧ (∃ fd, toChildren out = [(fd, s.ptzRequest env msg)]) ∧
        (s'.mProcessContexts = s.mProcessContexts.insert env.rand ⟨env.rand, kb, msg⟩ ∨
          env.rand ∈ s.mProcessContexts ∧ s'.mProcessContexts = s.mProcessContexts) := by
  cases h with
  | noCamera hmid => exact Or.inl ⟨fun ⟨_, hne, _⟩ => hne hmid, rfl, rfl⟩
  | processed hmid => exact Or.inl ⟨fun ⟨_, hne, _⟩ => hne hmid, rfl, rfl⟩
  | noMatrix _ hmatrix =>
    refine Or.inl ⟨?_, rfl, rfl⟩
    rintro ⟨_, -, hsome⟩
    rw [hmatrix] at hsome
    cases hsome
  | sent hmid hmatrix =>
    refine Or.inr ⟨⟨_, hmid, hmatrix⟩, ⟨_, rfl⟩, ?_⟩
    by_cases hin : env.rand ∈ s.mProcessContexts
    · rw [if_pos (Std.ExtTreeMap.contains_iff_mem.mpr hin)]
      exact Or.inr ⟨hin, rfl⟩
    · rw [if_neg (fun hc => hin (Std.ExtTreeMap.contains_iff_mem.mp hc))]
      exact Or.inl rfl

theorem ResponseOutcome.pending {s s' : ResourceManager Q} {response : AgentResponse} {out : List Action}
    (h : ResponseOutcome s response s' out) :
    s'.mProcessContexts = s.mProcessContexts.erase response.mId ∧ toChildren out = [] := by
  cases h with
  | unknown hnot => exact ⟨(IntMap.erase_of_not_mem hnot).symm, rfl⟩
  | switched => exact ⟨rfl, rfl⟩
  | failed => exact ⟨rfl, rfl⟩
  | ptzDone => exact ⟨rfl, rfl⟩
  | relayed => exact ⟨rfl, rfl⟩
  | dropped => exact ⟨rfl, rfl⟩

theorem ClientPtzOutcome.pending {env : Env} {s s' : ResourceManager Q} {request : AgentRequest}
    {out : List Action} (h : ClientPtzOutcome env s request s' out) :
    s'.mProcessContexts = s.mProcessContexts ∧ toChildren out = [] := by
  cases h with
  | noCamera => exact ⟨rfl, rfl⟩
  | accepted => exact ⟨rfl, rfl⟩
  | refused => exact ⟨rfl, rfl⟩
  | noMatrix => exact ⟨rfl, rfl⟩

variable [PriorityQueue Q User]

/-- A trunk could be had: after the purge one carries the camera, is free, or is topped by a user that comes
    after this one. -/
def TrunkAvailable (env : Env) (s : ResourceManager Q) (user cid : GlobalID) : Prop :=
  ∃ t ∈ purgeTrunks env s.mTrunks, t.mCameraId = cid ∨ t.empty = true ∨ ∃ u, t.top = some u ∧ user < u.mId

/-- The search finds a trunk exactly where there is one to be had. -/
theorem TrunkChoice.isSome_iff {env : Env} {s : ResourceManager Q} {user cid : GlobalID} {r : Option ℕ}
    (h : TrunkChoice (purgeTrunks env s.mTrunks) user cid r) :
    r.isSome = true ↔ TrunkAvailable env s user cid := by
  cases h with
  | carrying ht hcid => exact iff_of_true rfl ⟨_, List.mem_of_getElem? ht, Or.inl hcid⟩
  | free _ ht hempty => exact iff_of_true rfl ⟨_, List.mem_of_getElem? ht, Or.inr (Or.inl hempty)⟩
  | preempted _ _ ht htop hlt =>
    exact iff_of_true rfl ⟨_, List.mem_of_getElem? ht, Or.inr (Or.inr ⟨_, htop, hlt⟩)⟩
  | none hcid hused hmax =>
    refine iff_of_false Bool.false_ne_true ?_
    rintro ⟨t, ht, hcarries | hempty | ⟨u, htop, hlt⟩⟩
    · exact hcid t ht hcarries
    · rw [hused t ht] at hempty
      cases hempty
    · exact absurd hlt (not_lt.mpr (hmax t ht u htop))

/-- The `SWITCH` of the parent is passed on: a trunk could be had, and the matrix is below a known child. -/
def RequestForwards (env : Env) (s : ResourceManager Q) (request : AgentRequest) : Prop :=
  ∃ matrix, TrunkAvailable env s request.user request.camera ∧ request.mTo ≠ s.mMatrixId ∧
    s.matchMatrix request.mTo = some matrix

theorem ClientSwitchOutcome.pending {env : Env} {s s' : ResourceManager Q} {request : AgentRequest}
    {out : List Action} (h : ClientSwitchOutcome env s request s' out) :
    (¬ RequestForwards env s request ∧ s'.mProcessContexts = s.mProcessContexts ∧ toChildren out = []) ∨
      RequestForwards env s request ∧ (∃ fd, toChildren out = [(fd, request)]) ∧
        request.mId ∉ s.mProcessContexts ∧
        s'.mProcessContexts =
          s.mProcessContexts.insert request.mId ⟨request.mId, none, KeyboardMessage.new⟩ := by
  cases h with
  | busy hfind =>
    refine Or.inl ⟨?_, rfl, rfl⟩
    rintro ⟨_, havailable, -⟩
    cases (findTrunk_choice hfind).isSome_iff.mpr havailable
  | granted _ _ hto => exact Or.inl ⟨fun ⟨_, _, hne, _⟩ => hne hto, rfl, rfl⟩
  | noCamera _ _ hto => exact Or.inl ⟨fun ⟨_, _, hne, _⟩ => hne hto, rfl, rfl⟩
  | noMatrix _ _ _ hmatrix =>
    refine Or.inl ⟨?_, rfl, rfl⟩
    rintro ⟨_, -, -, hsome⟩
    rw [hmatrix] at hsome
    cases hsome
  | forwarded hfind _ hto hmatrix hid =>
    exact Or.inr ⟨⟨_, (findTrunk_choice hfind).isSome_iff.mp rfl, hto, hmatrix⟩, ⟨_, rfl⟩, hid, rfl⟩

/-- The event leads to a request to a child. -/
def Forwards (s : ResourceManager Q) (ev : Event) : Prop :=
  match ev.input with
  | .localSwitch _ msg => SwitchForwards ev.env s msg
  | .localPtz _ msg => PtzForwards s (s.ptzTarget msg)
  | .clientRequest request => request.mMethod = .switch ∧ RequestForwards ev.env s request
  | _ => False

/-- **One event, by what it does to the contexts.** -/
inductive ContextStep (s : ResourceManager Q) (ev : Event) (out : List Action) (s' : ResourceManager Q) :
    Prop where
  | same : ¬ Forwards s ev → s'.mProcessContexts = s.mProcessContexts → toChildren out = [] →
      ContextStep s ev out s'
  | closed {response} : ev.input = .serverResponse response →
      s'.mProcessContexts = s.mProcessContexts.erase response.mId → toChildren out = [] →
      ContextStep s ev out s'
  /-- a request is sent, with a context of its own or, if its id was pending, perhaps without -/
  | sent {fd request} : Forwards s ev → toChildren out = [(fd, request)] → request.mId = ev.about →
      (s'.mProcessContexts = s.mProcessContexts.insert request.mId (contextOf ev request) ∨
        request.mId ∈ s.mProcessContexts ∧ s'.mProcessContexts = s.mProcessContexts) →
      ContextStep s ev out s'

theorem Step.contexts {s s' : ResourceManager Q} {ev : Event} {out : List Action}
    (h : Step s (ev, out) s') : ContextStep s ev out s' := by
  obtain ⟨env, input⟩ := ev
  cases input with
  | localSwitch kb msg =>
    obtain ⟨r, s₁, acts, hout, hend⟩ := onSwitch_eq (show s.onSwitch env kb msg = .ok (s', out) from h)
    have hctx : s'.mProcessContexts = s₁.mProcessContexts := by
      rcases hend with ⟨-, rfl, -⟩ | ⟨-, rfl, -⟩ | ⟨-, rfl, -⟩ <;> rfl
    have hsent : toChildren out = toChildren acts := by
      rcases hend with ⟨-, -, rfl⟩ | ⟨-, -, k, -, rfl⟩ | ⟨-, -, rfl⟩
      · exact (toChildren_append _ _).trans (List.append_nil _)
      · exact (toChildren_append _ _).trans (List.append_nil _)
      · rfl
    rcases hout.pending with ⟨hnot, hkept, hnone⟩ | ⟨hforwards, ⟨fd, hone⟩, hstored⟩
    · exact .same hnot (hctx.trans hkept) (hsent.trans hnone)
    · exact .sent hforwards (hsent.trans hone) rfl (Or.inl (hctx.trans hstored))
  | localPtz kb msg =>
    obtain ⟨r, acts, hout, hend⟩ := onPtz_eq (show s.onPtz env kb msg = .ok (s', out) from h)
    have hsent : toChildren out = toChildren acts := by
      rcases hend with ⟨-, rfl⟩ | ⟨-, k, -, rfl⟩ | ⟨-, rfl⟩
      · exact (toChildren_append _ _).trans (List.append_nil _)
      · exact (toChildren_append _ _).trans (List.append_nil _)
      · rfl
    rcases hout.pending with ⟨hnot, hkept, hnone⟩ | ⟨hforwards, ⟨fd, hone⟩, hstored⟩
    · exact .same hnot hkept (hsent.trans hnone)
    · exact .sent hforwards (hsent.trans hone) rfl hstored
  | clientRequest request =>
    cases Step.clientRequest h with
    | switch hmethod hout =>
      rcases hout.pending with ⟨hnot, hkept, hnone⟩ | ⟨hf, ⟨fd, hone⟩, -, hstored⟩
      · exact .same (fun hforwards => hnot hforwards.2) hkept hnone
      · exact .sent ⟨hmethod, hf⟩ hone rfl (Or.inl hstored)
    | ptz hmethod hout =>
      obtain ⟨hkept, hnone⟩ := hout.pending
      exact .same (fun hf => absurd (hmethod.symm.trans hf.1) (by decide)) hkept hnone
    | ignored hswitch => exact .same (fun hf => hswitch hf.1) rfl rfl
  | serverResponse response =>
    obtain ⟨hctx, hsent⟩ := (Step.response h).pending
    exact .closed rfl hctx hsent
  | register fd reg =>
    obtain ⟨⟨children, rfl⟩, hout⟩ := onRegister_eq (show s.onRegister env fd reg = .ok (s', out) from h)
    refine .same (fun hf => hf) rfl ?_
    rcases hout with rfl | ⟨request, rfl⟩
    · rfl
    · rfl
  | disconnect fd =>
    obtain ⟨rfl, rfl⟩ := onDisconnect_ok h
    exact .same (fun hf => hf) rfl rfl
  | connected =>
    obtain ⟨rfl, request, rfl⟩ := onClientConnected_ok h
    exact .same (fun hf => hf) rfl rfl
  | disconnected =>
    cases h
    exact .same (fun hf => hf) rfl rfl

/-! ## Runs -/

/-- The id of the request this event sends is not pending. -/
def Fresh (s : ResourceManager Q) (ev : Event) : Prop := Forwards s ev → ev.about ∉ s.mProcessContexts

/-- **Nothing is lost in one step.** -/
structure NothingLost (s : ResourceManager Q) (l : Event × List Action) (s' : ResourceManager Q) : Prop where
  /-- a context stays as it is, unless a response with its id comes in -/
  kept : ∀ id context, s.mProcessContexts[id]? = some context →
    (∀ response, l.1.input = .serverResponse response → response.mId ≠ id) →
    s'.mProcessContexts[id]? = some context
  /-- a request sent has an id that was not pending, and a context of its own -/
  own : ∀ fd request, (fd, request) ∈ toChildren l.2 → request.mId ∉ s.mProcessContexts ∧
    s'.mProcessContexts[request.mId]? = some (contextOf l.1 request)

/-- **A step loses nothing exactly when the id is new.** -/
theorem Step.nothingLost_iff {s s' : ResourceManager Q} {l : Event × List Action} (h : Step s l s') :
    Fresh s l.1 ↔ NothingLost s l s' := by
  obtain ⟨ev, out⟩ := l
  cases h.contexts with
  | same hnot hsame hnone =>
    refine ⟨fun _ => ⟨?_, ?_⟩, fun _ hforwards => absurd hforwards hnot⟩
    · intro id context hid _
      rw [hsame]
      exact hid
    · intro fd request hmem
      rw [hnone] at hmem
      cases hmem
  | @closed response hin herase hnone =>
    have hnot : ¬ Forwards s ev := by
      unfold Forwards
      rw [hin]
      exact fun hf => hf
    refine ⟨fun _ => ⟨?_, ?_⟩, fun _ hforwards => absurd hforwards hnot⟩
    · intro id context hid hother
      rw [herase, Std.ExtTreeMap.getElem?_erase, if_neg (IntMap.compare_ne (hother response hin).symm)]
      exact hid
    · intro fd request hmem
      rw [hnone] at hmem
      cases hmem
  | @sent fd request hforwards hone hid hcontexts =>
    constructor
    · intro hfresh
      have hnew : request.mId ∉ s.mProcessContexts := by
        rw [hid]
        exact hfresh hforwards
      rcases hcontexts with hinsert | ⟨hin, -⟩
      · refine ⟨?_, ?_⟩
        · intro id context hget _
          have hne : id ≠ request.mId := by
            rintro rfl
            rw [Std.ExtTreeMap.getElem?_eq_none hnew] at hget
            cases hget
          rw [hinsert, Std.ExtTreeMap.getElem?_insert, if_neg (IntMap.compare_ne hne)]
          exact hget
        · intro fd' request' hmem
          rw [hone] at hmem
          cases List.mem_singleton.mp hmem
          refine ⟨hnew, ?_⟩
          rw [hinsert]
          exact Std.ExtTreeMap.getElem?_insert_self
      · exact absurd hin hnew
    · intro hlost _
      rw [← hid]
      exact (hlost.own fd request (by rw [hone]; exact List.mem_singleton_self _)).1

/-- While no response with its id comes in, a context stays, and no request with that id is sent. -/
theorem waits {s s' : ResourceManager Q} {ls : List (Event × List Action)}
    (hrun : RunOf Step (fun s l _ => Fresh s l.1) s ls s') {id : Int} {context : ProcessContext}
    (hno : ∀ l ∈ ls, ∀ response, l.1.input = .serverResponse response → response.mId ≠ id)
    (hctx : s.mProcessContexts[id]? = some context) :
    s'.mProcessContexts[id]? = some context ∧ ∀ l ∈ ls, ∀ p ∈ toChildren l.2, p.2.mId ≠ id := by
  unfold RunOf at hrun
  induction hrun with
  | nil => exact ⟨hctx, fun l hl => absurd hl List.not_mem_nil⟩
  | @cons s s₁ s' l ls hstep _ ih =>
    have hlost := hstep.1.nothingLost_iff.mp hstep.2
    have hmem : id ∈ s.mProcessContexts := by
      rw [Std.ExtTreeMap.mem_iff_isSome_getElem?, hctx]
      rfl
    have hstays := hlost.kept id context hctx (hno l List.mem_cons_self)
    obtain ⟨hend, hlater⟩ := ih (fun l' hl' => hno l' (List.mem_cons_of_mem _ hl')) hstays
    refine ⟨hend, ?_⟩
    intro l' hl' p hp heq
    rcases List.mem_cons.mp hl' with rfl | htail
    · exact (hlost.own p.1 p.2 hp).1 (heq ▸ hmem)
    · exact hlater l' htail p hp heq

/-- The search faults where there is no trunk, and nowhere else. -/
theorem findTrunk_error {ts : List (Trunk Q)} {user cid : GlobalID} {f : Fault}
    (h : findTrunk ts user cid = .error f) : ts = [] ∧ f = .badIterator := by
  cases ts with
  | nil =>
    cases h
    exact ⟨rfl, rfl⟩
  | cons t ts =>
    obtain ⟨r, hr⟩ := findTrunk_ok (List.cons_ne_nil t ts) user cid
    rw [hr] at h
    cases h

/-- A `SWITCH` of the parent fails an assertion exactly when it is to be passed on under a pending id. -/
theorem onClientRxSwitch_assertion_iff {env : Env} {s : ResourceManager Q} {request : AgentRequest} :
    s.onClientRxSwitch env request = .error .assertion ↔
      RequestForwards env s request ∧ request.mId ∈ s.mProcessContexts := by
  have hend := onClientRxSwitch_end env s request
  generalize s.onClientRxSwitch env request = r at hend
  cases hend with
  | noSearch hfind =>
    obtain ⟨hnil, rfl⟩ := findTrunk_error hfind
    refine iff_of_false (fun hc => Fault.noConfusion (Except.error.inj hc)) ?_
    rintro ⟨⟨_, ⟨t, ht, -⟩, -⟩, -⟩
    rw [hnil] at ht
    cases ht
  | noTrunk hfind hnone =>
    obtain ⟨t, ht⟩ := (findTrunk_choice hfind).getElem?
    rw [hnone] at ht
    cases ht
  | repeated hfind hto hmatrix hctx =>
    exact iff_of_true rfl ⟨⟨_, (findTrunk_choice hfind).isSome_iff.mp rfl, hto, hmatrix⟩, hctx⟩
  | ended hout =>
    refine iff_of_false (by rintro ⟨⟩) ?_
    rintro ⟨hforwards, hctx⟩
    rcases hout.pending with ⟨hnot, -⟩ | ⟨-, -, hid, -⟩
    · exact hnot hforwards
    · exact hid hctx

omit [PriorityQueue Q User] in
theorem registerChild_error {s : ResourceManager Q} {fd : Int} {reg : AgentRequest} {f : Fault}
    (h : s.registerChild fd reg = .error f) : f = .badIterator := by
  unfold registerChild at h
  simp only at h
  split at h
  · split at h
    · cases h
    · rename_i matrix _
      cases hclear : matrix.clearChildren with
      | ok m =>
        rw [hclear] at h
        cases h
      | error g =>
        rw [hclear] at h
        cases h
        unfold MatrixInfo.clearChildren at hclear
        split at hclear
        · cases hclear
        · cases hclear
          rfl
  · cases h

omit [PriorityQueue Q User] in
/-- A registration overruns the array or advances an erased iterator, if it faults. -/
theorem onRegister_error {env : Env} {s : ResourceManager Q} {fd : Int} {reg : AgentRequest} {f : Fault}
    (h : s.onRegister env fd reg = .error f) : f = .outOfBounds ∨ f = .badIterator := by
  unfold onRegister at h
  split at h
  · cases h
  · cases hchild : s.registerChild fd reg with
    | error g =>
      rw [hchild] at h
      cases h
      exact Or.inr (registerChild_error hchild)
    | ok s₁ =>
      rw [hchild] at h
      simp only [bind, Except.bind] at h
      split at h
      · cases hbuild : s₁.buildRegister env with
        | error g =>
          rw [hbuild] at h
          cases h
          exact Or.inl (buildRegister_error hbuild)
        | ok request =>
          rw [hbuild] at h
          cases h
      · cases h

omit [PriorityQueue Q User] in
/-- A rejection that cannot be told faults on the null keyboard. -/
theorem notifyRejected_map_ne {kb : KeyboardPtr} {msg : KeyboardMessage} {f : List Action → Outcome Q} :
    (notifyRejected kb msg).map f ≠ .error .assertion := by
  cases kb with
  | none =>
    intro h
    cases h
  | some k =>
    intro h
    cases h

/-- An event that is no request of the parent fails no assertion. -/
theorem step_ne_assertion {s : ResourceManager Q} {ev : Event}
    (hnot : ∀ request, ev.input ≠ .clientRequest request) : s.step ev ≠ .error .assertion := by
  obtain ⟨env, input⟩ := ev
  cases input with
  | localSwitch kb msg =>
    show s.onSwitch env kb msg ≠ .error .assertion
    unfold onSwitch
    split
    · simp
    · exact notifyRejected_map_ne
    · simp
  | localPtz kb msg =>
    show s.onPtz env kb msg ≠ .error .assertion
    unfold onPtz
    simp only
    split
    · simp
    · exact notifyRejected_map_ne
    · simp
  | clientRequest request => exact absurd rfl (hnot request)
  | serverResponse response =>
    obtain ⟨s', out, heq, -⟩ := s.onServerRxResponse_outcome response
    show s.onServerRxResponse response ≠ _
    rw [heq]
    simp
  | register fd reg =>
    intro h
    rcases onRegister_error (show s.onRegister env fd reg = _ from h) with hf | hf
    · cases hf
    · cases hf
  | disconnect fd =>
    show s.onDisconnect fd ≠ _
    unfold onDisconnect
    split
    · simp
    · simp
  | connected =>
    intro h
    have h' : s.onClientConnected env = .error .assertion := h
    unfold onClientConnected at h'
    simp only at h'
    cases hbuild : buildRegister env { s with misClientConnected := true } with
    | error f =>
      rw [hbuild] at h'
      rw [buildRegister_error hbuild] at h'
      cases h'
    | ok request =>
      rw [hbuild] at h'
      cases h'
  | disconnected => rintro ⟨⟩

/-- A request of the parent fails one exactly when its id is not new. -/
theorem request_assertion_iff {s : ResourceManager Q} {env : Env} {request : AgentRequest} :
    s.onClientRxRequest env request = .error .assertion ↔ ¬ Fresh s ⟨env, .clientRequest request⟩ := by
  have hfresh : ¬ Fresh s ⟨env, .clientRequest request⟩ ↔
      (request.mMethod = .switch ∧ RequestForwards env s request) ∧ request.mId ∈ s.mProcessContexts := by
    show ¬ (_ → _ ∉ _) ↔ _
    rw [Classical.not_imp, not_not]
    rfl
  rw [hfresh]
  unfold onClientRxRequest
  cases hmethod : request.mMethod with
  | switch =>
    show s.onClientRxSwitch env request = .error .assertion ↔ _
    rw [onClientRxSwitch_assertion_iff]
    simp
  | ptz =>
    refine iff_of_false ?_ (by simp)
    show s.onClientRxPtz env request ≠ .error .assertion
    have hend := onClientRxPtz_end env s request
    intro h
    rw [h] at hend
    cases hend
  | register => simp
  | other n => simp

/-- **Which events fail an assertion**: the requests of the parent whose id is not new. -/
theorem step_assertion_iff {s : ResourceManager Q} {ev : Event} :
    s.step ev = .error .assertion ↔ (∃ request, ev.input = .clientRequest request) ∧ ¬ Fresh s ev := by
  by_cases hrequest : ∃ request, ev.input = .clientRequest request
  · obtain ⟨env, input⟩ := ev
    obtain ⟨request, rfl⟩ := hrequest
    rw [and_iff_right ⟨request, rfl⟩]
    exact request_assertion_iff
  · refine iff_of_false ?_ (fun h => hrequest h.1)
    exact step_ne_assertion fun request hin => hrequest ⟨request, hin⟩

/-- **When no pending request is lost.** The runs that lose nothing in any step are those in which every id
    that comes in is new; then a request waits under its own context until its response comes in. An id of the
    parent that is not new fails an assertion, and nothing else does. -/
theorem pending_requests (s₀ s : ResourceManager Q) (ls : List (Event × List Action)) :
    (RunOf Step (fun s l _ => Fresh s l.1) s₀ ls s ↔ RunOf Step NothingLost s₀ ls s) ∧
    (RunOf Step (fun s l _ => Fresh s l.1) s₀ ls s →
      ∀ before l after fd request, ls = before ++ l :: after → (fd, request) ∈ toChildren l.2 →
        (∀ l' ∈ after, ∀ response, l'.1.input = .serverResponse response → response.mId ≠ request.mId) →
        s.mProcessContexts[request.mId]? = some (contextOf l.1 request) ∧
          ∀ l' ∈ after, ∀ p ∈ toChildren l'.2, p.2.mId ≠ request.mId) ∧
    (∀ ev, s.step ev = .error .assertion ↔
      (∃ request, ev.input = .clientRequest request) ∧ ¬ Fresh s ev) := by
  refine ⟨runOf_congr fun s l s' hstep => hstep.nothingLost_iff, ?_, fun ev => step_assertion_iff⟩
  intro hrun before l after fd request hls hsent hno
  subst hls
  obtain ⟨s₁, -, hrest⟩ := Run.split hrun
  cases hrest with
  | cons hstep hafter =>
    have hlost := hstep.1.nothingLost_iff.mp hstep.2
    exact waits hafter hno (hlost.own fd request hsent).2

/-- Two keyboards switch to cameras of matrix 2, and both draw the id 0: the first one's context is
    replaced. -/
theorem pending_request_replaced :
    ¬ ∀ (s₀ s : ResourceManager (List User)) (ls : List (Event × List Action)), Initial s₀ →
      Run Step s₀ ls s → RunOf Step NothingLost s₀ ls s := by
  intro h
  let start : ResourceManager (List User) := configured 0 1 1 [4] [1] [(1, 2)]
  have hinit : Initial start := configured_initial (by decide)
  have hkept := h _ _ _ hinit (run_of_exec
    [⟨Env.at 100, .register 3 ⟨0, 2, 1, .request, .register, 0, fun i => if i = 0 then 60 else 0⟩⟩,
     ⟨Env.at 100, .localSwitch (some 0)
       { KeyboardMessage.new with keyboardId := 7, cameraId := ⟨2, 5⟩, monitorId := 1 }⟩,
     ⟨Env.at 100, .localSwitch (some 1)
       { KeyboardMessage.new with keyboardId := 8, cameraId := ⟨2, 6⟩, monitorId := 1 }⟩] rfl)
  -- the second switch is the last step
  obtain - | ⟨⟨hfirst, -⟩, hkept⟩ := hkept
  cases hfirst
  obtain - | ⟨⟨hfirst, -⟩, hkept⟩ := hkept
  cases hfirst
  obtain - | ⟨⟨-, hlost⟩, -⟩ := hkept
  exact (hlost.own 3 _ (List.mem_singleton_self _)).1 Std.ExtTreeMap.mem_insert_self

/-! ## Requests of the parent -/

/-- The request is answered: one response, with its method, id and initiator, back where it came from. -/
def Answered (request : AgentRequest) (out : List Action) : Prop :=
  toChildren out = [] ∧ ∃ response, toParent out = [response] ∧ response.mMethod = request.mMethod ∧
    response.mId = request.mId ∧ response.mInitiatorId = request.mInitiatorId ∧
    response.mFrom = request.mTo ∧ response.mTo = request.mFrom

/-- The request is passed on: unchanged, to the one child that is or contains its matrix, with a context under
    its id. -/
def PassedOn (s : ResourceManager Q) (request : AgentRequest) (out : List Action) (s' : ResourceManager Q) :
    Prop :=
  toParent out = [] ∧ ∃ matrix, s.matchMatrix request.mTo = some matrix ∧
    toChildren out = [(matrix.mFd, request)] ∧
    s'.mProcessContexts[request.mId]? = some ⟨request.mId, none, KeyboardMessage.new⟩

omit [PriorityQueue Q User] in
/-- Never both. -/
theorem not_answered_and_passedOn {s s' : ResourceManager Q} {request : AgentRequest} {out : List Action} :
    ¬ (Answered request out ∧ PassedOn s request out s') := by
  rintro ⟨⟨-, response, hone, -⟩, hnone, -⟩
  rw [hnone] at hone
  cases hone

/-- The handler meets none of the ways to fail: a `SWITCH` to pass on has an id that is not pending; a `PTZ`
    is for a camera that is not a null entry, or for a matrix that is not below a child. -/
def Serviceable (env : Env) (s : ResourceManager Q) (request : AgentRequest) : Prop :=
  match request.mMethod with
  | .switch => RequestForwards env s request → request.mId ∉ s.mProcessContexts
  | .ptz =>
    if request.mTo = s.mMatrixId then s.mCameras[request.mContent.ptzCameraid]? ≠ some none
    else s.matchMatrix request.mTo = none
  | _ => True

theorem ClientSwitchOutcome.served {env : Env} {s s' : ResourceManager Q} {request : AgentRequest}
    {out : List Action} (h : ClientSwitchOutcome env s request s' out) :
    Answered request out ∨ PassedOn s request out s' := by
  cases h with
  | busy => exact Or.inl ⟨rfl, _, rfl, rfl, rfl, rfl, rfl, rfl⟩
  | granted => exact Or.inl ⟨rfl, _, rfl, rfl, rfl, rfl, rfl, rfl⟩
  | noCamera => exact Or.inl ⟨rfl, _, rfl, rfl, rfl, rfl, rfl, rfl⟩
  | noMatrix => exact Or.inl ⟨rfl, _, rfl, rfl, rfl, rfl, rfl, rfl⟩
  | forwarded _ _ _ hmatrix =>
    exact Or.inr ⟨rfl, _, hmatrix, rfl, Std.ExtTreeMap.getElem?_insert_self⟩

omit [PriorityQueue Q User] in
theorem ClientPtzOutcome.served {env : Env} {s s' : ResourceManager Q} {request : AgentRequest}
    {out : List Action} (h : ClientPtzOutcome env s request s' out) : Answered request out := by
  cases h with
  | noCamera => exact ⟨rfl, _, rfl, rfl, rfl, rfl, rfl, rfl⟩
  | accepted => exact ⟨rfl, _, rfl, rfl, rfl, rfl, rfl, rfl⟩
  | refused => exact ⟨rfl, _, rfl, rfl, rfl, rfl, rfl, rfl⟩
  | noMatrix => exact ⟨rfl, _, rfl, rfl, rfl, rfl, rfl, rfl⟩

/-- A request that did not fault was served. -/
theorem Step.served {s s' : ResourceManager Q} {env : Env} {request : AgentRequest} {out : List Action}
    (h : Step s (⟨env, .clientRequest request⟩, out) s')
    (hmethod : request.mMethod = .switch ∨ request.mMethod = .ptz) :
    Answered request out ∨ PassedOn s request out s' := by
  cases Step.clientRequest h with
  | switch _ hout => exact hout.served
  | ptz _ hout => exact Or.inl hout.served
  | ignored hswitch hptz => exact absurd hmethod (not_or.mpr ⟨hswitch, hptz⟩)

/-- **A `SWITCH` ends without a fault exactly if it may be passed on**, where there are trunks. -/
theorem onClientRxSwitch_ok_iff {env : Env} {s : ResourceManager Q} {request : AgentRequest}
    (hne : s.mTrunks ≠ []) :
    (∃ s' out, s.onClientRxSwitch env request = .ok (s', out)) ↔
      (RequestForwards env s request → request.mId ∉ s.mProcessContexts) := by
  have hend := onClientRxSwitch_end env s request
  constructor
  · rintro ⟨s', out, hok⟩ hforwards hpending
    have hfault := onClientRxSwitch_assertion_iff.mpr ⟨hforwards, hpending⟩
    rw [hok] at hfault
    cases hfault
  · intro hnew
    generalize s.onClientRxSwitch env request = r at hend
    cases hend with
    | noSearch hfind =>
      have hnil := (findTrunk_error hfind).1
      unfold purgeTrunks at hnil
      exact absurd (List.mapIdx_eq_nil_iff.mp hnil) hne
    | noTrunk hfind hnone =>
      obtain ⟨t, ht⟩ := (findTrunk_choice hfind).getElem?
      rw [hnone] at ht
      cases ht
    | repeated hfind hto hmatrix hpending =>
      exact absurd hpending (hnew ⟨_, (findTrunk_choice hfind).isSome_iff.mp rfl, hto, hmatrix⟩)
    | ended hout => exact ⟨_, _, rfl⟩

omit [PriorityQueue Q User] in
/-- A `PTZ` does exactly if its camera is not a null entry and its matrix is not below a child. -/
theorem onClientRxPtz_ok_iff {env : Env} {s : ResourceManager Q} {request : AgentRequest} :
    (∃ s' out, s.onClientRxPtz env request = .ok (s', out)) ↔
      if request.mTo = s.mMatrixId then s.mCameras[request.mContent.ptzCameraid]? ≠ some none
      else s.matchMatrix request.mTo = none := by
  have hend := onClientRxPtz_end env s request
  generalize s.onClientRxPtz env request = r at hend
  cases hend with
  | nullCamera hto hnull =>
    rw [if_pos hto]
    exact iff_of_false (by rintro ⟨s', out, ⟨⟩⟩) (not_not.mpr hnull)
  | nullEvent hto hmatrix =>
    rw [if_neg hto, hmatrix]
    exact iff_of_false (by rintro ⟨s', out, ⟨⟩⟩) (by rintro ⟨⟩)
  | ended hout =>
    refine iff_of_true ⟨_, _, rfl⟩ ?_
    cases hout with
    | noCamera hto hnot =>
      rw [if_pos hto, IntMap.getElem?_eq_none_iff.mpr hnot]
      rintro ⟨⟩
    | accepted hto hcam =>
      rw [if_pos hto, hcam]
      rintro ⟨⟩
    | refused hto hcam =>
      rw [if_pos hto, hcam]
      rintro ⟨⟩
    | noMatrix hto hnone =>
      rw [if_neg hto]
      exact hnone

/-- **When a request of the parent is served.** In every reachable state: answered once or passed on once,
    exactly if the handler meets none of the ways to fail. -/
theorem parent_request_served {s : ResourceManager Q} (h : Reachable s) (env : Env) {request : AgentRequest}
    (hmethod : request.mMethod = .switch ∨ request.mMethod = .ptz) :
    (∃ s' out, Step s (⟨env, .clientRequest request⟩, out) s' ∧
      (Answered request out ∨ PassedOn s request out s') ∧
      ¬ (Answered request out ∧ PassedOn s request out s')) ↔ Serviceable env s request := by
  have hserved : (∃ s' out, Step s (⟨env, .clientRequest request⟩, out) s' ∧
      (Answered request out ∨ PassedOn s request out s') ∧
      ¬ (Answered request out ∧ PassedOn s request out s')) ↔
      ∃ s' out, s.onClientRxRequest env request = .ok (s', out) := by
    constructor
    · rintro ⟨s', out, hstep, -⟩
      exact ⟨s', out, hstep⟩
    · rintro ⟨s', out, hok⟩
      exact ⟨s', out, hok, Step.served hok hmethod, not_answered_and_passedOn⟩
  rw [hserved]
  unfold onClientRxRequest Serviceable
  rcases hmethod with hmethod | hmethod
  · rw [hmethod]
    exact onClientRxSwitch_ok_iff h.some_trunk
  · rw [hmethod]
    exact onClientRxPtz_ok_iff

/-- Nothing is pending, and a `SWITCH` for matrix 2 comes in, which is a child. -/
theorem parent_request_served_below_child :
    ∃ (s : ResourceManager (List User)) (request : AgentRequest), (s.matchMatrix request.mTo).isSome = true ∧
      ∃ s' out, Step s (⟨Env.at 100, .clientRequest request⟩, out) s' ∧
        (Answered request out ∨ PassedOn s request out s') ∧
        ¬ (Answered request out ∧ PassedOn s request out s') := by
  let start : ResourceManager (List User) := configured 0 1 1 [4] [1] [(1, 2)]
  have hstart : Reachable start := (configured_initial (by decide)).reachable
  have hreach := hstart.run (run_of_exec
    [⟨Env.at 100, .register 3 ⟨0, 2, 1, .request, .register, 0, fun i => if i = 0 then 60 else 0⟩⟩] rfl)
  let request : AgentRequest := ⟨7, 0, 2, .request, .switch, 77, fun _ => 4⟩
  refine ⟨_, request, ?_, (parent_request_served hreach (Env.at 100) (Or.inl rfl)).mpr ?_⟩
  · rfl
  · intro _
    exact Std.ExtTreeMap.not_mem_empty

/-- A `PTZ` for matrix 2, which is a child, reads through a reference to null. -/
theorem parent_request_not_served :
    ¬ ∀ (s : ResourceManager (List User)) (env : Env) (request : AgentRequest), Reachable s →
      request.mMethod = .switch ∨ request.mMethod = .ptz →
      ∃ s' out, Step s (⟨env, .clientRequest request⟩, out) s' ∧
        (Answered request out ∨ PassedOn s request out s') ∧
        ¬ (Answered request out ∧ PassedOn s request out s') := by
  intro h
  let start : ResourceManager (List User) := configured 0 1 1 [4] [1] [(1, 2)]
  have hstart : Reachable start := (configured_initial (by decide)).reachable
  have hreach := hstart.run (run_of_exec
    [⟨Env.at 100, .register 3 ⟨0, 2, 1, .request, .register, 0, fun i => if i = 0 then 60 else 0⟩⟩] rfl)
  obtain ⟨s', out, hstep, -⟩ := h _ (Env.at 100) ⟨7, 0, 2, .request, .ptz, 77, fun _ => 4⟩ hreach (Or.inr rfl)
  cases hstep

end ResourceManager

end Mcc
