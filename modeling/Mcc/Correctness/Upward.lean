import Mcc.Correctness.Pending

/-!
# `Correctness.Upward` — the successes a manager reports to its parent

A `SWITCH` for a camera of its own is answered from a trunk that was granted in the same step. A success of a
child is passed on as it came: the port in it is the child's, and no trunk here was granted for it, since only
a `SWITCH` for this matrix ever grants one (`Reachable.carriesOwn`). So a success names a trunk that is
reserved for the requester exactly when the request was for this matrix (`success_names_trunk`).

## Contents
- **What the trunks carry.** `CarriesOwn`, in every reachable state.
- **Successes.** `success_names_trunk`.
-/

namespace Mcc

open Transition PriorityQueue

namespace ResourceManager

variable {Q : Type} [PriorityQueue Q User]

/-! ## What the trunks carry -/

/-- A trunk with users carries a camera of this matrix. -/
def CarriesOwn (s : ResourceManager Q) : Prop :=
  ∀ t ∈ s.mTrunks, ∀ u : User, u ∈ t.mUsers → t.mCameraId.mid = s.mMatrixId

theorem CarriesOwn.purged {s : ResourceManager Q} (h : CarriesOwn s) (env : Env) :
    CarriesOwn (s.purged env) := by
  intro t ht u hu
  obtain ⟨i, hi⟩ := List.getElem?_of_mem ht
  obtain ⟨t₀, ht₀, rfl⟩ := of_getElem?_purgeTrunks hi
  -- with a user left the trunk is not reset
  have hbusy : (t₀.updateUsers (env.purge i)).empty = false := Trunk.nonempty_iff.mpr ⟨u, hu⟩
  rw [Trunk.updateUsers_busy hbusy]
  exact h t₀ (List.mem_of_getElem? ht₀) u (Trunk.mem_of_mem_updateUsers hu)

theorem ClientSwitchOutcome.carriesOwn {env : Env} {s s' : ResourceManager Q} {request : AgentRequest}
    {out : List Action} (h : ClientSwitchOutcome env s request s' out) (hs : CarriesOwn s) :
    CarriesOwn s' := by
  have hpurged := hs.purged env
  cases h with
  | busy => exact hpurged
  | granted =>
    intro t ht u hu
    obtain ⟨j, hj⟩ := List.getElem?_of_mem ht
    rcases getElem?_modify_grant hj with ⟨-, t₀, -, rfl⟩ | ⟨-, hj₀⟩
    · rfl
    · exact hpurged t (List.mem_of_getElem? hj₀) u hu
  | noCamera => exact hpurged
  | noMatrix => exact hpurged
  | forwarded => exact hpurged

theorem Step.carriesOwn {s s' : ResourceManager Q} {l : Event × List Action} (h : Step s l s')
    (hs : CarriesOwn s) : CarriesOwn s' := by
  rcases h.trunks with htrunks | ⟨request, -, -, hout⟩
  · unfold CarriesOwn
    rw [htrunks, h.keeps.matrixId]
    exact hs
  · exact hout.carriesOwn hs

/-- **In every reachable state** the trunks carry cameras of this matrix only. -/
theorem Reachable.carriesOwn {s : ResourceManager Q} (h : Reachable s) : CarriesOwn s := by
  refine h.induct ?_ (fun s l s' hs hstep => hstep.carriesOwn hs)
  intro s h0 t ht u hu
  obtain ⟨id, outport, rfl⟩ := h0.trunks t ht
  exact absurd hu (PriorityQueue.not_mem_empty u)

/-! ## Successes -/

/-- The response carries the port of a trunk that carries the camera asked for and has the requester among
    its users. -/
def NamesTrunk (s : ResourceManager Q) (request : AgentRequest) (response : AgentResponse) : Prop :=
  ∃ t ∈ s.mTrunks, t.mOutport = response.mContent.swiOutport ∧ t.mCameraId = request.camera ∧
    ∃ u : User, u ∈ t.mUsers ∧ u.mId = request.user

/-- The request a response to the parent answers: the one just handled, or one passed on earlier whose
    response has just come in. -/
def AnswersTo (ls : List (Event × List Action)) (ev : Event) (request : AgentRequest)
    (response : AgentResponse) : Prop :=
  ev.input = .clientRequest request ∨
    ev.input = .serverResponse response ∧ ∃ l ∈ ls, l.1.input = .clientRequest request ∧
      (∃ fd, (fd, request) ∈ toChildren l.2) ∧ request.mId = response.mId

/-- A `SWITCH` answered with success was granted a trunk. -/
theorem ClientSwitchOutcome.success {env : Env} {s s' : ResourceManager Q} {request : AgentRequest}
    {out : List Action} (h : ClientSwitchOutcome env s request s' out) {response : AgentResponse}
    (hsent : response ∈ toParent out) (hok : response.mStatusCode.tdiv 100 = 2) :
    request.mTo = s.mMatrixId ∧ NamesTrunk s' request response := by
  cases h with
  | busy =>
    cases List.mem_singleton.mp hsent
    cases hok
  | @granted i trunk _ htrunk hto =>
    cases List.mem_singleton.mp hsent
    refine ⟨hto, trunk.grant (request.entry env) ⟨s.mMatrixId, request.mContent.swiCameraid⟩, ?_, rfl, ?_,
      request.entry env, Trunk.mem_grant.mpr (Or.inl rfl), rfl⟩
    · apply List.mem_of_getElem? (i := i)
      show ((purgeTrunks env s.mTrunks).modify i fun t => t.grant _ _)[i]? = _
      rw [List.getElem?_modify_eq, htrunk]
      rfl
    · show (⟨s.mMatrixId, _⟩ : GlobalID) = ⟨request.mTo, _⟩
      rw [hto]
  | noCamera =>
    cases List.mem_singleton.mp hsent
    cases hok
  | noMatrix =>
    cases List.mem_singleton.mp hsent
    cases hok
  | forwarded => cases hsent

/-- A request answered about a switch is a `SWITCH`. -/
theorem Step.answer_method {s s' : ResourceManager Q} {env : Env} {request : AgentRequest}
    {out : List Action} (h : Step s (⟨env, .clientRequest request⟩, out) s') {response : AgentResponse}
    (hsent : response ∈ toParent out) (hmethod : response.mMethod = .switch) : request.mMethod = .switch := by
  cases Step.clientRequest h with
  | switch hrequest => exact hrequest
  | ptz hrequest hout =>
    obtain ⟨-, answer, hone, hsame, -⟩ := hout.served
    rw [hone] at hsent
    rw [← hmethod, List.mem_singleton.mp hsent]
    exact hsame.symm
  | ignored => cases hsent

/-- A request that was passed on is not for this matrix. -/
theorem Step.passed_on_elsewhere {s s' : ResourceManager Q} {l : Event × List Action}
    {request request' : AgentRequest} {fd : Int} (h : Step s l s') (hin : l.1.input = .clientRequest request)
    (hsent : (fd, request') ∈ toChildren l.2) : request.mTo ≠ s.mMatrixId := by
  obtain ⟨⟨env, input⟩, out⟩ := l
  cases hin
  cases h.contexts with
  | same _ _ hnone =>
    rw [hnone] at hsent
    cases hsent
  | closed hresponse _ _ => cases hresponse
  | sent hforwards _ _ _ =>
    obtain ⟨-, matrix, -, hto, -⟩ := hforwards
    exact hto

/-- No run changes the matrix id. -/
theorem matrixId_of_run {s s' : ResourceManager Q} {ls : List (Event × List Action)} (h : Run Step s ls s') :
    s'.mMatrixId = s.mMatrixId := by
  induction h with
  | nil => rfl
  | cons hstep _ ih => exact ih.trans hstep.keeps.matrixId

/-- **A success names a trunk reserved for the requester exactly when the request was for this matrix**, in
    every run. -/
theorem success_names_trunk {s₀ s s' : ResourceManager Q} {ls : List (Event × List Action)} {ev : Event}
    {out : List Action} (h0 : Initial s₀) (hrun : Run Step s₀ ls s) (hstep : Step s (ev, out) s')
    {request : AgentRequest} {response : AgentResponse} (hsent : response ∈ toParent out)
    (hmethod : response.mMethod = .switch) (hok : response.mStatusCode.tdiv 100 = 2)
    (hanswers : AnswersTo ls ev request response) :
    NamesTrunk s' request response ↔ request.mTo = s.mMatrixId := by
  rcases hanswers with hin | ⟨hin, l, hl, hrequest, ⟨fd, hpassed⟩, -⟩
  · obtain ⟨env, input⟩ := ev
    cases hin
    have hsuccess := (Step.request hstep (hstep.answer_method hsent hmethod)).success hsent hok
    exact iff_of_true hsuccess.2 hsuccess.1
  · have helsewhere : request.mTo ≠ s.mMatrixId := by
      obtain ⟨before, s₁, s₂, after, -, -, hl₁, hafter⟩ := hrun.through hl
      rw [matrixId_of_run hafter, hl₁.keeps.matrixId]
      exact hl₁.passed_on_elsewhere hrequest hpassed
    refine iff_of_false ?_ helsewhere
    rintro ⟨t, ht, -, hcid, u, hu, -⟩
    -- a trunk with users carries a camera of this matrix, and the camera asked for is none
    have hown := ((show Reachable s from ⟨s₀, ls, h0, hrun⟩).step hstep).carriesOwn t ht u hu
    rw [hcid, hstep.keeps.matrixId] at hown
    exact helsewhere hown

/-- A request for the camera 4 of this matrix is granted the trunk of port 2. -/
theorem success_names_trunk_of_grant :
    ∃ (s s' : ResourceManager (List User)) (out : List Action) (request : AgentRequest)
      (response : AgentResponse), Step s (⟨Env.at 100, .clientRequest request⟩, out) s' ∧
      response ∈ toParent out ∧ NamesTrunk s' request response := by
  let start : ResourceManager (List User) := configured 0 1 1 [4] [1] [(1, 2)]
  have hinit : Initial start := configured_initial (by decide)
  let request : AgentRequest := ⟨7, 0, 1, .request, .switch, 77, fun _ => 4⟩
  have hstep : Step start (⟨Env.at 100, .clientRequest request⟩, _) _ := step_of_eq rfl
  refine ⟨start, _, _, request, _, hstep, List.mem_singleton_self _, ?_⟩
  exact (success_names_trunk hinit .nil hstep (List.mem_singleton_self _) rfl rfl (Or.inl rfl)).mpr rfl

/-- A request for matrix 2 is passed on, and the child's success, with the port 9 there, comes back as it
    was. -/
theorem success_names_no_trunk :
    ¬ ∀ (s₀ s s' : ResourceManager (List User)) (ls : List (Event × List Action)) (ev : Event)
        (out : List Action) (request : AgentRequest) (response : AgentResponse),
      Initial s₀ → Run Step s₀ ls s → Step s (ev, out) s' → response ∈ toParent out →
      response.mMethod = .switch → response.mStatusCode.tdiv 100 = 2 → AnswersTo ls ev request response →
      NamesTrunk s' request response := by
  intro h
  let start : ResourceManager (List User) := configured 0 1 1 [4] [1] [(1, 2)]
  have hinit : Initial start := configured_initial (by decide)
  let request : AgentRequest := ⟨7, 0, 2, .request, .switch, 77, fun _ => 4⟩
  let response : AgentResponse := request.switchAnswer (Env.at 100) 200 "Ok" 9
  have hrun := run_of_exec
    [⟨Env.at 100, .register 3 ⟨0, 2, 1, .request, .register, 0, fun i => if i = 0 then 60 else 0⟩⟩,
     ⟨Env.at 100, .clientRequest request⟩] (s := start) rfl
  obtain ⟨t, ht, -, hcid, -⟩ := h start _ _ _ ⟨Env.at 101, .serverResponse response⟩ _ request response hinit
    hrun (step_of_eq rfl) (List.mem_singleton_self _) rfl rfl
    (Or.inr ⟨rfl, _, List.mem_cons_of_mem _ List.mem_cons_self, rfl, ⟨3, List.mem_singleton_self _⟩, rfl⟩)
  cases List.mem_singleton.mp ht
  cases hcid

end ResourceManager

end Mcc
