import Mcc.Correctness.Upward
import Mcc.Model.Pair

/-!
# `Correctness.Picture` — what a monitor of the parent shows after a remote switch

The child grants a request a trunk, connects the camera to an output of its matrix, and answers with the input
of the parent's matrix at the other end of the cable; the parent connects that to the monitor. The output it
connects is the number of the parent's input, `outport()`, and not its own end of the cable, `id()`. Where the
two numbers are the same the monitor shows the camera, unless the request's id was not new at the parent, or
the child has connected another camera to the output before the answer was handled (`right_picture`).

## Contents
- **Matrices.** What one event does outside the manager: `OwnOutcome`, `RequestOutcome`, `Connects`.
- **Pictures.** `Honest`, the invariant of what is on its way, step by step; `right_picture`.
-/

namespace Mcc

open Transition ResourceManager PriorityQueue

/-- The response reports a successful switch. -/
def AgentResponse.IsSuccess (response : AgentResponse) : Prop :=
  response.mMethod = .switch ∧ response.mStatusCode.tdiv 100 = 2

/-! ## Matrices -/

/-- A switch of a single monitor names that monitor only. -/
theorem outputs_of_switch {msg : KeyboardMessage} (h : msg.type = .switch) : outputs msg = [msg.monitorId] := by
  unfold outputs KeyboardRC.sendSwitch KeyboardRC.buildPacketFromMessage
  simp only [h]
  show [(KeyboardRC.switchCommand msg.cameraId.lid msg.monitorId).monitor] = _
  rw [KeyboardRC.switchCommand_monitor]

namespace ResourceManager

variable {Q : Type}

/-- A local switch that is accepted: the monitor is there and free, and the camera is one of this matrix. -/
def TakesLocally (env : Env) (s : ResourceManager Q) (msg : KeyboardMessage) : Prop :=
  ∃ m cam, s.mMonitors.deref msg.monitorId = some m ∧ ¬ InUse env m msg.keyboardId ∧
    msg.cameraId.mid = s.mMatrixId ∧ s.mCameras.deref msg.cameraId.lid = some cam

theorem SwitchOutcome.takesLocally_iff {env : Env} {s s' : ResourceManager Q} {msg : KeyboardMessage}
    {kb : KeyboardPtr} {r : ProcessResult} {out : List Action} (h : SwitchOutcome env s msg kb r s' out) :
    r = .accept ↔ TakesLocally env s msg := by
  cases h with
  | noMonitor hm =>
    refine iff_of_false (by rintro ⟨⟩) ?_
    rintro ⟨m, cam, hsome, -⟩
    rw [hm] at hsome
    cases hsome
  | inUse hm huse =>
    refine iff_of_false (by rintro ⟨⟩) ?_
    rintro ⟨m, cam, hsome, hnot, -⟩
    rw [hm, Option.some.injEq] at hsome
    exact hnot (hsome ▸ huse)
  | noCamera _ _ _ hnone =>
    refine iff_of_false (by rintro ⟨⟩) ?_
    rintro ⟨m, cam, -, -, -, hcam⟩
    rw [hnone] at hcam
    cases hcam
  | taken hm huse hmid hcam => exact iff_of_true rfl ⟨_, _, hm, huse, hmid, hcam⟩
  | noMatrix _ _ hmid => exact iff_of_false (by rintro ⟨⟩) (fun ⟨_, _, _, _, hown, _⟩ => hmid hown)
  | sent _ _ hmid => exact iff_of_false (by rintro ⟨⟩) (fun ⟨_, _, _, _, hown, _⟩ => hmid hown)

variable [PriorityQueue Q User]

/-- A `SWITCH` of the parent that is granted `trunk`: the camera is one of this matrix, and after the purge the
    search ends at that trunk. -/
def IsGranted (env : Env) (s : ResourceManager Q) (request : AgentRequest) (trunk : Trunk Q) : Prop :=
  request.mMethod = .switch ∧ request.mTo = s.mMatrixId ∧ request.mContent.swiCameraid ∈ s.mCameras ∧
    ∃ i, findTrunk (purgeTrunks env s.mTrunks) request.user request.camera = .ok (some i) ∧
      (purgeTrunks env s.mTrunks)[i]? = some trunk

/-- The event makes the manager connect a camera of its matrix to one of its outputs. -/
def Switches (s : ResourceManager Q) (ev : Event) (camera output : Int) : Prop :=
  match ev.input with
  | .localSwitch _ msg => TakesLocally ev.env s msg ∧ camera = msg.cameraId.lid ∧ output ∈ outputs msg
  | .clientRequest request => ∃ trunk, IsGranted ev.env s request trunk ∧
      camera = request.mContent.swiCameraid ∧ output = trunk.mOutport
  | _ => False

/-- A granted trunk is one of the configured ones. -/
theorem IsGranted.configured {env : Env} {s : ResourceManager Q} {request : AgentRequest} {trunk : Trunk Q}
    (h : IsGranted env s request trunk) : ∃ t ∈ s.mTrunks, t.mOutport = trunk.mOutport := by
  obtain ⟨-, -, -, i, -, htrunk⟩ := h
  obtain ⟨t₀, ht₀, rfl⟩ := of_getElem?_purgeTrunks htrunk
  exact ⟨t₀, List.mem_of_getElem? ht₀, (Trunk.updateUsers_mOutport _ _).symm⟩

/-- The search ends at one trunk. -/
theorem IsGranted.unique {env : Env} {s : ResourceManager Q} {request : AgentRequest} {trunk trunk' : Trunk Q}
    (h : IsGranted env s request trunk) (h' : IsGranted env s request trunk') : trunk = trunk' := by
  obtain ⟨-, -, -, i, hfind, htrunk⟩ := h
  obtain ⟨-, -, -, i', hfind', htrunk'⟩ := h'
  rw [hfind, Except.ok.injEq, Option.some.injEq] at hfind'
  subst hfind'
  rw [htrunk, Option.some.injEq] at htrunk'
  exact htrunk'

/-- Nothing is sent to the matrix, and nothing to the parent. -/
structure Silent (out : List Action) : Prop where
  wires : ∀ w : Wires, w.after out = w
  toParent : toParent out = []

/-- **An own event, by what it does outside**: it switches, asks a child, or does neither. -/
inductive OwnOutcome (s : ResourceManager Q) (ev : Event) (out : List Action) : Prop where
  | silent : (∀ camera output, ¬ Switches s ev camera output) → Silent out → toChildren out = [] →
      OwnOutcome s ev out
  | switched {kb msg} : ev.input = .localSwitch kb msg → TakesLocally ev.env s msg →
      out = [.sendSwitch 0 msg, .notifyClients msg] → OwnOutcome s ev out
  | asked {fd request} : (∀ camera output, ¬ Switches s ev camera output) → Silent out →
      toChildren out = [(fd, request)] → request.mFrom = s.mMatrixId →
      (contextOf ev request).mKeyboardEvent.cameraId = request.camera → OwnOutcome s ev out

theorem Step.own {s s' : ResourceManager Q} {ev : Event} {out : List Action} (h : Step s (ev, out) s')
    (hown : ev.IsOwn) : OwnOutcome s ev out := by
  obtain ⟨env, input⟩ := ev
  cases input with
  | localSwitch kb msg =>
    obtain ⟨r, s₁, acts, hout, hend⟩ := onSwitch_eq (show s.onSwitch env kb msg = .ok (s', out) from h)
    have hnot : r ≠ .accept → ∀ camera output, ¬ Switches s ⟨env, .localSwitch kb msg⟩ camera output :=
      fun hr camera output hsw => hr (hout.takesLocally_iff.mpr hsw.1)
    rcases hend with ⟨hr, -, rfl⟩ | ⟨rfl, -, k, -, rfl⟩ | ⟨rfl, -, rfl⟩
    · refine .switched rfl (hout.takesLocally_iff.mp hr) ?_
      subst hr
      cases hout with
      | taken => rfl
    · have hacts : acts = [] := by cases hout <;> rfl
      subst hacts
      exact .silent (hnot (by rintro ⟨⟩)) ⟨fun _ => rfl, rfl⟩ rfl
    · cases hout with
      | sent => exact .asked (hnot (by rintro ⟨⟩)) ⟨fun _ => rfl, rfl⟩ rfl rfl rfl
  | localPtz kb msg =>
    obtain ⟨r, acts, hout, hend⟩ := onPtz_eq (show s.onPtz env kb msg = .ok (s', out) from h)
    -- what is added to the actions of `processPtzMessage` tells clients and keyboards only
    have hrest : ∃ rest, out = acts ++ rest ∧ Silent rest ∧ toChildren rest = [] := by
      rcases hend with ⟨-, rfl⟩ | ⟨-, k, -, rfl⟩ | ⟨-, rfl⟩
      · exact ⟨_, rfl, ⟨fun _ => rfl, rfl⟩, rfl⟩
      · exact ⟨_, rfl, ⟨fun _ => rfl, rfl⟩, rfl⟩
      · exact ⟨[], (List.append_nil _).symm, ⟨fun _ => rfl, rfl⟩, rfl⟩
    obtain ⟨rest, rfl, hsilent, hnone⟩ := hrest
    cases hout with
    | noCamera => exact .silent (fun _ _ hsw => hsw) hsilent hnone
    | processed => exact .silent (fun _ _ hsw => hsw) hsilent hnone
    | noMatrix => exact .silent (fun _ _ hsw => hsw) hsilent hnone
    | @sent matrix =>
      have hone : toChildren (.serverSend matrix.mFd (s.ptzRequest env (s.ptzTarget msg)) :: rest) =
          [(matrix.mFd, s.ptzRequest env (s.ptzTarget msg))] := congrArg (List.cons _) hnone
      exact .asked (fun _ _ hsw => hsw) ⟨hsilent.wires, hsilent.toParent⟩ hone rfl rfl
  | clientRequest request => exact False.elim hown
  | serverResponse response => exact False.elim hown
  | register fd reg =>
    obtain ⟨-, hout⟩ := onRegister_eq (show s.onRegister env fd reg = .ok (s', out) from h)
    rcases hout with rfl | ⟨request, rfl⟩
    · exact .silent (fun _ _ hsw => hsw) ⟨fun _ => rfl, rfl⟩ rfl
    · exact .silent (fun _ _ hsw => hsw) ⟨fun _ => rfl, rfl⟩ rfl
  | disconnect fd =>
    obtain ⟨-, rfl⟩ := onDisconnect_ok h
    exact .silent (fun _ _ hsw => hsw) ⟨fun _ => rfl, rfl⟩ rfl
  | connected =>
    obtain ⟨-, request, rfl⟩ := onClientConnected_ok h
    exact .silent (fun _ _ hsw => hsw) ⟨fun _ => rfl, rfl⟩ rfl
  | disconnected =>
    cases h
    exact .silent (fun _ _ hsw => hsw) ⟨fun _ => rfl, rfl⟩ rfl

/-- **A request of the parent, by what it does outside**: it is granted a trunk, or nothing is switched and it
    is not answered with success. -/
inductive RequestOutcome (s : ResourceManager Q) (env : Env) (request : AgentRequest) (out : List Action) :
    Prop where
  | granted {trunk} : IsGranted env s request trunk →
      out = [.sendSwitch 0 (request.switchMessage trunk.mOutport),
        .notifyClients (request.switchMessage trunk.mOutport),
        .clientRespond (request.switchAnswer env 200 "Ok" trunk.mOutport)] →
      RequestOutcome s env request out
  | unanswered : (∀ trunk, ¬ IsGranted env s request trunk) → (∀ w : Wires, w.after out = w) →
      toParent out = [] → RequestOutcome s env request out
  | answered {response} : (∀ trunk, ¬ IsGranted env s request trunk) → (∀ w : Wires, w.after out = w) →
      toParent out = [response] → response.mId = request.mId → ¬ response.IsSuccess →
      RequestOutcome s env request out

theorem ClientSwitchOutcome.outside {env : Env} {s s' : ResourceManager Q} {request : AgentRequest}
    {out : List Action} (h : ClientSwitchOutcome env s request s' out) (hmethod : request.mMethod = .switch) :
    RequestOutcome s env request out := by
  cases h with
  | busy hfind =>
    refine .answered ?_ (fun _ => rfl) rfl rfl (by rintro ⟨-, ⟨⟩⟩)
    rintro trunk ⟨-, -, -, i, hsome, -⟩
    rw [hfind] at hsome
    cases hsome
  | granted hfind htrunk hto hcam => exact .granted ⟨hmethod, hto, hcam, _, hfind, htrunk⟩ rfl
  | noCamera _ _ _ hcam =>
    exact .answered (fun _ hg => hcam hg.2.2.1) (fun _ => rfl) rfl rfl (by rintro ⟨-, ⟨⟩⟩)
  | noMatrix _ _ hto =>
    exact .answered (fun _ hg => hto hg.2.1) (fun _ => rfl) rfl rfl (by rintro ⟨-, ⟨⟩⟩)
  | forwarded _ _ hto => exact .unanswered (fun _ hg => hto hg.2.1) (fun _ => rfl) rfl

theorem Step.outside {s s' : ResourceManager Q} {env : Env} {request : AgentRequest} {out : List Action}
    (h : Step s (⟨env, .clientRequest request⟩, out) s') : RequestOutcome s env request out := by
  cases Step.clientRequest h with
  | switch hmethod hout => exact hout.outside hmethod
  | ptz hmethod hout =>
    have hnot : ∀ trunk, ¬ IsGranted env s request trunk := by
      rintro trunk ⟨hswitch, -⟩
      cases hmethod.symm.trans hswitch
    have hfail : ∀ code reason, ¬ (request.ptzAnswer env code reason).IsSuccess := by
      rintro code reason ⟨hswitch, -⟩
      cases hmethod.symm.trans hswitch
    cases hout with
    | noCamera => exact .answered hnot (fun _ => rfl) rfl rfl (hfail _ _)
    | accepted => exact .answered hnot (fun _ => rfl) rfl rfl (hfail _ _)
    | refused => exact .answered hnot (fun _ => rfl) rfl rfl (hfail _ _)
    | noMatrix => exact .answered hnot (fun _ => rfl) rfl rfl (hfail _ _)
  | ignored hswitch => exact .unanswered (fun _ hgranted => hswitch hgranted.1) (fun _ => rfl) rfl

/-- **What the child connects**: the camera `Switches` says to each output it says, and no other output is
    touched. -/
structure Connects (s : ResourceManager Q) (ev : Event) (out : List Action) : Prop where
  switched : ∀ camera output, Switches s ev camera output → ∀ w : Wires, w.after out output = some camera
  kept : ∀ output, (∀ camera, ¬ Switches s ev camera output) → ∀ w : Wires, w.after out output = w output

theorem OwnOutcome.connects {s : ResourceManager Q} {ev : Event} {out : List Action}
    (h : OwnOutcome s ev out) : Connects s ev out := by
  cases h with
  | silent hnot hsilent =>
    refine ⟨fun camera output hsw => absurd hsw (hnot camera output), ?_⟩
    intro output _ w
    rw [hsilent.wires]
  | asked hnot hsilent =>
    refine ⟨fun camera output hsw => absurd hsw (hnot camera output), ?_⟩
    intro output _ w
    rw [hsilent.wires]
  | @switched kb msg hin htakes hout =>
    obtain ⟨env, input⟩ := ev
    cases hin
    subst hout
    constructor
    · rintro camera output ⟨-, rfl, hmem⟩ w
      exact if_pos hmem
    · intro output hnot w
      exact if_neg fun hmem => hnot _ ⟨htakes, rfl, hmem⟩

theorem RequestOutcome.connects {s : ResourceManager Q} {env : Env} {request : AgentRequest}
    {out : List Action} (h : RequestOutcome s env request out) :
    Connects s ⟨env, .clientRequest request⟩ out := by
  cases h with
  | @granted trunk hgranted hout =>
    subst hout
    have hone : outputs (request.switchMessage trunk.mOutport) = [trunk.mOutport] := outputs_of_switch rfl
    constructor
    · rintro camera output ⟨trunk', hgranted', rfl, rfl⟩ w
      cases hgranted.unique hgranted'
      exact if_pos (by rw [hone]; exact List.mem_singleton_self _)
    · intro output hnot w
      refine if_neg fun hmem => hnot _ ⟨trunk, hgranted, rfl, ?_⟩
      rw [hone] at hmem
      exact List.mem_singleton.mp hmem
  | unanswered hnot hwires =>
    refine ⟨fun camera output hsw => absurd hsw.choose_spec.1 (hnot _), ?_⟩
    intro output _ w
    rw [hwires]
  | answered hnot hwires =>
    refine ⟨fun camera output hsw => absurd hsw.choose_spec.1 (hnot _), ?_⟩
    intro output _ w
    rw [hwires]

end ResourceManager

/-! ## Pictures -/

namespace Pair

variable {Q : Type}

/-- The requests that are asked or answered by the messages on their way. -/
def abouts (N : Pair Q) : List Int := N.down.map AgentMessage.mId ++ N.up.map fun r => r.mId

/-- The request under this id waits at the parent for this camera. -/
def Awaits (N : Pair Q) (id : Int) (camera : GlobalID) : Prop :=
  ∃ context, N.parent.mProcessContexts[id]? = some context ∧ context.mKeyboardEvent.cameraId = camera

/-- **What is on its way is true.** A request asks for the camera the parent waits for, and behind the input a
    success names is that camera. -/
structure Honest (N : Pair Q) : Prop where
  distinct : N.abouts.Nodup
  pending : ∀ id ∈ N.abouts, id ∈ N.parent.mProcessContexts
  asked : ∀ q ∈ N.down, q.mFrom = N.parent.mMatrixId ∧ N.Awaits q.mId q.camera
  granted : ∀ r ∈ N.up, r.IsSuccess → r.mTo = N.parent.mMatrixId ∧
    ∃ camera, N.Awaits r.mId camera ∧ N.Leads r.mContent.swiOutport camera

variable [PriorityQueue Q User]

/-- The child puts no other camera on an output from which a cable runs to an input some success names. -/
def Spares (N : Pair Q) (ev : Event) : Prop :=
  ∀ camera output, Switches N.child ev camera output → ∀ r ∈ N.up, r.IsSuccess →
    ∀ t ∈ N.child.mTrunks, t.mOutport = r.mContent.swiOutport → t.mId = output →
      N.childWires output = some camera

/-- The cables to the input a request is granted come from the output of the same number. -/
def Straight (N : Pair Q) (env : Env) (request : AgentRequest) : Prop :=
  ∀ trunk, IsGranted env N.child request trunk →
    ∀ t ∈ N.child.mTrunks, t.mOutport = trunk.mOutport → t.mId = trunk.mOutport

/-- The steps that put no wrong picture on a monitor: the ids the parent gives are new, the cables that are
    granted are straight, and what a success names is left alone until the success arrives. -/
def Undisturbed (N : Pair Q) : PairLabel → Prop
  | .parent ev _ => Fresh N.parent ev
  | .child ev _ => N.Spares ev
  | .down env request _ => N.Spares ⟨env, .clientRequest request⟩ ∧ N.Straight env request
  | .up _ _ _ => True

/-- What is behind an input does not change while the child spares it. -/
theorem Leads.child {N : Pair Q} {s' : ResourceManager Q} {ev : Event} {out : List Action} {inport : Int}
    {camera : GlobalID} (h : N.Leads inport camera) (hstep : ResourceManager.Step N.child (ev, out) s')
    (hconnects : Connects N.child ev out)
    (hspares : ∀ lid output, Switches N.child ev lid output → ∀ t ∈ N.child.mTrunks, t.mOutport = inport →
      t.mId = output → N.childWires output = some lid) : (N.childDoes s' out).Leads inport camera := by
  obtain ⟨hmid, ⟨t, ht, hport⟩, hall⟩ := h
  refine ⟨hmid.trans hstep.keeps.matrixId.symm, ?_, ?_⟩
  · obtain ⟨t', ht', -, hport'⟩ := hstep.mem_trunks_of ht
    exact ⟨t', ht', hport'.trans hport⟩
  · intro t' ht' hport'
    obtain ⟨t₀, ht₀, hid₀, hport₀⟩ := hstep.mem_trunks ht'
    have hshown := hall t₀ ht₀ (hport₀.trans hport')
    show N.childWires.after out t'.mId = some camera.lid
    rw [← hid₀]
    by_cases hsw : ∃ lid, Switches N.child ev lid t₀.mId
    · obtain ⟨lid, hlid⟩ := hsw
      have hsame := hspares lid t₀.mId hlid t₀ ht₀ (hport₀.trans hport') rfl
      rw [hconnects.switched lid t₀.mId hlid, ← hsame]
      exact hshown
    · rw [hconnects.kept t₀.mId fun lid hlid => hsw ⟨lid, hlid⟩]
      exact hshown

/-- A granted request puts its camera behind the input it is told. -/
theorem leads_of_granted {N : Pair Q} {s' : ResourceManager Q} {env : Env} {request : AgentRequest}
    {out : List Action} {trunk : Trunk Q}
    (hstep : ResourceManager.Step N.child (⟨env, .clientRequest request⟩, out) s')
    (hconnects : Connects N.child ⟨env, .clientRequest request⟩ out) (hstraight : N.Straight env request)
    (hgranted : IsGranted env N.child request trunk) :
    (N.childDoes s' out).Leads trunk.mOutport request.camera := by
  refine ⟨hgranted.2.1.trans hstep.keeps.matrixId.symm, ?_, ?_⟩
  · obtain ⟨t, ht, hport⟩ := hgranted.configured
    obtain ⟨t', ht', -, hport'⟩ := hstep.mem_trunks_of ht
    exact ⟨t', ht', hport'.trans hport⟩
  · intro t' ht' hport'
    obtain ⟨t₀, ht₀, hid₀, hport₀⟩ := hstep.mem_trunks ht'
    have hid : t'.mId = trunk.mOutport :=
      hid₀.symm.trans (hstraight trunk hgranted t₀ ht₀ (hport₀.trans hport'))
    show N.childWires.after out t'.mId = some request.mContent.swiCameraid
    rw [hid]
    exact hconnects.switched _ _ ⟨trunk, hgranted, rfl, rfl⟩ _

/-! ### One step of the two -/

omit [PriorityQueue Q User] in
/-- A request is taken out. -/
theorem Honest.takeDown {N : Pair Q} (h : N.Honest) {before after : List AgentRequest} {q : AgentRequest}
    (hdown : N.down = before ++ q :: after) :
    ({ N with down := before ++ after } : Pair Q).Honest ∧
      q.mId ∉ ({ N with down := before ++ after } : Pair Q).abouts := by
  have hperm : N.abouts.Perm (q.mId :: ({ N with down := before ++ after } : Pair Q).abouts) := by
    unfold abouts
    rw [hdown]
    exact (List.perm_middle.map AgentMessage.mId).append_right _
  obtain ⟨hnot, hdistinct⟩ := List.nodup_cons.mp (hperm.nodup_iff.mp h.distinct)
  refine ⟨⟨hdistinct, ?_, ?_, h.granted⟩, hnot⟩
  · intro id hid
    exact h.pending id (hperm.mem_iff.mpr (List.mem_cons_of_mem _ hid))
  · intro q' hq'
    apply h.asked q'
    rw [hdown]
    exact List.perm_middle.mem_iff.mpr (List.mem_cons_of_mem _ hq')

omit [PriorityQueue Q User] in
/-- A response is taken out. -/
theorem Honest.takeUp {N : Pair Q} (h : N.Honest) {before after : List AgentResponse} {r : AgentResponse}
    (hup : N.up = before ++ r :: after) :
    ({ N with up := before ++ after } : Pair Q).Honest ∧
      r.mId ∉ ({ N with up := before ++ after } : Pair Q).abouts := by
  have hperm : N.abouts.Perm (r.mId :: ({ N with up := before ++ after } : Pair Q).abouts) := by
    unfold abouts
    rw [hup]
    exact ((List.perm_middle.map _).append_left _).trans List.perm_middle
  obtain ⟨hnot, hdistinct⟩ := List.nodup_cons.mp (hperm.nodup_iff.mp h.distinct)
  refine ⟨⟨hdistinct, ?_, h.asked, ?_⟩, hnot⟩
  · intro id hid
    exact h.pending id (hperm.mem_iff.mpr (List.mem_cons_of_mem _ hid))
  · intro r' hr'
    apply h.granted r'
    rw [hup]
    exact List.perm_middle.mem_iff.mpr (List.mem_cons_of_mem _ hr')

/-- An event of the child keeps what is on its way true, if its own answer is. -/
theorem Honest.childDoes {N : Pair Q} (h : N.Honest) {s' : ResourceManager Q} {ev : Event}
    {out : List Action} (hstep : ResourceManager.Step N.child (ev, out) s')
    (hconnects : Connects N.child ev out) (hspares : N.Spares ev)
    (hdistinct : (N.abouts ++ (toParent out).map fun r => r.mId).Nodup)
    (hanswer : ∀ r ∈ toParent out, r.mId ∈ N.parent.mProcessContexts ∧ (r.IsSuccess →
      r.mTo = N.parent.mMatrixId ∧
        ∃ camera, N.Awaits r.mId camera ∧ (N.childDoes s' out).Leads r.mContent.swiOutport camera)) :
    (N.childDoes s' out).Honest := by
  have habouts : (N.childDoes s' out).abouts = N.abouts ++ (toParent out).map fun r => r.mId := by
    unfold abouts Pair.childDoes
    simp only [List.map_append, List.append_assoc]
  refine ⟨habouts ▸ hdistinct, ?_, h.asked, ?_⟩
  · intro id hid
    rw [habouts] at hid
    rcases List.mem_append.mp hid with hold | hnew
    · exact h.pending id hold
    · obtain ⟨r, hr, rfl⟩ := List.mem_map.mp hnew
      exact (hanswer r hr).1
  · intro r hr hsuccess
    rcases List.mem_append.mp hr with hold | hnew
    · obtain ⟨hto, camera, hawaits, hleads⟩ := h.granted r hold hsuccess
      refine ⟨hto, camera, hawaits, hleads.child hstep hconnects ?_⟩
      intro lid output hsw
      exact hspares lid output hsw r hold hsuccess
    · exact (hanswer r hnew).2 hsuccess

/-- An own event of the child. -/
theorem Honest.childOwn {N : Pair Q} (h : N.Honest) {s' : ResourceManager Q} {ev : Event}
    {out : List Action} (hown : ev.IsOwn) (hstep : ResourceManager.Step N.child (ev, out) s')
    (hspares : N.Spares ev) : (N.childDoes s' out).Honest := by
  have hout := Step.own hstep hown
  have hnone : toParent out = [] := by
    cases hout with
    | silent _ hsilent => exact hsilent.toParent
    | switched _ _ heq =>
      rw [heq]
      rfl
    | asked _ hsilent => exact hsilent.toParent
  apply h.childDoes hstep hout.connects hspares
  · rw [hnone, List.map_nil, List.append_nil]
    exact h.distinct
  · intro r hr
    rw [hnone] at hr
    cases hr

/-- A request the child handles. -/
theorem Honest.childRequest {N : Pair Q} (h : N.Honest) {before after : List AgentRequest}
    {q : AgentRequest} (hdown : N.down = before ++ q :: after) {s' : ResourceManager Q} {env : Env}
    {out : List Action} (hstep : ResourceManager.Step N.child (⟨env, .clientRequest q⟩, out) s')
    (hspares : N.Spares ⟨env, .clientRequest q⟩) (hstraight : N.Straight env q) :
    ({ N with down := before ++ after }.childDoes s' out).Honest := by
  obtain ⟨hrest, hnot⟩ := h.takeDown hdown
  have hq : q ∈ N.down := by
    rw [hdown]
    exact List.mem_append_right _ List.mem_cons_self
  have hpending : q.mId ∈ N.parent.mProcessContexts :=
    h.pending q.mId (List.mem_append_left _ (List.mem_map_of_mem hq))
  obtain ⟨hfrom, hawaits⟩ := h.asked q hq
  have hout := Step.outside hstep
  apply hrest.childDoes hstep hout.connects hspares
  · cases hout with
    | granted _ heq =>
      rw [heq]
      exact List.nodup_append_comm.mp (List.nodup_cons.mpr ⟨hnot, hrest.distinct⟩)
    | unanswered _ _ hnone =>
      rw [hnone, List.map_nil, List.append_nil]
      exact hrest.distinct
    | answered _ _ hone hid =>
      rw [hone, List.map_singleton, hid]
      exact List.nodup_append_comm.mp (List.nodup_cons.mpr ⟨hnot, hrest.distinct⟩)
  · intro r hr
    cases hout with
    | granted hgranted heq =>
      rw [heq] at hr
      cases List.mem_singleton.mp hr
      refine ⟨hpending, fun _ => ⟨hfrom, q.camera, hawaits, ?_⟩⟩
      exact leads_of_granted (N := { N with down := before ++ after }) hstep (Step.outside hstep).connects
        hstraight hgranted
    | unanswered _ _ hnone =>
      rw [hnone] at hr
      cases hr
    | answered _ _ hone hid hfail =>
      rw [hone] at hr
      cases List.mem_singleton.mp hr
      exact ⟨hid ▸ hpending, fun hsuccess => absurd hsuccess hfail⟩

/-- An event of the parent keeps what is on its way true, if the contexts stay and its own request is new. -/
theorem Honest.parentDoes {N : Pair Q} (h : N.Honest) {s' : ResourceManager Q} {ev : Event}
    {out : List Action} (hstep : ResourceManager.Step N.parent (ev, out) s')
    (hkept : ∀ id ∈ N.abouts, ∀ context : ProcessContext, N.parent.mProcessContexts[id]? = some context →
      s'.mProcessContexts[id]? = some context)
    (hdistinct : (((toChildren out).map fun p => p.2.mId) ++ N.abouts).Nodup)
    (hrequest : ∀ p ∈ toChildren out, p.2.mFrom = N.parent.mMatrixId ∧
      (N.parentDoes s' out).Awaits p.2.mId p.2.camera) : (N.parentDoes s' out).Honest := by
  have hmid := hstep.keeps.matrixId
  have hperm : (N.parentDoes s' out).abouts.Perm (((toChildren out).map fun p => p.2.mId) ++ N.abouts) := by
    show ((N.down ++ (toChildren out).map Prod.snd).map AgentMessage.mId ++ _).Perm _
    rw [List.map_append, List.map_map, List.append_assoc]
    exact List.perm_append_comm_assoc _ _ _
  have hawaits : ∀ id ∈ N.abouts, ∀ camera, N.Awaits id camera → (N.parentDoes s' out).Awaits id camera := by
    rintro id hid camera ⟨context, hcontext, hcamera⟩
    exact ⟨context, hkept id hid context hcontext, hcamera⟩
  refine ⟨hperm.nodup_iff.mpr hdistinct, ?_, ?_, ?_⟩
  · intro id hid
    show id ∈ s'.mProcessContexts
    rw [Std.ExtTreeMap.mem_iff_isSome_getElem?]
    rcases List.mem_append.mp (hperm.mem_iff.mp hid) with hnew | hold
    · obtain ⟨p, hp, rfl⟩ := List.mem_map.mp hnew
      obtain ⟨-, context, hcontext, -⟩ := hrequest p hp
      exact Option.isSome_iff_exists.mpr ⟨context, hcontext⟩
    · have hpending := h.pending id hold
      rw [Std.ExtTreeMap.mem_iff_isSome_getElem?] at hpending
      obtain ⟨context, hcontext⟩ := Option.isSome_iff_exists.mp hpending
      exact Option.isSome_iff_exists.mpr ⟨context, hkept id hold context hcontext⟩
  · intro q hq
    rcases List.mem_append.mp hq with hold | hnew
    · obtain ⟨hfrom, hwaits⟩ := h.asked q hold
      exact ⟨hfrom.trans hmid.symm, hawaits _ (List.mem_append_left _ (List.mem_map_of_mem hold)) _ hwaits⟩
    · obtain ⟨p, hp, rfl⟩ := List.mem_map.mp hnew
      obtain ⟨hfrom, hwaits⟩ := hrequest p hp
      exact ⟨hfrom.trans hmid.symm, hwaits⟩
  · intro r hr hsuccess
    obtain ⟨hto, camera, hwaits, hleads⟩ := h.granted r hr hsuccess
    exact ⟨hto.trans hmid.symm, camera,
      hawaits _ (List.mem_append_right _ (List.mem_map_of_mem hr)) _ hwaits, hleads⟩

/-- An own event of the parent. -/
theorem Honest.parentOwn {N : Pair Q} (h : N.Honest) {s' : ResourceManager Q} {ev : Event}
    {out : List Action} (hown : ev.IsOwn) (hstep : ResourceManager.Step N.parent (ev, out) s')
    (hfresh : Fresh N.parent ev) : (N.parentDoes s' out).Honest := by
  have hlost := hstep.nothingLost_iff.mp hfresh
  have hkept : ∀ id ∈ N.abouts, ∀ context : ProcessContext,
      N.parent.mProcessContexts[id]? = some context → s'.mProcessContexts[id]? = some context := by
    intro id _ context hid
    apply hlost.kept id context hid
    intro response hin
    unfold Event.IsOwn at hown
    rw [hin] at hown
    cases hown
  have hout := Step.own hstep hown
  apply h.parentDoes hstep hkept
  · cases hout with
    | silent _ _ hnone =>
      rw [hnone]
      exact h.distinct
    | switched _ _ heq =>
      rw [heq]
      exact h.distinct
    | @asked fd request _ _ hone =>
      obtain ⟨hnew, -⟩ := hlost.own fd request (by rw [hone]; exact List.mem_singleton_self _)
      rw [hone]
      exact List.nodup_cons.mpr ⟨fun hmem => hnew (h.pending _ hmem), h.distinct⟩
  · intro p hp
    cases hout with
    | silent _ _ hnone =>
      rw [hnone] at hp
      cases hp
    | switched _ _ heq =>
      rw [heq] at hp
      cases hp
    | @asked fd request _ _ hone hfrom hcamera =>
      obtain ⟨-, hcontext⟩ := hlost.own fd request (by rw [hone]; exact List.mem_singleton_self _)
      rw [hone] at hp
      cases List.mem_singleton.mp hp
      exact ⟨hfrom, _, hcontext, hcamera⟩

/-- A response the parent handles. -/
theorem Honest.parentResponse {N : Pair Q} (h : N.Honest) {before after : List AgentResponse}
    {r : AgentResponse} (hup : N.up = before ++ r :: after) {s' : ResourceManager Q} {env : Env}
    {out : List Action} (hstep : ResourceManager.Step N.parent (⟨env, .serverResponse r⟩, out) s') :
    ({ N with up := before ++ after }.parentDoes s' out).Honest := by
  obtain ⟨hrest, hnot⟩ := h.takeUp hup
  obtain ⟨herase, hnone⟩ := (Step.response hstep).pending
  apply hrest.parentDoes hstep
  · intro id hid context hcontext
    have hne : id ≠ r.mId := by
      rintro rfl
      exact hnot hid
    rw [herase, Std.ExtTreeMap.getElem?_erase, if_neg (IntMap.compare_ne hne)]
    exact hcontext
  · rw [hnone]
    exact hrest.distinct
  · intro p hp
    rw [hnone] at hp
    cases hp

/-- The picture an honest response makes, if it is a success for a keyboard. -/
theorem Honest.shows {N : Pair Q} (h : N.Honest) {before after : List AgentResponse} {r : AgentResponse}
    (hup : N.up = before ++ r :: after) {s' : ResourceManager Q} {env : Env} {out : List Action}
    (hstep : ResourceManager.Step N.parent (⟨env, .serverResponse r⟩, out) s') (hsuccess : r.IsSuccess)
    {context : ProcessContext} {k : ℕ} (hcontext : N.parent.mProcessContexts[r.mId]? = some context)
    (hkeyboard : context.mKeyboard = some k) :
    ({ N with up := before ++ after }.parentDoes s' out).Shows context.mKeyboardEvent.monitorId
      context.mKeyboardEvent.cameraId := by
  have hr : r ∈ N.up := by
    rw [hup]
    exact List.mem_append_right _ List.mem_cons_self
  obtain ⟨hto, camera, ⟨context', hcontext', rfl⟩, hleads⟩ := h.granted r hr hsuccess
  cases hcontext.symm.trans hcontext'
  have hswitch : out = [.sendSwitch 0 (N.parent.responseSwitch context r)] := by
    cases Step.response hstep with
    | unknown hnot =>
      rw [Std.ExtTreeMap.getElem?_eq_none hnot] at hcontext
      cases hcontext
    | switched hcontext' =>
      cases hcontext.symm.trans hcontext'
      rfl
    | failed _ _ _ hfail => exact absurd hsuccess.2 hfail
    | ptzDone _ _ hptz => cases hsuccess.1.symm.trans hptz
    | relayed _ helse => exact absurd hto helse
    | dropped hcontext' hwhy =>
      cases hcontext.symm.trans hcontext'
      rcases hwhy with ⟨-, hnone⟩ | ⟨hother, -⟩
      · cases hkeyboard.symm.trans hnone
      · exact absurd hsuccess.1 hother
  refine ⟨r.mContent.swiOutport, ?_, hleads⟩
  have hone : outputs (N.parent.responseSwitch context r) = [context.mKeyboardEvent.monitorId] :=
    outputs_of_switch rfl
  show N.parentWires.after out context.mKeyboardEvent.monitorId = _
  rw [hswitch]
  exact if_pos (by rw [hone]; exact List.mem_singleton_self _)

/-- **One step keeps what is on its way true.** -/
theorem Step.honest {N N' : Pair Q} {l : PairLabel} (hstep : Step N l N') (h : N.Honest)
    (hundisturbed : N.Undisturbed l) : N'.Honest := by
  cases hstep with
  | parent hown hs => exact h.parentOwn hown hs hundisturbed
  | child hown hs => exact h.childOwn hown hs hundisturbed
  | down hdown hs => exact h.childRequest hdown hs hundisturbed.1 hundisturbed.2
  | up hup hs => exact h.parentResponse hup hs

theorem Start.honest {N : Pair Q} (h : N.Start) : N.Honest := by
  have habouts : N.abouts = [] := by
    unfold abouts
    rw [h.down, h.up]
    rfl
  refine ⟨?_, ?_, ?_, ?_⟩
  · rw [habouts]
    exact List.nodup_nil
  · intro id hid
    rw [habouts] at hid
    cases hid
  · intro q hq
    rw [h.down] at hq
    cases hq
  · intro r hr
    rw [h.up] at hr
    cases hr

/-- **A remote switch shows the right picture**, after every run none of whose steps disturbs it: the ids the
    parent gives are new, every trunk granted has one number at both ends, and no output that a success on its
    way names is given another camera. -/
theorem right_picture {N₀ N N' : Pair Q} {ls : List PairLabel} (h0 : N₀.Start)
    (hrun : RunOf Step (fun N l _ => N.Undisturbed l) N₀ ls N) {env : Env} {response : AgentResponse}
    {out : List Action} (hstep : Step N (.up env response out) N') (hsuccess : response.IsSuccess)
    {context : ProcessContext} {k : ℕ} (hcontext : N.parent.mProcessContexts[response.mId]? = some context)
    (hkeyboard : context.mKeyboard = some k) :
    N'.Shows context.mKeyboardEvent.monitorId context.mKeyboardEvent.cameraId := by
  have hhonest : N.Honest :=
    hrun.invariant (fun _ _ _ h hs hundisturbed => hs.honest h hundisturbed) h0.honest
  cases hstep with
  | up hup hs => exact hhonest.shows hup hs hsuccess hcontext hkeyboard

/-- The parent, matrix 1 with monitor 1, and the child, matrix 2 with camera 4 and one trunk. -/
def bare (id outport : Int) : Pair (List User) :=
  { parent := configured 0 1 0 [] [1] [(9, 9)], child := configured 0 2 1 [4] [] [(id, outport)]
    parentWires := fun _ => none, childWires := fun _ => none, down := [], up := [] }

theorem bare_start (id outport : Int) : (bare id outport).Start :=
  ⟨configured_initial (by decide), configured_initial (List.cons_ne_nil _ _), rfl, rfl⟩

/-- The child registers, a keyboard of the parent asks for camera 4 of the child on monitor 1, and the child
    grants it. Nothing is disturbed if the trunk has one number at both ends. -/
theorem remote_switch (id outport : Int) : ∃ (N N' : Pair (List User)) (ls : List PairLabel) (env : Env)
    (response : AgentResponse) (out : List Action) (context : ProcessContext),
    RunOf Step (fun N l _ => id = outport → N.Undisturbed l) (bare id outport) ls N ∧
      Step N (.up env response out) N' ∧ response.mMethod = .switch ∧ response.mStatusCode = 200 ∧
      N.parent.mProcessContexts[response.mId]? = some context ∧ context.mKeyboard = some 0 ∧
      context.mKeyboardEvent.monitorId = 1 ∧ context.mKeyboardEvent.cameraId = ⟨2, 4⟩ ∧
      N'.parentWires 1 = some outport ∧ N'.child.ports = [(id, outport)] ∧
      ∀ output, output ≠ outport → N'.childWires output = none := by
  let reg : AgentRequest := ⟨0, 2, 1, .request, .register, 0, fun i => if i = 0 then 60 else 0⟩
  let msg : KeyboardMessage := { KeyboardMessage.new with keyboardId := 7, cameraId := ⟨2, 4⟩, monitorId := 1 }
  refine ⟨_, _, [.parent ⟨Env.at 100, .register 3 reg⟩ _, .parent ⟨Env.at 100, .localSwitch (some 0) msg⟩ _,
    .down (Env.at 100) _ _], Env.at 100, _, _, _, .cons ⟨.parent trivial (step_of_eq rfl), ?_⟩ (.cons
    ⟨.parent trivial (step_of_eq rfl), ?_⟩ (.cons ⟨.down (show _ = [] ++ _ :: [] from rfl) (step_of_eq rfl), ?_⟩
    .nil)), .up (show _ = [] ++ _ :: [] from rfl) (step_of_eq rfl), rfl, rfl, rfl, rfl, rfl, rfl, ?_, rfl, ?_⟩
  · exact fun _ hforwards => False.elim hforwards
  · exact fun _ _ => Std.ExtTreeMap.not_mem_empty
  · intro hsame
    constructor
    · intro camera output _ r hr
      cases hr
    · intro trunk _ t ht hport
      cases List.mem_singleton.mp ht
      exact hsame.trans hport
  · refine if_pos ?_
    rw [outputs_of_switch rfl]
    exact List.mem_singleton_self _
  · intro output hne
    refine if_neg fun hmem => hne ?_
    rw [outputs_of_switch rfl] at hmem
    exact List.mem_singleton.mp hmem

/-- With the trunk `2-2` monitor 1 shows the camera. -/
theorem right_picture_of_straight_trunk : ∃ (N N' : Pair (List User)) (env : Env) (response : AgentResponse)
    (out : List Action), Step N (.up env response out) N' ∧ response.mStatusCode = 200 ∧
      N'.Shows 1 ⟨2, 4⟩ := by
  obtain ⟨N, N', ls, env, response, out, context, hrun, hstep, hmethod, hcode, hcontext, hkeyboard, hmonitor,
    hcamera, -⟩ := remote_switch 2 2
  have hquiet : RunOf Step (fun N l _ => N.Undisturbed l) (bare 2 2) ls N :=
    (runOf_congr fun _ _ _ _ => ⟨fun h => h rfl, fun h _ => h⟩).mp hrun
  have hshows := right_picture (bare_start 2 2) hquiet hstep ⟨hmethod, hcode ▸ rfl⟩ hcontext hkeyboard
  rw [hmonitor, hcamera] at hshows
  exact ⟨N, N', env, response, out, hstep, hcode, hshows⟩

/-- With the trunk `2-3` it shows what is at input 3, and at the other end of that cable is output 2, which
    shows nothing: the camera has been connected to output 3. -/
theorem wrong_picture_of_crossed_trunk :
    ¬ ∀ (N₀ N N' : Pair (List User)) (ls : List PairLabel) (env : Env) (response : AgentResponse)
        (out : List Action) (context : ProcessContext) (k : ℕ),
      N₀.Start → Run Step N₀ ls N → Step N (.up env response out) N' →
      response.mMethod = .switch → response.mStatusCode = 200 →
      N.parent.mProcessContexts[response.mId]? = some context → context.mKeyboard = some k →
      N'.Shows context.mKeyboardEvent.monitorId context.mKeyboardEvent.cameraId := by
  intro h
  obtain ⟨N, N', ls, env, response, out, context, hrun, hstep, hmethod, hcode, hcontext, hkeyboard, hmonitor,
    -, hwire, hports, hdark⟩ := remote_switch 2 3
  obtain ⟨inport, hinport, -, ⟨t, ht, hport⟩, hall⟩ :=
    h _ N N' ls env response out context 0 (bare_start 2 3) hrun.run hstep hmethod hcode hcontext hkeyboard
  rw [hmonitor, hwire, Option.some.injEq] at hinport
  subst hinport
  have hend : (t.mId, t.mOutport) ∈ N'.child.ports := List.mem_map.mpr ⟨t, ht, rfl⟩
  rw [hports, List.mem_singleton] at hend
  have hid : t.mId = 2 := congrArg Prod.fst hend
  have hshown := hall t ht hport
  rw [hid, hdark 2 (by decide)] at hshown
  cases hshown

end Pair

end Mcc
