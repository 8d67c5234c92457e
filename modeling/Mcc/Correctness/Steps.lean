import Mcc.Model.System

/-!
# `Correctness.Steps` — what one event can do

The inversion lemmas every other proof about the manager starts from. Each handler that branches has one
inductive that lists its outcomes — the conditions taken, the state after, the actions — and one theorem
that says there are no others; after this file a handler is unfolded only to see how it faults.

## Contents
- `SwitchOutcome`, `PtzMessageOutcome` — the local arbitration.
- `ClientPtzOutcome`, `ClientSwitchOutcome`, `ClientRequestOutcome` — the requests of the parent.
- `ResponseOutcome` — a response of a child.
- `Step.trunks`, `Step.monitors`, `Step.keeps` — which part of the state which event can change.
-/

namespace Mcc

open Transition

/-! ## Maps of pointers -/

namespace IntMap

variable {V : Type}

@[simp] theorem getElem?_touch (m : IntMap (Option V)) (k j : Int) :
    (touch m k)[j]? = if k = j ∧ k ∉ m then some none else m[j]? := by
  unfold touch
  rw [Std.ExtTreeMap.getElem?_insertIfNew]
  simp only [Std.LawfulEqCmp.compare_eq_iff_eq]

theorem mem_touch {m : IntMap (Option V)} {k j : Int} : j ∈ touch m k ↔ j = k ∨ j ∈ m := by
  unfold touch
  rw [Std.ExtTreeMap.mem_insertIfNew]
  simp only [Std.LawfulEqCmp.compare_eq_iff_eq]
  exact or_congr_left eq_comm

theorem mem_of_deref {m : IntMap (Option V)} {k : Int} {v : V} (h : deref m k = some v) : k ∈ m := by
  rw [Std.ExtTreeMap.mem_iff_isSome_getElem?]
  unfold deref at h
  cases hk : m[k]? with
  | none =>
    rw [hk] at h
    cases h
  | some o => rfl

theorem getElem?_eq_none_iff {m : IntMap V} {k : Int} : m[k]? = none ↔ k ∉ m := by
  rw [Std.ExtTreeMap.mem_iff_isSome_getElem?]
  cases m[k]? with
  | none => simp
  | some v => simp

/-- Erasing a key that is not there changes nothing. -/
theorem erase_of_not_mem {m : IntMap V} {k : Int} (h : k ∉ m) : m.erase k = m := by
  apply Std.ExtTreeMap.ext_getElem?
  intro j
  rw [Std.ExtTreeMap.getElem?_erase]
  by_cases hkj : compare k j = .eq
  · rw [if_pos hkj, ← Std.LawfulEqCmp.compare_eq_iff_eq.mp hkj, Std.ExtTreeMap.getElem?_eq_none h]
  · rw [if_neg hkj]

theorem compare_ne {k j : Int} (h : j ≠ k) : ¬ compare k j = .eq := by
  intro he
  exact h (Std.LawfulEqCmp.compare_eq_iff_eq.mp he).symm

theorem getElem?_of_deref {m : IntMap (Option V)} {k : Int} {v : V} (h : deref m k = some v) :
    m[k]? = some (some v) := by
  unfold deref at h
  exact Option.join_eq_some_iff.mp h

/-- A look-up that finds its key changes nothing. -/
theorem touch_of_mem {m : IntMap (Option V)} {k : Int} (h : k ∈ m) : touch m k = m := by
  apply Std.ExtTreeMap.ext_getElem?
  intro j
  rw [getElem?_touch, if_neg]
  rintro ⟨-, hk⟩
  exact hk h

/-- A look-up never changes what a look-up yields. -/
@[simp] theorem deref_touch (m : IntMap (Option V)) (k j : Int) : deref (touch m k) j = deref m j := by
  unfold deref
  rw [getElem?_touch]
  by_cases h : k = j ∧ k ∉ m
  · rw [if_pos h, ← h.1, Std.ExtTreeMap.getElem?_eq_none h.2]
    rfl
  · rw [if_neg h]

theorem deref_insert (m : IntMap (Option V)) (k j : Int) (v : Option V) :
    deref (m.insert k v) j = if k = j then v else deref m j := by
  unfold deref
  rw [Std.ExtTreeMap.getElem?_insert]
  simp only [Std.LawfulEqCmp.compare_eq_iff_eq]
  by_cases h : k = j
  · rw [if_pos h, if_pos h]
    rfl
  · rw [if_neg h, if_neg h]

end IntMap

namespace ResourceManager

variable {Q : Type}

/-! ## Switches of local keyboards -/

/-- Another keyboard of higher id has the monitor, and has not expired. -/
def InUse (env : Env) (m : Monitor) (keyboardId : Int) : Prop :=
  m.mUser.isExpired env.test = false ∧ m.mUser.mId.lid > keyboardId

instance (env : Env) (m : Monitor) (k : Int) : Decidable (InUse env m k) :=
  inferInstanceAs (Decidable (_ ∧ _))

/-- The request a local switch of a remote camera leads to. -/
def switchRequest (env : Env) (s : ResourceManager Q) (msg : KeyboardMessage) : AgentRequest :=
  buildSwitchRequest env ⟨s.mMatrixId, msg.keyboardId⟩ msg.cameraId (AgentMessage.uninit env.junk)

/-- The outcomes of `processSwitchMessage`. -/
inductive SwitchOutcome (env : Env) (s : ResourceManager Q) (msg : KeyboardMessage) (kb : KeyboardPtr) :
    ProcessResult → ResourceManager Q → List Action → Prop where
  /-- no such monitor; the look-up leaves a null entry -/
  | noMonitor : s.mMonitors.deref msg.monitorId = none →
      SwitchOutcome env s msg kb .reject { s with mMonitors := s.mMonitors.touch msg.monitorId } []
  | inUse {m} : s.mMonitors.deref msg.monitorId = some m → InUse env m msg.keyboardId →
      SwitchOutcome env s msg kb .reject s []
  /-- no such local camera; the look-up leaves a null entry -/
  | noCamera {m} : s.mMonitors.deref msg.monitorId = some m → ¬ InUse env m msg.keyboardId →
      msg.cameraId.mid = s.mMatrixId → s.mCameras.deref msg.cameraId.lid = none →
      SwitchOutcome env s msg kb .reject { s with mCameras := s.mCameras.touch msg.cameraId.lid } []
  | taken {m cam} : s.mMonitors.deref msg.monitorId = some m → ¬ InUse env m msg.keyboardId →
      msg.cameraId.mid = s.mMatrixId → s.mCameras.deref msg.cameraId.lid = some cam →
      SwitchOutcome env s msg kb .accept
        { s with mMonitors := s.mMonitors.insert msg.monitorId (some (m.replace msg.keyboardId env.update)) }
        []
  | noMatrix {m} : s.mMonitors.deref msg.monitorId = some m → ¬ InUse env m msg.keyboardId →
      msg.cameraId.mid ≠ s.mMatrixId → s.matchMatrix msg.cameraId.mid = none →
      SwitchOutcome env s msg kb .reject s []
  /-- sent to the child; the monitor is left as it is -/
  | sent {m matrix} : s.mMonitors.deref msg.monitorId = some m → ¬ InUse env m msg.keyboardId →
      msg.cameraId.mid ≠ s.mMatrixId → s.matchMatrix msg.cameraId.mid = some matrix →
      SwitchOutcome env s msg kb .pending (s.storeContext ⟨env.rand, kb, msg⟩)
        [.serverSend matrix.mFd (s.switchRequest env msg)]

/-- **Every local switch has one of these outcomes.** -/
theorem processSwitchMessage_outcome (env : Env) (s : ResourceManager Q) (msg : KeyboardMessage)
    (kb : KeyboardPtr) :
    SwitchOutcome env s msg kb (processSwitchMessage env s msg kb).1 (processSwitchMessage env s msg kb).2.1
      (processSwitchMessage env s msg kb).2.2 := by
  unfold processSwitchMessage
  cases hm : s.mMonitors.deref msg.monitorId with
  | none => exact .noMonitor hm
  | some m =>
    -- the look-up of a monitor that is there leaves the state alone
    have hs : { s with mMonitors := s.mMonitors.touch msg.monitorId } = s := by
      rw [IntMap.touch_of_mem (IntMap.mem_of_deref hm)]
    simp only [hs]
    by_cases huse : m.mUser.isExpired env.test = false ∧ m.mUser.mId.lid > msg.keyboardId
    · rw [if_pos huse]
      exact .inUse hm huse
    · rw [if_neg huse]
      by_cases hloc : msg.cameraId.mid = s.mMatrixId
      · rw [if_pos hloc]
        unfold isCameraExist
        cases hc : s.mCameras.deref msg.cameraId.lid with
        | none => exact .noCamera hm huse hloc hc
        | some cam =>
          simp only [IntMap.touch_of_mem (IntMap.mem_of_deref hc), Option.isSome_some, if_true]
          exact .taken hm huse hloc hc
      · rw [if_neg hloc]
        cases hx : s.matchMatrix msg.cameraId.mid with
        | none => exact .noMatrix hm huse hloc hx
        | some matrix =>
          simp only [Option.isNone_some, Bool.false_eq_true, false_and, if_false]
          exact .sent hm huse hloc hx

/-- `onSwitch` ends as `processSwitchMessage` decides; a rejection needs a keyboard to notify. -/
theorem onSwitch_eq {env : Env} {s s' : ResourceManager Q} {kb : KeyboardPtr} {msg : KeyboardMessage}
    {out : List Action} (h : s.onSwitch env kb msg = .ok (s', out)) :
    ∃ r s₁ acts, SwitchOutcome env s msg kb r s₁ acts ∧
      ((r = .accept ∧ s' = { s₁ with lastSwitchCid := msg.cameraId } ∧
          out = acts ++ [Action.sendSwitch 0 msg, .notifyClients msg]) ∨
        (r = .reject ∧ s' = s₁ ∧ ∃ k, kb = some k ∧
          out = acts ++ [Action.notifyKeyboard k msg 400 "Rejected"]) ∨
        (r = .pending ∧ s' = s₁ ∧ out = acts)) := by
  have hout := processSwitchMessage_outcome env s msg kb
  unfold onSwitch at h
  generalize processSwitchMessage env s msg kb = res at h hout
  obtain ⟨r, s₁, acts⟩ := res
  refine ⟨r, s₁, acts, hout, ?_⟩
  cases r with
  | accept =>
    simp only [Except.ok.injEq, Prod.mk.injEq] at h
    exact Or.inl ⟨rfl, h.1.symm, h.2.symm⟩
  | reject =>
    -- a rejection is told to the keyboard, and faults where there is none
    cases kb with
    | none => cases h
    | some k =>
      simp only [notifyRejected, Except.map, Except.ok.injEq, Prod.mk.injEq] at h
      exact Or.inr (Or.inl ⟨rfl, h.1.symm, k, rfl, h.2.symm⟩)
  | pending =>
    simp only [Except.ok.injEq, Prod.mk.injEq] at h
    exact Or.inr (Or.inr ⟨rfl, h.1.symm, h.2.symm⟩)

/-! ## PTZ messages of local keyboards -/

/-- The request a local PTZ message for a remote camera leads to. -/
def ptzRequest (env : Env) (s : ResourceManager Q) (msg : KeyboardMessage) : AgentRequest :=
  buildPtzRequest env ⟨s.mMatrixId, msg.keyboardId⟩ msg.cameraId msg.ptzOptType 2
    (AgentMessage.uninit env.junk)

/-- The outcomes of `processPtzMessage`. -/
inductive PtzMessageOutcome (env : Env) (s : ResourceManager Q) (msg : KeyboardMessage) (kb : KeyboardPtr) :
    ProcessResult → ResourceManager Q → List Action → Prop where
  /-- no such local camera; the look-up leaves a null entry -/
  | noCamera : msg.cameraId.mid = s.mMatrixId → s.mCameras.deref msg.cameraId.lid = none →
      PtzMessageOutcome env s msg kb .reject { s with mCameras := s.mCameras.touch msg.cameraId.lid } []
  | processed {cam cam' r} : msg.cameraId.mid = s.mMatrixId →
      s.mCameras.deref msg.cameraId.lid = some cam →
      processLocalPtz env cam ⟨msg.cameraId.mid, msg.keyboardId⟩ msg.ptzOptType msg.lockResource = (r, cam') →
      PtzMessageOutcome env s msg kb r { s with mCameras := s.mCameras.insert msg.cameraId.lid (some cam') } []
  /-- a camera of no known matrix: accepted, and nothing is sent -/
  | noMatrix : msg.cameraId.mid ≠ s.mMatrixId → s.matchMatrix msg.cameraId.mid = none →
      PtzMessageOutcome env s msg kb .accept s []
  /-- sent to the child; a context that is there is kept -/
  | sent {matrix} : msg.cameraId.mid ≠ s.mMatrixId → s.matchMatrix msg.cameraId.mid = some matrix →
      PtzMessageOutcome env s msg kb .pending
        (if s.mProcessContexts.contains env.rand then s else s.storeContext ⟨env.rand, kb, msg⟩)
        [.serverSend matrix.mFd (s.ptzRequest env msg)]

/-- **Every local PTZ message has one of these outcomes.** -/
theorem processPtzMessage_outcome (env : Env) (s : ResourceManager Q) (msg : KeyboardMessage)
    (kb : KeyboardPtr) :
    PtzMessageOutcome env s msg kb (processPtzMessage env s msg kb).1 (processPtzMessage env s msg kb).2.1
      (processPtzMessage env s msg kb).2.2 := by
  unfold processPtzMessage isLocal
  by_cases hloc : msg.cameraId.mid = s.mMatrixId
  · simp only [decide_eq_true hloc, if_true]
    cases hc : s.mCameras.deref msg.cameraId.lid with
    | none => exact .noCamera hloc hc
    | some cam =>
      simp only [IntMap.touch_of_mem (IntMap.mem_of_deref hc)]
      generalize hres : processLocalPtz env cam _ _ _ = res
      obtain ⟨r, cam'⟩ := res
      exact .processed hloc hc hres
  · simp only [decide_eq_false hloc, Bool.false_eq_true, if_false]
    cases hx : s.matchMatrix msg.cameraId.mid with
    | none => exact .noMatrix hloc hx
    | some matrix => exact .sent hloc hx

/-- The message `onPtz` processes: its camera is the last one switched. -/
def ptzTarget (s : ResourceManager Q) (msg : KeyboardMessage) : KeyboardMessage :=
  { msg with cameraId := s.lastSwitchCid }

/-- `onPtz` ends as `processPtzMessage` decides. -/
theorem onPtz_eq {env : Env} {s s' : ResourceManager Q} {kb : KeyboardPtr} {msg : KeyboardMessage}
    {out : List Action} (h : s.onPtz env kb msg = .ok (s', out)) :
    ∃ r acts, PtzMessageOutcome env s (s.ptzTarget msg) kb r s' acts ∧
      ((r = .accept ∧ out = acts ++ [Action.sendPtz 0 (s.ptzTarget msg), .notifyClients (s.ptzTarget msg)]) ∨
        (r = .reject ∧ ∃ k, kb = some k ∧
          out = acts ++ [Action.notifyKeyboard k (s.ptzTarget msg) 400 "Rejected"]) ∨
        (r = .pending ∧ out = acts)) := by
  have hout := processPtzMessage_outcome env s (s.ptzTarget msg) kb
  unfold onPtz at h
  unfold ptzTarget at hout ⊢
  simp only at h
  generalize processPtzMessage env s { msg with cameraId := s.lastSwitchCid } kb = res at h hout
  obtain ⟨r, s₁, acts⟩ := res
  cases r with
  | accept =>
    simp only [Except.ok.injEq, Prod.mk.injEq] at h
    obtain ⟨rfl, rfl⟩ := h
    exact ⟨_, _, hout, Or.inl ⟨rfl, rfl⟩⟩
  | reject =>
    cases kb with
    | none => cases h
    | some k =>
      simp only [notifyRejected, Except.map, Except.ok.injEq, Prod.mk.injEq] at h
      obtain ⟨rfl, rfl⟩ := h
      exact ⟨_, _, hout, Or.inr (Or.inl ⟨rfl, k, rfl, rfl⟩)⟩
  | pending =>
    simp only [Except.ok.injEq, Prod.mk.injEq] at h
    obtain ⟨rfl, rfl⟩ := h
    exact ⟨_, _, hout, Or.inr (Or.inr ⟨rfl, rfl⟩)⟩

end ResourceManager

/-! ## Requests of the parent -/

namespace AgentMessage

/-- The user a request of the parent speaks for. -/
def user (request : AgentRequest) : GlobalID := ⟨request.mFrom, request.mInitiatorId⟩

/-- The camera it is about. -/
def camera (request : AgentRequest) : GlobalID := ⟨request.mTo, request.mContent.swiCameraid⟩

/-- The user as it is queued on a trunk. -/
def entry (request : AgentRequest) (env : Env) : User :=
  (User.new request.user .keyboard (env.junk 0)).updateExpire env.update

/-- The switch a granted request leads to. -/
def switchMessage (request : AgentRequest) (outport : Int) : KeyboardMessage :=
  { KeyboardMessage.new with type := .switch, cameraId := request.camera, monitorId := outport }

/-- The PTZ message an accepted request leads to. -/
def ptzMessage (request : AgentRequest) : KeyboardMessage :=
  { KeyboardMessage.new with
    type := .ptz, cameraId := request.camera, ptzOptType := request.mContent.ptzDirection
    ptzOptVstep := 32, ptzOptHstep := 32 }

/-- The answer to a `SWITCH`. -/
def switchAnswer (request : AgentRequest) (env : Env) (statuscode : Int) (reason : String) (outport : Int) :
    AgentResponse :=
  buildSwitchResponse request statuscode reason outport (AgentResponse.uninit env.junk)

/-- The answer to a `PTZ`. -/
def ptzAnswer (request : AgentRequest) (env : Env) (statuscode : Int) (reason : String) : AgentResponse :=
  buildPtzResponse request statuscode reason (AgentResponse.uninit env.junk)

end AgentMessage

namespace ResourceManager

variable {Q : Type}

/-- The outcomes of a `PTZ` of the parent. -/
inductive ClientPtzOutcome (env : Env) (s : ResourceManager Q) (request : AgentRequest) :
    ResourceManager Q → List Action → Prop where
  | noCamera : request.mTo = s.mMatrixId → request.mContent.ptzCameraid ∉ s.mCameras →
      ClientPtzOutcome env s request s [.clientRespond (request.ptzAnswer env 404 "Ptz Not Found")]
  | accepted {cam cam'} : request.mTo = s.mMatrixId →
      s.mCameras[request.mContent.ptzCameraid]? = some (some cam) →
      processLocalPtz env cam request.user request.mContent.ptzDirection 0 = (.accept, cam') →
      ClientPtzOutcome env s request
        { s with mCameras := s.mCameras.insert request.mContent.ptzCameraid (some cam') }
        [.clientRespond (request.ptzAnswer env 200 "Ok"), .sendPtz 0 request.ptzMessage,
         .notifyClients request.ptzMessage]
  | refused {cam cam' r} : request.mTo = s.mMatrixId →
      s.mCameras[request.mContent.ptzCameraid]? = some (some cam) →
      processLocalPtz env cam request.user request.mContent.ptzDirection 0 = (r, cam') → r ≠ .accept →
      ClientPtzOutcome env s request
        { s with mCameras := s.mCameras.insert request.mContent.ptzCameraid (some cam') }
        [.clientRespond (request.ptzAnswer env 400 "Ptz Not Avaliable")]
  | noMatrix : request.mTo ≠ s.mMatrixId → s.matchMatrix request.mTo = none →
      ClientPtzOutcome env s request s [.clientRespond (request.ptzAnswer env 404 "Matrix Not Found")]

/-- How a `PTZ` of the parent ends, with or without a fault. -/
inductive ClientPtzEnd (env : Env) (s : ResourceManager Q) (request : AgentRequest) :
    Except Fault (Outcome Q) → Prop where
  /-- the null entry a look-up left is passed on as a camera -/
  | nullCamera : request.mTo = s.mMatrixId → s.mCameras[request.mContent.ptzCameraid]? = some none →
      ClientPtzEnd env s request (.error .nullDeref)
  /-- the context of a forwarded request is built from a reference to null -/
  | nullEvent {matrix} : request.mTo ≠ s.mMatrixId → s.matchMatrix request.mTo = some matrix →
      ClientPtzEnd env s request (.error .nullDeref)
  | ended {s' out} : ClientPtzOutcome env s request s' out → ClientPtzEnd env s request (.ok (s', out))

/-- **Every `PTZ` ends in one of these ways.** -/
theorem onClientRxPtz_end (env : Env) (s : ResourceManager Q) (request : AgentRequest) :
    ClientPtzEnd env s request (s.onClientRxPtz env request) := by
  unfold onClientRxPtz
  by_cases hloc : request.mTo = s.mMatrixId
  · simp only [if_pos hloc]
    cases hcam : s.mCameras[request.mContent.ptzCameraid]? with
    | none => exact .ended (.noCamera hloc (IntMap.getElem?_eq_none_iff.mp hcam))
    | some o =>
      cases o with
      | none => exact .nullCamera hloc hcam
      | some cam =>
        simp only
        generalize hres : processLocalPtz env cam _ _ _ = res
        obtain ⟨r, cam'⟩ := res
        by_cases hr : r = .accept
        · rw [if_pos hr]
          subst hr
          exact .ended (.accepted hloc hcam hres)
        · rw [if_neg hr]
          exact .ended (.refused hloc hcam hres hr)
  · simp only [if_neg hloc]
    cases hx : s.matchMatrix request.mTo with
    | none => exact .ended (.noMatrix hloc hx)
    | some matrix => exact .nullEvent hloc hx

/-- Without a fault it has one of the outcomes. -/
theorem onClientRxPtz_outcome {env : Env} {s s' : ResourceManager Q} {request : AgentRequest}
    {out : List Action} (h : s.onClientRxPtz env request = .ok (s', out)) :
    ClientPtzOutcome env s request s' out := by
  have hend := onClientRxPtz_end env s request
  rw [h] at hend
  cases hend with
  | ended hout => exact hout

/-! ## Responses of children -/

/-- The switch `onServerRxResponse` makes: the monitor asked for, from the trunk's port here. -/
def responseSwitch (s : ResourceManager Q) (context : ProcessContext) (response : AgentResponse) :
    KeyboardMessage :=
  { context.mKeyboardEvent with type := .switch, cameraId := ⟨s.mMatrixId, response.mContent.swiOutport⟩ }

/-- The state without the context of a response. -/
def closed (s : ResourceManager Q) (response : AgentResponse) : ResourceManager Q :=
  { s with mProcessContexts := s.mProcessContexts.erase response.mId }

/-- The outcomes of `onServerRxResponse`. -/
inductive ResponseOutcome (s : ResourceManager Q) (response : AgentResponse) :
    ResourceManager Q → List Action → Prop where
  /-- no such request is pending -/
  | unknown : response.mId ∉ s.mProcessContexts → ResponseOutcome s response s []
  | switched {context k} : s.mProcessContexts[response.mId]? = some context → response.mTo = s.mMatrixId →
      response.mMethod = .switch → response.mStatusCode.tdiv 100 = 2 → context.mKeyboard = some k →
      ResponseOutcome s response { s.closed response with lastSwitchCid := context.mKeyboardEvent.cameraId }
        [.sendSwitch 0 (s.responseSwitch context response)]
  | failed {context k} : s.mProcessContexts[response.mId]? = some context → response.mTo = s.mMatrixId →
      response.mMethod = .switch ∨ response.mMethod = .ptz → response.mStatusCode.tdiv 100 ≠ 2 →
      context.mKeyboard = some k →
      ResponseOutcome s response (s.closed response)
        [.notifyKeyboard k context.mKeyboardEvent response.mStatusCode response.mReason]
  | ptzDone {context} : s.mProcessContexts[response.mId]? = some context → response.mTo = s.mMatrixId →
      response.mMethod = .ptz → response.mStatusCode.tdiv 100 = 2 →
      ResponseOutcome s response (s.closed response) [.notifyClients context.mKeyboardEvent]
  | relayed {context} : s.mProcessContexts[response.mId]? = some context → response.mTo ≠ s.mMatrixId →
      response.mMethod = .switch ∨ response.mMethod = .ptz →
      ResponseOutcome s response (s.closed response) [.clientRespond response]
  /-- for this matrix, but no keyboard to tell, or a method that has no response -/
  | dropped {context} : s.mProcessContexts[response.mId]? = some context →
      (response.mTo = s.mMatrixId ∧ context.mKeyboard = none) ∨
        (response.mMethod ≠ .switch ∧ response.mMethod ≠ .ptz) →
      ResponseOutcome s response (s.closed response) []

/-- **A response never faults and has one of these outcomes.** -/
theorem onServerRxResponse_outcome (s : ResourceManager Q) (response : AgentResponse) :
    ∃ s' out, s.onServerRxResponse response = .ok (s', out) ∧ ResponseOutcome s response s' out := by
  unfold onServerRxResponse
  cases hctx : s.mProcessContexts[response.mId]? with
  | none => exact ⟨_, _, rfl, .unknown (IntMap.getElem?_eq_none_iff.mp hctx)⟩
  | some context =>
    simp only
    by_cases hto : response.mTo = s.mMatrixId
    · rw [if_pos hto]
      cases hmeth : response.mMethod with
      | register => exact ⟨_, _, rfl, .dropped hctx (Or.inr (by simp [hmeth]))⟩
      | other n => exact ⟨_, _, rfl, .dropped hctx (Or.inr (by simp [hmeth]))⟩
      | switch =>
        simp only
        by_cases hok : response.mStatusCode.tdiv 100 = 2
        · rw [if_neg (not_not.mpr hok)]
          cases hk : context.mKeyboard with
          | none => exact ⟨_, _, rfl, .dropped hctx (Or.inl ⟨hto, hk⟩)⟩
          | some k => exact ⟨_, _, rfl, .switched hctx hto hmeth hok hk⟩
        · rw [if_pos hok]
          cases hk : context.mKeyboard with
          | none => exact ⟨_, _, rfl, .dropped hctx (Or.inl ⟨hto, hk⟩)⟩
          | some k => exact ⟨_, _, rfl, .failed hctx hto (Or.inl hmeth) hok hk⟩
      | ptz =>
        simp only
        by_cases hok : response.mStatusCode.tdiv 100 = 2
        · rw [if_neg (not_not.mpr hok)]
          exact ⟨_, _, rfl, .ptzDone hctx hto hmeth hok⟩
        · rw [if_pos hok]
          cases hk : context.mKeyboard with
          | none => exact ⟨_, _, rfl, .dropped hctx (Or.inl ⟨hto, hk⟩)⟩
          | some k => exact ⟨_, _, rfl, .failed hctx hto (Or.inr hmeth) hok hk⟩
    · rw [if_neg hto]
      cases hmeth : response.mMethod with
      | register => exact ⟨_, _, rfl, .dropped hctx (Or.inr (by simp [hmeth]))⟩
      | other n => exact ⟨_, _, rfl, .dropped hctx (Or.inr (by simp [hmeth]))⟩
      | switch => exact ⟨_, _, rfl, .relayed hctx hto (Or.inl hmeth)⟩
      | ptz => exact ⟨_, _, rfl, .relayed hctx hto (Or.inr hmeth)⟩

/-- What a response that was handled did. -/
theorem responseOutcome_of_eq {s s' : ResourceManager Q} {response : AgentResponse} {out : List Action}
    (h : s.onServerRxResponse response = .ok (s', out)) : ResponseOutcome s response s' out := by
  obtain ⟨s₁, out₁, heq, hout⟩ := s.onServerRxResponse_outcome response
  rw [heq] at h
  cases h
  exact hout

/-! ## What stays -/

/-- The matrix id is the same, and no camera id is forgotten. -/
structure Keeps (s s' : ResourceManager Q) : Prop where
  matrixId : s'.mMatrixId = s.mMatrixId
  cameras : ∀ k ∈ s.mCameras, k ∈ s'.mCameras

theorem Keeps.refl (s : ResourceManager Q) : Keeps s s := ⟨rfl, fun _ hk => hk⟩

theorem SwitchOutcome.keeps {env : Env} {s s' : ResourceManager Q} {msg : KeyboardMessage}
    {kb : KeyboardPtr} {r : ProcessResult} {out : List Action} (h : SwitchOutcome env s msg kb r s' out) :
    Keeps s s' := by
  cases h with
  | noMonitor => exact ⟨rfl, fun _ hk => hk⟩
  | inUse => exact .refl s
  | noCamera => exact ⟨rfl, fun _ hk => IntMap.mem_touch.mpr (Or.inr hk)⟩
  | taken => exact ⟨rfl, fun _ hk => hk⟩
  | noMatrix => exact .refl s
  | sent => exact ⟨rfl, fun _ hk => hk⟩

theorem PtzMessageOutcome.keeps {env : Env} {s s' : ResourceManager Q} {msg : KeyboardMessage}
    {kb : KeyboardPtr} {r : ProcessResult} {out : List Action}
    (h : PtzMessageOutcome env s msg kb r s' out) : Keeps s s' := by
  cases h with
  | noCamera => exact ⟨rfl, fun _ hk => IntMap.mem_touch.mpr (Or.inr hk)⟩
  | processed => exact ⟨rfl, fun _ hk => Std.ExtTreeMap.mem_insert.mpr (Or.inr hk)⟩
  | noMatrix => exact .refl s
  | sent =>
    split
    · exact .refl s
    · exact ⟨rfl, fun _ hk => hk⟩

theorem ClientPtzOutcome.keeps {env : Env} {s s' : ResourceManager Q} {request : AgentRequest}
    {out : List Action} (h : ClientPtzOutcome env s request s' out) : Keeps s s' := by
  cases h with
  | noCamera => exact .refl s
  | accepted => exact ⟨rfl, fun _ hk => Std.ExtTreeMap.mem_insert.mpr (Or.inr hk)⟩
  | refused => exact ⟨rfl, fun _ hk => Std.ExtTreeMap.mem_insert.mpr (Or.inr hk)⟩
  | noMatrix => exact .refl s

/-- The resources are the same in both states: only contexts, children and the connection may differ. -/
structure SameResources (s s' : ResourceManager Q) : Prop where
  matrixId : s'.mMatrixId = s.mMatrixId
  cameras : s'.mCameras = s.mCameras
  trunks : s'.mTrunks = s.mTrunks
  monitors : s'.mMonitors = s.mMonitors

theorem SameResources.refl (s : ResourceManager Q) : SameResources s s := ⟨rfl, rfl, rfl, rfl⟩

theorem onServerRxResponse_same {s s' : ResourceManager Q} {response : AgentResponse} {out : List Action}
    (h : s.onServerRxResponse response = .ok (s', out)) : SameResources s s' := by
  cases responseOutcome_of_eq h with
  | unknown => exact .refl s
  | switched => exact ⟨rfl, rfl, rfl, rfl⟩
  | failed => exact ⟨rfl, rfl, rfl, rfl⟩
  | ptzDone => exact ⟨rfl, rfl, rfl, rfl⟩
  | relayed => exact ⟨rfl, rfl, rfl, rfl⟩
  | dropped => exact ⟨rfl, rfl, rfl, rfl⟩

/-- A connection to the parent is remembered, and the parent is told. -/
theorem onClientConnected_ok {env : Env} {s s' : ResourceManager Q} {out : List Action}
    (h : s.onClientConnected env = .ok (s', out)) :
    s' = { s with misClientConnected := true } ∧ ∃ request, out = [.clientSend request] := by
  unfold onClientConnected at h
  obtain ⟨request, _, h⟩ := bind_eq_ok h
  cases h
  exact ⟨rfl, request, rfl⟩

/-- A disconnect that does not fault does nothing. -/
theorem onDisconnect_ok {s s' : ResourceManager Q} {fd : Int} {out : List Action}
    (h : s.onDisconnect fd = .ok (s', out)) : s' = s ∧ out = [] := by
  unfold onDisconnect at h
  split at h
  · cases h
  · cases h
    exact ⟨rfl, rfl⟩

/-- A registration changes the children only. -/
theorem registerChild_eq {s s' : ResourceManager Q} {fd : Int} {reg : AgentRequest}
    (h : s.registerChild fd reg = .ok s') : ∃ children, s' = { s with mChildMatrixs := children } := by
  unfold registerChild at h
  by_cases hexp : reg.mContent.regExpire > 0
  · simp only [if_pos hexp] at h
    cases hchild : s.mChildMatrixs[reg.mFrom]? with
    | none =>
      simp only [hchild] at h
      cases h
      exact ⟨_, rfl⟩
    | some matrix =>
      simp only [hchild] at h
      cases hclear : matrix.clearChildren with
      | error f =>
        rw [hclear] at h
        cases h
      | ok m =>
        rw [hclear] at h
        cases h
        exact ⟨_, rfl⟩
  · simp only [if_neg hexp] at h
    cases h
    exact ⟨_, rfl⟩

/-- `onRegister` leaves all but the children, and tells the parent or nobody. -/
theorem onRegister_eq {env : Env} {s s' : ResourceManager Q} {fd : Int} {reg : AgentRequest}
    {out : List Action} (h : s.onRegister env fd reg = .ok (s', out)) :
    (∃ children, s' = { s with mChildMatrixs := children }) ∧
      (out = [] ∨ ∃ request, out = [.clientSend request]) := by
  unfold onRegister at h
  split at h
  · cases h
    exact ⟨⟨s.mChildMatrixs, rfl⟩, Or.inl rfl⟩
  · obtain ⟨s₁, hs₁, h⟩ := bind_eq_ok h
    split at h
    · obtain ⟨request, _, h⟩ := bind_eq_ok h
      cases h
      exact ⟨registerChild_eq hs₁, Or.inr ⟨request, rfl⟩⟩
    · cases h
      exact ⟨registerChild_eq hs₁, Or.inl rfl⟩

theorem onRegister_same {env : Env} {s s' : ResourceManager Q} {fd : Int} {reg : AgentRequest}
    {out : List Action} (h : s.onRegister env fd reg = .ok (s', out)) : SameResources s s' := by
  obtain ⟨⟨children, rfl⟩, -⟩ := onRegister_eq h
  exact ⟨rfl, rfl, rfl, rfl⟩

variable [PriorityQueue Q User]

/-! ## `SWITCH` requests of the parent -/

/-- The state after `checkTrunk` has purged every trunk. -/
def purged (env : Env) (s : ResourceManager Q) : ResourceManager Q :=
  { s with mTrunks := purgeTrunks env s.mTrunks }

/-- The outcomes of a `SWITCH` of the parent. -/
inductive ClientSwitchOutcome (env : Env) (s : ResourceManager Q) (request : AgentRequest) :
    ResourceManager Q → List Action → Prop where
  | busy : findTrunk (purgeTrunks env s.mTrunks) request.user request.camera = .ok none →
      ClientSwitchOutcome env s request (s.purged env)
        [.clientRespond (request.switchAnswer env 404 "Trunk Busy" 0)]
  | granted {i trunk} : findTrunk (purgeTrunks env s.mTrunks) request.user request.camera = .ok (some i) →
      (purgeTrunks env s.mTrunks)[i]? = some trunk → request.mTo = s.mMatrixId →
      request.mContent.swiCameraid ∈ s.mCameras →
      ClientSwitchOutcome env s request
        ((s.purged env).grantTrunk i (request.entry env) ⟨s.mMatrixId, request.mContent.swiCameraid⟩)
        [.sendSwitch 0 (request.switchMessage trunk.mOutport),
         .notifyClients (request.switchMessage trunk.mOutport),
         .clientRespond (request.switchAnswer env 200 "Ok" trunk.mOutport)]
  | noCamera {i trunk} : findTrunk (purgeTrunks env s.mTrunks) request.user request.camera = .ok (some i) →
      (purgeTrunks env s.mTrunks)[i]? = some trunk → request.mTo = s.mMatrixId →
      request.mContent.swiCameraid ∉ s.mCameras →
      ClientSwitchOutcome env s request (s.purged env)
        [.clientRespond (request.switchAnswer env 404 "Camera Not Found" trunk.mOutport)]
  | noMatrix {i trunk} : findTrunk (purgeTrunks env s.mTrunks) request.user request.camera = .ok (some i) →
      (purgeTrunks env s.mTrunks)[i]? = some trunk → request.mTo ≠ s.mMatrixId →
      s.matchMatrix request.mTo = none →
      ClientSwitchOutcome env s request (s.purged env)
        [.clientRespond (request.switchAnswer env 404 "Matrix Not Found" trunk.mOutport)]
  | forwarded {i trunk matrix} :
      findTrunk (purgeTrunks env s.mTrunks) request.user request.camera = .ok (some i) →
      (purgeTrunks env s.mTrunks)[i]? = some trunk → request.mTo ≠ s.mMatrixId →
      s.matchMatrix request.mTo = some matrix → request.mId ∉ s.mProcessContexts →
      ClientSwitchOutcome env s request
        ((s.purged env).storeContext ⟨request.mId, none, KeyboardMessage.new⟩)
        [.serverSend matrix.mFd request]

/-- How a `SWITCH` of the parent ends, with or without a fault. -/
inductive ClientSwitchEnd (env : Env) (s : ResourceManager Q) (request : AgentRequest) :
    Except Fault (Outcome Q) → Prop where
  | noSearch {f} : findTrunk (purgeTrunks env s.mTrunks) request.user request.camera = .error f →
      ClientSwitchEnd env s request (.error f)
  /-- `assert(trunk)` -/
  | noTrunk {i} : findTrunk (purgeTrunks env s.mTrunks) request.user request.camera = .ok (some i) →
      (purgeTrunks env s.mTrunks)[i]? = none → ClientSwitchEnd env s request (.error .assertion)
  /-- the assertion on an id that is pending -/
  | repeated {i matrix} :
      findTrunk (purgeTrunks env s.mTrunks) request.user request.camera = .ok (some i) →
      request.mTo ≠ s.mMatrixId → s.matchMatrix request.mTo = some matrix →
      request.mId ∈ s.mProcessContexts → ClientSwitchEnd env s request (.error .assertion)
  | ended {s' out} : ClientSwitchOutcome env s request s' out → ClientSwitchEnd env s request (.ok (s', out))

/-- **Every `SWITCH` ends in one of these ways.** -/
theorem onClientRxSwitch_end (env : Env) (s : ResourceManager Q) (request : AgentRequest) :
    ClientSwitchEnd env s request (s.onClientRxSwitch env request) := by
  unfold onClientRxSwitch checkTrunk
  change ClientSwitchEnd env s request
    ((findTrunk (purgeTrunks env s.mTrunks) request.user request.camera >>= _) >>= _)
  cases hfind : findTrunk (purgeTrunks env s.mTrunks) request.user request.camera with
  | error f => exact .noSearch hfind
  | ok found =>
    cases found with
    | none => exact .ended (.busy hfind)
    | some i =>
      simp only [bind, Except.bind, pure, Except.pure]
      cases htrunk : (purgeTrunks env s.mTrunks)[i]? with
      | none => exact .noTrunk hfind htrunk
      | some trunk =>
        simp only
        by_cases hloc : request.mTo = s.mMatrixId
        · rw [if_pos hloc]
          by_cases hcam : request.mContent.swiCameraid ∈ s.mCameras
          · rw [if_pos (Std.ExtTreeMap.contains_iff_mem.mpr hcam)]
            exact .ended (.granted hfind htrunk hloc hcam)
          · rw [if_neg (fun hc => hcam (Std.ExtTreeMap.contains_iff_mem.mp hc))]
            exact .ended (.noCamera hfind htrunk hloc hcam)
        · rw [if_neg hloc]
          -- the purge changes no child
          cases hx : matchMatrix { s with mTrunks := purgeTrunks env s.mTrunks } request.mTo with
          | none => exact .ended (.noMatrix hfind htrunk hloc hx)
          | some matrix =>
            simp only [forwardToChild]
            by_cases hctx : request.mId ∈ s.mProcessContexts
            · rw [if_pos (Std.ExtTreeMap.contains_iff_mem.mpr hctx)]
              exact .repeated hfind hloc hx hctx
            · rw [if_neg (fun hc => hctx (Std.ExtTreeMap.contains_iff_mem.mp hc))]
              exact .ended (.forwarded hfind htrunk hloc hx hctx)

/-- Without a fault it has one of the outcomes. -/
theorem onClientRxSwitch_outcome {env : Env} {s s' : ResourceManager Q} {request : AgentRequest}
    {out : List Action} (h : s.onClientRxSwitch env request = .ok (s', out)) :
    ClientSwitchOutcome env s request s' out := by
  have hend := onClientRxSwitch_end env s request
  rw [h] at hend
  cases hend with
  | ended hout => exact hout

theorem ClientSwitchOutcome.keeps {env : Env} {s s' : ResourceManager Q} {request : AgentRequest}
    {out : List Action} (h : ClientSwitchOutcome env s request s' out) : Keeps s s' := by
  cases h with
  | busy => exact ⟨rfl, fun _ hk => hk⟩
  | granted => exact ⟨rfl, fun _ hk => hk⟩
  | noCamera => exact ⟨rfl, fun _ hk => hk⟩
  | noMatrix => exact ⟨rfl, fun _ hk => hk⟩
  | forwarded => exact ⟨rfl, fun _ hk => hk⟩

/-! ## One event of the system -/

/-- A `SWITCH` of the parent, as a step. -/
theorem step_switch_iff {s s' : ResourceManager Q} {env : Env} {request : AgentRequest} {out : List Action}
    (hmeth : request.mMethod = .switch) :
    Step s (⟨env, .clientRequest request⟩, out) s' ↔ s.onClientRxSwitch env request = .ok (s', out) := by
  unfold Step ResourceManager.step
  simp only [onClientRxRequest, hmeth]

theorem Step.request {s s' : ResourceManager Q} {env : Env} {request : AgentRequest} {out : List Action}
    (h : Step s (⟨env, .clientRequest request⟩, out) s') (hmeth : request.mMethod = .switch) :
    ClientSwitchOutcome env s request s' out :=
  onClientRxSwitch_outcome ((step_switch_iff hmeth).mp h)

/-- The outcomes of a request of the parent, by its method. -/
inductive ClientRequestOutcome (env : Env) (s : ResourceManager Q) (request : AgentRequest) :
    ResourceManager Q → List Action → Prop where
  | switch {s' out} : request.mMethod = .switch → ClientSwitchOutcome env s request s' out →
      ClientRequestOutcome env s request s' out
  | ptz {s' out} : request.mMethod = .ptz → ClientPtzOutcome env s request s' out →
      ClientRequestOutcome env s request s' out
  | ignored : request.mMethod ≠ .switch → request.mMethod ≠ .ptz → ClientRequestOutcome env s request s []

theorem Step.clientRequest {s s' : ResourceManager Q} {env : Env} {request : AgentRequest}
    {out : List Action} (h : Step s (⟨env, .clientRequest request⟩, out) s') :
    ClientRequestOutcome env s request s' out := by
  have hok : s.onClientRxRequest env request = .ok (s', out) := h
  unfold onClientRxRequest at hok
  cases hmethod : request.mMethod with
  | switch => exact .switch hmethod (Step.request h hmethod)
  | ptz =>
    rw [hmethod] at hok
    exact .ptz hmethod (onClientRxPtz_outcome hok)
  | register =>
    rw [hmethod] at hok
    cases hok
    exact .ignored (by simp [hmethod]) (by simp [hmethod])
  | other n =>
    rw [hmethod] at hok
    cases hok
    exact .ignored (by simp [hmethod]) (by simp [hmethod])

/-- A response of a child, as a step. -/
theorem Step.response {s s' : ResourceManager Q} {env : Env} {response : AgentResponse} {out : List Action}
    (h : Step s (⟨env, .serverResponse response⟩, out) s') : ResponseOutcome s response s' out :=
  responseOutcome_of_eq h

/-- **An event, by what it does to the resources**: a switch or a PTZ message of a keyboard, a request of
    the parent, or an event that leaves them as they are. -/
theorem Step.cases {s s' : ResourceManager Q} {l : Event × List Action} (h : Step s l s') :
    (∃ kb msg, l.1.input = .localSwitch kb msg ∧ s.onSwitch l.1.env kb msg = .ok (s', l.2)) ∨
    (∃ kb msg, l.1.input = .localPtz kb msg ∧ s.onPtz l.1.env kb msg = .ok (s', l.2)) ∨
    (∃ request, l.1.input = .clientRequest request ∧ request.mMethod = .switch ∧
      ClientSwitchOutcome l.1.env s request s' l.2) ∨
    (∃ request, l.1.input = .clientRequest request ∧ request.mMethod = .ptz ∧
      ClientPtzOutcome l.1.env s request s' l.2) ∨
    SameResources s s' := by
  obtain ⟨⟨env, input⟩, out⟩ := l
  cases input with
  | localSwitch kb msg => exact Or.inl ⟨kb, msg, rfl, h⟩
  | localPtz kb msg => exact Or.inr (Or.inl ⟨kb, msg, rfl, h⟩)
  | clientRequest request =>
    cases Step.clientRequest h with
    | switch hmeth hout => exact Or.inr (Or.inr (Or.inl ⟨request, rfl, hmeth, hout⟩))
    | ptz hmeth hout => exact Or.inr (Or.inr (Or.inr (Or.inl ⟨request, rfl, hmeth, hout⟩)))
    | ignored => exact Or.inr (Or.inr (Or.inr (Or.inr (.refl s))))
  | serverResponse response => exact Or.inr (Or.inr (Or.inr (Or.inr (onServerRxResponse_same h))))
  | register fd request => exact Or.inr (Or.inr (Or.inr (Or.inr (onRegister_same h))))
  | disconnect fd =>
    obtain ⟨rfl, -⟩ := onDisconnect_ok h
    exact Or.inr (Or.inr (Or.inr (Or.inr (.refl _))))
  | connected =>
    obtain ⟨rfl, -⟩ := onClientConnected_ok h
    exact Or.inr (Or.inr (Or.inr (Or.inr ⟨rfl, rfl, rfl, rfl⟩)))
  | disconnected =>
    cases h
    exact Or.inr (Or.inr (Or.inr (Or.inr ⟨rfl, rfl, rfl, rfl⟩)))

/-- **The matrix id is fixed** and a camera id once known stays known. -/
theorem Step.keeps {s s' : ResourceManager Q} {l : Event × List Action} (h : Step s l s') : Keeps s s' := by
  rcases h.cases with ⟨kb, msg, -, hs⟩ | ⟨kb, msg, -, hs⟩ | ⟨r, -, -, hs⟩ | ⟨r, -, -, hs⟩ | hs
  · obtain ⟨r, s₁, acts, hout, hend⟩ := onSwitch_eq hs
    have hkeeps := hout.keeps
    rcases hend with ⟨-, rfl, -⟩ | ⟨-, rfl, -⟩ | ⟨-, rfl, -⟩
    · exact ⟨hkeeps.matrixId, hkeeps.cameras⟩
    · exact hkeeps
    · exact hkeeps
  · obtain ⟨_, _, hout, -⟩ := onPtz_eq hs
    exact hout.keeps
  · exact hs.keeps
  · exact hs.keeps
  · exact ⟨hs.matrixId, fun k hk => by rw [hs.cameras]; exact hk⟩

/-- **Only a `SWITCH` of the parent touches the trunks.** -/
theorem Step.trunks {s s' : ResourceManager Q} {l : Event × List Action} (h : Step s l s') :
    s'.mTrunks = s.mTrunks ∨ ∃ request, l.1.input = .clientRequest request ∧
      request.mMethod = .switch ∧ ClientSwitchOutcome l.1.env s request s' l.2 := by
  obtain ⟨ev, out⟩ := l
  rcases h.cases with ⟨kb, msg, -, hs⟩ | ⟨kb, msg, -, hs⟩ | ⟨r, hin, hmeth, hs⟩ | ⟨r, -, -, hs⟩ | hs
  · obtain ⟨r, s₁, acts, hout, hend⟩ := onSwitch_eq hs
    left
    have htrunks : s₁.mTrunks = s.mTrunks := by cases hout <;> rfl
    rcases hend with ⟨-, rfl, -⟩ | ⟨-, rfl, -⟩ | ⟨-, rfl, -⟩
    · exact htrunks
    · exact htrunks
    · exact htrunks
  · obtain ⟨_, _, hout, -⟩ := onPtz_eq hs
    left
    cases hout with
    | noCamera => rfl
    | processed => rfl
    | noMatrix => rfl
    | sent => split <;> rfl
  · exact Or.inr ⟨r, hin, hmeth, hs⟩
  · left
    dsimp only at hs
    cases hs <;> rfl
  · exact Or.inl hs.trunks

/-- **Only a switch of a keyboard touches the monitors.** -/
theorem Step.monitors {s s' : ResourceManager Q} {l : Event × List Action} (h : Step s l s') :
    s'.mMonitors = s.mMonitors ∨ ∃ kb msg r s₁ acts, l.1.input = .localSwitch kb msg ∧
      SwitchOutcome l.1.env s msg kb r s₁ acts ∧ s'.mMonitors = s₁.mMonitors := by
  obtain ⟨ev, out⟩ := l
  rcases h.cases with ⟨kb, msg, hin, hs⟩ | ⟨kb, msg, -, hs⟩ | ⟨r, hin, hmeth, hs⟩ | ⟨r, -, -, hs⟩ | hs
  · obtain ⟨r, s₁, acts, hout, hend⟩ := onSwitch_eq hs
    right
    refine ⟨kb, msg, r, s₁, acts, hin, hout, ?_⟩
    rcases hend with ⟨-, rfl, -⟩ | ⟨-, rfl, -⟩ | ⟨-, rfl, -⟩
    · rfl
    · rfl
    · rfl
  · obtain ⟨_, _, hout, -⟩ := onPtz_eq hs
    left
    cases hout with
    | noCamera => rfl
    | processed => rfl
    | noMatrix => rfl
    | sent => split <;> rfl
  · left
    dsimp only at hs
    cases hs <;> rfl
  · left
    dsimp only at hs
    cases hs <;> rfl
  · exact Or.inl hs.monitors

end ResourceManager

end Mcc
