import Mcc.Model.Manager

/-!
# `Model.Handlers` — the message handlers of `MCCResourceManager`

In the order of the source: the arbitration of local keyboard messages (`processSwitchMessage`,
`processPtzMessage`, `onSwitch`, `onPtz`), the registration of child matrices, the responses of children
(`onServerRxResponse`), the connection to the parent, and the requests of the parent (`checkTrunk`,
`onClientRxRequest`).
-/

namespace Mcc

namespace ResourceManager

variable {Q : Type} [PriorityQueue Q User]

/-! ## Messages of local keyboards -/

/-- `isCameraExist`: the value of `mCameras[id] != NULL`, and the map the look-up leaves behind. -/
def isCameraExist (s : ResourceManager Q) (id : Int) : Bool × ResourceManager Q :=
  ((s.mCameras.deref id).isSome, { s with mCameras := s.mCameras.touch id })

/-- A context is stored under the request's id, whatever was there (`mProcessContexts[id] = context`). -/
def storeContext (s : ResourceManager Q) (context : ProcessContext) : ResourceManager Q :=
  { s with mProcessContexts := s.mProcessContexts.insert context.mId context }

/-- `processSwitchMessage`. -/
def processSwitchMessage (env : Env) (s : ResourceManager Q) (msg : KeyboardMessage)
    (keyboard : KeyboardPtr) : ProcessResult × ResourceManager Q × List Action :=
  let mId := msg.cameraId.mid
  let found := s.mMonitors.deref msg.monitorId
  let s := { s with mMonitors := s.mMonitors.touch msg.monitorId }
  match found with
  | none => (.reject, s, [])
  | some monitor =>
    if monitor.mUser.isExpired env.test = false ∧ monitor.mUser.mId.lid > msg.keyboardId then
      (.reject, s, [])
    else if mId = s.mMatrixId then
      let (exist, s) := s.isCameraExist msg.cameraId.lid
      if exist then
        let monitor := monitor.replace msg.keyboardId env.update
        (.accept, { s with mMonitors := s.mMonitors.insert msg.monitorId (some monitor) }, [])
      else (.reject, s, [])
    else
      match s.matchMatrix mId with
      | none => (.reject, s, [])
      | some matrix =>
        -- the source asks for `monitor == NULL` here, where it has just used `monitor`
        if found.isNone = true ∧ monitor.mUser.mId.lid ≤ msg.keyboardId then (.reject, s, [])
        else
          let request := buildSwitchRequest env ⟨s.mMatrixId, msg.keyboardId⟩ msg.cameraId
            (AgentMessage.uninit env.junk)
          (.pending, s.storeContext ⟨request.mId, keyboard, msg⟩, [.serverSend matrix.mFd request])

/-- `processPtzMessage`. -/
def processPtzMessage (env : Env) (s : ResourceManager Q) (msg : KeyboardMessage)
    (keyboard : KeyboardPtr) : ProcessResult × ResourceManager Q × List Action :=
  let mId := msg.cameraId.mid
  let operatorId : GlobalID := ⟨mId, msg.keyboardId⟩
  if s.isLocal mId then
    let found := s.mCameras.deref msg.cameraId.lid
    let s := { s with mCameras := s.mCameras.touch msg.cameraId.lid }
    match found with
    | none => (.reject, s, [])
    | some cam =>
      let (result, cam) := processLocalPtz env cam operatorId msg.ptzOptType msg.lockResource
      (result, { s with mCameras := s.mCameras.insert msg.cameraId.lid (some cam) }, [])
  else
    match s.matchMatrix msg.cameraId.mid with
    | none => (.accept, s, [])
    | some matrix =>
      let request := buildPtzRequest env ⟨s.mMatrixId, msg.keyboardId⟩ msg.cameraId msg.ptzOptType 2
        (AgentMessage.uninit env.junk)
      -- unlike in `processSwitchMessage`, a context under the same id is kept
      let s := if s.mProcessContexts.contains request.mId then s
        else s.storeContext ⟨request.mId, keyboard, msg⟩
      (.pending, s, [.serverSend matrix.mFd request])

/-- `kb->Notify(msg, 400, "Rejected")`. -/
def notifyRejected (kb : KeyboardPtr) (msg : KeyboardMessage) : Except Fault (List Action) :=
  match kb with
  | none => .error .nullDeref
  | some k => .ok [.notifyKeyboard k msg 400 "Rejected"]

/-- `onSwitch`. -/
def onSwitch (env : Env) (s : ResourceManager Q) (kb : KeyboardPtr) (msg : KeyboardMessage) :
    Except Fault (Outcome Q) :=
  match processSwitchMessage env s msg kb with
  | (.accept, s, out) =>
    .ok ({ s with lastSwitchCid := msg.cameraId }, out ++ [.sendSwitch 0 msg, .notifyClients msg])
  | (.reject, s, out) => (notifyRejected kb msg).map fun acts => (s, out ++ acts)
  | (.pending, s, out) => .ok (s, out)

/-- `onPtz`: the camera of the message is replaced by the last one switched. -/
def onPtz (env : Env) (s : ResourceManager Q) (kb : KeyboardPtr) (msg : KeyboardMessage) :
    Except Fault (Outcome Q) :=
  let msg := { msg with cameraId := s.lastSwitchCid }
  match processPtzMessage env s msg kb with
  | (.accept, s, out) => .ok (s, out ++ [.sendPtz 0 msg, .notifyClients msg])
  | (.reject, s, out) => (notifyRejected kb msg).map fun acts => (s, out ++ acts)
  | (.pending, s, out) => .ok (s, out)

/-! ## Registration of child matrices -/

/-- The words `buildRegister` stores from index `j` on; the array has `maxChildrenNum` of them. -/
def storeChildren (c : Content) : ℕ → List Int → Except Fault (Content × ℕ)
  | j, [] => .ok (c, j)
  | j, id :: rest =>
    if j < maxChildrenNum then storeChildren (c.set (j + 2) id) (j + 1) rest else .error .outOfBounds

/-- `buildRegister`: every child and, after it, the matrices below it. -/
def buildRegister (env : Env) (s : ResourceManager Q) : Except Fault AgentRequest := do
  let request := buildRegRequest s.mMatrixId 60 (AgentMessage.uninit env.junk)
  let ids := (s.mChildMatrixs.toList.map Prod.snd).flatMap fun m => m.mId :: m.mChildset.toList
  let (content, j) ← storeChildren request.mContent 0 ids
  return { request with mContent := content.set 1 j }

/-- `onDisconnect`: an entry of this connection is erased through the iterator the loop then advances. -/
def onDisconnect (s : ResourceManager Q) (fd : Int) : Except Fault (Outcome Q) :=
  if (s.mChildMatrixs.toList.map Prod.snd).any fun m => decide (m.mFd = fd) then .error .badIterator
  else .ok (s, [])

/-- The children a `REGISTER` lists, added one by one. -/
def addChildren (c : Content) (m : MatrixInfo) : MatrixInfo :=
  (List.range c.regChildrenNum.toNat).foldl (fun m i => m.addChild (c.regChild i)) m

/-- The first part of `onRegister`: the child's entry is made, filled again, or erased. -/
def registerChild (s : ResourceManager Q) (fd : Int) (reg : AgentRequest) :
    Except Fault (ResourceManager Q) :=
  let mid := reg.mFrom
  if reg.mContent.regExpire > 0 then
    match s.mChildMatrixs[mid]? with
    | none => .ok { s with
        mChildMatrixs := s.mChildMatrixs.insert mid (addChildren reg.mContent (.new mid fd)) }
    | some matrix => matrix.clearChildren.map fun matrix => { s with
        mChildMatrixs := s.mChildMatrixs.insert mid (addChildren reg.mContent matrix) }
  else .ok { s with mChildMatrixs := s.mChildMatrixs.erase mid }

/-- `onRegister`. -/
def onRegister (env : Env) (s : ResourceManager Q) (fd : Int) (reg : AgentRequest) :
    Except Fault (Outcome Q) :=
  if reg.mMethod ≠ .register then .ok (s, [])
  else do
    let s ← s.registerChild fd reg
    -- the parent is told, once there is one
    if s.mLevel ≠ 0 ∧ s.misClientConnected = true then
      let request ← s.buildRegister env
      return (s, [.clientSend request])
    else return (s, [])

/-! ## Responses of child matrices -/

/-- `onServerRxResponse`. -/
def onServerRxResponse (s : ResourceManager Q) (response : AgentResponse) : Except Fault (Outcome Q) :=
  match s.mProcessContexts[response.mId]? with
  | none => .ok (s, [])
  | some context =>
    -- the context is erased before the response is looked at
    let s := { s with mProcessContexts := s.mProcessContexts.erase response.mId }
    if response.mTo = s.mMatrixId then
      match response.mMethod with
      | .switch =>
        if response.mStatusCode.tdiv 100 ≠ 2 then
          match context.mKeyboard with
          | none => .ok (s, [])
          | some k =>
            .ok (s, [.notifyKeyboard k context.mKeyboardEvent response.mStatusCode response.mReason])
        else
          match context.mKeyboard with
          | none => .ok (s, [])
          | some _ =>
            let inport := response.mContent.swiOutport
            let event := context.mKeyboardEvent
            let msg := { event with type := .switch, cameraId := ⟨s.mMatrixId, inport⟩ }
            .ok ({ s with lastSwitchCid := event.cameraId }, [.sendSwitch 0 msg])
      | .ptz =>
        if response.mStatusCode.tdiv 100 ≠ 2 then
          match context.mKeyboard with
          | none => .ok (s, [])
          | some k =>
            .ok (s, [.notifyKeyboard k context.mKeyboardEvent response.mStatusCode response.mReason])
        else .ok (s, [.notifyClients context.mKeyboardEvent])
      | _ => .ok (s, [])
    else
      match response.mMethod with
      | .switch => .ok (s, [.clientRespond response])
      | .ptz => .ok (s, [.clientRespond response])
      | _ => .ok (s, [])

/-! ## The connection to the parent -/

def onClientConnected (env : Env) (s : ResourceManager Q) : Except Fault (Outcome Q) := do
  let s := { s with misClientConnected := true }
  let request ← s.buildRegister env
  return (s, [.clientSend request])

def onClientDisconnected (s : ResourceManager Q) : Except Fault (Outcome Q) :=
  .ok ({ s with misClientConnected := false }, [])

/-! ## Requests of the parent -/

/-- `for(i = ...) (*i)->updateUsers();` -/
def purgeTrunks (env : Env) (trunks : List (Trunk Q)) : List (Trunk Q) :=
  trunks.mapIdx fun i t => t.updateUsers (env.purge i)

/-- The search for the trunk with the greatest `top()`, from trunk `i` on. -/
def maxTopFrom : List (Trunk Q) → ℕ → ℕ × User → Except Fault (ℕ × User)
  | [], _, best => .ok best
  | t :: ts, i, best =>
    match t.top with
    | none => .error .emptyTop
    | some u => maxTopFrom ts (i + 1) (if best.2.mId < u.mId then (i, u) else best)

/-- The search starts at `begin()`, which is dereferenced also when there is no trunk. -/
def maxTop (trunks : List (Trunk Q)) : Except Fault (ℕ × User) :=
  match trunks with
  | [] => .error .badIterator
  | t :: _ =>
    match t.top with
    | none => .error .emptyTop
    | some u => maxTopFrom trunks 0 (0, u)

/-- `checkTrunk` after the purge: the position of the trunk it finds, in this order: one that carries the
    camera, one without users, the one with the greatest `top()` if that is greater than the user. -/
def findTrunk (trunks : List (Trunk Q)) (user : GlobalID) (cameraid : GlobalID) :
    Except Fault (Option ℕ) :=
  match trunks.findIdx? fun t => decide (t.mCameraId = cameraid) with
  | some i => .ok (some i)
  | none =>
    match trunks.findIdx? fun t => t.empty with
    | some i => .ok (some i)
    | none => do
      let (i, top) ← maxTop trunks
      return if top.mId > user then some i else none

/-- `checkTrunk`: the trunk it finds and the trunks as the purge leaves them. -/
def checkTrunk (env : Env) (s : ResourceManager Q) (user : GlobalID) (cameraid : GlobalID) :
    Except Fault (Option ℕ × ResourceManager Q) := do
  let s := { s with mTrunks := purgeTrunks env s.mTrunks }
  let i ← findTrunk s.mTrunks user cameraid
  return (i, s)

/-- A `SWITCH` answered from trunk `i` for the camera: the user is queued and the trunk carries it. -/
def grantTrunk (s : ResourceManager Q) (i : ℕ) (user : User) (cid : GlobalID) : ResourceManager Q :=
  { s with mTrunks := s.mTrunks.modify i fun t => { t.push user with mCameraId := cid } }

/-- `new ProcessContext(request.id(), NULL, ...)`, the assertion on its id, and the forwarding. -/
def forwardToChild (s : ResourceManager Q) (matrix : MatrixInfo) (request : AgentRequest) :
    Except Fault (Outcome Q) :=
  if s.mProcessContexts.contains request.mId then .error .assertion
  else .ok (s.storeContext ⟨request.mId, none, KeyboardMessage.new⟩, [.serverSend matrix.mFd request])

/-- The `SWITCH` branch of `onClientRxRequest`. -/
def onClientRxSwitch (env : Env) (s : ResourceManager Q) (request : AgentRequest) :
    Except Fault (Outcome Q) := do
  let remoteUser := User.new ⟨request.mFrom, request.mInitiatorId⟩ .keyboard (env.junk 0)
  let cameraId : GlobalID := ⟨request.mTo, request.mContent.swiCameraid⟩
  let answer := fun statuscode reason outport => Action.clientRespond <|
    buildSwitchResponse request statuscode reason outport (AgentResponse.uninit env.junk)
  -- a trunk is looked for first, also when the camera is not of this matrix
  let (found, s) ← s.checkTrunk env remoteUser.mId cameraId
  match found with
  | none => return (s, [answer 404 "Trunk Busy" 0])
  | some i =>
    match s.mTrunks[i]? with
    | none => throw .assertion
    | some trunk =>
      if request.mTo = s.mMatrixId then
        if s.mCameras.contains request.mContent.swiCameraid then
          let s := s.grantTrunk i (remoteUser.updateExpire env.update)
            ⟨s.mMatrixId, request.mContent.swiCameraid⟩
          let msg := { KeyboardMessage.new with
            type := .switch, cameraId := cameraId, monitorId := trunk.mOutport }
          return (s, [.sendSwitch 0 msg, .notifyClients msg, answer 200 "Ok" trunk.mOutport])
        else return (s, [answer 404 "Camera Not Found" trunk.mOutport])
      else
        match s.matchMatrix request.mTo with
        | none => return (s, [answer 404 "Matrix Not Found" trunk.mOutport])
        | some matrix => s.forwardToChild matrix request

/-- The `PTZ` branch of `onClientRxRequest`. A null camera is passed on as a reference, and the context of
    a forwarded request is built from a reference to null, which copying the event reads through. -/
def onClientRxPtz (env : Env) (s : ResourceManager Q) (request : AgentRequest) :
    Except Fault (Outcome Q) :=
  let userId : GlobalID := ⟨request.mFrom, request.mInitiatorId⟩
  let cameraId : GlobalID := ⟨request.mTo, request.mContent.swiCameraid⟩
  let answer := fun statuscode reason => Action.clientRespond <|
    buildPtzResponse request statuscode reason (AgentResponse.uninit env.junk)
  if request.mTo = s.mMatrixId then
    match s.mCameras[request.mContent.ptzCameraid]? with
    | none => .ok (s, [answer 404 "Ptz Not Found"])
    | some none => .error .nullDeref
    | some (some cam) =>
      -- a request carries no lock code
      let (result, cam) := processLocalPtz env cam userId request.mContent.ptzDirection 0
      let s := { s with mCameras := s.mCameras.insert request.mContent.ptzCameraid (some cam) }
      if result = .accept then
        let msg := { KeyboardMessage.new with
          type := .ptz, cameraId := cameraId, ptzOptType := request.mContent.ptzDirection
          ptzOptVstep := 32, ptzOptHstep := 32 }
        .ok (s, [answer 200 "Ok", .sendPtz 0 msg, .notifyClients msg])
      else .ok (s, [answer 400 "Ptz Not Avaliable"])
  else
    match s.matchMatrix request.mTo with
    | none => .ok (s, [answer 404 "Matrix Not Found"])
    | some _ => .error .nullDeref

/-- `onClientRxRequest`. -/
def onClientRxRequest (env : Env) (s : ResourceManager Q) (request : AgentRequest) :
    Except Fault (Outcome Q) :=
  match request.mMethod with
  | .switch => s.onClientRxSwitch env request
  | .ptz => s.onClientRxPtz env request
  | _ => .ok (s, [])

end ResourceManager

end Mcc
