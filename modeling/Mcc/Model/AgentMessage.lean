import Mcc.Lib.Xml
import Mcc.Model.Ident

/-!
# `Model.AgentMessage` — requests and responses between matrices, and their codec

`MCCAgentRequest`, `MCCAgentResponse`, the `MCCAgentMessageHelper` builders, and `print`/`Parse`. `print`
yields the document it writes (declaration, root, elements in order, decimal attributes); `Parse` is given
the document TinyXML makes of a text.

An object under construction is memory of unknown contents (`mem`), and so are uninitialised locals
(`junk`): a field keeps what it held until a statement writes it.
-/

namespace Mcc

open Xml

/-! ## Message types -/

/-- `MessageType`; `Parse` stores whatever integer the text holds. -/
inductive MessageType where
  | request
  | response
  | other (n : Int)
deriving DecidableEq, Repr

def MessageType.toInt : MessageType → Int
  | request => 0
  | response => 1
  | other n => n

def MessageType.ofInt (n : Int) : MessageType :=
  if n = 0 then request else if n = 1 then response else other n

/-- `MessageMethod`. -/
inductive MessageMethod where
  | register
  | switch
  | ptz
  | other (n : Int)
deriving DecidableEq, Repr

def MessageMethod.toInt : MessageMethod → Int
  | register => 0
  | switch => 1
  | ptz => 2
  | other n => n

def MessageMethod.ofInt (n : Int) : MessageMethod :=
  if n = 0 then register else if n = 1 then switch else if n = 2 then ptz else other n

/-! ## Contents -/

/-- `MAX_CHILDREN_NUM`. -/
def maxChildrenNum : ℕ := 50

/-- `union Content`: its words. The three views below name the same words. -/
abbrev Content := ℕ → Int

namespace Content

def regExpire (c : Content) : Int := c 0
def regChildrenNum (c : Content) : Int := c 1
def regChild (c : Content) (i : ℕ) : Int := c (i + 2)
def swiUserid (c : Content) : Int := c 0
def swiCameraid (c : Content) : Int := c 1
def swiOutport (c : Content) : Int := c 2
def ptzUserid (c : Content) : Int := c 0
def ptzCameraid (c : Content) : Int := c 1
def ptzDirection (c : Content) : Int := c 2
def ptzAngle (c : Content) : Int := c 3

/-- One word of the union is written. -/
def set (c : Content) (i : ℕ) (v : Int) : Content := Function.update c i v

@[simp] theorem set_self (c : Content) (i : ℕ) (v : Int) : c.set i v i = v := by
  simp [set]

@[simp] theorem set_ne (c : Content) {i j : ℕ} (v : Int) (h : j ≠ i) : c.set i v j = c j := by
  simp [set, h]

end Content

/-- `MCCAgentMessage`, and `MCCAgentRequest`, which adds no field. -/
structure AgentMessage where
  mInitiatorId : Int
  mFrom : Int
  mTo : Int
  mType : MessageType
  mMethod : MessageMethod
  mId : Int
  mContent : Content

abbrev AgentRequest := AgentMessage

/-- `MCCAgentResponse`. -/
structure AgentResponse extends AgentMessage where
  mStatusCode : Int
  mReason : String

/-- The object before anything wrote to it. -/
def AgentMessage.uninit (junk : ℕ → Int) : AgentMessage :=
  { mInitiatorId := junk 0, mFrom := junk 1, mTo := junk 2, mType := .ofInt (junk 3),
    mMethod := .ofInt (junk 4), mId := junk 5, mContent := fun i => junk (i + 6) }

/-- As `AgentMessage.uninit`; `mReason` is a `std::string` and starts empty. -/
def AgentResponse.uninit (junk : ℕ → Int) : AgentResponse :=
  { toAgentMessage := AgentMessage.uninit junk, mStatusCode := junk 64, mReason := "" }

/-- A request for a switch. -/
structure AgentMessage.IsSwitch (m : AgentRequest) : Prop where
  type : m.mType = .request
  method : m.mMethod = .switch

/-- The answer to one. -/
structure AgentResponse.IsSwitch (m : AgentResponse) : Prop where
  type : m.mType = .response
  method : m.mMethod = .switch

/-! ## `MCCAgentMessageHelper` -/

def buildRegRequest (mid expire : Int) (request : AgentRequest) : AgentRequest :=
  { request with
    mType := .request, mInitiatorId := 0, mFrom := mid, mTo := 0, mMethod := .register, mId := 0
    mContent := request.mContent.set 0 expire }

def buildSwitchRequest (env : Env) (uid cid : GlobalID) (request : AgentRequest) : AgentRequest :=
  { request with
    mType := .request, mInitiatorId := uid.lid, mFrom := uid.mid, mTo := cid.mid, mMethod := .switch
    mId := env.rand
    mContent := ((request.mContent.set 0 uid.lid).set 1 cid.lid).set 2 0 }

def buildPtzRequest (env : Env) (uid cid : GlobalID) (opcode angle : Int) (request : AgentRequest) :
    AgentRequest :=
  { request with
    mType := .request, mInitiatorId := uid.lid, mFrom := uid.mid, mTo := cid.mid, mMethod := .ptz
    mId := env.rand
    mContent := (((request.mContent.set 0 uid.lid).set 1 cid.lid).set 2 opcode).set 3 angle }

/-- `buildPtzResponse`; `buildSwitchResponse` writes the same fields and the outport. -/
def buildPtzResponse (request : AgentRequest) (statuscode : Int) (reason : String)
    (response : AgentResponse) : AgentResponse :=
  { response with
    mType := .response, mInitiatorId := request.mInitiatorId, mFrom := request.mTo
    mTo := request.mFrom, mMethod := request.mMethod, mId := request.mId
    mStatusCode := statuscode, mReason := reason }

def buildSwitchResponse (request : AgentRequest) (statuscode : Int) (reason : String) (outport : Int)
    (response : AgentResponse) : AgentResponse :=
  { buildPtzResponse request statuscode reason response with
    mContent := response.mContent.set 2 outport }

/-! ## `print` -/

/-- An element that has integer attributes only and no children. -/
def intLeaf (name : String) (attrs : List (String × Int)) : Node :=
  .element name (attrs.map fun a => (a.1, decimal a.2)) []

/-- The attributes of the root element: both `print`s write the same six. -/
def headerAttrs (m : AgentMessage) : List (String × Text) :=
  [("type", decimal m.mType.toInt), ("method", decimal m.mMethod.toInt), ("seq", decimal m.mId),
   ("from", decimal m.mFrom), ("to", decimal m.mTo), ("initiator", decimal m.mInitiatorId)]

/-- The declaration every text starts with, then the root. -/
def xmlDocument (attrs : List (String × Text)) (children : List Node) : Document :=
  [.other "", .element "XML_MESSAGE" attrs children]

/-- `MCCAgentRequest::print`. A request of no known method writes nothing. -/
def AgentRequest.print (m : AgentRequest) : Document :=
  match m.mMethod with
  | .register => xmlDocument (headerAttrs m)
      [intLeaf "Expire" [("time", m.mContent.regExpire)],
       .element "ChildMatrix" []
         ((List.range m.mContent.regChildrenNum.toNat).map fun i =>
           intLeaf "Item" [("id", m.mContent.regChild i)])]
  | .switch => xmlDocument (headerAttrs m)
      [intLeaf "User" [("id", m.mContent.swiUserid)], intLeaf "Camera" [("id", m.mContent.swiCameraid)]]
  | .ptz => xmlDocument (headerAttrs m)
      [intLeaf "User" [("id", m.mContent.ptzUserid)], intLeaf "Camera" [("id", m.mContent.ptzCameraid)],
       intLeaf "Operation" [("direction", m.mContent.ptzDirection), ("angle", m.mContent.ptzAngle)]]
  | .other _ => []

/-- `MCCAgentResponse::print`. -/
def AgentResponse.print (m : AgentResponse) : Document :=
  xmlDocument (headerAttrs m.toAgentMessage)
    (.element "Status" [("code", decimal m.mStatusCode), ("reason", m.mReason.toList)] [] ::
      if m.mMethod = .switch then [intLeaf "Connection" [("outport", m.mContent.swiOutport)]] else [])

/-! ## `Parse` -/

/-- How a parse ends early: `return 1`, with the object as far as it was written, or a fault. -/
inductive Stop (μ : Type) where
  | fail (m : μ)
  | fault (f : Fault)

/-- `if((x = ...) == NULL) return 1;` -/
def orFail {α μ : Type} (m : μ) : Option α → Except (Stop μ) α
  | some a => .ok a
  | none => .error (.fail m)

/-- The head of both `Parse` functions: the six attributes of the root, `type` checked at once. -/
def parseHeader (kind : MessageType) (root : Element) (m : AgentMessage) :
    Except (Stop AgentMessage) AgentMessage := do
  let v ← orFail m (root.attrInt "type" m.mType.toInt)
  let m := { m with mType := .ofInt v }
  -- how a reader tells a request from a response
  if m.mType ≠ kind then throw (.fail m)
  let v ← orFail m (root.attrInt "method" m.mMethod.toInt)
  let m := { m with mMethod := .ofInt v }
  let v ← orFail m (root.attrInt "seq" m.mId)
  let m := { m with mId := v }
  let v ← orFail m (root.attrInt "from" m.mFrom)
  let m := { m with mFrom := v }
  let v ← orFail m (root.attrInt "to" m.mTo)
  let m := { m with mTo := v }
  let v ← orFail m (root.attrInt "initiator" m.mInitiatorId)
  return { m with mInitiatorId := v }

/-- The `Item` loop: `matrixid` keeps its last value when an item has no `id`, and nothing stops the
    index at the end of the array. -/
def parseItems (m : AgentMessage) (matrixid : Int) :
    ℕ → List Element → Except (Stop AgentMessage) AgentMessage
  | i, [] => .ok { m with mContent := m.mContent.set 1 i }
  | i, item :: rest =>
    if i < maxChildrenNum then
      let matrixid := item.readInt "id" matrixid
      parseItems { m with mContent := m.mContent.set (i + 2) matrixid } matrixid (i + 1) rest
    else .error (.fault .outOfBounds)

/-- `User` and `Camera`, with the local `localid` they share. -/
def parseUserCamera (root : Element) (localid : Int) (m : AgentMessage) :
    Except (Stop AgentMessage) AgentMessage := do
  let param ← orFail m (root.firstChildElement "User")
  let localid := param.readInt "id" localid
  let m := { m with mContent := m.mContent.set 0 localid }
  let param ← orFail m (root.firstChildElement "Camera")
  let localid := param.readInt "id" localid
  return { m with mContent := m.mContent.set 1 localid }

/-- The part of `MCCAgentRequest::Parse` after the header. -/
def parseRequestBody (junk : ℕ → Int) (root : Element) (m : AgentMessage) :
    Except (Stop AgentMessage) AgentMessage :=
  match m.mMethod with
  | .register => do
    let param ← orFail m (root.firstChildElement "Expire")
    let expire ← orFail m (param.attrInt "time" (junk 0))
    let items := ((root.firstChildElement "ChildMatrix").map (·.childElementsFrom "Item")).getD []
    parseItems { m with mContent := m.mContent.set 0 expire } (junk 1) 0 items
  | .switch => parseUserCamera root (junk 0) m
  | .ptz => do
    let m ← parseUserCamera root (junk 0) m
    let param ← orFail m (root.firstChildElement "Operation")
    let directioncode := param.readInt "direction" (junk 1)
    let angle := param.readInt "angle" (junk 2)
    return { m with mContent := (m.mContent.set 2 directioncode).set 3 angle }
  | .other _ => .error (.fail m)

/-- Whether the object is valid, and what it holds; the constructor sets `mbValid` from the result. -/
def Stop.settle {μ : Type} : Except (Stop μ) μ → Except Fault (Bool × μ)
  | .ok m => .ok (true, m)
  | .error (.fail m) => .ok (false, m)
  | .error (.fault f) => .error f

/-- `MCCAgentRequest(buf, len)`. The root is used without a check. -/
def AgentRequest.parse (mem : AgentRequest) (junk : ℕ → Int) (doc : Document) :
    Except Fault (Bool × AgentRequest) :=
  match rootElement doc with
  | none => .error .nullDeref
  | some root => Stop.settle (parseHeader .request root mem >>= parseRequestBody junk root)

/-- The part of `MCCAgentResponse::Parse` after the header. `reason` is read through
    `Attribute(name, &mInitiatorId)`: a reason that starts with a number overwrites the initiator. -/
def parseResponseBody (junk : ℕ → Int) (root : Element) (m : AgentResponse) :
    Except (Stop AgentResponse) AgentResponse := do
  let param ← orFail m (root.firstChildElement "Status")
  let v ← orFail m (param.attrInt "code" m.mStatusCode)
  let m := { m with mStatusCode := v }
  let reason ← orFail m (param.attr "reason")
  let m := { m with mInitiatorId := param.readInt "reason" m.mInitiatorId, mReason := String.ofList reason }
  match m.mMethod with
  | .switch => do
    let param ← orFail m (root.firstChildElement "Connection")
    return { m with mContent := m.mContent.set 2 (param.readInt "outport" (junk 0)) }
  | _ => throw (.fail m)

/-- `MCCAgentResponse(buf, len)`. -/
def AgentResponse.parse (mem : AgentResponse) (junk : ℕ → Int) (doc : Document) :
    Except Fault (Bool × AgentResponse) :=
  match rootElement doc with
  | none => .error .nullDeref
  | some root =>
    match parseHeader .response root mem.toAgentMessage with
    | .ok m => Stop.settle (parseResponseBody junk root { mem with toAgentMessage := m })
    | .error (.fail m) => .ok (false, { mem with toAgentMessage := m })
    | .error (.fault f) => .error f

end Mcc
