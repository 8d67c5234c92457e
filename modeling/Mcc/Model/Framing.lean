import Mcc.Lib.Blocks
import Mcc.Model.Frontend
import Mcc.Model.Jxj
import Mcc.Model.System

/-!
# `Model.Framing` — what a connection makes of its byte stream

A thread of `AsyncTCPServer` or `AsyncTCPClient` calls `recv` into a buffer of 2048 bytes and gives
`onReadable` what arrived. `MCCClientManager` reads 36-byte packets there; `MCCAgentServer` and
`MCCAgentClient` read one XML text, and print the message they read to the log before they call a handler:
`operator<<` copies its text into a buffer of 1024 bytes. None of the three keeps anything from one call to the
next.

Fields are unbounded numbers here and `int`s in the source; where it matters how long they are in print,
`asInt` says what is left of one.

TinyXML is not part of the program: `tinyxml` is the document it makes of a text.
-/

namespace Mcc

open Xml

/-! ## `client_packet` as bytes -/

/-- An `int` as it lies in memory, the low byte first. -/
def intBytes (n : Int) : List Byte :=
  let v := BitVec.ofInt 32 n
  [v.extractLsb' 0 8, v.extractLsb' 8 8, v.extractLsb' 16 8, v.extractLsb' 24 8]

/-- The `int` in four bytes of memory. -/
def bytesInt : List Byte → Int
  | [b0, b1, b2, b3] => (b3 ++ b2 ++ b1 ++ b0 : BitVec 32).toInt
  | _ => 0

/-- The range of an `int`. -/
def IsInt (n : Int) : Prop := -2 ^ 31 ≤ n ∧ n < 2 ^ 31

instance (n : Int) : Decidable (IsInt n) := inferInstanceAs (Decidable (_ ∧ _))

/-- What an `int` holds of a number. -/
def asInt (n : Int) : Int := n.bmod (2 ^ 32)

theorem isInt_asInt (n : Int) : IsInt (asInt n) := by
  have hge := Int.le_bmod (x := n) (m := 2 ^ 32) (by decide)
  have hlt := Int.bmod_lt (x := n) (m := 2 ^ 32) (by decide)
  unfold IsInt asInt
  omega

theorem asInt_eq {n : Int} (h : IsInt n) : asInt n = n := by
  unfold IsInt at h
  apply Int.bmod_eq_of_le
  · omega
  · omega

namespace ClientPacket

/-- The fields in the order of the structure. -/
def fields (packet : ClientPacket) : List Int :=
  [packet.type, packet.matrixId, packet.bindKb, packet.cid, packet.mid, packet.ptzType, packet.ptzStart,
    packet.lumid, packet.rdmid]

/-- Every field is an `int`. -/
def Fits (packet : ClientPacket) : Prop := ∀ n ∈ packet.fields, IsInt n

/-- The structure in memory, as a client writes it to the connection. -/
def bytes (packet : ClientPacket) : List Byte := packet.fields.flatMap intBytes

/-- `sizeof(packet)`. -/
def size : ℕ := 36

/-- The field at an offset of `4 * i`. -/
def field (buf : List Byte) (i : ℕ) : Int := bytesInt ((buf.drop (4 * i)).take 4)

/-- `memcpy(&packet, buf, sizeof(packet))`. -/
def ofBytes (buf : List Byte) : ClientPacket :=
  { type := field buf 0, matrixId := field buf 1, bindKb := field buf 2, cid := field buf 3
    mid := field buf 4, ptzType := field buf 5, ptzStart := field buf 6, lumid := field buf 7
    rdmid := field buf 8 }

end ClientPacket

namespace ClientManager

/-- `onReadable`: the messages posted for one chunk. The loop runs while a whole packet is left. -/
def onReadable (data : List Byte) : List KeyboardMessage :=
  (Blocks.blocks ClientPacket.size data).filterMap fun buf => readPacket (ClientPacket.ofBytes buf)

end ClientManager

/-! ## The texts of the agents -/

/-- The declaration and the root's start tag: both `print`s write the same. -/
def headText (m : AgentMessage) : Text :=
  '<' :: "?xml version=\"1.0\" encoding=\"UTF-8\"?>\r\n<XML_MESSAGE type=\"".toList ++
    decimal m.mType.toInt ++ "\" method=\"".toList ++ decimal m.mMethod.toInt ++ "\" seq=\"".toList ++ decimal m.mId ++
    "\" from=\"".toList ++ decimal m.mFrom ++ "\" to=\"".toList ++ decimal m.mTo ++
    "\" initiator=\"".toList ++ decimal m.mInitiatorId ++ "\">\r\n".toList

/-- The text `MCCAgentRequest::print` writes. -/
def AgentRequest.text (m : AgentRequest) : Text :=
  match m.mMethod with
  | .register => headText m ++ "<Expire time=\"".toList ++ decimal m.mContent.regExpire ++
      "\"/>\r\n<ChildMatrix>\r\n".toList ++
      ((List.range m.mContent.regChildrenNum.toNat).flatMap fun i =>
        "<Item id=\"".toList ++ decimal (m.mContent.regChild i) ++ "\"/>\r\n".toList) ++
      "</ChildMatrix>\r\n</XML_MESSAGE>\r\n".toList
  | .switch => headText m ++ "<User id=\"".toList ++ decimal m.mContent.swiUserid ++
      "\"/>\r\n<Camera id=\"".toList ++ decimal m.mContent.swiCameraid ++ "\"/>\r\n</XML_MESSAGE>\r\n".toList
  | .ptz => headText m ++ "<User id=\"".toList ++ decimal m.mContent.ptzUserid ++
      "\"/>\r\n<Camera id=\"".toList ++ decimal m.mContent.ptzCameraid ++
      "\"/>\r\n<Operation direction=\"".toList ++ decimal m.mContent.ptzDirection ++
      "\" angle=\"".toList ++ decimal m.mContent.ptzAngle ++ "\"/>\r\n</XML_MESSAGE>\r\n".toList
  | .other _ => []

/-- The text `MCCAgentResponse::print` writes. The reason goes in as it is. -/
def AgentResponse.text (m : AgentResponse) : Text :=
  headText m.toAgentMessage ++ "<Status code=\"".toList ++ decimal m.mStatusCode ++
    "\" reason=\"".toList ++ m.mReason.toList ++ "\"/>\r\n".toList ++
    (if m.mMethod = .switch then
      "<Connection outport=\"".toList ++ decimal m.mContent.swiOutport ++ "\"/>\r\n".toList else []) ++
    "</XML_MESSAGE>\r\n".toList

/-! ## The log -/

/-- `char obuf[1024]`. -/
def obufSize : ℕ := 1024

def MessageType.asInt : MessageType → MessageType
  | other n => other (Mcc.asInt n)
  | t => t

def MessageMethod.asInt : MessageMethod → MessageMethod
  | other n => other (Mcc.asInt n)
  | method => method

/-- The fields as the `int`s they are. -/
def AgentMessage.asInts (m : AgentMessage) : AgentMessage :=
  { mInitiatorId := asInt m.mInitiatorId, mFrom := asInt m.mFrom, mTo := asInt m.mTo, mType := m.mType.asInt
    mMethod := m.mMethod.asInt, mId := asInt m.mId, mContent := fun i => asInt (m.mContent i) }

def AgentResponse.asInts (m : AgentResponse) : AgentResponse :=
  { toAgentMessage := m.toAgentMessage.asInts, mStatusCode := asInt m.mStatusCode, mReason := m.mReason }

/-- `operator<<(os, request)`: `print` copies the text into `obuf`, which is then printed up to its first zero
    byte. Of a request of no known method `print` writes nothing, and what is printed is what was there. -/
def AgentRequest.log (obuf : ℕ → UInt8) (m : AgentRequest) : Except Fault Unit :=
  match m.mMethod with
  | .other _ => if ∃ i < obufSize, obuf i = 0 then .ok () else .error .outOfBounds
  | _ => if size (AgentRequest.text m.asInts) < obufSize then .ok () else .error .outOfBounds

/-- `operator<<(os, response)`. -/
def AgentResponse.log (m : AgentResponse) : Except Fault Unit :=
  if size m.asInts.text < obufSize then .ok () else .error .outOfBounds

/-! ## The agents' connections -/

/-- What an agent sends. -/
inductive Message where
  | request (request : AgentRequest)
  | response (response : AgentResponse)

namespace Message

def text : Message → Text
  | request m => AgentRequest.text m
  | response m => m.text

/-- What is written to the connection. -/
def bytes (m : Message) : List UInt8 := m.text.flatMap String.utf8EncodeChar

/-- The document that was written. -/
def print : Message → Document
  | request m => AgentRequest.print m
  | response m => m.print

end Message

/-- `char msgbuf[2048]`. -/
def recvSize : ℕ := 2048

/-- The handler an agent calls, with the message. -/
inductive Handed where
  | onServerRxResponse (response : AgentResponse)
  | onRegister (request : AgentRequest)
  | onServerRxRequest (request : AgentRequest)
  | onClientRxRequest (request : AgentRequest)
  | onClientRxResponse (response : AgentResponse)

/-- Which of the two agents reads. -/
inductive Agent where
  | server
  | client

/-- What `recv` returned, and the memory the objects of that call are built in: the first message, what is on
    the stack, and the buffer of the log. -/
structure Chunk where
  data : List UInt8
  mem : AgentResponse
  env : Env
  obuf : ℕ → UInt8

namespace Agent

/-- `MCCAgentServer::onReadable` after its checks. The request is handed over whatever its parse said. -/
def serverHand (c : Chunk) (doc : Document) : Except Fault Handed := do
  let (valid, response) ← AgentResponse.parse { c.mem with mReason := "" } c.env.junk doc
  if valid then
    response.log
    return .onServerRxResponse response
  else
    let (_, request) ← AgentRequest.parse (AgentMessage.uninit c.env.junk) c.env.junk doc
    -- "Receive Request:", but it is the response that is printed
    response.log
    if request.mMethod = .register then return .onRegister request else return .onServerRxRequest request

/-- `MCCAgentClient::onReadable` after its checks. The response is handed over whatever its parse said. -/
def clientHand (c : Chunk) (doc : Document) : Except Fault Handed := do
  let (valid, request) ← AgentRequest.parse c.mem.toAgentMessage c.env.junk doc
  if valid then
    request.log c.obuf
    return .onClientRxRequest request
  else
    let (_, response) ← AgentResponse.parse (AgentResponse.uninit c.env.junk) c.env.junk doc
    response.log
    return .onClientRxResponse response

def hand : Agent → Chunk → Document → Except Fault Handed
  | .server => serverHand
  | .client => clientHand

/-- No root, no message: both parsers use it without a check. -/
theorem hand_none {doc : Document} (h : rootElement doc = none) (a : Agent) (c : Chunk) :
    a.hand c doc = .error .nullDeref := by
  cases a with
  | server =>
    show serverHand c doc = _
    unfold serverHand AgentResponse.parse
    rw [h]
    rfl
  | client =>
    show clientHand c doc = _
    unfold clientHand AgentRequest.parse
    rw [h]
    rfl

/-- `onReadable`: the assertion on the length, the return on a leading zero byte, and `msgbuf[len] = 0`,
    which has to fall inside the buffer. -/
def onReadable (tinyxml : List UInt8 → Document) (a : Agent) (c : Chunk) : Except Fault (List Handed) :=
  match c.data with
  | [] => .error .assertion
  | b :: _ =>
    if b = 0 then .ok []
    else if c.data.length < recvSize then do
      let handed ← a.hand c (tinyxml c.data)
      return [handed]
    else .error .outOfBounds

/-- **What a call of `onReadable` comes to** where it returns: nothing on a zero byte, and otherwise one message, out
    of a text that leaves room for the terminator. -/
theorem onReadable_eq_ok_iff {tinyxml : List UInt8 → Document} {a : Agent} {c : Chunk} {handed : List Handed} :
    a.onReadable tinyxml c = .ok handed ↔ (c.data.head? = some 0 ∧ handed = []) ∨
      (c.data ≠ [] ∧ c.data.head? ≠ some 0 ∧ c.data.length < recvSize ∧
        ∃ h, a.hand c (tinyxml c.data) = .ok h ∧ handed = [h]) := by
  unfold onReadable
  cases c.data with
  | nil => simp
  | cons b rest =>
    have hhead : (b :: rest).head? = some 0 ↔ b = 0 := Option.some_inj
    by_cases hzero : b = 0
    · simp only [if_pos hzero, hhead.mpr hzero, not_true_eq_false, false_and, and_false, or_false, true_and, ne_eq]
      exact ⟨fun h => (Except.ok.inj h).symm, fun h => congrArg Except.ok h.symm⟩
    · by_cases hroom : (b :: rest).length < recvSize
      · simp only [if_neg hzero, if_pos hroom]
        constructor
        · intro h
          obtain ⟨x, hx, h⟩ := bind_eq_ok h
          cases h
          exact Or.inr ⟨List.cons_ne_nil b rest, mt hhead.mp hzero, hroom, x, hx, rfl⟩
        · rintro (⟨h, -⟩ | ⟨-, -, -, x, hx, rfl⟩)
          · exact absurd (hhead.mp h) hzero
          · rw [hx]
            rfl
      · simp only [if_neg hzero, if_neg hroom]
        refine iff_of_false (fun h => nomatch h) ?_
        rintro (⟨h, -⟩ | ⟨-, -, h, -⟩)
        · exact hzero (hhead.mp h)
        · exact hroom h

/-- The chunks of a connection, one `onReadable` for each. -/
def readAll (tinyxml : List UInt8 → Document) (a : Agent) : List Chunk → Except Fault (List Handed)
  | [] => .ok []
  | c :: cs => do
    let handed ← a.onReadable tinyxml c
    let rest ← readAll tinyxml a cs
    return handed ++ rest

end Agent

namespace ResourceManager

variable {Q : Type} [PriorityQueue Q User]

/-- The handler is called. Two of them print the message and do no more. -/
def receive (s : ResourceManager Q) (c : Chunk) (fd : Int) : Handed → Except Fault (Outcome Q)
  | .onServerRxResponse response => s.onServerRxResponse response
  | .onRegister request => s.onRegister c.env fd request
  | .onServerRxRequest request => do
    request.log c.obuf
    return (s, [])
  | .onClientRxRequest request => s.onClientRxRequest c.env request
  | .onClientRxResponse response => do
    response.log
    return (s, [])

/-- What the server's call comes to, if nothing overruns the log's buffer, is `readableAtServer`. -/
theorem readableAtServer_of_hand {s : ResourceManager Q} {c : Chunk} {fd : Int} {doc : Document}
    {out : Outcome Q} (h : Agent.serverHand c doc >>= s.receive c fd = .ok out) :
    s.readableAtServer c.env { c.mem with mReason := "" } fd doc = .ok out := by
  obtain ⟨handed, hhand, hcall⟩ := bind_eq_ok h
  unfold Agent.serverHand at hhand
  obtain ⟨⟨valid, response⟩, hresponse, hhand⟩ := bind_eq_ok hhand
  unfold readableAtServer
  rw [hresponse]
  cases valid with
  | true =>
    obtain ⟨_, -, hhand⟩ := bind_eq_ok hhand
    cases hhand
    exact hcall
  | false =>
    obtain ⟨⟨_, request⟩, hrequest, hhand⟩ := bind_eq_ok hhand
    obtain ⟨_, -, hhand⟩ := bind_eq_ok hhand
    simp only [bind, Except.bind, Bool.false_eq_true, if_false, hrequest] at hhand ⊢
    by_cases hreg : request.mMethod = .register
    · rw [if_pos hreg] at hhand ⊢
      cases hhand
      exact hcall
    · rw [if_neg hreg] at hhand ⊢
      cases hhand
      obtain ⟨_, -, hcall⟩ := bind_eq_ok hcall
      exact hcall

/-- The client's call likewise. -/
theorem readableAtClient_of_hand {s : ResourceManager Q} {c : Chunk} {fd : Int} {doc : Document}
    {out : Outcome Q} (h : Agent.clientHand c doc >>= s.receive c fd = .ok out) :
    s.readableAtClient c.env c.mem.toAgentMessage doc = .ok out := by
  obtain ⟨handed, hhand, hcall⟩ := bind_eq_ok h
  unfold Agent.clientHand at hhand
  obtain ⟨⟨valid, request⟩, hrequest, hhand⟩ := bind_eq_ok hhand
  unfold readableAtClient
  rw [hrequest]
  cases valid with
  | true =>
    obtain ⟨_, -, hhand⟩ := bind_eq_ok hhand
    cases hhand
    exact hcall
  | false =>
    obtain ⟨⟨_, response⟩, hresponse, hhand⟩ := bind_eq_ok hhand
    obtain ⟨_, -, hhand⟩ := bind_eq_ok hhand
    cases hhand
    obtain ⟨_, -, hcall⟩ := bind_eq_ok hcall
    simp only [bind, Except.bind, Bool.false_eq_true, if_false, hresponse]
    exact hcall

end ResourceManager

end Mcc
