import Mathlib.Data.BitVec
import Mcc.Lib.Checksum
import Mcc.Model.Ident

/-!
# `Model.Jxj` — the JXJ keyboards and their eight-byte packets

`MCCKeyboardJXJ` stands between a keyboard and a matrix. On the keyboard's port it decodes packets into
messages for the manager; on the matrix's port it answers queries, one packet for each. `MCCKeyboardJXJEn`
has the same two codecs and the same two handlers, with `static` variables of its own.

A `char` is a `Byte`, signed where it becomes an `int`. A port is the list of bytes still to come.
-/

namespace Mcc

/-- `char`. -/
abbrev Byte := BitVec 8

/-- `buf[0]` to `buf[7]`. -/
structure JxjPacket where
  b0 : Byte
  b1 : Byte
  b2 : Byte
  b3 : Byte
  b4 : Byte
  b5 : Byte
  b6 : Byte
  b7 : Byte
deriving DecidableEq, Repr

namespace JxjPacket

def toList (p : JxjPacket) : List Byte := [p.b0, p.b1, p.b2, p.b3, p.b4, p.b5, p.b6, p.b7]

end JxjPacket

/-! ## `MCCKeyboardMessage::PTZType` -/

namespace PTZType

def up : Int := 0x0001
def down : Int := 0x0002
def left : Int := 0x0004
def right : Int := 0x0008
def zoomIn : Int := 0x0010
def zoomOut : Int := 0x0020
def stop : Int := 0

end PTZType

namespace KeyboardMessage

/-- `msg.ptz_opt_type & opt` -/
def Has (msg : KeyboardMessage) (opt : Int) : Prop := Int.land msg.ptzOptType opt ≠ 0

instance (msg : KeyboardMessage) (opt : Int) : Decidable (msg.Has opt) := inferInstanceAs (Decidable (_ ≠ _))

/-- `msg.ptz_opt_type |= opt` -/
def withOpt (msg : KeyboardMessage) (opt : Int) : KeyboardMessage :=
  { msg with ptzOptType := Int.lor msg.ptzOptType opt }

@[simp] theorem withOpt_ptzOptHstep (msg : KeyboardMessage) (opt : Int) :
    (msg.withOpt opt).ptzOptHstep = msg.ptzOptHstep := rfl

@[simp] theorem withOpt_ptzOptVstep (msg : KeyboardMessage) (opt : Int) :
    (msg.withOpt opt).ptzOptVstep = msg.ptzOptVstep := rfl

end KeyboardMessage

namespace KeyboardJXJ

open PTZType

/-! ## The codec -/

/-- The zoom operation a byte stands for is added. -/
def readZoom (b : Byte) (msg : KeyboardMessage) : KeyboardMessage :=
  if b = 0x40 then msg.withOpt zoomIn else if b = 0x80 then msg.withOpt zoomOut else msg

/-- Where there is a step, the operation is added whose direction the high bit of the byte gives. -/
def readMove (plain marked step : Int) (b : Byte) (msg : KeyboardMessage) : KeyboardMessage :=
  if step ≠ 0 then if b &&& 0x80 = 0 then msg.withOpt plain else msg.withOpt marked else msg

/-- The PTZ branch of `buildMessageFromPacket`. -/
def readPtz (packet : JxjPacket) (msg : KeyboardMessage) : KeyboardMessage :=
  let msg := { msg with type := .ptz }
  let msg := if packet.b3 ≠ 0 ∨ packet.b5 ≠ 0 ∨ packet.b6 ≠ 0 then msg else { msg with ptzOptType := stop }
  let msg := { msg with
    ptzOptHstep := ((packet.b5 &&& 0x7f).toNat : Int), ptzOptVstep := ((packet.b6 &&& 0x7f).toNat : Int) }
  let msg := readZoom packet.b3 msg
  let msg := readMove left right msg.ptzOptHstep packet.b5 msg
  readMove up down msg.ptzOptVstep packet.b6 msg

/-- `buildMessageFromPacket`; `matrixId` is `mMgr->GetMatrixId()`. -/
def buildMessageFromPacket (mId matrixId : Int) (packet : JxjPacket) (msg : KeyboardMessage) :
    KeyboardMessage :=
  let msg := { msg with keyboardId := mId, cameraId := ⟨matrixId, packet.b4.toInt⟩ }
  if packet.b2 = 0x11 then { msg with type := .switch, monitorId := packet.b5.toInt }
  else if packet.b2 = 0x21 then readPtz packet msg
  else { msg with type := .unknown }

/-- The PTZ branch of `buildPacketFromMessage`: bytes 3, 5 and 6 are written only where an operation is set. -/
def writePtz (buf : JxjPacket) (msg : KeyboardMessage) : JxjPacket :=
  let buf := { buf with b2 := 0x21 }
  let buf := if msg.Has zoomIn then { buf with b3 := 0x40 } else buf
  let buf := if msg.Has zoomOut then { buf with b3 := 0x80 } else buf
  let buf := { buf with b4 := BitVec.ofInt 8 msg.cameraId.lid }
  let buf := if msg.Has left then { buf with b5 := BitVec.ofInt 8 msg.ptzOptHstep } else buf
  let buf := if msg.Has right then { buf with b5 := BitVec.ofInt 8 (0x80 + msg.ptzOptHstep) } else buf
  let buf := if msg.Has up then { buf with b6 := BitVec.ofInt 8 msg.ptzOptVstep } else buf
  let buf := if msg.Has down then { buf with b6 := BitVec.ofInt 8 (0x80 + msg.ptzOptVstep) } else buf
  if msg.ptzOptType = stop then { buf with b3 := 0x00, b5 := 0x00, b6 := 0x00 } else buf

/-- `buildPacketFromMessage`, into a buffer that holds `buf`. -/
def buildPacketFromMessage (buf : JxjPacket) (msg : KeyboardMessage) : JxjPacket :=
  let buf := { buf with b0 := 0xff, b1 := 0x00 }
  let buf :=
    match msg.type with
    | .switch => { buf with
        b2 := 0x11, b3 := 0x00, b4 := BitVec.ofInt 8 msg.cameraId.lid, b5 := BitVec.ofInt 8 msg.monitorId
        b6 := 0x55 }
    | .ptz => writePtz buf msg
    | _ => buf
  { buf with b7 := buf.b1 + buf.b2 + buf.b3 + buf.b4 + buf.b5 + buf.b6 }

/-- The sum of `ValidatePacket`: `for(int i=1;i<6;i++) sum += packet[i];` -/
def packetSum (packet : JxjPacket) : Byte := Checksum.sum packet.toList 1 6

/-- `ValidatePacket`. `0xff` is an `int` here, and so is the `char` it is compared with. -/
def validatePacket (packet : JxjPacket) (len : Int) : Bool :=
  if packet.b0.toInt ≠ 0xff then false
  else if len ≠ 8 then false
  else decide (packetSum packet = packet.b7)

/-- `(char)(0xff & id)` -/
def lowByte (id : Int) : Byte := (0xff &&& BitVec.ofInt 32 id).setWidth 8

/-- The command `SendSwitch(local_cid, local_mid)` writes. -/
def sendSwitchCommand (localCid localMid : Int) : JxjPacket :=
  ⟨0xff, 0x00, 0x11, 0x00, lowByte localCid, lowByte localMid, 0x55, 0x66 + lowByte localCid + lowByte localMid⟩

/-! ## The keyboard's port -/

/-- `MCCKeyboardJXJ`, as far as the keyboard's port is concerned. -/
structure Keyboard where
  mId : Int
  /-- `mMgr->GetMatrixId()` -/
  matrixId : Int
  mLastMessage : KeyboardMessage
deriving DecidableEq

/-- What is done about a packet. -/
inductive PortAction where
  /-- `sp->Write(confirm, sizeof(confirm))` -/
  | confirm
  /-- `mMgr->Post(msg)` -/
  | post (msg : KeyboardMessage)
deriving DecidableEq

/-- `do { sp->Read(buf, 1); } while(buf[0] != 0xff);` — what is left to read, or nothing while the port
    waits for a byte. -/
def readStart : List Byte → Option (List Byte)
  | [] => none
  | b :: rest => if b = 0xff then some rest else readStart rest

/-- `sp->Readn(buf + 1, 7)`. -/
def readRest : List Byte → Option (JxjPacket × List Byte)
  | b1 :: b2 :: b3 :: b4 :: b5 :: b6 :: b7 :: rest => some (⟨0xff, b1, b2, b3, b4, b5, b6, b7⟩, rest)
  | _ => none

/-- `OnRxKeyboardPacket` once the packet is read. -/
def onPacket (kb : Keyboard) (packet : JxjPacket) : List PortAction × Keyboard :=
  let out := if packet.b2 = 0x41 then [.confirm] else []
  let msg := buildMessageFromPacket kb.mId kb.matrixId packet KeyboardMessage.new
  if msg = kb.mLastMessage then (out, kb) else (out ++ [.post msg], { kb with mLastMessage := msg })

/-- `OnRxKeyboardPacket`: what it does, and the bytes it leaves on the port; nothing while it waits. -/
def onRxKeyboardPacket (kb : Keyboard) (sp : List Byte) : Option (List PortAction × Keyboard × List Byte) := do
  let sp ← readStart sp
  let (packet, sp) ← readRest sp
  let (out, kb) := onPacket kb packet
  return (out, kb, sp)

/-! ## The matrix's port -/

/-- The `static` variables of `OnRxMatrixPacket`. -/
structure Statics where
  buf : JxjPacket
  rcvCnt : ℕ
  msg : KeyboardMessage
deriving DecidableEq

/-- `buf` as it starts: camera 1 to monitor 1. -/
def startBuf : JxjPacket := ⟨0xff, 0x00, 0x11, 0x00, 0x01, 0x01, 0x55, 0x68⟩

/-- `reg`. -/
def reg : JxjPacket := ⟨0xff, 0x00, 0x41, 0x11, 0x55, 0x00, 0x00, 0xa7⟩

def Statics.start : Statics := ⟨startBuf, 0, KeyboardMessage.new⟩

/-- `(queries & 0xff) == (0x50 + mId)`: the byte is the keyboard's own query. -/
def IsQuery (mId : Int) (queries : Byte) : Prop := (queries.toNat : Int) = 0x50 + mId

instance (mId : Int) (queries : Byte) : Decidable (IsQuery mId queries) := inferInstanceAs (Decidable (_ = _))

/-- `OnRxMatrixPacket` for one byte: the packet written, the statics and the keyboard's `mFifo` after it. -/
def onRxMatrixPacket (mId : Int) (st : Statics) (mFifo : List KeyboardMessage) (queries : Byte) :
    Option JxjPacket × Statics × List KeyboardMessage :=
  if st.rcvCnt = 0 then
    if IsQuery mId queries then (some reg, { st with rcvCnt := st.rcvCnt + 1 }, mFifo) else (none, st, mFifo)
  else if IsQuery mId queries then
    match mFifo with
    | [] => (some st.buf, st, mFifo)
    | msg :: rest =>
      let buf := buildPacketFromMessage st.buf msg
      (some buf, { st with buf := buf, msg := msg }, rest)
  else (none, st, mFifo)

end KeyboardJXJ

/-- The two classes, each with statics of its own. -/
inductive JxjClass where
  | jxj
  | jxjEn
deriving DecidableEq

/-- Any number of loaded keyboards: their classes, and their `mId`s. -/
structure JxjSetup (ι : Type) where
  cls : ι → JxjClass
  mId : ι → Int

/-- The statics of the classes, and the queues of the keyboards. -/
structure JxjKeyboards (ι : Type) where
  statics : JxjClass → KeyboardJXJ.Statics
  mFifo : ι → List KeyboardMessage

/-- What happens to a keyboard. -/
inductive JxjEvent (ι : Type) where
  /-- `SendSwitch`, `SendPtz`: `mFifo.inQueue(msg)` -/
  | enqueue (i : ι) (msg : KeyboardMessage)
  /-- a byte comes in on its matrix port -/
  | byte (i : ι) (queries : Byte)

namespace JxjKeyboards

variable {ι : Type} [DecidableEq ι]

/-- Nothing has happened yet. -/
def start : JxjKeyboards ι := ⟨fun _ => .start, fun _ => []⟩

/-- What `OnRxMatrixPacket` of keyboard `i` makes of a byte. -/
def receive (setup : JxjSetup ι) (ks : JxjKeyboards ι) (i : ι) (queries : Byte) :
    Option JxjPacket × KeyboardJXJ.Statics × List KeyboardMessage :=
  KeyboardJXJ.onRxMatrixPacket (setup.mId i) (ks.statics (setup.cls i)) (ks.mFifo i) queries

/-- The state after an event. -/
def next (setup : JxjSetup ι) (ks : JxjKeyboards ι) : JxjEvent ι → JxjKeyboards ι
  | .enqueue i msg => { ks with mFifo := Function.update ks.mFifo i (ks.mFifo i ++ [msg]) }
  | .byte i queries =>
    let r := ks.receive setup i queries
    ⟨Function.update ks.statics (setup.cls i) r.2.1, Function.update ks.mFifo i r.2.2⟩

end JxjKeyboards

end Mcc
