import Mcc.Lib.EraseLoop
import Mcc.Model.Framing

/-!
# `Model.Notify` — what the connected clients are told

`MCCClientManager::Notify` and `MCCKeyboardVirtual::Update` send every client a `client_packet` about a
message, unless it repeats the last one. They are the same function twice, over a set and over a vector of
descriptors.

The packet is a local that nothing initializes: `mem` is what it holds before its fields are written. `send j`
is what the `j`-th `send` of a call returned, with `errno`.
-/

namespace Mcc

/-- `eKBMsgType`. -/
def KBMsgType.toInt : KBMsgType → Int
  | unknown => 0
  | switch => 1
  | ptz => 2
  | pin => 3

/-- What `send` returned, and `errno` after it. -/
structure SendResult where
  len : Int
  errno : Int
deriving DecidableEq, Repr

/-- `ECONNRESET`. -/
def econnreset : Int := 104

/-- `(len < 0 && errno == ECONNRESET) || len == 0` -/
def SendResult.gone (r : SendResult) : Bool := decide ((r.len < 0 ∧ r.errno = econnreset) ∨ r.len = 0)

/-- The packet both functions build. `lumid` and `rdmid` are not written. -/
def buildNotifyPacket (matrixId : Int) (mem : ClientPacket) (msg : KeyboardMessage) : ClientPacket :=
  { mem with
    type := msg.type.toInt, matrixId := matrixId, bindKb := msg.keyboardId, cid := msg.cameraId.lid
    mid := msg.monitorId, ptzType := msg.ptzOptType, ptzStart := if msg.ptzOptType = 0 then 0 else 1 }

/-- The test for a repeated PTZ command. -/
def isRepeated (lastPacket packet : ClientPacket) : Bool :=
  decide (lastPacket.type = 2 ∧ packet.type = 2 ∧ lastPacket.ptzType = packet.ptzType ∧
    lastPacket.ptzStart = packet.ptzStart)

/-- The loop over the descriptors: those a packet was sent to, and those left. A descriptor whose client is
    gone is closed and erased, and the loop advances the iterator it has erased. -/
def sendAll (send : ℕ → SendResult) (fds : List Int) : Except Fault (List Int × List Int) :=
  match EraseLoop.walk (fun j _ => (send j).gone) 0 fds with
  | some r => .ok r
  | none => .error .badIterator

/-- What both functions do with the packet: unless it repeats the last one it becomes the last one and is sent
    to all. The last packet after it, the descriptors it was sent to, if any, and those left. -/
def broadcast (lastPacket packet : ClientPacket) (send : ℕ → SendResult) (fds : List Int) :
    Except Fault (ClientPacket × Option (List Int) × List Int) :=
  if isRepeated lastPacket packet then .ok (lastPacket, none, fds)
  else do
    let (sent, kept) ← sendAll send fds
    return (packet, some sent, kept)

/-- `static client_packet last_packet`, before the first call. -/
def ClientPacket.zero : ClientPacket := ⟨0, 0, 0, 0, 0, 0, 0, 0, 0⟩

/-- `MCCClientManager`, with the static of its `Notify`. -/
structure ClientManager where
  mConnFdList : Std.ExtTreeSet Int compare
  lastPacket : ClientPacket

namespace ClientManager

def start : ClientManager := ⟨∅, .zero⟩

def onNewConnection (c : ClientManager) (fd : Int) : ClientManager :=
  { c with mConnFdList := c.mConnFdList.insert fd }

def onDisconnect (c : ClientManager) (fd : Int) : ClientManager :=
  { c with mConnFdList := c.mConnFdList.erase fd }

/-- `Notify`: the manager after it and, unless nothing was sent, the descriptors that were sent the packet. -/
def notify (c : ClientManager) (mem : ClientPacket) (send : ℕ → SendResult) (msg : KeyboardMessage) :
    Except Fault (ClientManager × Option (List Int)) := do
  let packet := buildNotifyPacket msg.cameraId.mid mem msg
  let (lastPacket, sent, kept) ← broadcast c.lastPacket packet send c.mConnFdList.toList
  return (⟨.ofList kept, lastPacket⟩, sent)

end ClientManager

/-- `MCCKeyboardVirtual`, with the static of its `Update`. -/
structure KeyboardVirtual where
  mConnFdList : List Int
  lastPacket : ClientPacket

/-- `Update`: as `Notify`, but the packet names no matrix. -/
def KeyboardVirtual.update (v : KeyboardVirtual) (mem : ClientPacket) (send : ℕ → SendResult)
    (msg : KeyboardMessage) : Except Fault (KeyboardVirtual × Option (List Int)) := do
  let packet := buildNotifyPacket 0 mem msg
  let (lastPacket, sent, kept) ← broadcast v.lastPacket packet send v.mConnFdList
  return (⟨kept, lastPacket⟩, sent)

end Mcc
