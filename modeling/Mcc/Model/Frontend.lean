import Mcc.Model.Handlers

/-!
# `Model.Frontend` — from a client's packet to the commands on the matrix port

What lies around the manager on the way of a switch: the decoder of client packets
(`MCCClientManager::onReadable`), the dispatch of the keyboard manager's thread, and the encoder of keyboard
0 (`MCCKeyboardRC`).
-/

namespace Mcc

/-! ## `MCCClientManager` -/

/-- `client_packet`. -/
structure ClientPacket where
  type : Int
  matrixId : Int
  bindKb : Int
  cid : Int
  mid : Int
  ptzType : Int
  ptzStart : Int
  lumid : Int
  rdmid : Int
deriving DecidableEq, Repr

namespace ClientManager

/-- One round of the loop of `onReadable`: the message posted for a packet, if any. -/
def readPacket (packet : ClientPacket) : Option KeyboardMessage :=
  let msg := { KeyboardMessage.new with
    keyboardId := packet.bindKb, cameraId := ⟨packet.matrixId, packet.cid⟩ }
  if packet.type = 1 then some { msg with type := .switch, monitorId := packet.mid }
  else if packet.type = 2 then some { msg with
    type := .ptz, monitorId := packet.mid, ptzOptType := packet.ptzType
    ptzOptVstep := if Int.land packet.ptzType 0x03 ≠ 0 then 20 else 0
    ptzOptHstep := if Int.land packet.ptzType 0x0c ≠ 0 then 20 else 0 }
  else if packet.type = 3 then some { msg with
    type := .pin, monitorId := packet.lumid
    leftUpMonitorId := packet.lumid, rightDownMonitorId := packet.rdmid }
  else none

end ClientManager

/-! ## `MCCKeyboardManager` -/

namespace KeyboardManager

/-- `MCC_MAX_KEYBOARD_NUMBER`. -/
def maxKeyboards : Int := 4

/-- `getKeyboard`: the array is indexed with whatever the message holds. -/
def getKeyboard (loaded : ℕ → Bool) (keyboardId : Int) : Except Fault KeyboardPtr :=
  if 0 ≤ keyboardId ∧ keyboardId < maxKeyboards then
    .ok (if loaded keyboardId.toNat then some keyboardId.toNat else none)
  else .error .outOfBounds

/-- One round of `thread`. -/
def handle {Q : Type} (loaded : ℕ → Bool) (env : Env) (s : ResourceManager Q) (msg : KeyboardMessage) :
    Except Fault (Outcome Q) :=
  match msg.type with
  | .switch => do
    let kb ← getKeyboard loaded msg.keyboardId
    s.onSwitch env kb msg
  | .pin => do
    let kb ← getKeyboard loaded msg.keyboardId
    s.onSwitch env kb msg
  | .ptz => do
    let kb ← getKeyboard loaded msg.keyboardId
    s.onPtz env kb msg
  | .unknown => .ok (s, [])

end KeyboardManager

/-! ## `MCCKeyboardRC` -/

namespace KeyboardRC

/-- One switch command, as `sprintf` is told to write it: `P`, the port's letter, `01SW`, the input and the
    monitor in two digits each, `NT`. -/
structure SwitchCommand where
  port : Char
  input : Int
  monitor : Int
deriving DecidableEq, Repr

/-- The six header bytes and the commands behind them. -/
structure Packet where
  header : List ℕ
  commands : List SwitchCommand
deriving DecidableEq, Repr

/-- `while(col > 6) { col -= 6; row++; }` -/
def wrapLoop : ℕ → ℕ → ℕ → ℕ × ℕ
  | 0, col, row => (col, row)
  | k + 1, col, row => if col > 6 then wrapLoop k (col - 6) (row + 1) else (col, row)

/-- Column and row of a monitor on the wall; the id is an `unsigned char` by then. -/
def gridPosition (monitorId : Int) : ℕ × ℕ :=
  let col := (monitorId % 256).toNat
  wrapLoop col col 1

/-- `(col & 0x0f) << 4 | (row & 0x0f)`. -/
def gridByte (p : ℕ × ℕ) : ℕ := p.1 % 16 * 16 + p.2 % 16

/-- The header: both corners, and the port the camera is on. -/
def header (cameraId : Int) (first last : ℕ × ℕ) : List ℕ :=
  [0xd5, gridByte first, gridByte last, 0x20, if cameraId > 8 then 0x00 else 0x02, 0xaa]

/-- The command for one monitor. -/
def switchCommand (cameraId monitorId : Int) : SwitchCommand :=
  if cameraId > 8 then ⟨'A', cameraId - 8, monitorId⟩ else ⟨'V', cameraId, monitorId⟩

theorem switchCommand_monitor (cameraId monitorId : Int) :
    (switchCommand cameraId monitorId).monitor = monitorId := by
  unfold switchCommand
  split <;> rfl

/-- `buildPacketFromMessage`; `none` where it returns 0 and nothing is sent. -/
def buildPacketFromMessage (msg : KeyboardMessage) : Option Packet :=
  let cam := msg.cameraId.lid
  match msg.type with
  | .switch =>
    let p := gridPosition msg.monitorId
    some ⟨header cam p p, [switchCommand cam msg.monitorId]⟩
  | .pin =>
    let p := gridPosition msg.leftUpMonitorId
    let p1 := gridPosition msg.rightDownMonitorId
    if p1.2 < p.2 ∨ p1.1 < p.1 then none
    else
      let rows := p1.2 - p.2 + 1
      let cols := p1.1 - p.1 + 1
      some ⟨header cam p p1, (List.range rows).flatMap fun (i : ℕ) => (List.range cols).map fun (j : ℕ) =>
        switchCommand cam (msg.leftUpMonitorId + j + 6 * i)⟩
  | _ => none

/-- `SendSwitch`: the commands it writes to the matrix ports. -/
def sendSwitch (msg : KeyboardMessage) : List SwitchCommand :=
  ((buildPacketFromMessage msg).map Packet.commands).getD []

end KeyboardRC

end Mcc
