import Mcc.Lib.Buffer
import Mcc.Model.Framing

/-!
# `Model.RcPort` — the bytes keyboard 0 writes to the matrix ports

`MCCKeyboardRC::SendSwitch` lets `buildPacketFromMessage` print the header and the commands into a buffer of
1024 bytes and writes the buffer out: six bytes, then twelve at a time. What goes into the packet, its header
and its commands, is `Model.Frontend`'s; here is where they lie.

The buffer is a local that nothing initializes. Both ports are written the same bytes.
-/

namespace Mcc

namespace KeyboardRC

open Xml

/-- `"%02d"`. -/
def twoDigits (n : Int) : Text := if (decimal n).length < 2 then '0' :: decimal n else decimal n

/-- The command as `sprintf` writes it: `"PA01SW%02d%02dNT"`, `"PV01SW%02d%02dNT"`. -/
def SwitchCommand.text (c : SwitchCommand) : Text :=
  ['P', c.port, '0', '1', 'S', 'W'] ++ twoDigits c.input ++ twoDigits c.monitor ++ ['N', 'T']

def textBytes (t : Text) : List Byte := t.map fun c => BitVec.ofNat 8 c.toNat

/-- A string in memory. -/
def cString (t : Text) : List Byte := textBytes t ++ [0]

/-- `char buf[1024]`. -/
abbrev PortBuffer := Buffer Byte 1024

/-- An access that leaves the buffer. -/
def inBounds {α : Type} : Option α → Except Fault α
  | some a => .ok a
  | none => .error .outOfBounds

def headerBytes (cameraId : Int) (first last : ℕ × ℕ) : List Byte :=
  (header cameraId first last).map (BitVec.ofNat 8)

/-- `buildPacketFromMessage`, into a buffer that holds `buf`: the length it returns and the buffer. -/
def buildPacketInto (buf : PortBuffer) (msg : KeyboardMessage) : Except Fault (ℕ × PortBuffer) :=
  let cam := msg.cameraId.lid
  match msg.type with
  | .switch => do
    let p := gridPosition msg.monitorId
    let buf ← inBounds (buf.store 0 (headerBytes cam p p))
    let cmd := (switchCommand cam msg.monitorId).text
    let buf ← inBounds (buf.store 6 (cString cmd))
    -- `strstr(cmd, "T")`
    return (6 + cmd.idxOf 'T' + 1, buf)
  | .pin =>
    let p := gridPosition msg.leftUpMonitorId
    let p1 := gridPosition msg.rightDownMonitorId
    if p1.2 < p.2 ∨ p1.1 < p.1 then .ok (0, buf)
    else do
      let rows := p1.2 - p.2 + 1
      let cols := p1.1 - p.1 + 1
      let buf ← inBounds (buf.store 0 (headerBytes cam p p1))
      -- `p += 12` after each of them
      let cmds := (List.range rows).flatMap fun (i : ℕ) => (List.range cols).map fun (j : ℕ) =>
        cString (switchCommand cam (msg.leftUpMonitorId + j + 6 * i)).text
      let buf ← inBounds (buf.storeAll 12 6 cmds)
      return (6 + 12 * (rows * cols), buf)
  | _ => .ok (0, buf)

/-- `SendSwitch`: the bytes each port is written. -/
def sendSwitchBytes (buf : PortBuffer) (msg : KeyboardMessage) : Except Fault (List Byte) := do
  let (len, buf) ← buildPacketInto buf msg
  if len > 0 then do
    let head ← inBounds (buf.load 0 6)
    let chunks ← inBounds (Buffer.loadChunks 12 (by decide) buf 6 (len - 6))
    return head ++ chunks
  else return []

end KeyboardRC

end Mcc
