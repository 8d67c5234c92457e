import Mcc.Lib.Tiling
import Mcc.Lib.Xml
import Mcc.Model.IntOp

/-!
# `Model.JxjEn` — the windows on the splicing matrix

`MCCKeyboardJXJEn::SendSwitch` shows a camera on a rectangle of monitors: `create` prints a text command with the
edges of the rectangle in pixels. The monitors are tiles of 1366 by 768, three in a row.

An `int` that overflows has no result here.
-/

namespace Mcc

namespace KeyboardJXJEn

open IntOp Tiling Xml

/-- `_SourceType`. -/
def video : Int := 0

def dvi : Int := 1

def hdmi : Int := 2

/-- What `sprintf` is told to write. -/
structure WinSize where
  letter : Char
  inport : Int
  window : Window
deriving DecidableEq

/-- `"VWinSize %d %d %d %d %d\r\n"`, `"DWinSize %d %d %d %d %d\r\n"`. -/
def WinSize.text (c : WinSize) : Text :=
  c.letter :: "WinSize ".toList ++ decimal c.inport ++ ' ' :: decimal c.window.left ++ ' ' :: decimal c.window.top ++
    ' ' :: decimal c.window.right ++ ' ' :: decimal c.window.bottom ++ ['\r', '\n']

/-- `getEdge`: left, right, top and bottom. -/
def getEdge (topLeft bottomRight : Int) : Option (Int × Int × Int × Int) := do
  let first ← sub topLeft 1
  let last ← sub bottomRight 1
  return (first.tmod 3, last.tmod 3, first.tdiv 3, last.tdiv 3)

/-- `left*1366, top*768, right*1366+1366, bottom*768 + 768` -/
def window (left right top bottom : Int) : Option Window := do
  let left ← mul left 1366
  let top ← mul top 768
  let right ← add (← mul right 1366) 1366
  let bottom ← add (← mul bottom 768) 768
  return ⟨left, top, right, bottom⟩

/-- `move`: what it prints, if it does not return 0. -/
def move (type inport leftUpMonitorId rightDownMonitorId : Int) : Option (Option WinSize) := do
  let (left, right, top, bottom) ← getEdge leftUpMonitorId rightDownMonitorId
  if type = video then return some ⟨'V', inport, ← window left right top bottom⟩
  else if type = dvi then return some ⟨'D', inport, ← window left right top bottom⟩
  else if type = hdmi then return none
  else return none

/-- `create`. -/
def create (type inport leftUpMonitorId rightDownMonitorId : Int) : Option (Option WinSize) :=
  move type inport leftUpMonitorId rightDownMonitorId

/-- What `SendSwitch` leaves: the message as it changed it, what it queues, and what it prints to the matrix. -/
structure Sent where
  msg : KeyboardMessage
  queued : List KeyboardMessage
  command : Option WinSize
deriving DecidableEq

/-- `SendSwitch`. -/
def sendSwitch (msg : KeyboardMessage) : Option Sent := do
  let msg := if msg.leftUpMonitorId = 0 ∧ msg.rightDownMonitorId = 0 then
    { msg with leftUpMonitorId := msg.monitorId, rightDownMonitorId := msg.monitorId } else msg
  if msg.cameraId.lid ≤ 4 then
    let msg := { msg with type := .switch }
    let command ←
      if msg.leftUpMonitorId > 4 then create video 3 msg.leftUpMonitorId msg.rightDownMonitorId
      else do create video (← sub msg.leftUpMonitorId 1) msg.leftUpMonitorId msg.rightDownMonitorId
    return ⟨msg, [msg], command⟩
  else
    let command ← create dvi (← sub msg.cameraId.lid 5) msg.leftUpMonitorId msg.rightDownMonitorId
    return ⟨msg, [], command⟩

end KeyboardJXJEn

end Mcc
