import Mcc.Model.Framing

/-!
# `Model.Client` — the library a client program uses

`MCCClient` connects to the client server and sends it one `client_packet` for each call of `Switch` and `Ptz`. The
packet is a local that nothing initializes: `mem` is what it holds before its fields are written. `sent` is what
`send` returns, the number of bytes taken or less than 1; on the descriptor `-1` that `disConnect` leaves, `send`
fails.
-/

namespace Mcc

/-- The members the calls read; `mConnected` is set once `Connect` has connected. -/
structure MCCClient where
  mConnected : Bool
  mBindedId : Int
  mFd : Int
deriving DecidableEq

/-- The calls: `Switch` to one monitor, `Switch` to the rectangle between two, and `Ptz`. -/
inductive ClientCall where
  | switch (matrixId cameraId monitorId : Int)
  | switchTo (matrixId cameraId leftUpMonitorId rightDownMonitorId : Int)
  | ptz (type matrixId cameraId : Int) (bstart : Bool)

/-- A call, the memory of its packet, and what `send` returns. -/
structure ClientRequest where
  call : ClientCall
  mem : ClientPacket
  sent : Int

namespace MCCClient

/-- `disConnect`: `mConnected` stays. -/
def disConnect (c : MCCClient) : MCCClient := if c.mConnected then { c with mFd := -1 } else c

/-- The packet a call builds. `lumid` and `rdmid` are not written for one monitor, `mid` is not for a rectangle. -/
def packet (c : MCCClient) (mem : ClientPacket) : ClientCall → ClientPacket
  | .switch matrixId cameraId monitorId => { mem with
      type := 1, matrixId, bindKb := c.mBindedId, cid := cameraId, mid := monitorId, ptzType := 0, ptzStart := 0 }
  | .switchTo matrixId cameraId leftUpMonitorId rightDownMonitorId => { mem with
      type := 3, matrixId, bindKb := c.mBindedId, cid := cameraId, lumid := leftUpMonitorId
      rdmid := rightDownMonitorId, ptzType := 0, ptzStart := 0 }
  | .ptz type matrixId cameraId bstart => { mem with
      type := 2, matrixId, bindKb := c.mBindedId, cid := cameraId, mid := 0, ptzType := type
      ptzStart := if bstart then 1 else 0 }

/-- A call: what it returns, the client after it, and what it has written to the connection. -/
def perform (c : MCCClient) (r : ClientRequest) : Int × MCCClient × List Byte :=
  if c.mConnected = false then (-1, c, [])
  else if r.sent ≤ 0 then (-1, c.disConnect, [])
  else (0, c, (c.packet r.mem r.call).bytes.take r.sent.toNat)

/-- The calls one after the other: what each returned, the client, and what was written. -/
def performAll (c : MCCClient) : List ClientRequest → List Int × MCCClient × List Byte
  | [] => ([], c, [])
  | r :: rs =>
    let (code, c, bytes) := c.perform r
    let (codes, c, rest) := c.performAll rs
    (code :: codes, c, bytes ++ rest)

theorem performAll_cons (c : MCCClient) (r : ClientRequest) (rs : List ClientRequest) :
    c.performAll (r :: rs) = ((c.perform r).1 :: ((c.perform r).2.1.performAll rs).1,
      ((c.perform r).2.1.performAll rs).2.1, (c.perform r).2.2 ++ ((c.perform r).2.1.performAll rs).2.2) := rfl

end MCCClient

end Mcc
