import Mcc.Lib.Transition
import Mcc.Model.Jxj

/-!
# `Model.Serial` — reading from a serial port

The two loops that read a packet: `SerialPort::Readn` and the one of `MCCKeyboardJXJ::OnRxKeyboardPacket` that looks
for its first byte. Neither looks at what `Read` returns, so each is a run of rounds, one for every result of
`Read`. On a port that is not open, or not any more, `Read` returns -1.
-/

namespace Mcc

namespace Serial

/-- What `Read` returns, and the bytes it has read: one at least, unless it is -1 or 0. -/
inductive ReadResult where
  | error
  | eof
  | bytes (b : Byte) (bs : List Byte)
deriving DecidableEq

namespace ReadResult

/-- The value returned. -/
def count : ReadResult → Int
  | error => -1
  | eof => 0
  | bytes _ bs => bs.length + 1

def data : ReadResult → List Byte
  | error => []
  | eof => []
  | bytes b bs => b :: bs

/-- No byte is delivered. -/
def Fails (r : ReadResult) : Prop := r.data = []

instance (r : ReadResult) : Decidable r.Fails := inferInstanceAs (Decidable (_ = _))

end ReadResult

/-! ## `Readn` -/

/-- The variables of `Readn(buf, len)`, and what has been written, in order: where it lies from `buf` on, and the
byte. -/
structure Readn where
  total : Int
  nRead : Int
  left : Int
  stores : List (Int × Byte)
deriving DecidableEq

/-- Bytes that are written one behind the other. -/
def storesAt (p : Int) (bs : List Byte) : List (Int × Byte) := bs.mapIdx fun i b => (p + i, b)

namespace Readn

/-- The loop is entered; the port is open. -/
def start (len : ℕ) : Readn := ⟨len, 0, len, []⟩

/-- `n_read += Read(buff+n_read, left); left = total - n_read;` -/
def round (s : Readn) (r : ReadResult) : Readn :=
  { s with
    nRead := s.nRead + r.count, left := s.total - (s.nRead + r.count), stores := s.stores ++ storesAt s.nRead r.data }

/-- A round of `while(left > 0)`; no more is read than is asked for. -/
inductive Step : Readn → ReadResult → Readn → Prop where
  | round {s r} : s.left > 0 → r.count ≤ s.left → Step s r (s.round r)

/-- What is returned, when the loop is left. -/
def result (s : Readn) : Option Int := if s.left > 0 then none else some s.total

end Readn

/-! ## The first byte -/

/-- `do { sp->Read(buf, 1); } while((0xff & buf[0]) != 0xff);`: what `buf[0]` holds, and that the loop goes on. -/
structure Resync where
  buf0 : Byte
  goesOn : Bool
deriving DecidableEq

namespace Resync

/-- `buf` is a local that nothing initializes. -/
def start (buf0 : Byte) : Resync := ⟨buf0, true⟩

def round (s : Resync) (r : ReadResult) : Resync :=
  let buf0 := r.data.headD s.buf0
  ⟨buf0, decide (buf0 ≠ 0xff)⟩

/-- A round of the loop. -/
inductive Step : Resync → ReadResult → Resync → Prop where
  | round {s r} : s.goesOn = true → r.count ≤ 1 → Step s r (s.round r)

end Resync

end Serial

end Mcc
