import Mcc.Lib.Split
import Mcc.Lib.Xml
import Mcc.Model.IntOp

/-!
# `Model.StringUtil` — splitting strings and reading numbers

`StringUtil::split` and `StringUtil::atoi`, and the setup of a serial port that `MCCKeyboard::Load` reads with them.

The loop of `split` has fuel: with an empty separator it would not end. Without a result it has not ended yet, or a
number was no `int`.
-/

namespace Mcc

namespace StringUtil

open IntOp Split Xml

/-- `while(1)` of `split`. -/
def splitLoop (srcStr splitStr : Text) : ℕ → ℕ → List Text → Option (List Text)
  | 0, _, _ => none
  | fuel + 1, oldPos, destVec =>
    match findFrom srcStr splitStr oldPos with
    | some newPos =>
      let tempData := (srcStr.drop oldPos).take (newPos - oldPos)
      splitLoop srcStr splitStr fuel (newPos + splitStr.length) (destVec ++ [tempData])
    | none =>
      if oldPos ≤ srcStr.length then
        let tempData := srcStr.drop oldPos
        some (destVec ++ [tempData])
      else some destVec

/-- `split`: what `destVec` holds afterwards. -/
def split (fuel : ℕ) (srcStr splitStr : Text) (destVec : List Text) : Option (List Text) :=
  if srcStr.length = 0 then some destVec else splitLoop srcStr splitStr fuel 0 destVec

/-- The loop of `atoi`. -/
def atoiLoop (res : Int) : Text → Option Int
  | [] => some res
  | c :: buf => if c < '0' ∨ c > '9' then some 0 else do
    let res ← pushDigit res c
    atoiLoop res buf

/-- `atoi`. -/
def atoi (str : Text) : Option Int := atoiLoop 0 str

end StringUtil

/-! ## `MCCKeyboard::Load` -/

/-- What `Load` sets a port up with. -/
structure PortSetup where
  baudrate : Int
  databits : Int
  stopbits : Int
  parity : Char
deriving DecidableEq

open StringUtil in
/-- `Load(keyboard, matrix, setup)`, up to the ports: `none` inside where it returns -1. -/
def loadSetup (fuel : ℕ) (setup : Xml.Text) : Option (Option PortSetup) := do
  let config ← split fuel setup [','] []
  match config with
  | [baudrate, databits, stopbits, parity] => do
    let baudrate ← atoi baudrate
    let databits ← atoi databits
    let stopbits ← atoi stopbits
    -- `*(config[3].c_str())`: the terminator, if there is nothing else
    return some ⟨baudrate, databits, stopbits, parity.headD '\x00'⟩
  | _ => return none

end Mcc
