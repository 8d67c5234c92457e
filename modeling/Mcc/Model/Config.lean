import Mcc.Lib.Xml
import Mcc.Model.IntOp
import Mcc.Model.Manager

/-!
# `Model.Config` — the resources of the configuration

`MCCResourceManager::initResource` reads the ids of the cameras and of the monitors and the pairs of the trunks from
three strings, with a pointer into each. Such a pointer is the rest of its string; at the end of it nothing is a
digit, a colon or a dash.

Without a result the `assert` has failed, or a number is no `int`.
-/

namespace Mcc

open IntOp Xml

/-- What `getConfigString` returns for `Cameras`, `Monitors` and `Trunks`: null, or a string. -/
structure ResourceConfig where
  cameras : Option Text
  monitors : Option Text
  trunks : Option Text

/-- `while(*p>='0' && *p<='9') { n *= 10; n += (*p - '0'); ++p; }`: the number, and where `p` is. -/
def readNumber (n : Int) : Text → Option (Int × Text)
  | [] => some (n, [])
  | c :: p => if c.isDigit then do
      let n ← pushDigit n c
      readNumber n p
    else some (n, c :: p)

/-- The pointer moves on. -/
theorem length_readNumber : ∀ {buf p : Text} {n m : Int}, readNumber n buf = some (m, p) → p.length ≤ buf.length := by
  intro buf
  induction buf with
  | nil =>
    intro p n m h
    simp only [readNumber, Option.some.injEq, Prod.mk.injEq] at h
    simp [← h.2]
  | cons c buf ih =>
    intro p n m h
    rw [readNumber] at h
    split_ifs at h
    · obtain ⟨k, -, h⟩ := Option.bind_eq_some_iff.mp h
      exact Nat.le_succ_of_le (ih h)
    · rw [Option.some.injEq, Prod.mk.injEq] at h
      simp [← h.2]

/-- `while(buf!=NULL)` over a list of ids, each of which is added. -/
def addIds {σ : Type} (add : Int → σ → σ) (buf : Text) (s : σ) : Option σ :=
  match _h : readNumber 0 buf with
  | some (id, ':' :: buf) => addIds add buf (add id s)
  | some (id, _) => some (add id s)
  | none => none
termination_by buf.length
decreasing_by exact length_readNumber _h

variable {Q : Type} [PriorityQueue Q User]

/-- `while(buf!=NULL)` over the list of trunks. -/
def addTrunks (buf : Text) (mTrunks : List (Trunk Q)) : Option (List (Trunk Q)) :=
  match _h : readNumber 0 buf with
  | some (outport, '-' :: p) =>
    match _h' : readNumber 0 p with
    | some (inport, ':' :: buf) => addTrunks buf (mTrunks ++ [Trunk.new outport inport])
    | some (inport, _) => some (mTrunks ++ [Trunk.new outport inport])
    | none => none
  -- `assert(*p=='-')`
  | _ => none
termination_by buf.length
decreasing_by
  have hdash := length_readNumber _h
  have hcolon := length_readNumber _h'
  simp only [List.length_cons] at hdash hcolon
  omega

/-- A pointer that may be null. -/
def unlessNull {σ : Type} (read : Text → σ → Option σ) (buf : Option Text) (s : σ) : Option σ :=
  match buf with
  | some buf => read buf s
  | none => some s

namespace ResourceManager

/-- `mCameras[cam_id] = new Camera(cam_id);` -/
def addCamera (junk camId : Int) (s : ResourceManager Q) : ResourceManager Q :=
  { s with mCameras := s.mCameras.insert camId (some (Camera.new camId junk)) }

/-- `mMonitors[mon_id] = new Monitor(mon_id);` -/
def addMonitor (junk monId : Int) (s : ResourceManager Q) : ResourceManager Q :=
  { s with mMonitors := s.mMonitors.insert monId (some (Monitor.new monId junk)) }

/-- `initResource`. -/
def initResource (junk : Int) (config : ResourceConfig) (s : ResourceManager Q) : Option (ResourceManager Q) := do
  let s ← unlessNull (addIds (addCamera junk)) config.cameras s
  let s ← unlessNull (addIds (addMonitor junk)) config.monitors s
  let mTrunks ← unlessNull addTrunks config.trunks s.mTrunks
  return { s with mTrunks := mTrunks }

end ResourceManager

end Mcc
