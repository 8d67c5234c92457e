import Mcc.Lib.PriorityQueue
import Mcc.Model.Ident

/-!
# `Model.Resource` — cameras, trunks, monitors and child matrices

The inner classes of `MCCResourceManager`, and `processLocalPtz`, which works on one camera alone. Every
class is one structure with its member functions under the source's names; the members no function reads
(`Camera::mUsers`, `MatrixInfo::mExpires`, the mutexes) are left out.
-/

namespace Mcc

/-- `ProcessResult`. -/
inductive ProcessResult where
  | accept
  | reject
  | pending
deriving DecidableEq, Repr

/-! ## `Camera` -/

/-- `MCCResourceManager::Camera`. -/
structure Camera where
  mId : Int
  mPtzUser : User
  mIsPtzLocked : Bool
deriving DecidableEq, Repr

namespace Camera

/-- `Camera(id)`. -/
def new (id junk : Int) : Camera := ⟨id, User.default junk, false⟩

/-- `releasePtz`: the body `mPtzUser == MCCUser::min;` compares and changes nothing. -/
def releasePtz (cam : Camera) : Camera := cam

def acquirePtz (cam : Camera) (userid : GlobalID) (now : Int) : Camera :=
  { cam with mPtzUser := { cam.mPtzUser with mId := userid }.updateExpire now }

def lockPtz (cam : Camera) (userid : GlobalID) (now : Int) : Camera :=
  { cam.acquirePtz userid now with mIsPtzLocked := true }

def unlockPtz (cam : Camera) : Camera := { cam.releasePtz with mIsPtzLocked := false }

end Camera

/-- The head of `processLocalPtz`: a lock that has run out is released first. -/
def unlockIfExpired (env : Env) (cam : Camera) : Camera :=
  if cam.mIsPtzLocked = true ∧ cam.mPtzUser.isExpired env.lock = true then cam.unlockPtz else cam

/-- `processLocalPtz`. `optcode` is only mentioned in statements that are commented out. -/
def processLocalPtz (env : Env) (cam : Camera) (userId : GlobalID) (_optcode lockcode : Int) :
    ProcessResult × Camera :=
  let cam := unlockIfExpired env cam
  if cam.mIsPtzLocked then
    -- a lock in force: users of at least the holder's rank operate, and only lock codes change it
    if cam.mPtzUser.mId ≤ userId ∨ cam.mPtzUser.isExpired env.test = true then
      (.accept,
        if lockcode = 1 then cam.lockPtz userId env.update
        else if lockcode = 2 then cam.unlockPtz
        else cam)
    else (.reject, cam)
  else if lockcode = 1 then
    if cam.mPtzUser.mId ≤ userId then (.accept, cam.lockPtz userId env.update) else (.reject, cam)
  else if lockcode = 2 then (.reject, cam)
  else if cam.mPtzUser.mId ≤ userId ∨ cam.mPtzUser.isExpired env.test = true then
    (.accept, cam.acquirePtz userId env.update)
  else (.reject, cam)

/-! ## `Monitor` -/

/-- `MCCResourceManager::Monitor`. -/
structure Monitor where
  mId : Int
  mUser : User
deriving DecidableEq, Repr

namespace Monitor

/-- `Monitor(id)`. -/
def new (id junk : Int) : Monitor := ⟨id, User.default junk⟩

def replace (m : Monitor) (keyboardId now : Int) : Monitor :=
  { m with mUser := { m.mUser with mId := ⟨0, keyboardId⟩ }.updateExpire now }

end Monitor

/-! ## `Trunk` -/

/-- One `UserListType`: the users in the order they came, the least id on top. -/
instance : PriorityQueue (List User) User := .ofArgmin User.mId fun _ _ h => h

/-- `MCCResourceManager::Trunk`; `Q` is the priority queue `UserListType`. -/
structure Trunk (Q : Type) where
  mId : Int
  mOutport : Int
  mCameraId : GlobalID
  mUsers : Q
deriving DecidableEq

namespace Trunk

open PriorityQueue

variable {Q : Type} [PriorityQueue Q User]

/-- `Trunk(id, outport)`. -/
def new (id outport : Int) : Trunk Q := ⟨id, outport, GlobalID.nullID, PriorityQueue.empty⟩

def push (t : Trunk Q) (user : User) : Trunk Q := { t with mUsers := PriorityQueue.push user t.mUsers }

def top (t : Trunk Q) : Option User := PriorityQueue.top t.mUsers

def empty (t : Trunk Q) : Bool := t.top.isNone

/-- `updateUsers`, the `j`-th test reading the clock at `now j`. -/
def updateUsers (t : Trunk Q) (now : ℕ → Int) : Trunk Q :=
  -- only the top is asked: an expired user below it stays
  let t := { t with mUsers := popWhile (fun j (u : User) => u.isExpired (now j)) t.mUsers }
  if t.empty then { t with mCameraId := GlobalID.nullID } else t

end Trunk

/-! ## `MatrixInfo` -/

/-- `MCCResourceManager::MatrixInfo`. -/
structure MatrixInfo where
  mId : Int
  mFd : Int
  mChildset : Std.ExtTreeSet Int compare

namespace MatrixInfo

/-- `MatrixInfo(id, fd)`. -/
def new (id fd : Int) : MatrixInfo := ⟨id, fd, ∅⟩

def addChild (m : MatrixInfo) (matrixid : Int) : MatrixInfo :=
  { m with mChildset := m.mChildset.insert matrixid }

def hasChild (m : MatrixInfo) (matrixid : Int) : Bool := m.mChildset.contains matrixid

/-- `clearChildren`: the loop advances the iterator it has just erased, so only the empty set survives. -/
def clearChildren (m : MatrixInfo) : Except Fault MatrixInfo :=
  if m.mChildset.isEmpty then .ok m else .error .badIterator

end MatrixInfo

end Mcc
