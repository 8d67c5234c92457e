import Mcc.Model.AgentMessage
import Mcc.Model.Resource

/-!
# `Model.Manager` — the state of `MCCResourceManager` and what it does to the outside

`ResourceManager Q` holds the data members the handlers read and write, and the file-level
`__last_switch_cid`. A `std::map` is an ordered map from its keys; a map of pointers holds `none` for a null
pointer, which is not the same as having no entry. Objects only one pointer leads to are values.

A handler yields the new state and the list of `Action`s it made towards the other components, in order.
-/

namespace Mcc

/-- A `MCCKeyboard *`: the slot of `m_keyboards` it came from, or null. -/
abbrev KeyboardPtr := Option ℕ

/-- `ProcessContext`. -/
structure ProcessContext where
  mId : Int
  mKeyboard : KeyboardPtr
  mKeyboardEvent : KeyboardMessage
deriving DecidableEq

/-- What a handler does outside the manager. -/
inductive Action where
  /-- `mServer->Send(fd, request)`: to a child matrix -/
  | serverSend (fd : Int) (request : AgentRequest)
  /-- `mClient->Send(request)`: to the parent -/
  | clientSend (request : AgentRequest)
  /-- `mClient->Send(response)`: to the parent -/
  | clientRespond (response : AgentResponse)
  /-- `mKeyboardManager->SendSwitch(kid, msg)` -/
  | sendSwitch (kid : ℕ) (msg : KeyboardMessage)
  /-- `mKeyboardManager->SendPtz(kid, msg)` -/
  | sendPtz (kid : ℕ) (msg : KeyboardMessage)
  /-- `mClientManager->Notify(msg)` -/
  | notifyClients (msg : KeyboardMessage)
  /-- `kb->Notify(msg, status_code, reason)` -/
  | notifyKeyboard (kb : ℕ) (msg : KeyboardMessage) (statuscode : Int) (reason : String)

/-- The requests sent to children, with the connection. -/
def toChildren (out : List Action) : List (Int × AgentRequest) :=
  out.filterMap fun act => match act with
    | .serverSend fd request => some (fd, request)
    | _ => none

/-- The responses sent to the parent. -/
def toParent (out : List Action) : List AgentResponse :=
  out.filterMap fun act => match act with
    | .clientRespond response => some response
    | _ => none

theorem toChildren_append (out out' : List Action) :
    toChildren (out ++ out') = toChildren out ++ toChildren out' := List.filterMap_append

/-- `std::map<int, V>`. -/
abbrev IntMap (V : Type) := Std.ExtTreeMap Int V compare

namespace IntMap

variable {V : Type}

/-- `m[k]` read as a value: `operator[]` inserts a null pointer under a key that is not there. -/
def touch (m : IntMap (Option V)) (k : Int) : IntMap (Option V) := m.insertIfNew k none

/-- The pointer `m[k]` yields. -/
def deref (m : IntMap (Option V)) (k : Int) : Option V := (m[k]?).join

end IntMap

/-- The data members of `MCCResourceManager`. -/
structure ResourceManager (Q : Type) where
  mMatrixId : Int
  mLevel : Int
  mCameras : IntMap (Option Camera)
  mTrunks : List (Trunk Q)
  mMonitors : IntMap (Option Monitor)
  mChildMatrixs : IntMap MatrixInfo
  mProcessContexts : IntMap ProcessContext
  misClientConnected : Bool
  lastSwitchCid : GlobalID

/-- What a handler returns when it does not fail. -/
abbrev Outcome (Q : Type) := ResourceManager Q × List Action

namespace ResourceManager

variable {Q : Type} [PriorityQueue Q User]

/-- A state as `initResource` and `initAgentMessenger` leave it: the configured cameras, monitors and (at
    least one) trunks, all new; no child, no request pending. -/
structure Initial (s : ResourceManager Q) : Prop where
  cameras : ∀ k c, s.mCameras[k]? = some c → ∃ junk, c = some (Camera.new k junk)
  monitors : ∀ k m, s.mMonitors[k]? = some m → ∃ junk, m = some (Monitor.new k junk)
  trunks : ∀ t ∈ s.mTrunks, ∃ id outport, t = Trunk.new id outport
  some_trunk : s.mTrunks ≠ []
  children : s.mChildMatrixs = ∅
  contexts : s.mProcessContexts = ∅
  disconnected : s.misClientConnected = false
  lastSwitch : s.lastSwitchCid = ⟨0, 1⟩

/-- The state `initResource` and `initAgentMessenger` build from a configuration: the ids in `Cameras` and
    `Monitors`, the pairs in `Trunks`. -/
def configured (junk matrixId level : Int) (cameras monitors : List Int) (trunks : List (Int × Int)) :
    ResourceManager Q :=
  { mMatrixId := matrixId, mLevel := level
    mCameras := cameras.foldl (fun m k => m.insert k (some (Camera.new k junk))) ∅
    mTrunks := trunks.map fun t => Trunk.new t.1 t.2
    mMonitors := monitors.foldl (fun m k => m.insert k (some (Monitor.new k junk))) ∅
    mChildMatrixs := ∅, mProcessContexts := ∅, misClientConnected := false, lastSwitchCid := ⟨0, 1⟩ }

theorem getElem?_foldl_insert {V : Type} {f : Int → V} {k : Int} {v : V} :
    ∀ {l : List Int} {m : IntMap V}, (l.foldl (fun m k => m.insert k (f k)) m)[k]? = some v →
      v = f k ∨ m[k]? = some v := by
  intro l
  induction l with
  | nil => exact fun h => Or.inr h
  | cons a l ih =>
    intro m h
    rcases ih h with hv | hm
    · exact Or.inl hv
    · rw [Std.ExtTreeMap.getElem?_insert] at hm
      by_cases hak : compare a k = .eq
      · rw [if_pos hak, Option.some.injEq] at hm
        have hk : a = k := Std.LawfulEqCmp.compare_eq_iff_eq.mp hak
        exact Or.inl (by rw [← hm, hk])
      · rw [if_neg hak] at hm
        exact Or.inr hm

/-- **A configured manager is initial** (the default of `Trunks` names one, so there is at least one). -/
theorem configured_initial {junk matrixId level : Int} {cameras monitors : List Int}
    {trunks : List (Int × Int)} (hne : trunks ≠ []) :
    Initial (configured junk matrixId level cameras monitors trunks : ResourceManager Q) where
  cameras := by
    intro k c h
    rcases getElem?_foldl_insert h with rfl | hempty
    · exact ⟨junk, rfl⟩
    · rw [Std.ExtTreeMap.getElem?_empty] at hempty
      cases hempty
  monitors := by
    intro k m h
    rcases getElem?_foldl_insert h with rfl | hempty
    · exact ⟨junk, rfl⟩
    · rw [Std.ExtTreeMap.getElem?_empty] at hempty
      cases hempty
  trunks := by
    intro t ht
    obtain ⟨p, -, rfl⟩ := List.mem_map.mp ht
    exact ⟨p.1, p.2, rfl⟩
  some_trunk := by
    intro h
    exact hne (List.map_eq_nil_iff.mp h)
  children := rfl
  contexts := rfl
  disconnected := rfl
  lastSwitch := rfl

/-- `isLocal`. -/
def isLocal (s : ResourceManager Q) (matrixId : Int) : Bool := decide (matrixId = s.mMatrixId)

/-- `matchMatrix`: the first child, in the order of the ids, that is or contains the matrix. -/
def matchMatrix (s : ResourceManager Q) (matrixId : Int) : Option MatrixInfo :=
  (s.mChildMatrixs.toList.map Prod.snd).find? fun m => decide (m.mId = matrixId) || m.hasChild matrixId

end ResourceManager

end Mcc
