import Mcc.Model.Frontend
import Mcc.Model.System

/-!
# `Model.Pair` — a parent, a child, and the cables between their matrices

The two managers with the video matrices they command. A matrix connects inputs to outputs; `SendSwitch` is
how it is told to. A trunk of the child is a cable: from the output of the child's matrix with the number
`id()` to the input of the parent's matrix with the number `outport()`, as the comments of `Trunk` say and as
the `out-in` pairs of the `Trunks` setting configure it.

Requests go down and responses come up, in any order. There is no other manager, so everything else that
happens to either comes from its keyboards and its connections.
-/

namespace Mcc

/-- Which input each output of a matrix shows. -/
abbrev Wires := Int → Option Int

/-- The outputs a switch names: those of the commands the encoder writes for it. -/
def outputs (msg : KeyboardMessage) : List Int :=
  (KeyboardRC.sendSwitch msg).map KeyboardRC.SwitchCommand.monitor

namespace Wires

/-- The camera of a switch is connected to its outputs. -/
def connect (w : Wires) : Action → Wires
  | .sendSwitch _ msg => fun output => if output ∈ outputs msg then some msg.cameraId.lid else w output
  | _ => w

/-- All the switches a manager has sent. -/
def after (w : Wires) (out : List Action) : Wires := out.foldl connect w

end Wires

/-- The two managers, their matrices, and the messages on their way. -/
structure Pair (Q : Type) where
  parent : ResourceManager Q
  child : ResourceManager Q
  parentWires : Wires
  childWires : Wires
  down : List AgentRequest
  up : List AgentResponse

/-- What happened, and what the manager did. -/
inductive PairLabel where
  /-- something at the parent that is not a message of the child -/
  | parent (ev : Event) (out : List Action)
  /-- something at the child that is not a message of the parent -/
  | child (ev : Event) (out : List Action)
  /-- the child handles a request of the parent -/
  | down (env : Env) (request : AgentRequest) (out : List Action)
  /-- the parent handles a response of the child -/
  | up (env : Env) (response : AgentResponse) (out : List Action)

/-- The event is no message of another manager. -/
def Event.IsOwn (ev : Event) : Prop :=
  match ev.input with
  | .clientRequest _ => False
  | .serverResponse _ => False
  | _ => True

namespace Pair

variable {Q : Type}

/-- The parent has gone over to `s` and done `out`; there is one child its requests can reach. -/
def parentDoes (N : Pair Q) (s : ResourceManager Q) (out : List Action) : Pair Q :=
  { N with
    parent := s, parentWires := N.parentWires.after out, down := N.down ++ (toChildren out).map Prod.snd }

/-- The child has gone over to `s` and done `out`. -/
def childDoes (N : Pair Q) (s : ResourceManager Q) (out : List Action) : Pair Q :=
  { N with child := s, childWires := N.childWires.after out, up := N.up ++ toParent out }

variable [PriorityQueue Q User]

open ResourceManager in
/-- The steps of the two. -/
inductive Step : Pair Q → PairLabel → Pair Q → Prop where
  | parent {N : Pair Q} {ev out s'} : ev.IsOwn → ResourceManager.Step N.parent (ev, out) s' →
      Step N (.parent ev out) (N.parentDoes s' out)
  | child {N : Pair Q} {ev out s'} : ev.IsOwn → ResourceManager.Step N.child (ev, out) s' →
      Step N (.child ev out) (N.childDoes s' out)
  | down {N : Pair Q} {request before after env out s'} : N.down = before ++ request :: after →
      ResourceManager.Step N.child (⟨env, .clientRequest request⟩, out) s' →
      Step N (.down env request out) ({ N with down := before ++ after }.childDoes s' out)
  | up {N : Pair Q} {response before after env out s'} : N.up = before ++ response :: after →
      ResourceManager.Step N.parent (⟨env, .serverResponse response⟩, out) s' →
      Step N (.up env response out) ({ N with up := before ++ after }.parentDoes s' out)

/-- Two managers as they start, with nothing on its way; the matrices may show anything. -/
structure Start (N : Pair Q) : Prop where
  parent : ResourceManager.Initial N.parent
  child : ResourceManager.Initial N.child
  down : N.down = []
  up : N.up = []

/-- Behind input `inport` of the parent is `camera`: a cable ends there, and at the other end of every cable
    that does the child's matrix shows that camera. -/
def Leads (N : Pair Q) (inport : Int) (camera : GlobalID) : Prop :=
  camera.mid = N.child.mMatrixId ∧ (∃ t ∈ N.child.mTrunks, t.mOutport = inport) ∧
    ∀ t ∈ N.child.mTrunks, t.mOutport = inport → N.childWires t.mId = some camera.lid

/-- **Output `monitor` of the parent shows `camera`**. -/
def Shows (N : Pair Q) (monitor : Int) (camera : GlobalID) : Prop :=
  ∃ inport, N.parentWires monitor = some inport ∧ N.Leads inport camera

end Pair

end Mcc
