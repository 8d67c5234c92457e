import Mcc.Model.System

/-!
# `Model.Chain` — managers in a line, and the texts between them

Nodes `0 … k` stand in a line: node `i` is the parent of node `i + 1`, over the connection it knows by the
file descriptor `conn i`. Link `i` carries requests down and responses up. A text in flight is a `Packet`;
it is delivered alone, in any order with the others, through the printer, the parser and the `onReadable` of
the node it arrives at. What a node sends to anyone else leaves the model, and what others send to it — its
keyboards, the parent of node `0`, further children — enters as an `outside` event.

`NetStep C x` is the traffic of `SWITCH` messages about other requests than `x`: every request that enters
has an id that is neither `x` nor in use.
-/

namespace Mcc

/-- The line: the index of its last node, and the connection of each node to the next. -/
structure Chain where
  k : ℕ
  conn : ℕ → Int

/-- A text on link `i`, which joins node `i` and node `i + 1`. -/
inductive Packet where
  /-- sent by node `i` -/
  | down (i : ℕ) (request : AgentRequest)
  /-- sent by node `i + 1` -/
  | up (i : ℕ) (response : AgentResponse)

namespace Packet

def id : Packet → Int
  | down _ request => request.mId
  | up _ response => response.mId

def link : Packet → ℕ
  | down i _ => i
  | up i _ => i

/-- The message is about a switch. -/
def IsSwitch : Packet → Prop
  | down _ request => request.IsSwitch
  | up _ response => response.IsSwitch

end Packet

/-- What node `a` puts on its links when it does `act`. -/
def Chain.sent (C : Chain) (a : ℕ) (act : Action) : List Packet :=
  match act with
  | .serverSend fd request => if a < C.k ∧ fd = C.conn a then [.down a request] else []
  | .clientRespond response =>
    match a with
    | 0 => []
    | b + 1 => [.up b response]
  | _ => []

def Chain.send (C : Chain) (a : ℕ) (out : List Action) : List Packet := out.flatMap (C.sent a)

/-- A request sent to the next node is on its way there. -/
theorem Chain.send_next {C : Chain} {a : ℕ} (h : a < C.k) (request : AgentRequest) :
    C.send a [.serverSend (C.conn a) request] = [.down a request] := by
  show (if a < C.k ∧ C.conn a = C.conn a then [Packet.down a request] else []) ++ [] = _
  rw [if_pos ⟨h, rfl⟩]
  rfl

/-- The nodes, and the texts in flight. -/
structure Net (Q : Type) where
  nodes : ℕ → ResourceManager Q
  flight : List Packet

namespace Net

variable {Q : Type}

/-- Node `a` has gone over to `s` and done `out`; `rest` is what else is in flight. -/
def act (C : Chain) (N : Net Q) (a : ℕ) (rest : List Packet) (s : ResourceManager Q) (out : List Action) :
    Net Q :=
  { nodes := Function.update N.nodes a s, flight := rest ++ C.send a out }

@[simp] theorem act_self (C : Chain) (N : Net Q) (a : ℕ) (rest : List Packet) (s : ResourceManager Q)
    (out : List Action) : (N.act C a rest s out).nodes a = s := by
  show Function.update N.nodes a s a = s
  rw [Function.update_self]

theorem act_ne {C : Chain} {N : Net Q} {a b : ℕ} {rest : List Packet} {s : ResourceManager Q}
    {out : List Action} (h : b ≠ a) : (N.act C a rest s out).nodes b = N.nodes b := by
  show Function.update N.nodes a s b = N.nodes b
  rw [Function.update_of_ne h]

/-- The texts in flight about request `x`. -/
def about (N : Net Q) (x : Int) : List Packet := N.flight.filter fun p => decide (p.id = x)

/-- An id that is not `x`, not pending at a node and not that of a request in flight. -/
structure Fresh (C : Chain) (x : Int) (N : Net Q) (y : Int) : Prop where
  other : y ≠ x
  pending : ∀ a ≤ C.k, y ∉ (N.nodes a).mProcessContexts
  flight : ∀ i request, .down i request ∈ N.flight → request.mId ≠ y

/-- The `SWITCH` traffic that may come in from outside: requests with an id of their own, responses that do
    not answer `x`. -/
def Other (C : Chain) (x : Int) (N : Net Q) (ev : Event) : Prop :=
  match ev.input with
  | .localSwitch _ _ => N.Fresh C x ev.env.rand
  | .clientRequest request => request.IsSwitch ∧ N.Fresh C x request.mId
  | .serverResponse response => response.IsSwitch ∧ response.mId ≠ x
  | _ => False

end Net

/-- What can be seen of a step: the message as the node parsed it, and what the node did. -/
inductive Label where
  /-- Node `i + 1` receives a request of node `i`. -/
  | down (i : ℕ) (parsed : Bool × AgentRequest) (out : List Action)
  /-- Node `i` receives a response of node `i + 1`. -/
  | up (i : ℕ) (parsed : Bool × AgentResponse) (out : List Action)
  /-- Something from outside happens to node `a`. -/
  | outside (a : ℕ) (input : Input) (out : List Action)

/-- The label is a delivery of a message about request `x`. -/
def Label.isAbout (x : Int) : Label → Bool
  | down _ parsed _ => decide (parsed.2.mId = x)
  | up _ parsed _ => decide (parsed.2.mId = x)
  | outside _ _ _ => false

open ResourceManager in
/-- The steps of the line: a text in flight is delivered, or something comes in from outside. -/
inductive NetStep {Q : Type} [PriorityQueue Q User] (C : Chain) (x : Int) :
    Net Q → Label → Net Q → Prop where
  | down {N : Net Q} {i request before after env mem parsed s' out} :
      N.flight = before ++ .down i request :: after →
      AgentRequest.parse mem env.junk (AgentRequest.print request) = .ok parsed →
      (N.nodes (i + 1)).readableAtClient env mem (AgentRequest.print request) = .ok (s', out) →
      NetStep C x N (.down i parsed out) (N.act C (i + 1) (before ++ after) s' out)
  | up {N : Net Q} {i response before after env mem parsed s' out} :
      N.flight = before ++ .up i response :: after →
      AgentResponse.parse mem env.junk response.print = .ok parsed →
      (N.nodes i).readableAtServer env mem (C.conn i) response.print = .ok (s', out) →
      NetStep C x N (.up i parsed out) (N.act C i (before ++ after) s' out)
  | outside {N : Net Q} {a ev s' out} : a ≤ C.k → N.Other C x ev →
      (N.nodes a).step ev = .ok (s', out) →
      NetStep C x N (.outside a ev.input out) (N.act C a N.flight s' out)

end Mcc
