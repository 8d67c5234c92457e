import Mcc.Lib.Forest
import Mcc.Model.System

/-!
# `Model.Tree` — a tree of managers whose links come and go

Every matrix has a manager and at most one configured parent. A child opens a connection to its parent, which
the parent knows by a file descriptor; `REGISTER`s travel up each connection in order, and the end of the
connection after them. Two connections of the same child, an old one whose end the parent has not seen yet and
a new one, are not ordered against each other.

`handle` is one event: a connection opens or closes at the child, or the parent is handed what is next on
one. An event that cannot happen (a second connection of a connected child, nothing to hand over) does
nothing. The handlers can fault, and so can `handle`.
-/

namespace Mcc

/-- The configured tree: nobody has more matrices below it than a `REGISTER` has room for. -/
structure MatrixTree extends Forest Int where
  few : ∀ n, ∃ F : Finset Int, F.card ≤ maxChildrenNum ∧ ∀ m, toForest.Below n m → m ∈ F

/-- What a connection to the parent carries. -/
inductive LinkItem where
  | register (request : AgentRequest)
  /-- the child has closed the connection -/
  | closed

/-- What can happen in the tree, with the surroundings of the call. -/
inductive TreeEvent where
  /-- `c` connects to its parent, where the connection has number `fd` -/
  | connect (env : Env) (c fd : Int)
  /-- `c` loses its connection -/
  | disconnect (c : Int)
  /-- the parent of `c` reads connection `fd` -/
  | deliver (env : Env) (c fd : Int)

/-- The managers, the open connection of each to its parent, and what the connections carry. -/
structure TreeNet (Q : Type) where
  nodes : Int → ResourceManager Q
  link : Int → Option Int
  /-- `queue c fd`: from `c`, on the connection its parent knows as `fd` -/
  queue : Int → Int → List LinkItem

/-- The `REGISTER`s among what a manager does. -/
def registers (out : List Action) : List LinkItem :=
  out.filterMap fun act => match act with
    | .clientSend request => some (.register request)
    | _ => none

namespace TreeNet

variable {Q : Type}

/-- `items` are put on connection `fd` of `c`. -/
def push (N : TreeNet Q) (c fd : Int) (items : List LinkItem) : TreeNet Q :=
  { N with queue := Function.update N.queue c (Function.update (N.queue c) fd (N.queue c fd ++ items)) }

/-- The open connection of `c` is now `fd?`. -/
def relink (N : TreeNet Q) (c : Int) (fd? : Option Int) : TreeNet Q :=
  { N with link := Function.update N.link c fd? }

/-- What is left on connection `fd` of `c`. -/
def rest (N : TreeNet Q) (c fd : Int) (items : List LinkItem) : TreeNet Q :=
  { N with queue := Function.update N.queue c (Function.update (N.queue c) fd items) }

/-- Manager `n` has gone over to `s`; what it announces goes to its parent. -/
def act (N : TreeNet Q) (n : Int) (s : ResourceManager Q) (out : List Action) : TreeNet Q :=
  let N := { N with nodes := Function.update N.nodes n s }
  match N.link n with
  | none => N
  | some fd => N.push n fd (registers out)

variable [PriorityQueue Q User]

/-- One event. -/
def handle (T : MatrixTree) (N : TreeNet Q) : TreeEvent → Except Fault (TreeNet Q)
  | .connect env c fd =>
    if (T.parent c).isSome = true ∧ (N.link c).isNone = true ∧ (N.queue c fd).isEmpty = true then do
      let (s, out) ← (N.nodes c).onClientConnected env
      return (N.relink c (some fd)).act c s out
    else .ok N
  | .disconnect c =>
    match N.link c with
    | none => .ok N
    | some fd => do
      let (s, out) ← (N.nodes c).onClientDisconnected
      return ((N.relink c none).push c fd [.closed]).act c s out
  | .deliver env c fd =>
    match T.parent c, N.queue c fd with
    | some p, .register request :: items => do
      let (s, out) ← (N.nodes p).onRegister env fd request
      return (N.rest c fd items).act p s out
    | some p, .closed :: items => do
      let (s, out) ← (N.nodes p).onDisconnect fd
      return (N.rest c fd items).act p s out
    | _, _ => .ok N

/-- The managers of the configured matrices, as they start. A matrix with a parent is not of level 0: at
    level 0 `initAgentMessenger` makes no connection. -/
structure Start (T : MatrixTree) (N : TreeNet Q) : Prop where
  initial : ∀ n, ResourceManager.Initial (N.nodes n)
  ids : ∀ n, (N.nodes n).mMatrixId = n
  level : ∀ n, (T.parent n).isSome = true → (N.nodes n).mLevel ≠ 0
  link : ∀ n, N.link n = none
  queue : ∀ c fd, N.queue c fd = []

/-- Nothing is on its way. -/
def Quiescent (N : TreeNet Q) : Prop := ∀ c fd, N.queue c fd = []

/-- `c` is connected to its parent `p`. -/
def Linked (T : MatrixTree) (N : TreeNet Q) (p c : Int) : Prop := T.Child p c ∧ (N.link c).isSome = true

/-- `m` is connected below `n`. -/
def ConnectedBelow (T : MatrixTree) (N : TreeNet Q) (n m : Int) : Prop := Relation.TransGen (N.Linked T) n m

/-- **The managers agree with the tree**: at every node, `matchMatrix` yields the entry of the child through
    which the matrix is connected, and nothing for a matrix that is not. -/
structure Agrees (T : MatrixTree) (N : TreeNet Q) : Prop where
  child : ∀ n c m, (∃ info, (N.nodes n).mChildMatrixs[c]? = some info ∧ (N.nodes n).matchMatrix m = some info) ↔
    N.Linked T n c ∧ (m = c ∨ N.ConnectedBelow T c m)
  none : ∀ n m, (N.nodes n).matchMatrix m = none ↔ ¬ N.ConnectedBelow T n m

end TreeNet

end Mcc
