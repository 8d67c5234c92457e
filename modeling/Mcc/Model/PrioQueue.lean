import Mcc.Lib.CondVar
import Mcc.Lib.Heap
import Mcc.Lib.Transition

/-!
# `Model.PrioQueue` — the heap, and the queue between threads that is built on it

`Heap<T>` keeps a vector in the order of `push_heap` and `pop_heap`. `PrioQueue<T>` puts one behind a mutex, with a
condition variable that `get` waits on; like those of `Squeue`, its sections are single steps.
-/

namespace Mcc

open CondVar StdHeap Transition

/-! ## `Heap` -/

/-- `Heap`. -/
structure Heap (α : Type) where
  mData : List α
deriving DecidableEq

namespace Heap

variable {α : Type} [LinearOrder α]

/-- `Heap()`: `make_heap` of nothing. -/
def new : Heap α := ⟨[]⟩

def push (alg : HeapAlgorithms α) (h : Heap α) (e : α) : Heap α := ⟨alg.pushHeap (h.mData ++ [e])⟩

/-- `top`: `mData.back()`, unless the heap is empty. -/
def top (h : Heap α) : Option α := if h.mData.isEmpty then none else h.mData.getLast?

/-- `pop`: what it takes out, if it does not return false. -/
def pop (alg : HeapAlgorithms α) (h : Heap α) : Option (α × Heap α) :=
  if h.mData.isEmpty then none
  else
    let mData := alg.popHeap h.mData
    mData.getLast?.map fun e => (e, ⟨mData.dropLast⟩)

def empty (h : Heap α) : Bool := h.mData.isEmpty

end Heap

/-- The member functions. -/
inductive HeapOp (α : Type) where
  | push (e : α)
  | pop
  | top
deriving DecidableEq

namespace Heap

variable {α : Type} [LinearOrder α] (alg : HeapAlgorithms α)

/-- The heap after a call. -/
def after (h : Heap α) : HeapOp α → Heap α
  | .push e => h.push alg e
  | .pop => ((h.pop alg).map Prod.snd).getD h
  | .top => h

/-- One call. -/
def Step (h : Heap α) (op : HeapOp α) (h' : Heap α) : Prop := h' = h.after alg op

end Heap

/-! ## `PrioQueue` -/

/-- The heap, and where each thread is in its wait. -/
structure PrioQueue (α τ : Type) where
  mQueue : Heap α
  phase : τ → Phase Unit

/-- What happens in one step, by which thread. -/
inductive PrioSection (α τ : Type) where
  /-- `add(e)` -/
  | add (t : τ) (e : α)
  /-- `tryget` -/
  | tryget (t : τ) (result : Option α)
  /-- `get` is called: it returns a value, or waits -/
  | get (t : τ) (result : Option α)
  /-- `Wait` returns to a woken thread: its `get` returns a value, or waits again -/
  | resume (t : τ) (result : Option α)
deriving DecidableEq

namespace PrioSection

variable {α τ : Type}

/-- The value the section adds. -/
def added : PrioSection α τ → List α
  | .add _ e => [e]
  | _ => []

/-- The value it returns. -/
def returned : PrioSection α τ → List α
  | .tryget _ result => result.toList
  | .get _ result => result.toList
  | .resume _ result => result.toList
  | _ => []

end PrioSection

namespace PrioQueue

variable {α τ : Type} [LinearOrder α] [DecidableEq τ] (alg : HeapAlgorithms α) (getters : Set τ)

/-- Nothing is queued and nobody waits. -/
def start : PrioQueue α τ := ⟨.new, fun _ => .outside⟩

/-- The body of `tryget`. -/
def tryget (P : PrioQueue α τ) : Option α × PrioQueue α τ :=
  match P.mQueue.pop alg with
  | some (e, mQueue) => (some e, { P with mQueue := mQueue })
  | none => (none, P)

/-- The loop of `get`, entered or gone through again: `pop`, or `Wait`. The `assert` around `pop` holds, as the
heap is not empty. -/
def enter (P : PrioQueue α τ) (t : τ) : Option α × PrioQueue α τ :=
  match P.mQueue.pop alg with
  | some (e, mQueue) => (some e, ⟨mQueue, Function.update P.phase t .outside⟩)
  | none => (none, { P with phase := Function.update P.phase t (.asleep ()) })

/-- **The steps.** Only the getters call `get`. -/
inductive Step : PrioQueue α τ → PrioSection α τ → PrioQueue α τ → Prop where
  /-- nobody is signalled -/
  | add {P t e} : P.phase t = .outside → Step P (.add t e) { P with mQueue := P.mQueue.push alg e }
  | tryget {P t} : P.phase t = .outside → Step P (.tryget t (P.tryget alg).1) (P.tryget alg).2
  | get {P t} : t ∈ getters → P.phase t = .outside → Step P (.get t (P.enter alg t).1) (P.enter alg t).2
  | resume {P t} : P.phase t = .woken () → Step P (.resume t (P.enter alg t).1) (P.enter alg t).2

end PrioQueue

end Mcc
