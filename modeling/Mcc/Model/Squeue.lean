import Mcc.Lib.CondVar
import Mcc.Lib.Transition

/-!
# `Model.Squeue` — the queue between the threads

`Squeue<T>` is a `std::queue` behind one mutex with one condition variable. What a member function does
between taking the mutex and giving it up — at its end, or in `Wait` — happens at once, so a section is one
step. `Section` lists the sections, with the values they return, and what the scheduler may do to a thread
that waits.
-/

namespace Mcc

open CondVar

/-- `Squeue`. -/
structure Squeue (α : Type) where
  mQueue : List α
deriving DecidableEq

namespace Squeue

variable {α : Type}

/-- `Squeue()`. -/
def new : Squeue α := ⟨[]⟩

/-- `mQueue.push(e)`. -/
def push (q : Squeue α) (e : α) : Squeue α := ⟨q.mQueue ++ [e]⟩

/-- `e = mQueue.front(); mQueue.pop();`, unless `mQueue.empty()`. -/
def take (q : Squeue α) : Option (α × Squeue α) :=
  match q.mQueue with
  | [] => none
  | e :: rest => some (e, ⟨rest⟩)

end Squeue

/-- Which `get` a thread is in. -/
inductive Getter where
  /-- `get(e)` -/
  | blocking
  /-- `get(e, timeout)` -/
  | timed
deriving DecidableEq

/-- The queue, and where each thread is in its wait. -/
structure SqueueSystem (α τ : Type) where
  queue : Squeue α
  phase : τ → Phase Getter

/-- What happens in one step, by which thread. -/
inductive Section (α τ : Type) where
  /-- `add(e)`; `Signal` wakes the thread named, if any sleeps -/
  | add (t : τ) (e : α) (signalled : Option τ)
  /-- `get` is called: it returns a value, or waits -/
  | get (t : τ) (getter : Getter) (result : Option α)
  /-- `tryget` -/
  | tryget (t : τ) (result : Option α)
  /-- `Wait` returns to a woken thread: its `get` returns a value, or waits again -/
  | resume (t : τ) (result : Option α)
  /-- `Wait` returns `ETIMEDOUT`: the timed `get` returns false -/
  | giveUp (t : τ)
  /-- a sleeper wakes by itself -/
  | spurious (t : τ)
  /-- the timeout of a sleeper runs out -/
  | timeout (t : τ)

namespace Section

variable {α τ : Type}

/-- The value the section adds. -/
def added : Section α τ → List α
  | .add _ e _ => [e]
  | _ => []

/-- The value it returns. -/
def returned : Section α τ → List α
  | .get _ _ result => result.toList
  | .tryget _ result => result.toList
  | .resume _ result => result.toList
  | _ => []

end Section

namespace SqueueSystem

variable {α τ : Type} [DecidableEq τ]

/-- Nothing is queued and nobody waits. -/
def start : SqueueSystem α τ := ⟨.new, fun _ => .outside⟩

/-- The loop of `get`, entered or gone through again: the front, or `Wait`. -/
def enter (P : SqueueSystem α τ) (t : τ) (getter : Getter) : Option α × SqueueSystem α τ :=
  match P.queue.take with
  | some (e, queue) => (some e, ⟨queue, Function.update P.phase t .outside⟩)
  | none => (none, { P with phase := Function.update P.phase t (.asleep getter) })

/-- The body of `tryget`. -/
def tryget (P : SqueueSystem α τ) : Option α × SqueueSystem α τ :=
  match P.queue.take with
  | some (e, queue) => (some e, { P with queue := queue })
  | none => (none, P)

/-- **The steps.** -/
inductive Step : SqueueSystem α τ → Section α τ → SqueueSystem α τ → Prop where
  /-- `Signal` finds nobody in `Wait` -/
  | add {P t e} : P.phase t = .outside → ¬ Sleeps P.phase →
      Step P (.add t e none) { P with queue := P.queue.push e }
  /-- `Signal` wakes one of those in `Wait` -/
  | addSignal {P t e u g} : P.phase t = .outside → P.phase u = .asleep g →
      Step P (.add t e (some u)) ⟨P.queue.push e, Function.update P.phase u (.woken g)⟩
  | get {P t g} : P.phase t = .outside →
      Step P (.get t g (P.enter t g).1) (P.enter t g).2
  | tryget {P t} : P.phase t = .outside → Step P (.tryget t P.tryget.1) P.tryget.2
  | resume {P t g} : P.phase t = .woken g →
      Step P (.resume t (P.enter t g).1) (P.enter t g).2
  | giveUp {P t} : P.phase t = .timedOut →
      Step P (.giveUp t) { P with phase := Function.update P.phase t .outside }
  | spurious {P t g} : P.phase t = .asleep g →
      Step P (.spurious t) { P with phase := Function.update P.phase t (.woken g) }
  /-- only the timed `get` gives `Wait` a timeout -/
  | timeout {P t} : P.phase t = .asleep .timed →
      Step P (.timeout t) { P with phase := Function.update P.phase t .timedOut }

end SqueueSystem

end Mcc
