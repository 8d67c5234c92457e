import Mcc.Lib.Transition
import Mcc.Model.Handlers

/-!
# `Model.System` — the manager as a transition system

Everything that can call into a resource manager is an `Input`; an `Event` is an input with the
surroundings of that call. `step` runs the handler to its end: the handlers hold the locks, so a run of the
manager is a sequence of events. A call that faults ends the run.

`readableAtServer` and `readableAtClient` are what the two `onReadable`s do with a text: they decode a message
and choose the handler. `Model.Framing` has the calls themselves, with the buffers they use.
-/

namespace Mcc

open Xml Transition

/-- What can happen to a manager. -/
inductive Input where
  /-- `onSwitch(kb, msg)` -/
  | localSwitch (kb : KeyboardPtr) (msg : KeyboardMessage)
  /-- `onPtz(kb, msg)` -/
  | localPtz (kb : KeyboardPtr) (msg : KeyboardMessage)
  /-- `onClientRxRequest(request)`: a request of the parent -/
  | clientRequest (request : AgentRequest)
  /-- `onServerRxResponse(response)`: a response of a child -/
  | serverResponse (response : AgentResponse)
  /-- `onRegister(fd, request)` -/
  | register (fd : Int) (request : AgentRequest)
  /-- `onDisconnect(fd)` -/
  | disconnect (fd : Int)
  /-- `onClientConnected`, `onClientDisconnected` -/
  | connected
  | disconnected

structure Event where
  env : Env
  input : Input

/-- A sequence of two calls that does not fault went through both. -/
theorem bind_eq_ok {α β : Type} {x : Except Fault α} {f : α → Except Fault β} {b : β}
    (h : x >>= f = .ok b) : ∃ a, x = .ok a ∧ f a = .ok b := by
  cases x with
  | error e => cases h
  | ok a => exact ⟨a, rfl, h⟩

namespace ResourceManager

variable {Q : Type} [PriorityQueue Q User]

/-- One event, handled to its end. -/
def step (s : ResourceManager Q) (ev : Event) : Except Fault (Outcome Q) :=
  match ev.input with
  | .localSwitch kb msg => s.onSwitch ev.env kb msg
  | .localPtz kb msg => s.onPtz ev.env kb msg
  | .clientRequest request => s.onClientRxRequest ev.env request
  | .serverResponse response => s.onServerRxResponse response
  | .register fd request => s.onRegister ev.env fd request
  | .disconnect fd => s.onDisconnect fd
  | .connected => s.onClientConnected ev.env
  | .disconnected => s.onClientDisconnected

/-- The system's steps, labelled with the event and the actions it led to. -/
def Step (s : ResourceManager Q) (l : Event × List Action) (s' : ResourceManager Q) : Prop :=
  s.step l.1 = .ok (s', l.2)

theorem step_of_eq {s s' : ResourceManager Q} {ev : Event} {out : List Action}
    (h : s.step ev = .ok (s', out)) : Step s (ev, out) s' := h

/-- The events one after the other, with the actions each led to. -/
def exec : ResourceManager Q → List Event → Except Fault (ResourceManager Q × List (Event × List Action))
  | s, [] => .ok (s, [])
  | s, ev :: evs => do
    let (s, out) ← s.step ev
    let (s, ls) ← exec s evs
    return (s, (ev, out) :: ls)

/-- Executing events is a run. -/
theorem run_of_exec (evs : List Event) :
    ∀ {s s' : ResourceManager Q} {ls : List (Event × List Action)}, exec s evs = .ok (s', ls) →
      Run Step s ls s' := by
  induction evs with
  | nil =>
    intro s s' ls h
    cases h
    exact .nil
  | cons ev evs ih =>
    intro s s' ls h
    unfold exec at h
    obtain ⟨⟨s₁, out⟩, h₁, h⟩ := bind_eq_ok h
    obtain ⟨⟨s₂, ls₂⟩, h₂, h⟩ := bind_eq_ok h
    cases h
    exact .cons h₁ (ih h₂)

/-- Reached from some initial state. -/
def Reachable (s : ResourceManager Q) : Prop :=
  ∃ s₀ ls, Initial s₀ ∧ Run Step s₀ ls s

theorem Initial.reachable {s : ResourceManager Q} (h : Initial s) : Reachable s :=
  ⟨s, [], h, .nil⟩

theorem Reachable.step {s s' : ResourceManager Q} {l : Event × List Action} (h : Reachable s)
    (hs : Step s l s') : Reachable s' := by
  obtain ⟨s₀, ls, h0, hrun⟩ := h
  exact ⟨s₀, ls ++ [l], h0, hrun.snoc hs⟩

theorem Reachable.run {s s' : ResourceManager Q} {ls : List (Event × List Action)} (h : Reachable s)
    (hs : Run Step s ls s') : Reachable s' := by
  obtain ⟨s₀, ls₀, h0, hrun⟩ := h
  exact ⟨s₀, ls₀ ++ ls, h0, hrun.append hs⟩

/-- **Invariants.** What initial states satisfy and every event preserves holds in every reachable state. -/
theorem Reachable.induct {I : ResourceManager Q → Prop} (hinit : ∀ s, Initial s → I s)
    (hstep : ∀ s l s', I s → Step s l s' → I s') {s : ResourceManager Q} (h : Reachable s) : I s := by
  obtain ⟨s₀, ls, h0, hrun⟩ := h
  exact hrun.invariant hstep (hinit s₀ h0)

/-! ## Texts from the connections -/

/-- What `MCCAgentServer::onReadable` leads to for a text from a child, the buffers apart. -/
def readableAtServer (env : Env) (mem : AgentResponse) (s : ResourceManager Q) (fd : Int)
    (doc : Document) : Except Fault (Outcome Q) := do
  let (valid, response) ← AgentResponse.parse mem env.junk doc
  if valid then s.onServerRxResponse response
  else
    let (_, request) ← AgentRequest.parse (AgentMessage.uninit env.junk) env.junk doc
    -- `isValid()` is not asked: the method is looked at whatever the parse said
    if request.mMethod = .register then s.onRegister env fd request
    else return (s, [])

/-- What `MCCAgentClient::onReadable` leads to for a text from the parent. A response is discarded. -/
def readableAtClient (env : Env) (mem : AgentRequest) (s : ResourceManager Q) (doc : Document) :
    Except Fault (Outcome Q) := do
  let (valid, request) ← AgentRequest.parse mem env.junk doc
  if valid then s.onClientRxRequest env request
  else
    let _ ← AgentResponse.parse (AgentResponse.uninit env.junk) env.junk doc
    return (s, [])

end ResourceManager

end Mcc
