import Mcc.Correctness.Codec
import Mcc.Correctness.Trunk
import Mcc.Model.Chain

/-!
# `Correctness.Traffic` — a line of managers under `SWITCH` traffic

Every step of the line is one event at one node (`NetStep.inv`), and a `SWITCH` event is about one request:
it leaves the contexts of all others, and what routes messages, as they are, and sends at most one message,
about the same request. From this follow the invariant of the traffic (`Traffic`) — the ids of the requests
in flight are distinct, and no request meets a node that has it pending — and with it that every text in
flight can be delivered without a fault.

## Contents
- **One event.** `Handles`, `Sends`.
- **One step of the line.** `NetStep.inv`, by its `Cause`.
- **The invariant.** `Traffic`, `NetStep.traffic`, `Traffic.deliverable`.
-/

namespace Mcc

open Transition ResourceManager

variable {Q : Type}

/-! ## One event -/

/-- The event is a `SWITCH` request or response. -/
def Event.IsSwitch (ev : Event) : Prop :=
  match ev.input with
  | .localSwitch _ _ => True
  | .clientRequest request => request.IsSwitch
  | .serverResponse response => response.IsSwitch
  | _ => False

/-- The id of the request it is about. -/
def Event.about (ev : Event) : Int :=
  match ev.input with
  | .clientRequest request => request.mId
  | .serverResponse response => response.mId
  | _ => ev.env.rand

/-- **A call about request `y`**: every context but its own stays, and so does what routes messages. -/
structure Handles (y : Int) (s s' : ResourceManager Q) : Prop where
  matrixId : s'.mMatrixId = s.mMatrixId
  children : s'.mChildMatrixs = s.mChildMatrixs
  contexts : ∀ z, z ≠ y → s'.mProcessContexts[z]? = s.mProcessContexts[z]?

theorem Handles.refl (y : Int) (s : ResourceManager Q) : Handles y s s := ⟨rfl, rfl, fun _ _ => rfl⟩

theorem Handles.matchMatrix {y : Int} {s s' : ResourceManager Q} (h : Handles y s s') (id : Int) :
    s'.matchMatrix id = s.matchMatrix id := by
  unfold ResourceManager.matchMatrix
  rw [h.children]

theorem Handles.pending {y z : Int} {s s' : ResourceManager Q} (h : Handles y s s') (hz : z ≠ y) :
    z ∈ s'.mProcessContexts ↔ z ∈ s.mProcessContexts := by
  rw [Std.ExtTreeMap.mem_iff_isSome_getElem?, Std.ExtTreeMap.mem_iff_isSome_getElem?, h.contexts z hz]

theorem handles_storeContext (s : ResourceManager Q) (context : ProcessContext) :
    Handles context.mId s (s.storeContext context) := by
  refine ⟨rfl, rfl, ?_⟩
  intro z hz
  show (s.mProcessContexts.insert context.mId context)[z]? = _
  rw [Std.ExtTreeMap.getElem?_insert, if_neg (IntMap.compare_ne hz)]

theorem handles_closed (s : ResourceManager Q) (response : AgentResponse) :
    Handles response.mId s (s.closed response) := by
  refine ⟨rfl, rfl, ?_⟩
  intro z hz
  show (s.mProcessContexts.erase response.mId)[z]? = _
  rw [Std.ExtTreeMap.getElem?_erase, if_neg (IntMap.compare_ne hz)]

theorem not_mem_closed (s : ResourceManager Q) (response : AgentResponse) :
    response.mId ∉ (s.closed response).mProcessContexts := by
  intro h
  have hne := (Std.ExtTreeMap.mem_erase.mp h).1
  exact hne (Std.LawfulEqCmp.compare_eq_iff_eq.mpr rfl)

/-- What a node sends: at most one message, about request `y`. -/
inductive Sends (C : Chain) (a : ℕ) (y : Int) : List Packet → Prop where
  | nothing : Sends C a y []
  | down {request} : a < C.k → request.IsSwitch → request.mId = y → Sends C a y [.down a request]
  | up {b response} : a = b + 1 → response.IsSwitch → response.mId = y → Sends C a y [.up b response]

theorem sends_serverSend (C : Chain) (a : ℕ) (fd : Int) (request : AgentRequest) (h : request.IsSwitch) :
    Sends C a request.mId (C.send a [.serverSend fd request]) := by
  show Sends C a request.mId (C.sent a (.serverSend fd request) ++ [])
  rw [List.append_nil]
  unfold Chain.sent
  by_cases hfd : a < C.k ∧ fd = C.conn a
  · simp only [if_pos hfd]
    exact .down hfd.1 h rfl
  · simp only [if_neg hfd]
    exact .nothing

theorem sends_clientRespond (C : Chain) (a : ℕ) {response : AgentResponse} (h : response.IsSwitch) :
    Sends C a response.mId (C.send a [.clientRespond response]) := by
  show Sends C a response.mId (C.sent a (.clientRespond response) ++ [])
  rw [List.append_nil]
  cases a with
  | zero => exact .nothing
  | succ b => exact .up rfl h rfl

/-- The answer to a `SWITCH` is one about a switch. -/
theorem isSwitch_switchAnswer {request : AgentRequest} (h : request.IsSwitch) (env : Env) (code : Int)
    (reason : String) (outport : Int) : (request.switchAnswer env code reason outport).IsSwitch :=
  ⟨rfl, h.method⟩

namespace ResourceManager

theorem SwitchOutcome.handles {env : Env} {s s' : ResourceManager Q} {msg : KeyboardMessage}
    {kb : KeyboardPtr} {r : ProcessResult} {out : List Action} (h : SwitchOutcome env s msg kb r s' out) :
    Handles env.rand s s' := by
  cases h with
  | noMonitor => exact ⟨rfl, rfl, fun _ _ => rfl⟩
  | inUse => exact .refl _ s
  | noCamera => exact ⟨rfl, rfl, fun _ _ => rfl⟩
  | taken => exact ⟨rfl, rfl, fun _ _ => rfl⟩
  | noMatrix => exact .refl _ s
  | sent => exact handles_storeContext s ⟨env.rand, kb, msg⟩

theorem SwitchOutcome.sends {env : Env} {s s' : ResourceManager Q} {msg : KeyboardMessage}
    {kb : KeyboardPtr} {r : ProcessResult} {out : List Action} (h : SwitchOutcome env s msg kb r s' out)
    (C : Chain) (a : ℕ) : Sends C a env.rand (C.send a out) := by
  cases h with
  | noMonitor => exact .nothing
  | inUse => exact .nothing
  | noCamera => exact .nothing
  | taken => exact .nothing
  | noMatrix => exact .nothing
  | @sent _ matrix => exact sends_serverSend C a matrix.mFd (s.switchRequest env msg) ⟨rfl, rfl⟩

theorem ResponseOutcome.handles {s s' : ResourceManager Q} {response : AgentResponse} {out : List Action}
    (h : ResponseOutcome s response s' out) : Handles response.mId s s' := by
  have hclosed := handles_closed s response
  cases h with
  | unknown => exact .refl _ s
  | switched => exact ⟨hclosed.matrixId, hclosed.children, hclosed.contexts⟩
  | failed => exact hclosed
  | ptzDone => exact hclosed
  | relayed => exact hclosed
  | dropped => exact hclosed

/-- A response leaves no context of its request. -/
theorem ResponseOutcome.forgets {s s' : ResourceManager Q} {response : AgentResponse} {out : List Action}
    (h : ResponseOutcome s response s' out) : response.mId ∉ s'.mProcessContexts := by
  cases h with
  | unknown hnot => exact hnot
  | switched => exact not_mem_closed s response
  | failed => exact not_mem_closed s response
  | ptzDone => exact not_mem_closed s response
  | relayed => exact not_mem_closed s response
  | dropped => exact not_mem_closed s response

theorem ResponseOutcome.sends {s s' : ResourceManager Q} {response : AgentResponse} {out : List Action}
    (h : ResponseOutcome s response s' out) (hsw : response.IsSwitch) (C : Chain) (a : ℕ) :
    Sends C a response.mId (C.send a out) := by
  cases h with
  | unknown => exact .nothing
  | switched => exact .nothing
  | failed => exact .nothing
  | ptzDone => exact .nothing
  | relayed => exact sends_clientRespond C a hsw
  | dropped => exact .nothing

/-- A response is never answered by a request. -/
theorem ResponseOutcome.sends_no_request {s s' : ResourceManager Q} {response : AgentResponse}
    {out : List Action} (h : ResponseOutcome s response s' out) (C : Chain) (a b : ℕ)
    (request : AgentRequest) : .down b request ∉ C.send a out := by
  cases h with
  | unknown => exact List.not_mem_nil
  | switched => exact List.not_mem_nil
  | failed => exact List.not_mem_nil
  | ptzDone => exact List.not_mem_nil
  | relayed =>
    cases a with
    | zero => exact List.not_mem_nil
    | succ a =>
      intro hmem
      cases List.mem_singleton.mp hmem
  | dropped => exact List.not_mem_nil

variable [PriorityQueue Q User]

theorem ClientSwitchOutcome.handles {env : Env} {s s' : ResourceManager Q} {request : AgentRequest}
    {out : List Action} (h : ClientSwitchOutcome env s request s' out) : Handles request.mId s s' := by
  cases h with
  | busy => exact ⟨rfl, rfl, fun _ _ => rfl⟩
  | granted => exact ⟨rfl, rfl, fun _ _ => rfl⟩
  | noCamera => exact ⟨rfl, rfl, fun _ _ => rfl⟩
  | noMatrix => exact ⟨rfl, rfl, fun _ _ => rfl⟩
  | forwarded =>
    have hstore := handles_storeContext (s.purged env) ⟨request.mId, none, KeyboardMessage.new⟩
    exact ⟨rfl, rfl, hstore.contexts⟩

theorem ClientSwitchOutcome.sends {env : Env} {s s' : ResourceManager Q} {request : AgentRequest}
    {out : List Action} (h : ClientSwitchOutcome env s request s' out) (hsw : request.IsSwitch) (C : Chain)
    (a : ℕ) : Sends C a request.mId (C.send a out) := by
  have hanswer : ∀ code reason outport, Sends C a request.mId
      (C.send a [.clientRespond (request.switchAnswer env code reason outport)]) := by
    intro code reason outport
    exact sends_clientRespond C a (isSwitch_switchAnswer hsw env code reason outport)
  cases h with
  | busy => exact hanswer 404 "Trunk Busy" 0
  | @granted i trunk => exact hanswer 200 "Ok" trunk.mOutport
  | @noCamera i trunk => exact hanswer 404 "Camera Not Found" trunk.mOutport
  | @noMatrix i trunk => exact hanswer 404 "Matrix Not Found" trunk.mOutport
  | @forwarded i trunk matrix => exact sends_serverSend C a matrix.mFd request hsw

/-- **A `SWITCH` event is about one request**: it handles that one, and sends at most one message, about
    it. -/
theorem Step.about {s s' : ResourceManager Q} {ev : Event} {out : List Action} (h : Step s (ev, out) s')
    (hsw : ev.IsSwitch) (C : Chain) (a : ℕ) :
    Handles ev.about s s' ∧ Sends C a ev.about (C.send a out) := by
  obtain ⟨env, input⟩ := ev
  cases input with
  | localSwitch kb msg =>
    obtain ⟨r, s₁, acts, hout, hend⟩ := onSwitch_eq (show s.onSwitch env kb msg = .ok (s', out) from h)
    have hhandles := hout.handles
    have hsends := hout.sends C a
    -- beyond what `processSwitchMessage` does, `onSwitch` only notifies
    rcases hend with ⟨-, rfl, rfl⟩ | ⟨-, rfl, k, -, rfl⟩ | ⟨-, rfl, rfl⟩
    · refine ⟨⟨hhandles.matrixId, hhandles.children, hhandles.contexts⟩, ?_⟩
      unfold Chain.send at hsends ⊢
      rw [List.flatMap_append]
      exact (List.append_nil _).symm ▸ hsends
    · refine ⟨hhandles, ?_⟩
      unfold Chain.send at hsends ⊢
      rw [List.flatMap_append]
      exact (List.append_nil _).symm ▸ hsends
    · exact ⟨hhandles, hsends⟩
  | clientRequest request =>
    have hout := Step.request h (AgentMessage.IsSwitch.method hsw)
    exact ⟨hout.handles, hout.sends hsw C a⟩
  | serverResponse response =>
    have hout := Step.response h
    exact ⟨hout.handles, hout.sends hsw C a⟩
  | localPtz => exact False.elim hsw
  | register => exact False.elim hsw
  | disconnect => exact False.elim hsw
  | connected => exact False.elim hsw
  | disconnected => exact False.elim hsw

end ResourceManager

/-! ## One step of the line -/

variable [PriorityQueue Q User]

omit [PriorityQueue Q User] in
/-- What comes in from outside is a `SWITCH` event: a request with an id of its own, or a response that does
    not answer `x`. -/
theorem Net.Other.cases {C : Chain} {x : Int} {N : Net Q} {ev : Event} (h : N.Other C x ev) :
    ev.IsSwitch ∧ (N.Fresh C x ev.about ∨
      ∃ env response, ev = ⟨env, .serverResponse response⟩ ∧ response.mId ≠ x) := by
  obtain ⟨env, input⟩ := ev
  cases input with
  | localSwitch kb msg => exact ⟨trivial, Or.inl h⟩
  | clientRequest request => exact ⟨h.1, Or.inl h.2⟩
  | serverResponse response => exact ⟨h.1, Or.inr ⟨env, response, rfl, h.2⟩⟩
  | localPtz => exact False.elim h
  | register => exact False.elim h
  | disconnect => exact False.elim h
  | connected => exact False.elim h
  | disconnected => exact False.elim h

omit [PriorityQueue Q User] in
theorem Net.Other.about_ne {C : Chain} {x : Int} {N : Net Q} {ev : Event} (h : N.Other C x ev) :
    ev.about ≠ x := by
  rcases h.cases.2 with hfresh | ⟨env, response, rfl, hne⟩
  · exact hfresh.other
  · exact hne

/-- Which event a step of the line is, at which node, and what stays in flight beside what it sends. -/
inductive Cause (C : Chain) (x : Int) (N : Net Q) : Label → ℕ → List Packet → Event → List Action → Prop where
  | request {i request before after env mem out} :
      N.flight = before ++ .down i request :: after → request.IsSwitch →
      Cause C x N (.down i (true, request.received mem) out) (i + 1) (before ++ after)
        ⟨env, .clientRequest (request.received mem)⟩ out
  | response {i response before after env mem out} :
      N.flight = before ++ .up i response :: after → response.IsSwitch →
      Cause C x N (.up i (true, response.received mem) out) i (before ++ after)
        ⟨env, .serverResponse (response.received mem)⟩ out
  | outside {a ev out} : N.Other C x ev → Cause C x N (.outside a ev.input out) a N.flight ev out

/-- The ids of the requests among the texts. -/
def requestIds (ps : List Packet) : List Int :=
  ps.filterMap fun p => match p with
    | .down _ request => some request.mId
    | .up _ _ => none

theorem mem_requestIds {ps : List Packet} {y : Int} :
    y ∈ requestIds ps ↔ ∃ i request, .down i request ∈ ps ∧ request.mId = y := by
  unfold requestIds
  rw [List.mem_filterMap]
  constructor
  · rintro ⟨p, hp, hy⟩
    cases p with
    | down i request => exact ⟨i, request, hp, Option.some.inj hy⟩
    | up i response => cases hy
  · rintro ⟨i, request, hmem, rfl⟩
    exact ⟨.down i request, hmem, rfl⟩

/-- **The invariant of the traffic.** -/
structure Traffic (C : Chain) (N : Net Q) : Prop where
  reachable : ∀ a ≤ C.k, Reachable (N.nodes a)
  links : ∀ p ∈ N.flight, p.link < C.k
  switches : ∀ p ∈ N.flight, p.IsSwitch
  /-- no two requests in flight have the same id -/
  distinct : (requestIds N.flight).Nodup
  /-- no node a request can still come to has it pending -/
  unseen : ∀ i request, .down i request ∈ N.flight → ∀ j ≤ C.k, i < j →
    request.mId ∉ (N.nodes j).mProcessContexts

/-- **Every step is one `SWITCH` event at one node**, read back from the text if it was one. -/
theorem NetStep.inv {C : Chain} {x : Int} {N N' : Net Q} {l : Label} (h : NetStep C x N l N')
    (ht : Traffic C N) : ∃ a rest ev s' out, Cause C x N l a rest ev out ∧ a ≤ C.k ∧ ev.IsSwitch ∧
      Step (N.nodes a) (ev, out) s' ∧ N' = N.act C a rest s' out := by
  cases h with
  | @down i request before after env mem parsed s' out hflight hparse hread =>
    have hmem : .down i request ∈ N.flight := by simp [hflight]
    have hsw : request.IsSwitch := ht.switches _ hmem
    have hlink : i < C.k := ht.links _ hmem
    rw [AgentRequest.parse_print hsw] at hparse
    rw [readableAtClient_print hsw] at hread
    cases hparse
    exact ⟨i + 1, _, ⟨env, .clientRequest (request.received mem)⟩, s', out, .request hflight hsw, hlink,
      ⟨hsw.type, hsw.method⟩, hread, rfl⟩
  | @up i response before after env mem parsed s' out hflight hparse hread =>
    have hmem : .up i response ∈ N.flight := by simp [hflight]
    have hsw : response.IsSwitch := ht.switches _ hmem
    have hlink : i < C.k := ht.links _ hmem
    rw [AgentResponse.parse_print hsw] at hparse
    rw [readableAtServer_print hsw] at hread
    cases hparse
    exact ⟨i, _, ⟨env, .serverResponse (response.received mem)⟩, s', out, .response hflight hsw, hlink.le,
      ⟨hsw.type, hsw.method⟩, hread, rfl⟩
  | @outside a ev s' out ha hother hstep =>
    exact ⟨a, N.flight, ev, s', out, .outside hother, ha, hother.cases.1, hstep, rfl⟩

/-! ## The invariant -/

theorem Sends.mem {C : Chain} {a : ℕ} {y : Int} {ps : List Packet} (h : Sends C a y ps) (ha : a ≤ C.k)
    {p : Packet} (hp : p ∈ ps) : p.link < C.k ∧ p.IsSwitch ∧ p.id = y := by
  cases h with
  | nothing => cases hp
  | down hlt hsw hid =>
    rw [List.mem_singleton.mp hp]
    exact ⟨hlt, hsw, hid⟩
  | @up b _ hb hsw hid =>
    rw [List.mem_singleton.mp hp]
    have hlt : b < C.k := by omega
    exact ⟨hlt, hsw, hid⟩

theorem requestIds_append (ps qs : List Packet) :
    requestIds (ps ++ qs) = requestIds ps ++ requestIds qs :=
  List.filterMap_append

/-- What a node sends adds one request at most. -/
theorem Sends.distinct {C : Chain} {a : ℕ} {y : Int} {ps rest : List Packet} (h : Sends C a y ps)
    (hrest : (requestIds rest).Nodup)
    (hnew : ∀ request, .down a request ∈ ps → y ∉ requestIds rest) : (requestIds (rest ++ ps)).Nodup := by
  rw [requestIds_append]
  cases h with
  | nothing => simpa [requestIds] using hrest
  | @down request _ _ hid =>
    have hy := hnew request (List.mem_singleton.mpr rfl)
    show (requestIds rest ++ [request.mId]).Nodup
    rw [hid]
    exact List.nodup_append.mpr ⟨hrest, List.nodup_singleton y, by
      intro z hz w hw hzw
      rw [List.mem_singleton.mp hw] at hzw
      exact hy (hzw ▸ hz)⟩
  | up => simpa [requestIds] using hrest

/-- One event at one node keeps the invariant, if the request it is about is not in flight elsewhere, or is
    forgotten, and the node sends it on only where it has not been. -/
theorem Traffic.act {C : Chain} {N : Net Q} (ht : Traffic C N) {a : ℕ} {rest : List Packet} {ev : Event}
    {s' : ResourceManager Q} {out : List Action} (ha : a ≤ C.k)
    (hstep : Step (N.nodes a) (ev, out) s') (hsw : ev.IsSwitch) (hrest : rest.Sublist N.flight)
    (hold : ev.about ∉ requestIds rest ∨ ev.about ∉ s'.mProcessContexts)
    (hnew : ∀ request, .down a request ∈ C.send a out → ev.about ∉ requestIds rest ∧
      ∀ j ≤ C.k, a < j → ev.about ∉ (N.nodes j).mProcessContexts) :
    Traffic C (N.act C a rest s' out) := by
  obtain ⟨hhandles, hsends⟩ := hstep.about hsw C a
  constructor
  · intro b hb
    by_cases hba : b = a
    · subst hba
      rw [Net.act_self]
      exact (ht.reachable b hb).step hstep
    · rw [Net.act_ne hba]
      exact ht.reachable b hb
  · intro p hp
    rcases List.mem_append.mp hp with hp | hp
    · exact ht.links p (hrest.subset hp)
    · exact (hsends.mem ha hp).1
  · intro p hp
    rcases List.mem_append.mp hp with hp | hp
    · exact ht.switches p (hrest.subset hp)
    · exact (hsends.mem ha hp).2.1
  · have hnodup : (requestIds rest).Nodup := ht.distinct.sublist (hrest.filterMap _)
    exact hsends.distinct hnodup fun request hmem => (hnew request hmem).1
  · intro i request hmem j hj hij
    rcases List.mem_append.mp hmem with hp | hp
    · -- a request that was in flight: only node `a` has changed, and only about `ev.about`
      have hbefore := ht.unseen i request (hrest.subset hp) j hj hij
      by_cases hja : j = a
      · subst hja
        rw [Net.act_self]
        by_cases hid : request.mId = ev.about
        · have hin : ev.about ∈ requestIds rest := mem_requestIds.mpr ⟨i, request, hp, hid⟩
          rw [hid]
          exact hold.resolve_left fun hnot => hnot hin
        · rw [hhandles.pending hid]
          exact hbefore
      · rw [Net.act_ne hja]
        exact hbefore
    · -- the request just sent, by node `a`
      have hid : request.mId = ev.about := (hsends.mem ha hp).2.2
      have hia : i = a := by
        generalize C.send a out = sent at hsends hp
        cases hsends with
        | nothing => cases hp
        | down =>
          cases List.mem_singleton.mp hp
          rfl
        | up => cases List.mem_singleton.mp hp
      subst hia
      rw [Net.act_ne hij.ne', hid]
      exact (hnew request hp).2 j hj hij

theorem sublist_of_taken {flight before after : List Packet} {p : Packet}
    (h : flight = before ++ p :: after) : (before ++ after).Sublist flight := by
  rw [h]
  exact (List.Sublist.refl before).append (List.sublist_cons_self p after)

/-- A request taken from the flight leaves none of its id. -/
theorem Traffic.taken {C : Chain} {N : Net Q} (ht : Traffic C N) {i : ℕ} {request : AgentRequest}
    {before after : List Packet} (hflight : N.flight = before ++ Packet.down i request :: after) :
    request.mId ∉ requestIds (before ++ after) := by
  have hdistinct := ht.distinct
  rw [hflight, requestIds_append] at hdistinct
  change (requestIds before ++ request.mId :: requestIds after).Nodup at hdistinct
  rw [requestIds_append]
  exact (List.nodup_middle.mp hdistinct).notMem

omit [PriorityQueue Q User] in
theorem Net.Fresh.not_mem {C : Chain} {x y : Int} {N : Net Q} (h : N.Fresh C x y) :
    y ∉ requestIds N.flight := by
  intro hy
  obtain ⟨i, request, hmem, hid⟩ := mem_requestIds.mp hy
  exact h.flight i request hmem hid

/-- **Every step keeps the invariant.** -/
theorem NetStep.traffic {C : Chain} {x : Int} {N N' : Net Q} {l : Label} (h : NetStep C x N l N')
    (ht : Traffic C N) : Traffic C N' := by
  obtain ⟨a, rest, ev, s', out, hcause, ha, hsw, hstep, rfl⟩ := h.inv ht
  cases hcause with
  | @request i request before after env mem out hflight hreq =>
    have htaken : request.mId ∉ requestIds (before ++ after) := ht.taken hflight
    refine ht.act ha hstep hsw (sublist_of_taken hflight) (Or.inl htaken) ?_
    intro _ _
    refine ⟨htaken, ?_⟩
    intro j hj hij
    exact ht.unseen i request (by simp [hflight]) j hj (by omega)
  | @response i response before after env mem out hflight hresp =>
    have hout := Step.response hstep
    refine ht.act ha hstep hsw (sublist_of_taken hflight) (Or.inr hout.forgets) ?_
    intro request hmem
    exact absurd hmem (hout.sends_no_request C _ _ request)
  | outside hother =>
    rcases hother.cases.2 with hfresh | ⟨env, response, rfl, -⟩
    · exact ht.act ha hstep hsw (List.Sublist.refl _) (Or.inl hfresh.not_mem) fun _ _ =>
        ⟨hfresh.not_mem, fun j hj _ => hfresh.pending j hj⟩
    · have hout := Step.response hstep
      refine ht.act ha hstep hsw (List.Sublist.refl _) (Or.inr hout.forgets) ?_
      intro request hmem
      exact absurd hmem (hout.sends_no_request C _ _ request)

/-- A line of reachable nodes with nothing in flight. -/
theorem traffic_of_quiet {C : Chain} {N : Net Q} (hreach : ∀ a ≤ C.k, Reachable (N.nodes a))
    (hflight : N.flight = []) : Traffic C N := by
  constructor
  · exact hreach
  · simp [hflight]
  · simp [hflight]
  · simp [hflight, requestIds]
  · simp [hflight]

/-- Every text in flight can be delivered, whatever the surroundings of the call are. -/
def Net.Deliverable (C : Chain) (N : Net Q) : Packet → Prop
  | .down i request => ∀ env mem, ∃ s' out,
      (N.nodes (i + 1)).readableAtClient env mem (AgentRequest.print request) = .ok (s', out)
  | .up i response => ∀ env mem, ∃ s' out,
      (N.nodes i).readableAtServer env mem (C.conn i) response.print = .ok (s', out)

/-- **No text faults where it arrives.** -/
theorem Traffic.deliverable {C : Chain} {N : Net Q} (ht : Traffic C N) {p : Packet} (hp : p ∈ N.flight) :
    N.Deliverable C p := by
  cases p with
  | down i request =>
    intro env mem
    have hsw : request.IsSwitch := ht.switches _ hp
    have hlink : i < C.k := ht.links _ hp
    have hmethod : (request.received mem).mMethod = .switch := hsw.method
    -- the assertion on a repeated id is not reached: the request was not here before
    have hid : (request.received mem).mId ∉ (N.nodes (i + 1)).mProcessContexts :=
      ht.unseen i request hp (i + 1) hlink (Nat.lt_succ_self i)
    rw [readableAtClient_print hsw]
    exact switch_step_ok env (ht.reachable (i + 1) hlink).some_trunk hmethod fun _ => hid
  | up i response =>
    intro env mem
    have hsw : response.IsSwitch := ht.switches _ hp
    obtain ⟨s', out, heq, -⟩ := (N.nodes i).onServerRxResponse_outcome (response.received mem)
    rw [readableAtServer_print hsw]
    exact ⟨s', out, heq⟩

end Mcc
