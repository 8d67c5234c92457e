import Mcc.Correctness.Traffic
import Mcc.Lib.Relay

/-!
# `Correctness.Relay` — a switch request over a line of managers

Node `0` sends a request for a camera of node `k`. The nodes of the line refine the relay of `Lib.Relay`:
the request and its answer are one message (`AtPhase`), every delivery of a message about the request is a
step of the relay and shows what it should (`Following.step`), and every other step of the line leaves the
relay where it is (`Following.other`). `relay_correct` puts the two together for any run.

## Contents
- **The messages.** `Copies`, `Answers`, and `Shows`, what a delivery shows.
- **The phase.** `Wired`, `AtPhase`, `Following`.
- **The steps.** One node at a time, then the line.
- **The result.** `Exchange`, `relay_correct`.
-/

namespace Mcc

open Transition ResourceManager

variable {Q : Type}

/-! ## The messages -/

/-- What an answer says. -/
structure Answer where
  statuscode : Int
  outport : Int
  reason : String
deriving DecidableEq

/-- `r` is the request, unchanged. -/
structure Copies (request r : AgentRequest) : Prop where
  isSwitch : r.IsSwitch
  id : r.mId = request.mId
  source : r.mFrom = request.mFrom
  target : r.mTo = request.mTo
  initiator : r.mInitiatorId = request.mInitiatorId
  user : r.mContent.swiUserid = request.mContent.swiUserid
  camera : r.mContent.swiCameraid = request.mContent.swiCameraid

/-- `r` is the answer `a` to the request, with its two ends exchanged. -/
structure Answers (request : AgentRequest) (a : Answer) (r : AgentResponse) : Prop where
  isSwitch : r.IsSwitch
  id : r.mId = request.mId
  source : r.mFrom = request.mTo
  target : r.mTo = request.mFrom
  statuscode : r.mStatusCode = a.statuscode
  outport : r.mContent.swiOutport = a.outport
  reason : r.mReason = a.reason

theorem Copies.received {request r : AgentRequest} (h : Copies request r) (mem : AgentRequest) :
    Copies request (r.received mem) where
  isSwitch := ⟨h.isSwitch.type, h.isSwitch.method⟩
  id := h.id
  source := h.source
  target := h.target
  initiator := h.initiator
  user := by rw [AgentMessage.received_swiUserid, h.user]
  camera := by rw [AgentMessage.received_swiCameraid, h.camera]

theorem Answers.received {request : AgentRequest} {a : Answer} {r : AgentResponse}
    (h : Answers request a r) (mem : AgentResponse) : Answers request a (r.received mem) where
  isSwitch := ⟨h.isSwitch.type, h.isSwitch.method⟩
  id := h.id
  source := h.source
  target := h.target
  statuscode := h.statuscode
  outport := by rw [AgentResponse.received_swiOutport, h.outport]
  reason := h.reason

theorem Copies.answers {request r : AgentRequest} (h : Copies request r) (env : Env) (code : Int)
    (reason : String) (outport : Int) :
    Answers request ⟨code, outport, reason⟩ (r.switchAnswer env code reason outport) where
  isSwitch := isSwitch_switchAnswer h.isSwitch env code reason outport
  id := h.id
  source := h.target
  target := h.source
  statuscode := rfl
  outport := by simp [AgentMessage.switchAnswer, buildSwitchResponse, Content.swiOutport]
  reason := rfl

/-- The action puts a message on a connection to another matrix. -/
def Action.isMessage : Action → Bool
  | .serverSend _ _ => true
  | .clientSend _ => true
  | .clientRespond _ => true
  | _ => false

/-- **What a delivery shows**, when it is the given move of the relay: the message arrives as it should, and
    the node does what it should. -/
inductive Shows (C : Chain) (request : AgentRequest) (kb : ℕ) (event : KeyboardMessage) :
    Label → Relay.Event Answer → Prop where
  /-- Node `i + 1` sends the request on to node `i + 2`. -/
  | forwarded {i r} : Copies request r →
      Shows C request kb event (.down i (true, r) [.serverSend (C.conn (i + 1)) r]) (.request i none)
  /-- Node `i + 1` answers. -/
  | answered {i r acts a response} : Copies request r → Answers request a response →
      (∀ act ∈ acts, act.isMessage = false) →
      Shows C request kb event (.down i (true, r) (acts ++ [.clientRespond response])) (.request i (some a))
  /-- Node `i + 1` sends the answer on to node `i`. -/
  | relayed {i a r} : Answers request a r →
      Shows C request kb event (.up (i + 1) (true, r) [.clientRespond r]) (.response (i + 1) a)
  /-- Node `0` makes the switch. -/
  | switched {a r} : Answers request a r → a.statuscode.tdiv 100 = 2 →
      Shows C request kb event (.up 0 (true, r)
        [.sendSwitch 0 { event with type := .switch, cameraId := ⟨request.mFrom, a.outport⟩ }])
        (.response 0 a)
  /-- Node `0` tells the keyboard that there is none. -/
  | notified {a r} : Answers request a r → a.statuscode.tdiv 100 ≠ 2 →
      Shows C request kb event (.up 0 (true, r) [.notifyKeyboard kb event a.statuscode a.reason])
        (.response 0 a)

/-! ## The phase -/

/-- **The line leads to its last node**: the matrix ids are distinct, and every other node finds the
    connection to the next one when it looks for the matrix of the last. -/
structure Chain.Wired (C : Chain) (N : Net Q) : Prop where
  distinct : ∀ i j, i ≤ C.k → j ≤ C.k → (N.nodes i).mMatrixId = (N.nodes j).mMatrixId → i = j
  route : ∀ i < C.k, ∃ m, (N.nodes i).matchMatrix (N.nodes C.k).mMatrixId = some m ∧ m.mFd = C.conn i

/-- The request is pending at the nodes `0 … i`, and at node `0` with its context. -/
structure Held (C : Chain) (request : AgentRequest) (context : ProcessContext) (N : Net Q) (i : ℕ) :
    Prop where
  pending : ∀ j ≤ C.k, request.mId ∈ (N.nodes j).mProcessContexts ↔ j ≤ i
  context : (N.nodes 0).mProcessContexts[request.mId]? = some context

/-- **Where the request is**: one message about it is in flight, until the answer is home. -/
inductive AtPhase (C : Chain) (request : AgentRequest) (context : ProcessContext) (N : Net Q) :
    Relay.Phase Answer → Prop where
  | down {i r} : N.about request.mId = [.down i r] → Copies request r → Held C request context N i →
      AtPhase C request context N (.down i)
  | up {i a r} : N.about request.mId = [.up i r] → Answers request a r → Held C request context N i →
      AtPhase C request context N (.up i a)
  | done {a} : N.about request.mId = [] → (∀ j ≤ C.k, request.mId ∉ (N.nodes j).mProcessContexts) →
      AtPhase C request context N (.done a)

/-- The texts about a request, after an event at one node. -/
theorem Net.about_act (C : Chain) (N : Net Q) (a : ℕ) (rest : List Packet) (s : ResourceManager Q)
    (out : List Action) (x : Int) : (N.act C a rest s out).about x =
      rest.filter (fun p => decide (p.id = x)) ++ (C.send a out).filter fun p => decide (p.id = x) :=
  List.filter_append rest (C.send a out)

/-- The event sends the one text about the request that is in flight then. -/
theorem Net.about_sent {C : Chain} {N : Net Q} {a : ℕ} {rest : List Packet} {s : ResourceManager Q}
    {out : List Action} {x : Int} {p : Packet} (hrest : rest.filter (fun p => decide (p.id = x)) = [])
    (hsent : C.send a out = [p]) (hp : p.id = x) : (N.act C a rest s out).about x = [p] := by
  rw [Net.about_act, hrest, hsent, List.nil_append]
  exact List.filter_cons_of_pos (decide_eq_true hp)

/-- The one text about a request, taken from the flight, leaves none. -/
theorem Net.about_taken {N : Net Q} {x : Int} {before after : List Packet} {p : Packet}
    (hflight : N.flight = before ++ p :: after) (hp : p.id = x) :
    N.about x ≠ [] ∧ ∀ q, N.about x = [q] →
      q = p ∧ (before ++ after).filter (fun p => decide (p.id = x)) = [] := by
  have habout : N.about x = before.filter (fun p => decide (p.id = x)) ++
      p :: after.filter fun p => decide (p.id = x) := by
    unfold Net.about
    rw [hflight, List.filter_append, List.filter_cons_of_pos (by simp [hp])]
  rw [habout, List.filter_append]
  constructor
  · simp
  · intro q hq
    -- a text about `x` before it would be a second one
    cases hbefore : before.filter (fun p => decide (p.id = x)) with
    | nil =>
      rw [hbefore] at hq
      obtain ⟨rfl, hafter⟩ := List.cons.inj hq
      exact ⟨rfl, by rw [hafter]; rfl⟩
    | cons b bs =>
      rw [hbefore] at hq
      have hnil := (List.cons.inj hq).2
      exact absurd hnil (List.append_ne_nil_of_right_ne_nil bs (List.cons_ne_nil _ _))

/-- An event at another node, or one that leaves the context of the request, leaves it held. -/
theorem Held.act {C : Chain} {request : AgentRequest} {context : ProcessContext} {N : Net Q} {i a : ℕ}
    {rest : List Packet} {s : ResourceManager Q} {out : List Action} (h : Held C request context N i)
    (hs : s.mProcessContexts[request.mId]? = (N.nodes a).mProcessContexts[request.mId]?) :
    Held C request context (N.act C a rest s out) i := by
  have hsame : ∀ j, ((N.act C a rest s out).nodes j).mProcessContexts[request.mId]? =
      (N.nodes j).mProcessContexts[request.mId]? := by
    intro j
    by_cases hj : j = a
    · subst hj
      rw [Net.act_self, hs]
    · rw [Net.act_ne hj]
  constructor
  · intro j hj
    rw [Std.ExtTreeMap.mem_iff_isSome_getElem?, hsame j, ← Std.ExtTreeMap.mem_iff_isSome_getElem?]
    exact h.pending j hj
  · rw [hsame 0, h.context]

/-- The next node has taken the request on. -/
theorem Held.next {C : Chain} {request : AgentRequest} {context : ProcessContext} {N : Net Q} {i : ℕ}
    {rest : List Packet} {s : ResourceManager Q} {out : List Action} (h : Held C request context N i)
    (hs : request.mId ∈ s.mProcessContexts) :
    Held C request context (N.act C (i + 1) rest s out) (i + 1) := by
  constructor
  · intro j hj
    by_cases hji : j = i + 1
    · subst hji
      rw [Net.act_self]
      exact iff_of_true hs (le_refl _)
    · rw [Net.act_ne hji, h.pending j hj]
      omega
  · have hne : 0 ≠ i + 1 := by omega
    rw [Net.act_ne hne]
    exact h.context

/-- The last of the nodes that hold the request has forgotten it. -/
theorem Held.previous {C : Chain} {request : AgentRequest} {context : ProcessContext} {N : Net Q} {i : ℕ}
    {rest : List Packet} {s : ResourceManager Q} {out : List Action}
    (h : Held C request context N (i + 1)) (hs : request.mId ∉ s.mProcessContexts) :
    Held C request context (N.act C (i + 1) rest s out) i := by
  constructor
  · intro j hj
    by_cases hji : j = i + 1
    · subst hji
      rw [Net.act_self]
      exact iff_of_false hs (by omega)
    · rw [Net.act_ne hji, h.pending j hj]
      omega
  · have hne : 0 ≠ i + 1 := by omega
    rw [Net.act_ne hne]
    exact h.context

/-! ## One node -/

/-- **The answer at a node on its way** is sent on. -/
theorem response_passes {request : AgentRequest} {a : Answer} {r : AgentResponse} {s s' : ResourceManager Q}
    {out : List Action} (h : ResponseOutcome s r s' out) (hr : Answers request a r)
    (hpending : request.mId ∈ s.mProcessContexts) (hfrom : request.mFrom ≠ s.mMatrixId) :
    out = [.clientRespond r] := by
  have hto : r.mTo ≠ s.mMatrixId := hr.target ▸ hfrom
  have hmethod : r.mMethod = .switch := hr.isSwitch.method
  cases h with
  | unknown hnot => exact absurd (hr.id ▸ hpending) hnot
  | switched _ hhere => exact absurd hhere hto
  | failed _ hhere => exact absurd hhere hto
  | ptzDone _ hhere => exact absurd hhere hto
  | relayed => rfl
  | dropped _ hwhy =>
    rcases hwhy with ⟨hhere, -⟩ | ⟨hne, -⟩
    · exact absurd hhere hto
    · exact absurd hmethod hne

/-- **The answer at home** makes the switch or tells the keyboard. -/
theorem response_home {C : Chain} {request : AgentRequest} {context : ProcessContext} {kb : ℕ} {a : Answer}
    {r : AgentResponse} {s s' : ResourceManager Q} {out : List Action} (h : ResponseOutcome s r s' out)
    (hr : Answers request a r) (hcontext : s.mProcessContexts[request.mId]? = some context)
    (hkb : context.mKeyboard = some kb) (hfrom : request.mFrom = s.mMatrixId) :
    Shows C request kb context.mKeyboardEvent (.up 0 (true, r) out) (.response 0 a) := by
  have hto : r.mTo = s.mMatrixId := hr.target.trans hfrom
  have hmethod : r.mMethod = .switch := hr.isSwitch.method
  -- the context that is found is the one the request was stored with
  have hsame : ∀ {c}, s.mProcessContexts[r.mId]? = some c → c = context := by
    intro c hc
    rw [hr.id, hcontext] at hc
    exact (Option.some.inj hc).symm
  cases h with
  | unknown hnot =>
    rw [hr.id, ← IntMap.getElem?_eq_none_iff, hcontext] at hnot
    cases hnot
  | @switched c k hc _ _ hok _ =>
    cases hsame hc
    rw [hr.statuscode] at hok
    have hmsg : s.responseSwitch context r =
        { context.mKeyboardEvent with type := .switch, cameraId := ⟨request.mFrom, a.outport⟩ } := by
      unfold responseSwitch
      rw [hr.outport, hfrom]
    rw [hmsg]
    exact .switched hr hok
  | @failed c k hc _ _ hbad hk =>
    cases hsame hc
    rw [hkb] at hk
    cases hk
    rw [hr.statuscode] at hbad ⊢
    rw [hr.reason]
    exact .notified hr hbad
  | ptzDone _ _ hptz =>
    rw [hmethod] at hptz
    cases hptz
  | relayed _ haway => exact absurd hto haway
  | dropped hc hwhy =>
    cases hsame hc
    rcases hwhy with ⟨-, hnone⟩ | ⟨hne, -⟩
    · rw [hkb] at hnone
      cases hnone
    · exact absurd hmethod hne

variable [PriorityQueue Q User]

/-- **The request at a node** is answered there, or sent on over the route. -/
theorem request_arrives {C : Chain} {request r : AgentRequest} {env : Env} {s s' : ResourceManager Q}
    {i : ℕ} {out : List Action} (h : ClientSwitchOutcome env s r s' out) (hr : Copies request r)
    (hroute : request.mTo ≠ s.mMatrixId →
      i + 1 < C.k ∧ ∃ m, s.matchMatrix request.mTo = some m ∧ m.mFd = C.conn (i + 1)) :
    (∃ acts a response, out = acts ++ [Action.clientRespond response] ∧ (∀ act ∈ acts, act.isMessage = false) ∧
      Answers request a response ∧ C.send (i + 1) out = [.up i response] ∧
      s'.mProcessContexts = s.mProcessContexts) ∨
    (i + 1 < C.k ∧ out = [.serverSend (C.conn (i + 1)) r] ∧ C.send (i + 1) out = [.down (i + 1) r] ∧
      request.mId ∈ s'.mProcessContexts) := by
  cases h with
  | busy => exact Or.inl ⟨[], _, _, rfl, by simp, hr.answers env 404 "Trunk Busy" 0, rfl, rfl⟩
  | @granted j trunk =>
    exact Or.inl ⟨[.sendSwitch 0 _, .notifyClients _], _, _, rfl, by simp [Action.isMessage],
      hr.answers env 200 "Ok" trunk.mOutport, rfl, rfl⟩
  | @noCamera j trunk =>
    exact Or.inl ⟨[], _, _, rfl, by simp, hr.answers env 404 "Camera Not Found" trunk.mOutport, rfl, rfl⟩
  | noMatrix _ _ haway hnone =>
    -- a node before the target has a route
    rw [hr.target] at haway hnone
    obtain ⟨-, m, hm, -⟩ := hroute haway
    rw [hm] at hnone
    cases hnone
  | @forwarded j trunk matrix _ _ haway hmatrix hnot =>
    rw [hr.target] at haway hmatrix
    obtain ⟨hlt, m, hm, hfd⟩ := hroute haway
    rw [hm] at hmatrix
    cases hmatrix
    rw [hfd]
    right
    refine ⟨hlt, rfl, Chain.send_next hlt r, ?_⟩
    rw [← hr.id]
    exact Std.ExtTreeMap.mem_insert_self

/-! ## The steps -/

/-- **The relay is at `φ`**, in a line that leads from the source of the request to its target. -/
structure Following (C : Chain) (request : AgentRequest) (context : ProcessContext) (N : Net Q)
    (φ : Relay.Phase Answer) : Prop where
  traffic : Traffic C N
  wired : C.Wired N
  source : request.mFrom = (N.nodes 0).mMatrixId
  target : request.mTo = (N.nodes C.k).mMatrixId
  phase : AtPhase C request context N φ

/-- What routes messages is the same in both. -/
def Net.SameRoutes (N N' : Net Q) : Prop :=
  ∀ b, (N'.nodes b).mMatrixId = (N.nodes b).mMatrixId ∧
    ∀ id, (N'.nodes b).matchMatrix id = (N.nodes b).matchMatrix id

omit [PriorityQueue Q User] in
theorem Net.sameRoutes_act {C : Chain} {N : Net Q} {a : ℕ} {y : Int} {s : ResourceManager Q}
    (h : Handles y (N.nodes a) s) (rest : List Packet) (out : List Action) :
    N.SameRoutes (N.act C a rest s out) := by
  intro b
  by_cases hba : b = a
  · subst hba
    rw [Net.act_self]
    exact ⟨h.matrixId, h.matchMatrix⟩
  · rw [Net.act_ne hba]
    exact ⟨rfl, fun _ => rfl⟩

omit [PriorityQueue Q User] in
theorem Chain.Wired.of_same {C : Chain} {N N' : Net Q} (h : C.Wired N) (hsame : N.SameRoutes N') :
    C.Wired N' := by
  constructor
  · intro i j hi hj hid
    rw [(hsame i).1, (hsame j).1] at hid
    exact h.distinct i j hi hj hid
  · intro i hi
    rw [(hsame i).2, (hsame C.k).1]
    exact h.route i hi

theorem NetStep.sameRoutes {C : Chain} {x : Int} {N N' : Net Q} {l : Label} (h : NetStep C x N l N')
    (ht : Traffic C N) : N.SameRoutes N' := by
  obtain ⟨a, rest, ev, s', out, -, -, hsw, hstep, rfl⟩ := h.inv ht
  exact Net.sameRoutes_act (hstep.about hsw C a).1 rest out

/-- **A step that is not about request `x`** leaves its texts in flight and its contexts. -/
theorem NetStep.other {C : Chain} {x : Int} {N N' : Net Q} {l : Label} (h : NetStep C x N l N')
    (ht : Traffic C N) (hl : l.isAbout x = false) : N'.about x = N.about x ∧
      ∀ b, (N'.nodes b).mProcessContexts[x]? = (N.nodes b).mProcessContexts[x]? := by
  obtain ⟨a, rest, ev, s', out, hcause, ha, hsw, hstep, rfl⟩ := h.inv ht
  obtain ⟨hhandles, hsends⟩ := hstep.about hsw C a
  -- the event is about another request, and so was the text it took from the flight
  have hother : ev.about ≠ x ∧ rest.filter (fun p => decide (p.id = x)) = N.about x := by
    have htaken : ∀ {before after : List Packet} {p : Packet}, N.flight = before ++ p :: after → p.id ≠ x →
        (before ++ after).filter (fun p => decide (p.id = x)) = N.about x := by
      intro before after p hflight hp
      unfold Net.about
      rw [hflight, List.filter_append, List.filter_append, List.filter_cons_of_neg (by simp [hp])]
    cases hcause with
    | request hflight _ =>
      have hne := of_decide_eq_false hl
      exact ⟨hne, htaken hflight hne⟩
    | response hflight _ =>
      have hne := of_decide_eq_false hl
      exact ⟨hne, htaken hflight hne⟩
    | outside hin => exact ⟨hin.about_ne, rfl⟩
  constructor
  · have hsent : (C.send a out).filter (fun p => decide (p.id = x)) = [] := by
      apply List.filter_eq_nil_iff.mpr
      intro p hp
      simp [(hsends.mem ha hp).2.2, hother.1]
    rw [Net.about_act, hsent, List.append_nil, hother.2]
  · intro b
    by_cases hba : b = a
    · subst hba
      rw [Net.act_self]
      exact hhandles.contexts x hother.1.symm
    · rw [Net.act_ne hba]

/-- **Other traffic leaves the relay where it is.** -/
theorem Following.other {C : Chain} {request : AgentRequest} {context : ProcessContext} {N N' : Net Q}
    {φ : Relay.Phase Answer} {l : Label} (h : Following C request context N φ)
    (hs : NetStep C request.mId N l N') (hl : l.isAbout request.mId = false) :
    Following C request context N' φ := by
  obtain ⟨habout, hcontexts⟩ := hs.other h.traffic hl
  have hsame := hs.sameRoutes h.traffic
  have hpending : ∀ j, request.mId ∈ (N'.nodes j).mProcessContexts ↔
      request.mId ∈ (N.nodes j).mProcessContexts := by
    intro j
    rw [Std.ExtTreeMap.mem_iff_isSome_getElem?, hcontexts j, ← Std.ExtTreeMap.mem_iff_isSome_getElem?]
  have hheld : ∀ i, Held C request context N i → Held C request context N' i := by
    intro i hi
    refine ⟨fun j hj => (hpending j).trans (hi.pending j hj), ?_⟩
    rw [hcontexts 0, hi.context]
  refine ⟨hs.traffic h.traffic, h.wired.of_same hsame, ?_, ?_, ?_⟩
  · rw [(hsame 0).1, h.source]
  · rw [(hsame C.k).1, h.target]
  · cases h.phase with
    | down hone hr hi => exact .down (habout.trans hone) hr (hheld _ hi)
    | up hone hr hi => exact .up (habout.trans hone) hr (hheld _ hi)
    | done hnone hnot =>
      refine .done (habout.trans hnone) ?_
      intro j hj
      rw [hpending j]
      exact hnot j hj

/-- The request is delivered to node `i + 1`: it is the one in flight, and is answered or sent on. -/
theorem Following.request_step {C : Chain} {request r : AgentRequest} {context : ProcessContext}
    {N : Net Q} {φ : Relay.Phase Answer} (h : Following C request context N φ) {i : ℕ}
    {before after : List Packet} (hflight : N.flight = before ++ Packet.down i r :: after)
    (hid : r.mId = request.mId) {env : Env} {mem : AgentRequest} {s' : ResourceManager Q}
    {out : List Action} (hstep : Step (N.nodes (i + 1)) (⟨env, .clientRequest (r.received mem)⟩, out) s')
    (kb : ℕ) (event : KeyboardMessage) :
    ∃ answer ψ, Shows C request kb event (.down i (true, r.received mem) out) (.request i answer) ∧
      Relay.Step C.k φ (.request i answer) ψ ∧
      AtPhase C request context (N.act C (i + 1) (before ++ after) s' out) ψ := by
  have hlink : i < C.k := h.traffic.links (.down i r) (by simp [hflight])
  obtain ⟨hne, hone⟩ := Net.about_taken (p := .down i r) hflight hid
  have hphase := h.phase
  cases hphase with
  | @down j r' habout hcopy hheld =>
    obtain ⟨heq, hrest⟩ := hone _ habout
    cases heq
    have hread : Copies request (r.received mem) := hcopy.received mem
    have hout := Step.request hstep hread.isSwitch.method
    -- the request is at its target at the end of the line, and has a route before it
    have hroute : request.mTo ≠ (N.nodes (i + 1)).mMatrixId →
        i + 1 < C.k ∧ ∃ m, (N.nodes (i + 1)).matchMatrix request.mTo = some m ∧ m.mFd = C.conn (i + 1) := by
      intro haway
      have hlt : i + 1 < C.k := by
        rcases Nat.lt_or_ge (i + 1) C.k with hlt | hge
        · exact hlt
        · have hend : i + 1 = C.k := by omega
          rw [hend, ← h.target] at haway
          exact absurd rfl haway
      rw [h.target]
      exact ⟨hlt, h.wired.route (i + 1) hlt⟩
    rcases request_arrives hout hread hroute with
      ⟨acts, a, response, hacts, hquiet, hanswer, hsent, hctx⟩ | ⟨hlt, hacts, hsent, hctx⟩
    · refine ⟨some a, .up i a, ?_, .answer hlink, ?_⟩
      · rw [hacts]
        exact .answered hread hanswer hquiet
      · exact .up (Net.about_sent hrest hsent hanswer.id) hanswer (hheld.act (by rw [hctx]))
    · refine ⟨none, .down (i + 1), ?_, .forward hlt, ?_⟩
      · rw [hacts]
        exact .forwarded hread
      · exact .down (Net.about_sent hrest hsent hread.id) hread (hheld.next hctx)
  | up habout =>
    obtain ⟨heq, -⟩ := hone _ habout
    cases heq
  | done habout => exact absurd habout hne

/-- The answer is delivered to node `i`: it is the one in flight, and is sent on or is home. -/
theorem Following.response_step {C : Chain} {request : AgentRequest} {r : AgentResponse}
    {context : ProcessContext} {kb : ℕ} {N : Net Q} {φ : Relay.Phase Answer}
    (h : Following C request context N φ) (hkb : context.mKeyboard = some kb) {i : ℕ}
    {before after : List Packet} (hflight : N.flight = before ++ Packet.up i r :: after)
    (hid : r.mId = request.mId) {env : Env} {mem : AgentResponse} {s' : ResourceManager Q}
    {out : List Action} (hstep : Step (N.nodes i) (⟨env, .serverResponse (r.received mem)⟩, out) s') :
    ∃ a ψ, Shows C request kb context.mKeyboardEvent (.up i (true, r.received mem) out) (.response i a) ∧
      Relay.Step C.k φ (.response i a) ψ ∧
      AtPhase C request context (N.act C i (before ++ after) s' out) ψ := by
  have hlink : i < C.k := h.traffic.links (.up i r) (by simp [hflight])
  obtain ⟨hne, hone⟩ := Net.about_taken (p := .up i r) hflight hid
  have hphase := h.phase
  cases hphase with
  | @up j a r' habout hanswer hheld =>
    obtain ⟨heq, hrest⟩ := hone _ habout
    cases heq
    have hread : Answers request a (r.received mem) := hanswer.received mem
    have hout := Step.response hstep
    have hgone : request.mId ∉ s'.mProcessContexts := hread.id ▸ hout.forgets
    cases i with
    | zero =>
      have hshows := response_home (C := C) hout hread hheld.context hkb h.source
      have hsilent : C.send 0 out = [] := by
        cases hshows with
        | switched => rfl
        | notified => rfl
      refine ⟨a, .done a, hshows, .finish, .done ?_ ?_⟩
      · rw [Net.about_act, hrest, hsilent]
        rfl
      · intro j hj
        by_cases hj0 : j = 0
        · subst hj0
          rw [Net.act_self]
          exact hgone
        · rw [Net.act_ne hj0, hheld.pending j hj]
          omega
    | succ i =>
      have hpending : request.mId ∈ (N.nodes (i + 1)).mProcessContexts :=
        (hheld.pending (i + 1) hlink.le).mpr (le_refl _)
      -- the answer is for node `0`, which has a matrix id of its own
      have hfrom : request.mFrom ≠ (N.nodes (i + 1)).mMatrixId := by
        intro hsame
        have hzero := h.wired.distinct 0 (i + 1) (Nat.zero_le _) hlink.le (h.source.symm.trans hsame)
        omega
      have hacts := response_passes hout hread hpending hfrom
      have hsent : C.send (i + 1) out = [.up i (r.received mem)] := by
        rw [hacts]
        rfl
      refine ⟨a, .up i a, ?_, .relay, .up (Net.about_sent hrest hsent hread.id) hread (hheld.previous hgone)⟩
      rw [hacts]
      exact .relayed hread
  | down habout =>
    obtain ⟨heq, -⟩ := hone _ habout
    cases heq
  | done habout => exact absurd habout hne

/-- **A delivery of a message about the request is a move of the relay**, and shows it. -/
theorem Following.step {C : Chain} {request : AgentRequest} {context : ProcessContext} {kb : ℕ}
    {N N' : Net Q} {φ : Relay.Phase Answer} {l : Label} (h : Following C request context N φ)
    (hkb : context.mKeyboard = some kb) (hs : NetStep C request.mId N l N')
    (hl : l.isAbout request.mId = true) :
    ∃ e ψ, Shows C request kb context.mKeyboardEvent l e ∧ Relay.Step C.k φ e ψ ∧
      Following C request context N' ψ := by
  have hsame := hs.sameRoutes h.traffic
  have hfollowing : ∀ {ψ}, AtPhase C request context N' ψ → Following C request context N' ψ := by
    intro ψ hψ
    refine ⟨hs.traffic h.traffic, h.wired.of_same hsame, ?_, ?_, hψ⟩
    · rw [(hsame 0).1, h.source]
    · rw [(hsame C.k).1, h.target]
  obtain ⟨a, rest, ev, s', out, hcause, -, -, hstep, rfl⟩ := hs.inv h.traffic
  cases hcause with
  | request hflight _ =>
    obtain ⟨answer, ψ, hshows, hmove, hψ⟩ :=
      h.request_step hflight (of_decide_eq_true hl) hstep kb context.mKeyboardEvent
    exact ⟨_, ψ, hshows, hmove, hfollowing hψ⟩
  | response hflight _ =>
    obtain ⟨a, ψ, hshows, hmove, hψ⟩ := h.response_step hkb hflight (of_decide_eq_true hl) hstep
    exact ⟨_, ψ, hshows, hmove, hfollowing hψ⟩
  | outside => cases hl

/-! ## The result -/

/-- While no text about `x` is in flight, no step delivers one. -/
theorem NetStep.not_about {C : Chain} {x : Int} {N N' : Net Q} {l : Label} (h : NetStep C x N l N')
    (ht : Traffic C N) (hnone : N.about x = []) : l.isAbout x = false := by
  obtain ⟨a, rest, ev, s', out, hcause, -, -, -, -⟩ := h.inv ht
  cases hcause with
  | request hflight _ =>
    apply decide_eq_false
    intro hid
    exact (Net.about_taken hflight hid).1 hnone
  | response hflight _ =>
    apply decide_eq_false
    intro hid
    exact (Net.about_taken hflight hid).1 hnone
  | outside => rfl

/-- Before the request is sent, nothing is in flight about it. -/
theorem about_before {C : Chain} {x : Int} {N N' : Net Q} {ls : List Label}
    (hrun : Run (NetStep C x) N ls N') (ht : Traffic C N) (hnone : N.about x = []) (hw : C.Wired N) :
    Traffic C N' ∧ N'.about x = [] ∧ C.Wired N' := by
  refine hrun.invariant (I := fun N => Traffic C N ∧ N.about x = [] ∧ C.Wired N) ?_ ⟨ht, hnone, hw⟩
  rintro N l N' ⟨ht, hnone, hw⟩ hstep
  have hother := (hstep.other ht (hstep.not_about ht hnone)).1
  exact ⟨hstep.traffic ht, hother.trans hnone, hw.of_same (hstep.sameRoutes ht)⟩

/-- **The request is sent**: it is on the first link, and pending at node `0` alone. -/
theorem following_start {C : Chain} {N : Net Q} {env : Env} {msg : KeyboardMessage} {kb : KeyboardPtr}
    {s' : ResourceManager Q} {out : List Action} (ht : Traffic C N) (hw : C.Wired N)
    (hnone : N.about env.rand = []) (hpending : ∀ j ≤ C.k, env.rand ∉ (N.nodes j).mProcessContexts)
    (hcamera : msg.cameraId.mid = (N.nodes C.k).mMatrixId)
    (hsend : processSwitchMessage env (N.nodes 0) msg kb = (.pending, s', out)) :
    out = [.serverSend (C.conn 0) ((N.nodes 0).switchRequest env msg)] ∧
      Following C ((N.nodes 0).switchRequest env msg) ⟨env.rand, kb, msg⟩ (N.act C 0 N.flight s' out)
        (.down 0) := by
  have hstep : Step (N.nodes 0) (⟨env, .localSwitch kb msg⟩, out) s' := by
    show onSwitch env (N.nodes 0) kb msg = .ok (s', out)
    unfold onSwitch
    rw [hsend]
  have hout := processSwitchMessage_outcome env (N.nodes 0) msg kb
  rw [hsend] at hout
  simp only at hout
  have hnew : env.rand ∉ requestIds N.flight := by
    intro hmem
    obtain ⟨i, r, hr, hid⟩ := mem_requestIds.mp hmem
    have habout : .down i r ∈ N.about env.rand := List.mem_filter.mpr ⟨hr, decide_eq_true hid⟩
    rw [hnone] at habout
    cases habout
  have htraffic : Traffic C (N.act C 0 N.flight s' out) :=
    ht.act (Nat.zero_le _) hstep trivial (List.Sublist.refl _) (Or.inl hnew) fun _ _ =>
      ⟨hnew, fun j hj _ => hpending j hj⟩
  have hsame : N.SameRoutes (N.act C 0 N.flight s' out) :=
    Net.sameRoutes_act (hstep.about (C := C) (a := 0) trivial).1 N.flight out
  cases hout with
  | @sent m matrix _ _ haway hmatrix =>
    -- the camera is of another matrix, so the line has a first link
    have hpos : 0 < C.k := by
      rcases Nat.eq_zero_or_pos C.k with hk | hk
      · rw [hk] at hcamera
        exact absurd hcamera haway
      · exact hk
    obtain ⟨m', hm', hfd⟩ := hw.route 0 hpos
    rw [hcamera, hm'] at hmatrix
    cases hmatrix
    rw [hfd] at htraffic hsame ⊢
    refine ⟨rfl, htraffic, hw.of_same hsame, ?_, ?_, ?_⟩
    · exact (hsame 0).1.symm
    · rw [(hsame C.k).1]
      exact hcamera
    · refine .down (Net.about_sent hnone (Chain.send_next hpos _) rfl) ⟨⟨rfl, rfl⟩, rfl, rfl, rfl, rfl, rfl, rfl⟩ ?_
      constructor
      · intro j hj
        by_cases hj0 : j = 0
        · subst hj0
          rw [Net.act_self]
          exact iff_of_true Std.ExtTreeMap.mem_insert_self (le_refl 0)
        · rw [Net.act_ne hj0]
          exact iff_of_false (hpending j hj) (by omega)
      · rw [Net.act_self]
        exact Std.ExtTreeMap.getElem?_insert_self

/-- Any text in flight can be delivered next. -/
theorem Traffic.deliver {C : Chain} {N : Net Q} (ht : Traffic C N) (x : Int) {p : Packet}
    (hp : p ∈ N.flight) : ∃ l N', NetStep C x N l N' ∧ l.isAbout p.id = true := by
  obtain ⟨before, after, hflight⟩ := List.append_of_mem hp
  have hsw := ht.switches p hp
  cases p with
  | down i r =>
    obtain ⟨s', out, hread⟩ := ht.deliverable hp (Env.at 0) (AgentMessage.uninit fun _ => 0)
    exact ⟨_, _, .down hflight (AgentRequest.parse_print hsw _ _) hread, decide_eq_true rfl⟩
  | up i r =>
    obtain ⟨s', out, hread⟩ := ht.deliverable hp (Env.at 0) (AgentResponse.uninit fun _ => 0)
    exact ⟨_, _, .up hflight (AgentResponse.parse_print hsw _ _) hread, decide_eq_true rfl⟩

omit [PriorityQueue Q User] in
/-- One text about the request is in flight, or the answer is home. -/
theorem AtPhase.one_or_done {C : Chain} {request : AgentRequest} {context : ProcessContext} {N : Net Q}
    {φ : Relay.Phase Answer} (h : AtPhase C request context N φ) :
    (∃ p, N.about request.mId = [p]) ∨ ∃ a, φ = .done a := by
  cases h with
  | @down i r habout => exact Or.inl ⟨.down i r, habout⟩
  | @up i a r habout => exact Or.inl ⟨.up i r, habout⟩
  | @done a => exact Or.inr ⟨a, rfl⟩

/-- **The exchange can always be finished.** The text about the request can be delivered until the answer
    is home, and every delivery leaves fewer moves. -/
theorem Following.completes {C : Chain} {request : AgentRequest} {context : ProcessContext} {kb : ℕ}
    {N : Net Q} {φ : Relay.Phase Answer} (h : Following C request context N φ)
    (hkb : context.mKeyboard = some kb) :
    ∃ more N' a, Run (NetStep C request.mId) N more N' ∧ Following C request context N' (.done a) := by
  induction hn : φ.remaining C.k using Nat.strong_induction_on generalizing N φ with
  | _ n ih =>
    rcases h.phase.one_or_done with ⟨p, habout⟩ | ⟨a, rfl⟩
    · have hmem : p ∈ N.about request.mId := by simp [habout]
      obtain ⟨hp, hid⟩ := List.mem_filter.mp hmem
      obtain ⟨l, N₁, hstep, hl⟩ := h.traffic.deliver request.mId hp
      rw [of_decide_eq_true hid] at hl
      obtain ⟨e, ψ, -, hrelay, h₁⟩ := h.step hkb hstep hl
      have hlt := hrelay.remaining_lt
      obtain ⟨more, N', a, hrun, hdone⟩ := ih (ψ.remaining C.k) (by omega) h₁ rfl
      exact ⟨l :: more, N', a, .cons hstep hrun, hdone⟩
    · exact ⟨[], N, a, .nil, h⟩

/-- The text about the request is on a link of the line. -/
theorem Following.on {C : Chain} {request : AgentRequest} {context : ProcessContext} {N : Net Q}
    {φ : Relay.Phase Answer} (h : Following C request context N φ) : φ.On C.k := by
  have hlinks : ∀ p, N.about request.mId = [p] → p.link < C.k := by
    intro p hp
    have hmem : p ∈ N.about request.mId := by simp [hp]
    exact h.traffic.links p (List.mem_of_mem_filter hmem)
  have hphase := h.phase
  cases hphase with
  | down habout => exact hlinks _ habout
  | up habout => exact hlinks _ habout
  | done => trivial

/-- A node the answer has come to has forgotten the request. -/
theorem Following.forgotten {C : Chain} {request : AgentRequest} {context : ProcessContext} {N : Net Q}
    {φ : Relay.Phase Answer} {i : ℕ} {a : Answer} (h : Following C request context N φ) (hi : i < C.k)
    (hpassed : (∃ j < i, φ = .up j a) ∨ φ = .done a) : request.mId ∉ (N.nodes i).mProcessContexts := by
  have hphase := h.phase
  rcases hpassed with ⟨j, hji, rfl⟩ | rfl
  · cases hphase with
    | up _ _ hheld =>
      rw [hheld.pending i hi.le]
      omega
  · cases hphase with
    | done _ hnot => exact hnot i hi.le

omit [PriorityQueue Q User] in
/-- A response about a request that is not pending does nothing. -/
theorem response_ignored {s : ResourceManager Q} {r : AgentResponse} (hsw : r.IsSwitch)
    (hnot : r.mId ∉ s.mProcessContexts) (env : Env) (mem : AgentResponse) (fd : Int) :
    s.readableAtServer env mem fd r.print = .ok (s, []) := by
  rw [readableAtServer_print hsw]
  unfold onServerRxResponse
  rw [show s.mProcessContexts[(r.received mem).mId]? = none from IntMap.getElem?_eq_none_iff.mpr hnot]

/-- **The exchange over a request**, by what the labels of a run show and what is left at its end. -/
structure Exchange (C : Chain) (request : AgentRequest) (kb : ℕ) (event : KeyboardMessage)
    (labels : List Label) (N : Net Q) (tr : List (Relay.Event Answer)) (φ : Relay.Phase Answer) : Prop where
  /-- Every delivery of a message about the request is a move of the relay, and shows it. -/
  shown : List.Forall₂ (Shows C request kb event) (labels.filter (Label.isAbout request.mId)) tr
  moves : Run (Relay.Step C.k) (.down 0) tr φ
  length : tr.length ≤ 2 * C.k
  /-- Until the answer is home, one message about the request is in flight. -/
  inFlight : (∀ a, φ ≠ .done a) → ∃ p, N.about request.mId = [p]
  /-- When it is, it has gone back over the links of the request, each once, and nothing about the request
      is in flight or pending. -/
  home : ∀ a, φ = .done a → (∃ n < C.k, tr = Relay.exchange n a) ∧ N.about request.mId = [] ∧
    ∀ j ≤ C.k, request.mId ∉ (N.nodes j).mProcessContexts
  /-- A node the answer has come to does nothing about a further copy. -/
  copies : ∀ i a, .response i a ∈ tr → ∀ env mem fd (r : AgentResponse), r.IsSwitch →
    r.mId = request.mId → (N.nodes i).readableAtServer env mem fd r.print = .ok (N.nodes i, [])
  /-- No text in flight, about this request or another, faults where it arrives. -/
  deliverable : ∀ p ∈ N.flight, N.Deliverable C p
  /-- What is in flight about the request can be delivered until nothing is left of it. -/
  completes : ∃ more N', Run (NetStep C request.mId) N more N' ∧ N'.about request.mId = [] ∧
    ∀ j ≤ C.k, request.mId ∉ (N'.nodes j).mProcessContexts

/-- **Relay correctness.** The line leads to its last node, its nodes have been reached somehow, and nothing
    is in flight at first. After any traffic about other requests (`before`), node `0` sends a request for a
    camera of the last node, for a keyboard, with an id that is pending nowhere; then whatever happens
    (`after`), the exchange over that request is in order. -/
theorem relay_correct {C : Chain} {N₀ N N' : Net Q} {before after : List Label} {env : Env}
    {msg : KeyboardMessage} {kb : ℕ} {s' : ResourceManager Q} {out : List Action} (hw : C.Wired N₀)
    (hreach : ∀ j ≤ C.k, Reachable (N₀.nodes j)) (hquiet : N₀.flight = [])
    (hbefore : Run (NetStep C env.rand) N₀ before N)
    (hpending : ∀ j ≤ C.k, env.rand ∉ (N.nodes j).mProcessContexts)
    (hcamera : msg.cameraId.mid = (N.nodes C.k).mMatrixId)
    (hsend : processSwitchMessage env (N.nodes 0) msg (some kb) = (.pending, s', out))
    (hafter : Run (NetStep C env.rand) (N.act C 0 N.flight s' out) after N') :
    out = [.serverSend (C.conn 0) ((N.nodes 0).switchRequest env msg)] ∧
      ∃ tr φ, Exchange C ((N.nodes 0).switchRequest env msg) kb msg after N' tr φ := by
  have hnone : N₀.about env.rand = [] := by
    unfold Net.about
    rw [hquiet]
    rfl
  obtain ⟨ht, hnone, hwired⟩ := about_before hbefore (traffic_of_quiet hreach hquiet) hnone hw
  obtain ⟨hout, hstart⟩ := following_start ht hwired hnone hpending hcamera hsend
  let request : AgentRequest := (N.nodes 0).switchRequest env msg
  let context : ProcessContext := ⟨env.rand, some kb, msg⟩
  have hquiet : ∀ (N : Net Q) l N' φ, Following C request context N φ → NetStep C env.rand N l N' →
      Label.isAbout env.rand l = false → Following C request context N' φ :=
    fun _ _ _ _ h hs hl => h.other hs hl
  have hseen : ∀ (N : Net Q) l N' φ, Following C request context N φ → NetStep C env.rand N l N' →
      Label.isAbout env.rand l = true → ∃ e ψ, Shows C request kb msg l e ∧ Relay.Step C.k φ e ψ ∧
        Following C request context N' ψ :=
    fun _ _ _ _ h hs hl => h.step rfl hs hl
  obtain ⟨tr, φ, hshown, hmoves, hend⟩ := hafter.observe hquiet hseen hstart
  refine ⟨hout, tr, φ, ?_⟩
  constructor
  · exact hshown
  · exact hmoves
  · exact Relay.length_le hmoves
  · intro hnot
    rcases hend.phase.one_or_done with hone | ⟨a, rfl⟩
    · exact hone
    · exact absurd rfl (hnot a)
  · rintro a rfl
    refine ⟨Relay.exchange_of_done hmoves, ?_⟩
    have hphase := hend.phase
    cases hphase with
    | done habout hnot => exact ⟨habout, hnot⟩
  · intro i a hi env' mem fd r hsw hid
    obtain ⟨hlt, hpassed⟩ := Relay.passed hmoves hstart.on hi
    have hnot := hend.forgotten hlt hpassed
    exact response_ignored hsw (hid ▸ hnot) env' mem fd
  · exact fun p hp => hend.traffic.deliverable hp
  · obtain ⟨more, N'', a, hrun, hdone⟩ := hend.completes rfl
    have hphase := hdone.phase
    cases hphase with
    | done habout hnot => exact ⟨more, N'', hrun, habout, hnot⟩

/-- Matrix `1` asks for camera `4` of matrix `3`, a child of its child: the request is delivered twice, and so is
    the answer. -/
theorem relay_correct_over_two_links : ∃ (C : Chain) (request : AgentRequest) (event : KeyboardMessage)
    (labels : List Label) (N : Net (List User)) (tr : List (Relay.Event Answer)) (a : Answer),
    C.k = 2 ∧ labels.length = 4 ∧ Exchange C request 5 event labels N tr (.done a) := by
  let register (mid num : Int) : AgentRequest :=
    ⟨0, mid, 0, .request, .register, 0, fun i => if i = 0 then 60 else if i = 1 then num else 3⟩
  let start : ResourceManager (List User) := configured 0 1 0 [] [1] [(1, 2)]
  let parent : ResourceManager (List User) :=
    { start with mChildMatrixs := start.mChildMatrixs.insert 2 ((MatrixInfo.new 2 7).addChild 3) }
  let between : ResourceManager (List User) := configured 0 2 1 [] [1] [(1, 2)]
  let middle : ResourceManager (List User) :=
    { between with mChildMatrixs := between.mChildMatrixs.insert 3 (MatrixInfo.new 3 7) }
  let child : ResourceManager (List User) := configured 0 3 1 [4] [] [(1, 2)]
  let N₀ : Net (List User) := ⟨fun i => if i = 0 then parent else if i = 1 then middle else child, []⟩
  let C : Chain := ⟨2, fun _ => 7⟩
  let msg : KeyboardMessage :=
    { KeyboardMessage.new with type := .switch, keyboardId := 3, cameraId := ⟨3, 4⟩, monitorId := 1 }
  let env : Env := { Env.at 100 with rand := 77 }
  have hnodes : ∀ j ≤ C.k, j = 0 ∨ j = 1 ∨ j = 2 := by
    intro j hj
    have hj' : j ≤ 2 := hj
    omega
  have hstart : Initial start := configured_initial (List.cons_ne_nil _ _)
  have hbetween : Initial between := configured_initial (List.cons_ne_nil _ _)
  have hnew : Initial child := configured_initial (List.cons_ne_nil _ _)
  have hparent : Reachable parent :=
    hstart.reachable.run (run_of_exec [⟨Env.at 0, .register 7 (register 2 1)⟩] rfl)
  have hmiddle : Reachable middle :=
    hbetween.reachable.run (run_of_exec [⟨Env.at 0, .register 7 (register 3 0)⟩] rfl)
  have hwired : C.Wired N₀ := by
    constructor
    · intro i j hi hj hid
      rcases hnodes i hi with rfl | rfl | rfl <;> rcases hnodes j hj with rfl | rfl | rfl
      · rfl
      · cases hid
      · cases hid
      · cases hid
      · rfl
      · cases hid
      · cases hid
      · cases hid
      · rfl
    · intro i hi
      have hi' : i = 0 ∨ i = 1 := by
        have hlt : i < 2 := hi
        omega
      rcases hi' with rfl | rfl
      · exact ⟨(MatrixInfo.new 2 7).addChild 3, rfl, rfl⟩
      · exact ⟨MatrixInfo.new 3 7, rfl, rfl⟩
  have hreach : ∀ j ≤ C.k, Reachable (N₀.nodes j) := by
    intro j hj
    rcases hnodes j hj with rfl | rfl | rfl
    · exact hparent
    · exact hmiddle
    · exact hnew.reachable
  have hpending : ∀ j ≤ C.k, env.rand ∉ (N₀.nodes j).mProcessContexts := by
    intro j hj
    rcases hnodes j hj with rfl | rfl | rfl
    · exact Std.ExtTreeMap.not_mem_empty
    · exact Std.ExtTreeMap.not_mem_empty
    · exact Std.ExtTreeMap.not_mem_empty
  obtain ⟨-, tr, φ, hex⟩ := @relay_correct (List User) _ C N₀ N₀ _ [] _ env msg 5 _ _ hwired hreach rfl .nil
    hpending rfl rfl
    (.cons (@NetStep.down (List User) _ C 77 _ 0 _ [] [] (Env.at 101) (AgentMessage.uninit fun _ => 0) _ _ _ rfl
        (AgentRequest.parse_print ⟨rfl, rfl⟩ _ _) ((readableAtClient_print ⟨rfl, rfl⟩ _ _ middle).trans rfl))
      (.cons (@NetStep.down (List User) _ C 77 _ 1 _ [] [] (Env.at 102) (AgentMessage.uninit fun _ => 0) _ _ _ rfl
        (AgentRequest.parse_print ⟨rfl, rfl⟩ _ _) ((readableAtClient_print ⟨rfl, rfl⟩ _ _ child).trans rfl))
      (.cons (@NetStep.up (List User) _ C 77 _ 1 _ [] [] (Env.at 103) (AgentResponse.uninit fun _ => 0) _ _ _ rfl
        (AgentResponse.parse_print ⟨rfl, rfl⟩ _ _) ((readableAtServer_print ⟨rfl, rfl⟩ _ _ _ _).trans rfl))
      (.single (@NetStep.up (List User) _ C 77 _ 0 _ [] [] (Env.at 104) (AgentResponse.uninit fun _ => 0) _ _ _ rfl
        (AgentResponse.parse_print ⟨rfl, rfl⟩ _ _) ((readableAtServer_print ⟨rfl, rfl⟩ _ _ _ _).trans rfl))))))
  -- nothing about the request is in flight in the end, so the answer is home
  have hdone : ∃ a, φ = .done a := by
    by_contra hnot
    obtain ⟨p, hp⟩ := hex.inFlight fun a ha => hnot ⟨a, ha⟩
    have hnil : [] = [p] := hp
    cases hnil
  obtain ⟨a, rfl⟩ := hdone
  exact ⟨_, _, _, _, _, tr, a, rfl, rfl, hex⟩

end Mcc
