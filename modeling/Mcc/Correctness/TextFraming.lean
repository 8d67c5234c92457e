import Mcc.Correctness.TextLength

/-!
# `Correctness.TextFraming` — the agents' messages over a byte stream

An agent takes whatever one `recv` returned for the text of one message. TinyXML is asked for the first
element of it and the rest is dropped; nothing is kept for the next call. So the messages sent are the
messages handed over when every `recv` returns exactly one text, and on the strength of what TinyXML
documents, in no other case.

## Contents
- **One text.** `Message.handsOver_print`: what is handed over for a text that holds one message, if the log has
  room for it.
- **The stream.** `Framed`, `Aligned`; `framed_of_aligned` and `aligned_of_framed`.
- **The main result.** `stream_framing`, and two texts in one chunk.
-/

namespace Mcc

open Xml

/-! ## One text -/

/-- A document is parsed through its root. -/
theorem AgentRequest.parse_congr {doc doc' : Document} (h : rootElement doc = rootElement doc')
    (mem : AgentRequest) (junk : ℕ → Int) :
    AgentRequest.parse mem junk doc = AgentRequest.parse mem junk doc' := by
  unfold AgentRequest.parse
  rw [h]

theorem AgentResponse.parse_congr {doc doc' : Document} (h : rootElement doc = rootElement doc')
    (mem : AgentResponse) (junk : ℕ → Int) :
    AgentResponse.parse mem junk doc = AgentResponse.parse mem junk doc' := by
  unfold AgentResponse.parse
  rw [h]

theorem Agent.hand_congr {doc doc' : Document} (h : rootElement doc = rootElement doc') (a : Agent)
    (c : Chunk) : a.hand c doc = a.hand c doc' := by
  cases a with
  | server =>
    show Agent.serverHand c doc = Agent.serverHand c doc'
    unfold Agent.serverHand
    rw [AgentResponse.parse_congr h]
    simp only [AgentRequest.parse_congr h]
  | client =>
    show Agent.clientHand c doc = Agent.clientHand c doc'
    unfold Agent.clientHand
    rw [AgentRequest.parse_congr h]
    simp only [AgentResponse.parse_congr h]

/-- The two kinds of message are told apart by the root's `type`. -/
theorem parseHeader_wrong_type (m : AgentMessage) (kind : MessageType) (children : List Node)
    (htype : MessageType.ofInt m.mType.toInt ≠ kind) (mem : AgentMessage) :
    ∃ m', parseHeader kind (root m children) mem = .error (.fail m') := by
  have htype' : (root m children).Holds "type" m.mType.toInt := Element.holds_decimal rfl
  unfold parseHeader
  simp only [htype'.attrInt, orFail_some, ok_bind]
  rw [if_pos htype]
  exact ⟨_, rfl⟩

/-- A request is no response, and its text has no reason. -/
theorem AgentResponse.parse_request {m : AgentRequest} (h : m.Sendable) (mem : AgentResponse)
    (junk : ℕ → Int) :
    ∃ m', AgentResponse.parse mem junk (AgentRequest.print m) = .ok (false, m') ∧ m'.mReason = mem.mReason := by
  have hroot : ∃ children, rootElement (AgentRequest.print m) = some (root m children) := by
    unfold AgentRequest.print
    rcases h.method with hm | hm | hm
    · rw [hm]
      exact ⟨_, rfl⟩
    · rw [hm]
      exact ⟨_, rfl⟩
    · rw [hm]
      exact ⟨_, rfl⟩
  obtain ⟨children, hroot⟩ := hroot
  obtain ⟨m', hheader⟩ := parseHeader_wrong_type m .response children
    (by rw [h.type]; decide) mem.toAgentMessage
  unfold AgentResponse.parse
  simp only [hroot, hheader]
  exact ⟨_, rfl, rfl⟩

/-- A response is no request. -/
theorem AgentRequest.parse_response {m : AgentResponse} (h : m.mType = .response) (mem : AgentRequest)
    (junk : ℕ → Int) : ∃ m', AgentRequest.parse mem junk m.print = .ok (false, m') := by
  obtain ⟨m', hheader⟩ := parseHeader_wrong_type m.toAgentMessage .request
    (.element "Status" [("code", decimal m.mStatusCode), ("reason", m.mReason.toList)] [] ::
      if m.mMethod = .switch then [intLeaf "Connection" [("outport", m.mContent.swiOutport)]] else [])
    (by rw [h]; decide) mem
  have hroot : rootElement m.print = some (root m.toAgentMessage _) := rfl
  unfold AgentRequest.parse
  simp only [hroot, hheader]
  exact ⟨_, rfl⟩

namespace Message

/-- What the builders make. -/
def Valid : Message → Prop
  | request m => m.Sendable
  | response m => m.Built

/-- What an agent's parser gives back: a request in any case; a response whose reason does not start with a
    number other than the initiator, and at the server one about a `SWITCH`. -/
def Readable : Agent → Message → Prop
  | _, request _ => True
  | .server, response m => m.mMethod = .switch ∧ ∀ n, scanInt m.mReason.toList = some n → n = m.mInitiatorId
  | .client, response m => ∀ n, scanInt m.mReason.toList = some n → n = m.mInitiatorId

end Message

/-- The two say the same. -/
def Message.Same : Message → Message → Prop
  | request m, request m' => m.SameRequest m'
  | response m, response m' => m.SameResponse m'
  | _, _ => False

/-- The message a handler is called with. -/
def Handed.message : Handed → Message
  | onServerRxResponse response => .response response
  | onRegister request => .request request
  | onServerRxRequest request => .request request
  | onClientRxRequest request => .request request
  | onClientRxResponse response => .response response

/-- The call hands over that message. -/
def Handed.Is (h : Handed) (m : Message) : Prop := m.Same h.message

namespace Message

/-- What is handed over for the text of a valid message: the message, if it is readable, and never one that
    is not. -/
def Gives (a : Agent) (m : Message) (h : Handed) : Prop :=
  (m.Readable a → h.Is m) ∧ ∀ m₂ : Message, h.Is m₂ → m₂.Readable a

theorem gives_request {a : Agent} {m q : AgentRequest} {h : Handed} (hmessage : h.message = request q)
    (hsame : m.SameRequest q) : Gives a (request m) h := by
  unfold Gives Handed.Is
  rw [hmessage]
  refine ⟨fun _ => hsame, ?_⟩
  intro m₂ his
  cases m₂ with
  | request m₂ => cases a <;> trivial
  | response m₂ => exact his.elim

/-- What a reader of responses makes of the initiator. -/
theorem initiator_read {m m₂ r : AgentResponse} (h : m₂.SameResponse r) (hreason : r.mReason = m.mReason)
    (hinit : r.mInitiatorId = (scanInt m.mReason.toList).getD m.mInitiatorId) :
    ∀ n, scanInt m₂.mReason.toList = some n → n = m₂.mInitiatorId := by
  intro n hn
  rw [← h.reason, hreason] at hn
  rw [← h.initiator, hinit, hn, Option.getD_some]

theorem same_of_read {m r : AgentResponse} (h : ∀ n, scanInt m.mReason.toList = some n → n = m.mInitiatorId)
    (htype : r.mType = m.mType) (hmethod : r.mMethod = m.mMethod) (hid : r.mId = m.mId)
    (hfrom : r.mFrom = m.mFrom) (hto : r.mTo = m.mTo) (hcode : r.mStatusCode = m.mStatusCode)
    (hreason : r.mReason = m.mReason)
    (hinit : r.mInitiatorId = (scanInt m.mReason.toList).getD m.mInitiatorId)
    (hport : m.mMethod = .switch → r.mContent.swiOutport = m.mContent.swiOutport) : m.SameResponse r := by
  refine ⟨htype, hmethod, hid, hfrom, hto, ?_, hcode, hreason, hport⟩
  rw [hinit]
  cases hscan : scanInt m.mReason.toList with
  | none => rfl
  | some n => exact h n hscan

/-- The root's start tag says what the header does. -/
theorem headText_congr {m m₂ : AgentMessage} (htype : m.mType = m₂.mType) (hmethod : m.mMethod = m₂.mMethod)
    (hid : m.mId = m₂.mId) (hfrom : m.mFrom = m₂.mFrom) (hto : m.mTo = m₂.mTo)
    (hinit : m.mInitiatorId = m₂.mInitiatorId) : headText m = headText m₂ := by
  unfold headText
  rw [htype, hmethod, hid, hfrom, hto, hinit]

/-- Requests that read the same were written the same. -/
theorem text_eq_of_sameRequest {m m₂ q : AgentRequest} (h : m.SameRequest q) (h₂ : m₂.SameRequest q) :
    AgentRequest.text m = AgentRequest.text m₂ := by
  have hmethod : m₂.mMethod = m.mMethod := h₂.method.symm.trans h.method
  have hhead : headText m = headText m₂ :=
    headText_congr (h.type.symm.trans h₂.type) hmethod.symm (h.id.symm.trans h₂.id)
      (h.source.symm.trans h₂.source) (h.target.symm.trans h₂.target) (h.initiator.symm.trans h₂.initiator)
  unfold AgentRequest.text
  rw [hmethod, hhead]
  cases hm : m.mMethod with
  | register =>
    obtain ⟨hexpire, hnum, hchildren⟩ := h.register hm
    obtain ⟨hexpire₂, hnum₂, hchildren₂⟩ := h₂.register (hmethod.trans hm)
    have hitems : ∀ m : AgentRequest, ((List.range m.mContent.regChildrenNum.toNat).flatMap fun i =>
        "<Item id=\"".toList ++ decimal (m.mContent.regChild i) ++ "\"/>\r\n".toList) =
        m.children.flatMap fun id => "<Item id=\"".toList ++ decimal id ++ "\"/>\r\n".toList := by
      intro m
      unfold AgentMessage.children
      rw [List.flatMap_map]
    simp only [hitems, ← hexpire, ← hexpire₂, ← hchildren, ← hchildren₂]
  | switch =>
    obtain ⟨hu, hc⟩ := h.switch hm
    obtain ⟨hu₂, hc₂⟩ := h₂.switch (hmethod.trans hm)
    simp only [← hu, ← hc, ← hu₂, ← hc₂]
  | ptz =>
    obtain ⟨hu, hc, hd, ha⟩ := h.ptz hm
    obtain ⟨hu₂, hc₂, hd₂, ha₂⟩ := h₂.ptz (hmethod.trans hm)
    simp only [← hu, ← hc, ← hd, ← ha, ← hu₂, ← hc₂, ← hd₂, ← ha₂]
  | other n => rfl

theorem text_eq_of_sameResponse {m m₂ r : AgentResponse} (h : m.SameResponse r) (h₂ : m₂.SameResponse r) :
    m.text = m₂.text := by
  have hmethod : m₂.mMethod = m.mMethod := h₂.method.symm.trans h.method
  have hhead : headText m.toAgentMessage = headText m₂.toAgentMessage :=
    headText_congr (h.type.symm.trans h₂.type) hmethod.symm (h.id.symm.trans h₂.id)
      (h.source.symm.trans h₂.source) (h.target.symm.trans h₂.target) (h.initiator.symm.trans h₂.initiator)
  unfold AgentResponse.text
  rw [hhead, hmethod, ← h.statuscode, ← h.reason, ← h₂.statuscode, ← h₂.reason]
  by_cases hm : m.mMethod = .switch
  · rw [if_pos hm, if_pos hm, ← h.switch hm, ← h₂.switch (hmethod.trans hm)]
  · rw [if_neg hm, if_neg hm]

/-! ### The log of a message -/

/-- What an agent prints of a message before it calls a handler fits the log's buffer: a response at either end, a
    request at the client. What the server prints of a request is a response without a reason. -/
def LogFits : Agent → Message → Prop
  | .server, request _ => True
  | .client, request m => size (AgentRequest.text m.asInts) < obufSize
  | _, response m => size m.asInts.text < obufSize

/-- Where the fields are `int`s, that is a bound on what was sent. -/
theorem logFits_request {m : AgentRequest} (h : m.Ints) : LogFits .client (request m) ↔ FitsObuf (request m) := by
  show size (AgentRequest.text m.asInts) < obufSize ↔ _
  rw [AgentMessage.asInts_eq h]
  exact Iff.rfl

/-- Of a response either agent prints the text. -/
theorem logFits_response_iff {a : Agent} {m : AgentResponse} :
    LogFits a (response m) ↔ size m.asInts.text < obufSize := by
  cases a with
  | server => exact Iff.rfl
  | client => exact Iff.rfl

/-- The ids of the children are printed as `int`s. -/
theorem children_asInts {m : AgentRequest} (h : 0 ≤ m.mContent.regChildrenNum ∧
    m.mContent.regChildrenNum ≤ maxChildrenNum) : m.asInts.children = m.children.map asInt := by
  have hnum : asInt m.mContent.regChildrenNum = m.mContent.regChildrenNum := by
    obtain ⟨hnum, hle⟩ := h
    unfold maxChildrenNum at hle
    apply asInt_eq
    unfold IsInt
    omega
  have hcount : m.asInts.mContent.regChildrenNum = m.mContent.regChildrenNum := hnum
  unfold AgentMessage.children
  rw [hcount, List.map_map]
  rfl

/-- Requests that say the same are printed the same. -/
theorem log_eq_of_sameRequest {m q : AgentRequest} (hvalid : m.Sendable) (h : m.SameRequest q) :
    AgentRequest.text m.asInts = AgentRequest.text q.asInts := by
  have hmethod : ∀ {p : AgentRequest} {known : MessageMethod}, (∀ n, known ≠ .other n) →
      p.asInts.mMethod = known → p.mMethod = known := fun hknown hp => MessageMethod.eq_of_asInt hp hknown
  have hsame : m.asInts.SameRequest q.asInts := by
    refine ⟨congrArg MessageType.asInt h.type, congrArg MessageMethod.asInt h.method, congrArg asInt h.id,
      congrArg asInt h.source, congrArg asInt h.target, congrArg asInt h.initiator, ?_, ?_, ?_⟩
    · intro hreg
      have hm := hmethod (fun n hn => by cases hn) hreg
      obtain ⟨hexpire, hnum, hchildren⟩ := h.register hm
      have hrange := hvalid.children hm
      refine ⟨congrArg asInt hexpire, congrArg asInt hnum, ?_⟩
      rw [children_asInts hrange, children_asInts (by rwa [hnum]), hchildren]
    · intro hswitch
      obtain ⟨hu, hc⟩ := h.switch (hmethod (fun n hn => by cases hn) hswitch)
      exact ⟨congrArg asInt hu, congrArg asInt hc⟩
    · intro hptz
      obtain ⟨hu, hc, hd, ha⟩ := h.ptz (hmethod (fun n hn => by cases hn) hptz)
      exact ⟨congrArg asInt hu, congrArg asInt hc, congrArg asInt hd, congrArg asInt ha⟩
  exact text_eq_of_sameRequest hsame ⟨rfl, rfl, rfl, rfl, rfl, rfl, fun _ => ⟨rfl, rfl, rfl⟩, fun _ => ⟨rfl, rfl⟩,
    fun _ => ⟨rfl, rfl, rfl, rfl⟩⟩

/-- Responses that agree as far as they are printed are printed alike. -/
theorem log_eq_of_sameResponse {m r : AgentResponse} (h : m.SameResponse r) : m.asInts.text = r.asInts.text := by
  have hsame : m.asInts.SameResponse r.asInts := by
    refine ⟨congrArg MessageType.asInt h.type, congrArg MessageMethod.asInt h.method, congrArg asInt h.id,
      congrArg asInt h.source, congrArg asInt h.target, congrArg asInt h.initiator, congrArg asInt h.statuscode,
      h.reason, ?_⟩
    intro hswitch
    exact congrArg asInt (h.switch (MessageMethod.eq_of_asInt hswitch fun n hn => by cases hn))
  exact text_eq_of_sameResponse hsame ⟨rfl, rfl, rfl, rfl, rfl, rfl, rfl, rfl, fun _ => rfl⟩

/-! ### What is handed over -/

/-- What comes of a text that holds `m`: nothing is handed over but what the message gives, and for a readable
    message something is, exactly if the log has room for it. -/
structure HandsOver (a : Agent) (m : Message) (x : Except Fault Handed) : Prop where
  gives : ∀ h, x = .ok h → Gives a m h
  fits : m.Readable a → ((∃ h, x = .ok h) ↔ LogFits a m)

theorem handsOver_of_ok {a : Agent} {m : Message} {h : Handed} (hgives : Gives a m h) (hfits : LogFits a m) :
    HandsOver a m (.ok h) := by
  refine ⟨?_, fun _ => iff_of_true ⟨h, rfl⟩ hfits⟩
  intro h' hh'
  cases hh'
  exact hgives

/-- The log is written, and the handler called. -/
theorem handsOver_of_log {a : Agent} {m : Message} {h : Handed} {n : ℕ} (hgives : Gives a m h)
    (hfits : m.Readable a → (n < obufSize ↔ LogFits a m)) :
    HandsOver a m (if n < obufSize then .ok h else .error .outOfBounds) := by
  by_cases hn : n < obufSize
  · rw [if_pos hn]
    refine ⟨?_, fun hread => iff_of_true ⟨h, rfl⟩ ((hfits hread).mp hn)⟩
    intro h' hh'
    cases hh'
    exact hgives
  · rw [if_neg hn]
    refine ⟨fun h' hh' => (by cases hh'), fun hread => iff_of_false ?_ fun hfit => hn ((hfits hread).mpr hfit)⟩
    rintro ⟨h', hh'⟩
    cases hh'

theorem log_bind {n : ℕ} {α : Type} (a : α) :
    ((if n < obufSize then .ok () else .error .outOfBounds : Except Fault Unit) >>= fun _ => .ok a) =
      if n < obufSize then .ok a else .error .outOfBounds := by
  by_cases hn : n < obufSize
  · rw [if_pos hn, if_pos hn]
    rfl
  · rw [if_neg hn, if_neg hn]
    rfl

/-- A request is handed over at either end, whole. -/
theorem hand_request {m : AgentRequest} (hvalid : m.Sendable) (a : Agent) (c : Chunk) :
    HandsOver a (request m) (a.hand c (AgentRequest.print m)) := by
  cases a with
  | server =>
    obtain ⟨bad, hbad, hreason⟩ := AgentResponse.parse_request hvalid { c.mem with mReason := "" } c.env.junk
    obtain ⟨m', hparse, hsame⟩ :=
      AgentRequest.round_trip hvalid (AgentMessage.uninit c.env.junk) c.env.junk
    have hlog : bad.log = .ok () := by
      apply AgentResponse.log_ok
      rw [hreason]
      exact Nat.zero_le 64
    show HandsOver .server (request m) (Agent.serverHand c (AgentRequest.print m))
    unfold Agent.serverHand
    simp only [hbad, hparse, hlog, ok_bind]
    by_cases hreg : m'.mMethod = .register
    · rw [if_pos hreg]
      exact handsOver_of_ok (gives_request rfl hsame) trivial
    · rw [if_neg hreg]
      exact handsOver_of_ok (gives_request rfl hsame) trivial
  | client =>
    obtain ⟨m', hparse, hsame⟩ := AgentRequest.round_trip hvalid c.mem.toAgentMessage c.env.junk
    have hknown : m'.mMethod = .register ∨ m'.mMethod = .switch ∨ m'.mMethod = .ptz := by
      rw [hsame.method]
      exact hvalid.method
    show HandsOver .client (request m) (Agent.clientHand c (AgentRequest.print m))
    unfold Agent.clientHand
    simp only [hparse, ok_bind, if_true, AgentRequest.log_eq hknown]
    have hhand := handsOver_of_log (n := size (AgentRequest.text m'.asInts)) (a := .client)
      (gives_request (h := .onClientRxRequest m') rfl hsame) fun _ => by
        rw [← log_eq_of_sameRequest hvalid hsame]
        exact Iff.rfl
    rw [← log_bind] at hhand
    exact hhand

/-- A response is handed over at the server as it reads, one about a `PTZ` as something else. -/
theorem serverHand_response {m : AgentResponse} (hvalid : m.Built) (c : Chunk) :
    HandsOver .server (response m) (Agent.serverHand c m.print) := by
  rcases hvalid.method with hm | hm
  · have hsame : Readable .server (response m) → m.SameResponse (m.received { c.mem with mReason := "" }) := by
      rintro ⟨-, hreason⟩
      exact same_of_read hreason rfl rfl rfl rfl rfl rfl rfl rfl fun _ => m.received_swiOutport _
    have hgives : Gives .server (response m) (.onServerRxResponse (m.received { c.mem with mReason := "" })) := by
      refine ⟨hsame, ?_⟩
      intro m₂ his
      cases m₂ with
      | request m₂ => exact his.elim
      | response m₂ => exact ⟨his.method.symm.trans hm, initiator_read (m := m) his rfl rfl⟩
    unfold Agent.serverHand
    simp only [AgentResponse.parse_print ⟨hvalid.type, hm⟩, ok_bind, if_true]
    have hhand := handsOver_of_log (n := size (m.received { c.mem with mReason := "" }).asInts.text) hgives
      fun hread => by
        rw [← log_eq_of_sameResponse (hsame hread)]
        exact Iff.rfl
    rw [← log_bind] at hhand
    exact hhand
  · obtain ⟨bad, hbad⟩ :=
      AgentRequest.parse_response hvalid.type (AgentMessage.uninit c.env.junk) c.env.junk
    have hunread : ¬ Readable .server (response m) := by
      rintro ⟨hswitch, -⟩
      rw [hm] at hswitch
      cases hswitch
    have hno : ∀ h : Handed, (∀ m₂, h.Is (response m₂) → False) → Gives .server (response m) h := by
      intro h hnot
      refine ⟨fun hread => absurd hread hunread, ?_⟩
      intro m₂ his
      cases m₂ with
      | request m₂ => trivial
      | response m₂ => exact (hnot m₂ his).elim
    refine ⟨?_, fun hread => absurd hread hunread⟩
    intro h hh
    unfold Agent.serverHand at hh
    simp only [AgentResponse.parse_print_ptz hvalid.type hm, hbad, ok_bind, Bool.false_eq_true, if_false] at hh
    obtain ⟨_, -, hh⟩ := bind_eq_ok hh
    by_cases hreg : bad.mMethod = .register
    · rw [if_pos hreg] at hh
      cases hh
      exact hno _ fun _ his => his
    · rw [if_neg hreg] at hh
      cases hh
      exact hno _ fun _ his => his

/-- The client hands a response over whatever its parse said. -/
theorem clientHand_response {m : AgentResponse} (hvalid : m.Built) (c : Chunk) :
    HandsOver .client (response m) (Agent.clientHand c m.print) := by
  obtain ⟨bad, hbad⟩ := AgentRequest.parse_response hvalid.type c.mem.toAgentMessage c.env.junk
  have hread : ∃ valid r, AgentResponse.parse (AgentResponse.uninit c.env.junk) c.env.junk m.print =
      .ok (valid, r) ∧ r.mReason = m.mReason ∧
      r.mInitiatorId = (scanInt m.mReason.toList).getD m.mInitiatorId ∧
      (Readable .client (response m) → m.SameResponse r) := by
    rcases hvalid.method with hm | hm
    · refine ⟨true, _, AgentResponse.parse_print ⟨hvalid.type, hm⟩ _ _, rfl, rfl, ?_⟩
      intro hreason
      exact same_of_read hreason rfl rfl rfl rfl rfl rfl rfl rfl
        fun _ => m.received_swiOutport (AgentResponse.uninit c.env.junk)
    · refine ⟨false, _, AgentResponse.parse_print_ptz hvalid.type hm _ _, rfl, rfl, ?_⟩
      intro hreason
      refine same_of_read hreason rfl rfl rfl rfl rfl rfl rfl rfl ?_
      intro hswitch
      rw [hm] at hswitch
      cases hswitch
  obtain ⟨valid, r, hparse, hreason, hinit, hsame⟩ := hread
  have hgives : Gives .client (response m) (.onClientRxResponse r) := by
    refine ⟨hsame, ?_⟩
    intro m₂ his
    cases m₂ with
    | request m₂ => exact his.elim
    | response m₂ => exact initiator_read his hreason hinit
  unfold Agent.clientHand
  simp only [hbad, hparse, ok_bind, Bool.false_eq_true, if_false]
  have hhand := handsOver_of_log (n := size r.asInts.text) hgives fun hread => by
    rw [← log_eq_of_sameResponse (hsame hread)]
    exact Iff.rfl
  rw [← log_bind] at hhand
  exact hhand

/-- **One text.** A valid message's document is handed over: as the message, if it is readable and not too long for
    the log. -/
theorem handsOver_print {m : Message} (hvalid : m.Valid) (a : Agent) (c : Chunk) :
    HandsOver a m (a.hand c m.print) := by
  cases m with
  | request m => exact hand_request hvalid a c
  | response m =>
    cases a with
    | server => exact serverHand_response hvalid c
    | client => exact clientHand_response hvalid c

/-- Messages that say what was handed over were written the same. -/
theorem bytes_eq {h : Handed} {m m₂ : Message} (his : h.Is m) (his₂ : h.Is m₂) : m.bytes = m₂.bytes := by
  have htext : m.text = m₂.text := by
    unfold Handed.Is at his his₂
    cases hx : h.message with
    | request q =>
      rw [hx] at his his₂
      cases m with
      | request m =>
        cases m₂ with
        | request m₂ => exact text_eq_of_sameRequest his his₂
        | response m₂ => exact his₂.elim
      | response m => exact his.elim
    | response r =>
      rw [hx] at his his₂
      cases m with
      | request m => exact his.elim
      | response m =>
        cases m₂ with
        | request m₂ => exact his₂.elim
        | response m₂ => exact text_eq_of_sameResponse his his₂
  unfold bytes
  rw [htext]

/-- Messages that one text carries are printed alike where they are logged. -/
theorem logFits_of_is {a : Agent} {h : Handed} {m m₂ : Message} (hvalid : m.Valid) (hvalid₂ : m₂.Valid)
    (his : h.Is m) (his₂ : h.Is m₂) (hfits : LogFits a m) : LogFits a m₂ := by
  unfold Handed.Is at his his₂
  cases hx : h.message with
  | request q =>
    rw [hx] at his his₂
    cases m with
    | response m => exact his.elim
    | request m =>
      cases m₂ with
      | response m₂ => exact his₂.elim
      | request m₂ =>
        cases a with
        | server => trivial
        | client =>
          show size (AgentRequest.text m₂.asInts) < obufSize
          rw [log_eq_of_sameRequest hvalid₂ his₂, ← log_eq_of_sameRequest hvalid his]
          exact hfits
  | response r =>
    rw [hx] at his his₂
    cases m with
    | request m => exact his.elim
    | response m =>
      cases m₂ with
      | request m₂ => exact his₂.elim
      | response m₂ =>
        rw [logFits_response_iff] at hfits ⊢
        rwa [log_eq_of_sameResponse his₂, ← log_eq_of_sameResponse his]

theorem append_cons {t : Text} (h : ∃ rest, t = '<' :: rest) (s : Text) : ∃ rest, t ++ s = '<' :: rest := by
  obtain ⟨rest, rfl⟩ := h
  exact ⟨rest ++ s, rfl⟩

/-- The first byte of a text is the bracket of its declaration. -/
theorem bytes_cons {m : Message} (h : m.Valid) : ∃ rest, m.bytes = 0x3c :: rest := by
  have htext : ∃ rest, m.text = '<' :: rest := by
    cases m with
    | request m =>
      show ∃ rest, AgentRequest.text m = '<' :: rest
      unfold AgentRequest.text
      rcases h.method with hm | hm | hm
      · rw [hm]
        repeat' apply append_cons
        exact ⟨_, rfl⟩
      · rw [hm]
        repeat' apply append_cons
        exact ⟨_, rfl⟩
      · rw [hm]
        repeat' apply append_cons
        exact ⟨_, rfl⟩
    | response m =>
      show ∃ rest, m.text = '<' :: rest
      unfold AgentResponse.text
      repeat' apply append_cons
      exact ⟨_, rfl⟩
  obtain ⟨rest, hrest⟩ := htext
  refine ⟨rest.flatMap String.utf8EncodeChar, ?_⟩
  unfold bytes
  rw [hrest, List.flatMap_cons]
  rfl

end Message

/-! ## The stream -/

/-- What TinyXML documents, for these messages: `RootElement` is the first element at the top level, whatever
    follows it. (A reason is written without escapes: one that holds a quote is not a message here.) -/
def FirstElement (tinyxml : List UInt8 → Document) (messages : List Message) : Prop :=
  ∀ m ∈ messages, ∀ rest, rootElement (tinyxml (m.bytes ++ rest)) = rootElement m.print

/-- The messages handed over are these, in this order, and no terminator fell outside the buffer. -/
def Framed (tinyxml : List UInt8 → Document) (a : Agent) (messages : List Message) (chunks : List Chunk) :
    Prop :=
  ∃ handed, a.readAll tinyxml chunks = .ok handed ∧ List.Forall₂ (fun h m => h.Is m) handed messages

/-- Every chunk is the text of one message and leaves room for the terminator, and every message is
    readable and short enough for the log. -/
structure Aligned (a : Agent) (messages : List Message) (chunks : List Chunk) : Prop where
  texts : chunks.map Chunk.data = messages.map Message.bytes
  room : ∀ c ∈ chunks, c.data.length < recvSize
  readable : ∀ m ∈ messages, m.Readable a
  logged : ∀ m ∈ messages, m.LogFits a

/-- The chunks that handed something over, each with what it was. -/
theorem Agent.readAll_ok {tinyxml : List UInt8 → Document} {a : Agent} {chunks : List Chunk} :
    ∀ {handed : List Handed}, a.readAll tinyxml chunks = .ok handed →
      ∃ part : List Chunk, part.Sublist chunks ∧
        List.Forall₂ (fun c x => c.data.length < recvSize ∧ a.hand c (tinyxml c.data) = .ok x) part handed := by
  induction chunks with
  | nil =>
    intro handed h
    cases h
    exact ⟨[], .slnil, .nil⟩
  | cons c chunks ih =>
    intro handed h
    unfold Agent.readAll at h
    obtain ⟨first, hfirst, h⟩ := bind_eq_ok h
    obtain ⟨rest, hrest, h⟩ := bind_eq_ok h
    cases h
    obtain ⟨part, hsub, hpart⟩ := ih hrest
    obtain ⟨-, rfl⟩ | ⟨-, -, hroom, x, hx, rfl⟩ := Agent.onReadable_eq_ok_iff.mp hfirst
    · exact ⟨part, hsub.cons c, hpart⟩
    · exact ⟨c :: part, hsub.cons_cons c, .cons ⟨hroom, hx⟩ hpart⟩

/-- **Enough.** One text in each chunk. -/
theorem framed_of_aligned {tinyxml : List UInt8 → Document} {a : Agent} {messages : List Message}
    (hdoc : FirstElement tinyxml messages) (hvalid : ∀ m ∈ messages, m.Valid) :
    ∀ {chunks : List Chunk}, Aligned a messages chunks → Framed tinyxml a messages chunks := by
  induction messages with
  | nil =>
    intro chunks h
    rw [List.map_eq_nil_iff.mp h.texts]
    exact ⟨[], rfl, .nil⟩
  | cons m messages ih =>
    intro chunks h
    cases chunks with
    | nil => cases h.texts
    | cons c chunks =>
      obtain ⟨hc, htexts⟩ := List.cons.inj h.texts
      have hm : m ∈ m :: messages := List.mem_cons_self
      obtain ⟨handed, hread, hforall⟩ := ih (fun x hx => hdoc x (List.mem_cons_of_mem _ hx))
        (fun x hx => hvalid x (List.mem_cons_of_mem _ hx))
        ⟨htexts, fun c hc => h.room c (List.mem_cons_of_mem _ hc),
          fun x hx => h.readable x (List.mem_cons_of_mem _ hx), fun x hx => h.logged x (List.mem_cons_of_mem _ hx)⟩
      have hhands := Message.handsOver_print (hvalid m hm) a c
      obtain ⟨x, hx⟩ := (hhands.fits (h.readable m hm)).mpr (h.logged m hm)
      obtain ⟨hgives, -⟩ := hhands.gives x hx
      obtain ⟨rest, hbytes⟩ := Message.bytes_cons (hvalid m hm)
      have hroot : rootElement (tinyxml c.data) = rootElement m.print := by
        have hroot := hdoc m hm []
        rwa [List.append_nil, ← hc] at hroot
      have hcall : a.onReadable tinyxml c = .ok [x] := by
        have hdata : c.data = 0x3c :: rest := hc.trans hbytes
        refine Agent.onReadable_eq_ok_iff.mpr (Or.inr ⟨?_, ?_, h.room c List.mem_cons_self, x, ?_, rfl⟩)
        · rw [hdata]
          exact List.cons_ne_nil _ _
        · rw [hdata]
          simp
        · rw [Agent.hand_congr hroot, hx]
      refine ⟨x :: handed, ?_, .cons (hgives (h.readable m hm)) hforall⟩
      unfold Agent.readAll
      rw [hcall, hread]
      rfl

/-- The connection's thread gets through all chunks. -/
theorem Agent.readAll_mem {tinyxml : List UInt8 → Document} {a : Agent} {chunks : List Chunk} :
    ∀ {handed : List Handed}, a.readAll tinyxml chunks = .ok handed →
      ∀ c ∈ chunks, ∃ first, a.onReadable tinyxml c = .ok first := by
  induction chunks with
  | nil =>
    intro handed _ c hc
    cases hc
  | cons c₀ chunks ih =>
    intro handed h c hc
    unfold Agent.readAll at h
    obtain ⟨first, hfirst, h⟩ := bind_eq_ok h
    obtain ⟨rest, hrest, -⟩ := bind_eq_ok h
    rcases List.mem_cons.mp hc with rfl | hc
    · exact ⟨first, hfirst⟩
    · exact ih hrest c hc

/-- A chunk hands over one message at most. -/
theorem length_le_of_framed {tinyxml : List UInt8 → Document} {a : Agent} {messages : List Message}
    {chunks : List Chunk} (h : Framed tinyxml a messages chunks) : messages.length ≤ chunks.length := by
  obtain ⟨handed, hread, hhanded⟩ := h
  obtain ⟨part, hsub, hpart⟩ := Agent.readAll_ok hread
  rw [← hhanded.length_eq, ← hpart.length_eq]
  exact hsub.length_le

/-- Two lists in step with a third are in step. -/
theorem forall₂_comp {α β γ : Type} {R : α → β → Prop} {S : β → γ → Prop} {as : List α} {bs : List β}
    (h : List.Forall₂ R as bs) :
    ∀ {cs : List γ}, List.Forall₂ S bs cs → List.Forall₂ (Relation.Comp R S) as cs := by
  induction h with
  | nil =>
    intro cs h
    cases h
    exact .nil
  | cons hab _ ih =>
    intro cs h
    cases h with
    | cons hbc hrest => exact .cons ⟨_, hab, hbc⟩ (ih hrest)

/-- **Necessary**, where every chunk starts with the text of one of the messages or shows TinyXML no root. -/
theorem aligned_of_framed {tinyxml : List UInt8 → Document} {a : Agent} {messages : List Message}
    {chunks : List Chunk} (hdoc : FirstElement tinyxml messages) (hvalid : ∀ m ∈ messages, m.Valid)
    (hstream : (chunks.map Chunk.data).flatten = (messages.map Message.bytes).flatten)
    (hne : [] ∉ chunks.map Chunk.data)
    (hknown : ∀ c ∈ chunks, (∃ m ∈ messages, m.bytes <+: c.data) ∨ rootElement (tinyxml c.data) = none)
    (h : Framed tinyxml a messages chunks) : Aligned a messages chunks := by
  obtain ⟨handed, hread, hhanded⟩ := h
  obtain ⟨part, hsub, hpart⟩ := Agent.readAll_ok hread
  -- what was handed over comes from the text of one of the messages
  have hfrom : List.Forall₂ (fun c x => c.data.length < recvSize ∧
      ∃ m ∈ messages, m.bytes <+: c.data ∧ Message.Gives a m x ∧ (m.Readable a → m.LogFits a)) part handed := by
    apply (List.forall₂_and_left _ _ |>.mpr ⟨fun c hc => hknown c (hsub.subset hc), hpart⟩).imp
    rintro c x ⟨hc, hroom, hx⟩
    rcases hc with ⟨m, hm, rest, hrest⟩ | hnone
    · have hroot : rootElement (tinyxml c.data) = rootElement m.print := by
        rw [← hrest]
        exact hdoc m hm rest
      have hhands := Message.handsOver_print (hvalid m hm) a c
      rw [Agent.hand_congr hroot] at hx
      exact ⟨hroom, m, hm, ⟨rest, hrest⟩, hhands.gives x hx, fun hread => (hhands.fits hread).mp ⟨x, hx⟩⟩
    · rw [Agent.hand_none hnone] at hx
      cases hx
  have hboth : List.Forall₂ (fun m c => ∃ x, (c.data.length < recvSize ∧
      ∃ m' ∈ messages, m'.bytes <+: c.data ∧ Message.Gives a m' x ∧ (m'.Readable a → m'.LogFits a)) ∧ x.Is m)
      messages part :=
    (forall₂_comp hfrom hhanded).flip
  have hreadable : ∀ m ∈ messages, m.Readable a := by
    have hleft : List.Forall₂ (fun (m : Message) (_ : Chunk) => m.Readable a ∧ True) messages part := by
      apply hboth.imp
      rintro m c ⟨x, ⟨-, m', -, -, ⟨-, hgives⟩, -⟩, his⟩
      exact ⟨hgives m his, trivial⟩
    exact ((List.forall₂_and_left _ _).mp hleft).1
  have hlogged : ∀ m ∈ messages, m.Valid → m.LogFits a := by
    have hleft : List.Forall₂ (fun (m : Message) (_ : Chunk) => (m.Valid → m.LogFits a) ∧ True) messages part := by
      apply hboth.imp
      rintro m c ⟨x, ⟨-, m', hm', -, ⟨hgives, -⟩, hfits⟩, his⟩
      have hread := hreadable m' hm'
      exact ⟨fun hv => Message.logFits_of_is (hvalid m' hm') hv (hgives hread) his (hfits hread), trivial⟩
    exact ((List.forall₂_and_left _ _).mp hleft).1
  have hpieces : List.Forall₂ (· <+: ·) (messages.map Message.bytes) (part.map Chunk.data) := by
    rw [List.forall₂_map_left_iff, List.forall₂_map_right_iff]
    apply hboth.imp
    rintro m c ⟨x, ⟨-, m', hm', hstarts, ⟨hgives, -⟩, -⟩, his⟩
    rw [Message.bytes_eq his (hgives (hreadable m' hm'))]
    exact hstarts
  have hle : (part.map Chunk.data).flatten.length ≤ (chunks.map Chunk.data).flatten.length :=
    ((hsub.map Chunk.data).flatten).length_le
  have htexts : part.map Chunk.data = messages.map Message.bytes := by
    apply Blocks.eq_of_prefixes hpieces
    rwa [hstream] at hle
  have hall : part.map Chunk.data = chunks.map Chunk.data := by
    apply Blocks.eq_of_sublist (hsub.map Chunk.data) hne
    rw [hstream, htexts]
  have hpartall : part = chunks := by
    apply hsub.eq_of_length
    rw [← List.length_map Chunk.data, hall, List.length_map]
  refine ⟨hall.symm.trans htexts, ?_, hreadable, fun m hm => hlogged m hm (hvalid m hm)⟩
  rw [← hpartall]
  have hroom : List.Forall₂ (fun (c : Chunk) (_ : Handed) => c.data.length < recvSize ∧ True) part handed :=
    hfrom.imp fun _ _ h => ⟨h.1, trivial⟩
  exact ((List.forall₂_and_left _ _).mp hroom).1

/-- A TinyXML that finds no root except where one is documented. -/
def strict (tinyxml : List UInt8 → Document) (messages : List Message) (data : List UInt8) : Document :=
  if ∃ m ∈ messages, m.bytes <+: data then tinyxml data else []

theorem firstElement_strict {tinyxml : List UInt8 → Document} {messages : List Message}
    (h : FirstElement tinyxml messages) : FirstElement (strict tinyxml messages) messages := by
  intro m hm rest
  unfold strict
  rw [if_pos ⟨m, hm, List.prefix_append _ _⟩]
  exact h m hm rest

/-! ## The main result -/

/-- **Framing of the agents' streams.** Relying on what TinyXML documents and nothing else, the messages
    handed over are the messages sent exactly when every chunk is the text of one message, with room for the
    terminator, and every message is readable and short enough for the log. For one TinyXML: chunks that start with
    a text are read right only if they are one; and in any case as many chunks are needed as there are messages, none
    of them full. -/
theorem stream_framing {tinyxml : List UInt8 → Document} (a : Agent) {messages : List Message}
    {chunks : List Chunk} (hdoc : FirstElement tinyxml messages) (hvalid : ∀ m ∈ messages, m.Valid)
    (hrecv : ∀ c ∈ chunks, 1 ≤ c.data.length ∧ c.data.length ≤ recvSize)
    (hstream : chunks.flatMap Chunk.data = messages.flatMap Message.bytes) :
    ((∀ other, FirstElement other messages → Framed other a messages chunks) ↔
      Aligned a messages chunks) ∧
    ((∀ c ∈ chunks, ∃ m ∈ messages, m.bytes <+: c.data) →
      (Framed tinyxml a messages chunks ↔ Aligned a messages chunks)) ∧
    (Framed tinyxml a messages chunks → messages.length ≤ chunks.length ∧
      ∀ c ∈ chunks, c.data.head? = some 0 ∨ c.data.length < recvSize) := by
  have hne : [] ∉ chunks.map Chunk.data := by
    intro hmem
    obtain ⟨c, hc, hnil⟩ := List.mem_map.mp hmem
    have hpos := (hrecv c hc).1
    rw [hnil] at hpos
    exact absurd hpos (by decide)
  rw [List.flatMap_def, List.flatMap_def] at hstream
  refine ⟨⟨?_, ?_⟩, ?_, ?_⟩
  · intro h
    apply aligned_of_framed (firstElement_strict hdoc) hvalid hstream hne _
      (h _ (firstElement_strict hdoc))
    intro c _
    by_cases hknown : ∃ m ∈ messages, m.bytes <+: c.data
    · exact Or.inl hknown
    · right
      unfold strict
      rw [if_neg hknown]
      rfl
  · intro h other hother
    exact framed_of_aligned hother hvalid h
  · intro hstarts
    exact ⟨aligned_of_framed hdoc hvalid hstream hne fun c hc => Or.inl (hstarts c hc),
      framed_of_aligned hdoc hvalid⟩
  · intro h
    refine ⟨length_le_of_framed h, ?_⟩
    obtain ⟨handed, hread, -⟩ := h
    intro c hc
    obtain ⟨first, hfirst⟩ := Agent.readAll_mem hread c hc
    exact (Agent.onReadable_eq_ok_iff.mp hfirst).imp And.left fun h => h.2.2.1

/-- User 1 turns camera 2 of matrix 3. -/
def ptzMessage : Message :=
  .request (buildPtzRequest (Env.at 100) ⟨7, 1⟩ ⟨3, 2⟩ 4 20 (.uninit fun _ => 0))

/-- TinyXML as far as that text is concerned. -/
def ptzXml (data : List UInt8) : Document := if ptzMessage.bytes <+: data then ptzMessage.print else []

theorem firstElement_ptzXml : ∀ m, m = ptzMessage → ∀ rest,
    rootElement (ptzXml (m.bytes ++ rest)) = rootElement m.print := by
  rintro m rfl rest
  unfold ptzXml
  rw [if_pos (List.prefix_append _ _)]

theorem ptzMessage_valid : ptzMessage.Valid := AgentMessage.sendable_buildPtzRequest _ _ _ _ _ _

theorem length_ptzMessage : ptzMessage.bytes.length = 202 := by
  decide +kernel

theorem ptzMessage_fits : ptzMessage.LogFits .client := by
  have hints : (buildPtzRequest (Env.at 100) ⟨7, 1⟩ ⟨3, 2⟩ 4 20 (.uninit fun _ => 0)).Ints := by
    refine ⟨⟨by decide, by decide, by decide, by decide, by decide, by decide⟩, ?_⟩
    have hzero : ∀ i, IsInt ((AgentMessage.uninit fun _ => 0).mContent i) := fun _ => (by decide : IsInt 0)
    exact Content.isInt_set (Content.isInt_set (Content.isInt_set (Content.isInt_set hzero (by decide) 0)
      (by decide) 1) (by decide) 2) (by decide) 3
  apply (Message.logFits_request hints).mpr
  show ptzMessage.bytes.length + 1 ≤ obufSize
  rw [length_ptzMessage]
  decide

/-- The request in a chunk of its own. -/
theorem stream_framing_of_one : Framed ptzXml .client [ptzMessage]
    [⟨ptzMessage.bytes, .uninit fun _ => 0, Env.at 100, fun _ => 0⟩] := by
  have hdoc : FirstElement ptzXml [ptzMessage] := by
    intro m hm
    exact firstElement_ptzXml m (List.mem_singleton.mp hm)
  refine ((stream_framing .client hdoc ?_ ?_ rfl).1.mpr ⟨rfl, ?_, ?_, ?_⟩) _ hdoc
  · exact List.forall_mem_singleton.mpr ptzMessage_valid
  · intro c hc
    rw [List.mem_singleton.mp hc]
    show 1 ≤ ptzMessage.bytes.length ∧ ptzMessage.bytes.length ≤ recvSize
    rw [length_ptzMessage]
    decide
  · intro c hc
    rw [List.mem_singleton.mp hc]
    show ptzMessage.bytes.length < recvSize
    rw [length_ptzMessage]
    decide
  · exact List.forall_mem_singleton.mpr trivial
  · exact List.forall_mem_singleton.mpr ptzMessage_fits

/-- **Two texts in one chunk.** The second of two requests that arrive together is lost. -/
theorem coalesced_request_lost :
    FirstElement ptzXml [ptzMessage, ptzMessage] ∧ (∀ m ∈ [ptzMessage, ptzMessage], m.Valid) ∧
    (ptzMessage.bytes ++ ptzMessage.bytes).length ≤ recvSize ∧
    ¬ Framed ptzXml .client [ptzMessage, ptzMessage]
      [⟨ptzMessage.bytes ++ ptzMessage.bytes, .uninit fun _ => 0, Env.at 100, fun _ => 0⟩] := by
  refine ⟨?_, ?_, ?_, ?_⟩
  · intro m hm
    rw [List.mem_pair, or_self] at hm
    exact firstElement_ptzXml m hm
  · intro m hm
    rw [List.mem_pair, or_self] at hm
    rw [hm]
    exact ptzMessage_valid
  · rw [List.length_append, length_ptzMessage]
    decide
  · intro h
    exact absurd (length_le_of_framed h) (by decide)

end Mcc
