import Mcc.Correctness.Malformed
import Mcc.Correctness.TextLength

/-!
# `Correctness.Discard` — texts that are certain to be discarded

The server asks for the method of a request whether or not the parser accepted it, a field that nothing wrote may
decide what happens, and the text of what was read is copied into a buffer of 1024 bytes on the way. So a text is
certain to be discarded only if its own attributes decide: at the server, a `type` and a `method` that are
numbers, the one of a request and the other of a `SWITCH` or a `PTZ`; at the client, anything that rules a request
out, as long as no reason in it is too long for the log.

## Contents
- **The longest log.** `longestLog`, what the text of a response takes in the worst memory: no memory is worse
  (`size_log_le`), and one is as bad (`size_log_worst`).
- **Each end.** `DecidesAtServer`, `DecidesAtClient`; `serverHand_discards_iff`, `clientHand_discards_iff`.
- **Main result.** `discarded_iff`.
-/

namespace Mcc

open Xml

/-! ## The longest log of a response -/

/-- The most a field takes in print that is written if the text holds a number for it. -/
def widest (number : Option Int) : ℕ := number.elim 11 fun n => width (asInt n)

/-- The lowest `int` has the most characters. -/
def lowest : Int := -2 ^ 31

theorem width_asInt_le (n : Int) : width (asInt n) ≤ 11 := width_int (isInt_asInt n)

theorem width_getD_le (number : Option Int) (old : Int) : width (asInt (number.getD old)) ≤ widest number := by
  cases number with
  | none => exact width_asInt_le old
  | some n => exact le_refl _

theorem width_getD_lowest (number : Option Int) : width (asInt (number.getD lowest)) = widest number := by
  cases number with
  | none => decide
  | some n => rfl

/-- The response parser gets to this reason, where memory has the type of a response. -/
structure ReasonRead (root status : Element) (reason : Text) : Prop where
  type : root.CanHold "type" 1
  method : root.attr "method" ≠ none
  seq : root.attr "seq" ≠ none
  source : root.attr "from" ≠ none
  target : root.attr "to" ≠ none
  initiator : root.attr "initiator" ≠ none
  status : StatusReads root status reason

/-- The number of the port in the text. -/
def portNumber (root : Element) : Option Int := (root.firstChildElement "Connection").bind (·.number "outport")

/-- The bytes of the method, and of the port that follows where the method is that of a `SWITCH` or unknown. -/
def longestMethod (root : Element) : ℕ :=
  if root.number "method" = none ∨ root.number "method" = some 1 then 27 + widest (portNumber root)
  else widest (root.number "method")

/-- The longest text of a response that is read as far as this reason. -/
def longestLog (root status : Element) (reason : Text) : ℕ :=
  153 + longestMethod root + widest (root.number "seq") + widest (root.number "from") + widest (root.number "to") +
    widest ((scanInt reason).or (root.number "initiator")) + widest (status.number "code") + size reason

/-- In some memory the reason is read exactly if it can be. -/
theorem ReasonReads.reasonRead {root status : Element} {reason : Text} {m : AgentMessage}
    (h : ReasonReads root status reason m) : ReasonRead root status reason := by
  obtain ⟨⟨⟨t, ht, hkind⟩, hmethod, hseq, hfrom, hto, hinit⟩, hstatus⟩ := h
  rw [MessageType.ofInt_eq_response.mp hkind] at ht
  exact ⟨Element.canHold_of_attrInt ht, hmethod, hseq, hfrom, hto, hinit, hstatus⟩

theorem ReasonRead.reasonReads {root status : Element} {reason : Text} {m : AgentMessage}
    (h : ReasonRead root status reason) (htype : m.mType = .response) : ReasonReads root status reason m := by
  refine ⟨⟨⟨1, ?_, rfl⟩, h.method, h.seq, h.source, h.target, h.initiator⟩, h.status⟩
  rw [htype]
  exact h.type.attrInt

/-- A text has one status and one reason. -/
theorem StatusReads.unique {root status status' : Element} {reason reason' : Text}
    (h : StatusReads root status reason) (h' : StatusReads root status' reason') :
    status' = status ∧ reason' = reason := by
  have hstatus : status' = status := Option.some.inj (h'.child.symm.trans h.child)
  rw [hstatus] at h'
  exact ⟨hstatus, Option.some.inj (h'.reason.symm.trans h.reason)⟩

/-- The log prints the method as an `int`. -/
theorem MessageMethod.toInt_asInt_ofInt (n : Int) : (MessageMethod.ofInt n).asInt.toInt = Mcc.asInt n := by
  unfold MessageMethod.ofInt
  split_ifs with h0 h1 h2
  · rw [h0]
    rfl
  · rw [h1]
    rfl
  · rw [h2]
    rfl
  · rfl

theorem MessageMethod.ofInt_eq_switch {n : Int} : MessageMethod.ofInt n = .switch ↔ n = 1 := by
  constructor
  · intro h
    have htoInt := MessageMethod.toInt_ofInt n
    rw [h] at htoInt
    exact htoInt.symm
  · intro h
    rw [h]
    rfl

/-- The bytes of the method and of the port, where the method was read as `n` and the port as `port`. -/
def methodBytes (n port : Int) : ℕ := width (asInt n) + if n = 1 then 26 + width (asInt port) else 0

theorem methodBytes_le (root : Element) (oldMethod oldPort : Int) :
    methodBytes ((root.number "method").getD oldMethod) ((portNumber root).getD oldPort) ≤ longestMethod root := by
  have hport := width_getD_le (portNumber root) oldPort
  have hmethod := width_asInt_le ((root.number "method").getD oldMethod)
  unfold methodBytes longestMethod
  by_cases hswitch : (root.number "method").getD oldMethod = 1
  · have hopen : root.number "method" = none ∨ root.number "method" = some 1 := by
      cases hn : root.number "method" with
      | none => exact Or.inl rfl
      | some n =>
        rw [hn] at hswitch
        exact Or.inr (congrArg some hswitch)
    have hone : width (asInt 1) = 1 := by decide
    rw [if_pos hswitch, if_pos hopen, hswitch, hone]
    omega
  · rw [if_neg hswitch]
    split_ifs with hopen
    · omega
    · have hle := width_getD_le (root.number "method") oldMethod
      omega

theorem methodBytes_worst (root : Element) :
    methodBytes ((root.number "method").getD 1) ((portNumber root).getD lowest) = longestMethod root := by
  have hone : width (asInt 1) = 1 := by decide
  unfold methodBytes longestMethod
  rw [width_getD_lowest]
  cases hn : root.number "method" with
  | none =>
    rw [Option.getD_none, if_pos rfl, if_pos (Or.inl rfl), hone]
    omega
  | some n =>
    rw [Option.getD_some]
    by_cases h1 : n = 1
    · rw [if_pos h1, if_pos (Or.inr (congrArg some h1)), h1, hone]
      omega
    · rw [if_neg h1, if_neg (by simp [h1])]
      rfl

/-- The port that is left is the one of the text, or the one memory held. -/
theorem portLeft_eq (junk : ℕ → Int) (root : Element) (old : Int) :
    ∃ unread, portLeft junk root old = (portNumber root).getD unread ∧ (unread = junk 0 ∨ unread = old) := by
  unfold portLeft portNumber
  cases root.firstChildElement "Connection" with
  | none => exact ⟨old, rfl, Or.inr rfl⟩
  | some connection => exact ⟨junk 0, connection.readInt_eq "outport" (junk 0), Or.inl rfl⟩

/-- The method is logged as the number the text has for it, or as memory had it. -/
theorem method_of_left {junk : ℕ → Int} {root status : Element} {reason : Text} {m r : AgentResponse}
    (hleft : StatusLeft junk root status reason { m with toAgentMessage := headerRead root m.toAgentMessage } r) :
    r.mMethod = .ofInt ((root.number "method").getD m.mMethod.toInt) := by
  rw [hleft.method, ← Element.readInt_eq]
  rfl

/-- The line of the port is logged where the method was read as that of a `SWITCH`. -/
theorem connection_of_left {junk : ℕ → Int} {root status : Element} {reason : Text} {m r : AgentResponse}
    (hleft : StatusLeft junk root status reason { m with toAgentMessage := headerRead root m.toAgentMessage } r) :
    ∃ unread, (unread = junk 0 ∨ unread = m.mContent.swiOutport) ∧
      (if r.asInts.mMethod = .switch then 26 + width r.asInts.mContent.swiOutport else 0) =
        if (root.number "method").getD m.mMethod.toInt = 1 then 26 + width (asInt ((portNumber root).getD unread))
        else 0 := by
  have hmethod := method_of_left hleft
  obtain ⟨unread, hport, hunread⟩ := portLeft_eq junk root m.mContent.swiOutport
  have hiff : r.asInts.mMethod = .switch ↔ (root.number "method").getD m.mMethod.toInt = 1 := by
    rw [← MessageMethod.ofInt_eq_switch, ← hmethod]
    exact ⟨fun h => MessageMethod.eq_of_asInt h (fun n hn => by cases hn), congrArg MessageMethod.asInt⟩
  refine ⟨unread, hunread, ?_⟩
  by_cases hswitch : (root.number "method").getD m.mMethod.toInt = 1
  · have hleftPort : r.mContent.swiOutport = portLeft junk root m.mContent.swiOutport :=
      hleft.port (hleft.method.symm.trans (hmethod.trans (MessageMethod.ofInt_eq_switch.mpr hswitch)))
    have hsame : r.asInts.mContent.swiOutport = asInt ((portNumber root).getD unread) := by
      rw [← hport, ← hleftPort]
      rfl
    rw [if_pos hswitch, if_pos (hiff.mpr hswitch), hsame]
  · rw [if_neg hswitch, if_neg fun h => hswitch (hiff.mp h)]

/-- **What the log of a response takes** that was read as far as its reason. -/
theorem size_log {junk : ℕ → Int} {root status : Element} {reason : Text} {m r : AgentResponse}
    (hleft : StatusLeft junk root status reason { m with toAgentMessage := headerRead root m.toAgentMessage } r)
    (hreads : ReasonReads root status reason m.toAgentMessage) :
    ∃ unread, (unread = junk 0 ∨ unread = m.mContent.swiOutport) ∧
      size r.asInts.text = 153 +
        methodBytes ((root.number "method").getD m.mMethod.toInt) ((portNumber root).getD unread) +
        width (asInt ((root.number "seq").getD m.mId)) + width (asInt ((root.number "from").getD m.mFrom)) +
        width (asInt ((root.number "to").getD m.mTo)) +
        width (asInt (((scanInt reason).or (root.number "initiator")).getD m.mInitiatorId)) +
        width (asInt ((status.number "code").getD m.mStatusCode)) + size reason := by
  obtain ⟨t, ht, hkind⟩ := hreads.1.type
  have htype : width r.asInts.mType.toInt = 1 := by
    have hread : r.asInts.mType = (MessageType.ofInt (root.readInt "type" m.mType.toInt)).asInt :=
      congrArg MessageType.asInt hleft.type
    rw [hread, readInt_of_attrInt ht, hkind]
    decide
  have hmethod : r.asInts.mMethod.toInt = asInt ((root.number "method").getD m.mMethod.toInt) := by
    show r.mMethod.asInt.toInt = _
    rw [method_of_left hleft, MessageMethod.toInt_asInt_ofInt]
  have hid : r.asInts.mId = asInt ((root.number "seq").getD m.mId) := by
    rw [← Element.readInt_eq]
    exact congrArg asInt hleft.id
  have hsource : r.asInts.mFrom = asInt ((root.number "from").getD m.mFrom) := by
    rw [← Element.readInt_eq]
    exact congrArg asInt hleft.source
  have htarget : r.asInts.mTo = asInt ((root.number "to").getD m.mTo) := by
    rw [← Element.readInt_eq]
    exact congrArg asInt hleft.target
  have hinitiator : r.asInts.mInitiatorId =
      asInt (((scanInt reason).or (root.number "initiator")).getD m.mInitiatorId) := by
    have hnumber : status.number "reason" = scanInt reason := by
      unfold Element.number
      rw [hreads.2.reason]
      rfl
    rw [Option.getD_or, ← Element.readInt_eq, ← hnumber, ← Element.readInt_eq]
    exact congrArg asInt hleft.initiator
  have hcode : r.asInts.mStatusCode = asInt ((status.number "code").getD m.mStatusCode) := by
    rw [← Element.readInt_eq]
    exact congrArg asInt hleft.code
  have hreason : r.asInts.mReason.toList = reason := by
    show r.mReason.toList = reason
    rw [hleft.reason, String.toList_ofList]
  obtain ⟨unread, hunread, hconnection⟩ := connection_of_left hleft
  refine ⟨unread, hunread, ?_⟩
  rw [AgentResponse.size_text, hconnection]
  unfold AgentMessage.headWidth methodBytes
  rw [htype, hmethod, hid, hsource, htarget, hinitiator, hcode, hreason]
  omega

/-- **No memory is worse.** -/
theorem size_log_le {junk : ℕ → Int} {root status : Element} {reason : Text} {m r : AgentResponse}
    (hleft : StatusLeft junk root status reason { m with toAgentMessage := headerRead root m.toAgentMessage } r)
    (hreads : ReasonReads root status reason m.toAgentMessage) :
    size r.asInts.text ≤ longestLog root status reason := by
  obtain ⟨unread, -, hsize⟩ := size_log hleft hreads
  have hmethod := methodBytes_le root m.mMethod.toInt unread
  have hid := width_getD_le (root.number "seq") m.mId
  have hsource := width_getD_le (root.number "from") m.mFrom
  have htarget := width_getD_le (root.number "to") m.mTo
  have hinitiator := width_getD_le ((scanInt reason).or (root.number "initiator")) m.mInitiatorId
  have hcode := width_getD_le (status.number "code") m.mStatusCode
  rw [hsize]
  unfold longestLog
  omega

/-- Memory that holds the type of a response, the method of a `SWITCH`, and the longest of numbers otherwise. -/
def longestMemory (i : ℕ) : Int := if i = 3 ∨ i = 4 then 1 else lowest

/-- **One is as bad.** -/
theorem size_log_worst {root status : Element} {reason : Text} {r : AgentResponse}
    (hleft : StatusLeft longestMemory root status reason
      { AgentResponse.uninit longestMemory with
        toAgentMessage := headerRead root (AgentResponse.uninit longestMemory).toAgentMessage } r)
    (hreads : ReasonReads root status reason (AgentResponse.uninit longestMemory).toAgentMessage) :
    size r.asInts.text = longestLog root status reason := by
  obtain ⟨unread, hunread, hsize⟩ := size_log hleft hreads
  have hlowest : unread = lowest := by
    rcases hunread with h | h
    · exact h
    · exact h
  have hmethod : (AgentResponse.uninit longestMemory).mMethod.toInt = 1 := rfl
  have hid : (AgentResponse.uninit longestMemory).mId = lowest := rfl
  have hsource : (AgentResponse.uninit longestMemory).mFrom = lowest := rfl
  have htarget : (AgentResponse.uninit longestMemory).mTo = lowest := rfl
  have hinitiator : (AgentResponse.uninit longestMemory).mInitiatorId = lowest := rfl
  have hcode : (AgentResponse.uninit longestMemory).mStatusCode = lowest := rfl
  rw [hsize, hlowest, hmethod, hid, hsource, htarget, hinitiator, hcode, methodBytes_worst]
  simp only [width_getD_lowest]
  rfl

/-! ## Each end -/

/-- The two handlers that do nothing with a message but print it. -/
def Handed.IsDiscarded : Handed → Prop
  | .onServerRxRequest _ => True
  | .onClientRxResponse _ => True
  | _ => False

/-- The text is discarded, whatever memory holds that nothing wrote: no fault, none of the other three handlers
    called, and the manager as it was. -/
def Agent.Discards (a : Agent) (doc : Document) : Prop :=
  ∀ c : Chunk, ∃ h, a.hand c doc = .ok h ∧ h.IsDiscarded ∧
    ∀ (Q : Type) [PriorityQueue Q User] (s : ResourceManager Q) (fd : Int), s.receive c fd h = .ok (s, [])

/-- The text itself says that it is a request for a `SWITCH` or a `PTZ`. -/
def DecidesAtServer (doc : Document) : Prop :=
  ∃ root n, rootElement doc = some root ∧ root.Holds "type" 0 ∧ root.Holds "method" n ∧ (n = 1 ∨ n = 2)

/-- The text itself rules a request out, and no reason in it is too long for the log. -/
def DecidesAtClient (doc : Document) : Prop :=
  ∃ root, rootElement doc = some root ∧ ¬ Acceptable root ∧
    ∀ status reason, ReasonRead root status reason → longestLog root status reason < obufSize

/-- Memory that holds no known type and the method of a `REGISTER`, and no zero byte for the log. -/
def worstChunk : Chunk :=
  { data := [], mem := AgentResponse.uninit fun _ => 0,
    env := { Env.at 0 with junk := fun i => if i = 3 then 5 else 0 }, obuf := fun _ => 1 }

/-- Where the text does not decide, this memory leaves the object with the method of a `REGISTER`. -/
theorem holds_of_methodLeft {root : Element}
    (h : methodLeft .request root (AgentMessage.uninit worstChunk.env.junk) ≠ .register) :
    root.Holds "type" 0 ∧ ∃ n, root.Holds "method" n ∧
      methodLeft .request root (AgentMessage.uninit worstChunk.env.junk) = .ofInt n := by
  have htype : (AgentMessage.uninit worstChunk.env.junk).mType.toInt = 5 := rfl
  have hmethod : (AgentMessage.uninit worstChunk.env.junk).mMethod.toInt = 0 := rfl
  have hregister : (AgentMessage.uninit worstChunk.env.junk).mMethod = .register := rfl
  unfold methodLeft at h ⊢
  rw [htype, hmethod, hregister] at h ⊢
  cases ht : root.attrInt "type" 5 with
  | none =>
    rw [ht] at h
    exact absurd rfl h
  | some t =>
    rw [ht, Option.bind_some] at h
    by_cases hkind : MessageType.ofInt t = .request
    · have hzero : t = 0 := MessageType.ofInt_eq_request.mp hkind
      rw [if_pos hkind] at h
      cases hv : root.attrInt "method" 0 with
      | none =>
        rw [hv] at h
        exact absurd rfl h
      | some v =>
        rw [hv] at h
        have hne : v ≠ 0 := fun hv0 => h (MessageMethod.ofInt_eq_register.mpr hv0)
        rw [hzero] at ht
        refine ⟨Element.holds_of_attrInt ht (by decide), v, Element.holds_of_attrInt hv hne, ?_⟩
        rw [Option.bind_some, if_pos hkind]
        rfl
    · rw [if_neg hkind] at h
      exact absurd rfl h

/-- A request of no known method is printed out of an uninitialised buffer. -/
theorem known_of_log {obuf : ℕ → UInt8} {m : AgentRequest} (hobuf : ∀ i, obuf i ≠ 0)
    (h : AgentRequest.log obuf m = .ok ()) : m.mMethod = .register ∨ m.mMethod = .switch ∨ m.mMethod = .ptz := by
  cases hm : m.mMethod with
  | register => exact Or.inl rfl
  | switch => exact Or.inr (Or.inl rfl)
  | ptz => exact Or.inr (Or.inr rfl)
  | other n =>
    unfold AgentRequest.log at h
    rw [hm] at h
    simp only [hobuf, and_false, exists_false, if_false] at h
    cases h

/-- What the server makes of a text that is no response in its memory. -/
theorem serverHand_refused {doc : Document} {c : Chunk} {r : AgentResponse} {valid : Bool} {m : AgentRequest}
    (hresponse : AgentResponse.parse { c.mem with mReason := "" } c.env.junk doc = .ok (false, r))
    (hrequest : AgentRequest.parse (AgentMessage.uninit c.env.junk) c.env.junk doc = .ok (valid, m)) :
    Agent.server.hand c doc =
      r.log >>= fun _ => .ok (if m.mMethod = .register then .onRegister m else .onServerRxRequest m) := by
  show Agent.serverHand c doc = _
  unfold Agent.serverHand
  rw [hresponse]
  simp only [ok_bind, Bool.false_eq_true, if_false, hrequest]
  refine bind_congr fun _ => ?_
  by_cases hreg : m.mMethod = .register
  · rw [if_pos hreg, if_pos hreg]
    rfl
  · rw [if_neg hreg, if_neg hreg]
    rfl

/-- In the worst memory the server discards only what is a `SWITCH` or a `PTZ` by the text itself. -/
theorem Agent.Discards.decidesAtServer {doc : Document} (hall : Agent.server.Discards doc) : DecidesAtServer doc := by
  obtain ⟨h, hhand, hdisc, hcall⟩ := hall worstChunk
  cases hroot : rootElement doc with
  | none =>
    rw [Agent.hand_none hroot] at hhand
    cases hhand
  | some root =>
    obtain ⟨valid, r, hresponse, -⟩ :=
      parseResponse_ends hroot { worstChunk.mem with mReason := "" } worstChunk.env.junk
    cases valid with
    | true =>
      change Agent.serverHand worstChunk doc = .ok h at hhand
      unfold Agent.serverHand at hhand
      simp only [hresponse, ok_bind, if_true] at hhand
      obtain ⟨_, -, hhand⟩ := bind_eq_ok hhand
      cases hhand
      exact hdisc.elim
    | false =>
      rcases parse_ends hroot (AgentMessage.uninit worstChunk.env.junk) worstChunk.env.junk with
        ⟨v, m, hrequest, hleft, -⟩ | ⟨⟨f, hf⟩, -⟩
      · rw [serverHand_refused hresponse hrequest] at hhand
        obtain ⟨_, -, hhand⟩ := bind_eq_ok hhand
        cases hhand
        by_cases hreg : m.mMethod = .register
        · rw [if_pos hreg] at hdisc
          exact hdisc.elim
        · obtain ⟨htype, n, hmethod, hn⟩ := holds_of_methodLeft (hleft ▸ hreg)
          rw [if_neg hreg] at hcall
          obtain ⟨_, hlog, -⟩ := bind_eq_ok (hcall (List User) (.configured 0 1 0 [] [] []) 0)
          refine ⟨root, n, hroot, htype, hmethod, ?_⟩
          rcases known_of_log (fun _ => (by decide : (1 : UInt8) ≠ 0)) hlog with h | h | h
          · exact absurd h hreg
          · rw [hleft, hn] at h
            exact Or.inl (MessageMethod.ofInt_eq_switch.mp h)
          · rw [hleft, hn] at h
            right
            rw [← MessageMethod.toInt_ofInt n, h]
            rfl
      · change Agent.serverHand worstChunk doc = .ok h at hhand
        unfold Agent.serverHand at hhand
        simp only [hresponse, ok_bind, Bool.false_eq_true, if_false, hf] at hhand
        cases hhand

/-- What is a `SWITCH` or a `PTZ` by the text itself is discarded in every memory. -/
theorem DecidesAtServer.discards {doc : Document} (h : DecidesAtServer doc) : Agent.server.Discards doc := by
  intro c
  obtain ⟨root, n, hroot, htype, hmethod, hn⟩ := h
  obtain ⟨valid, r, hresponse, hinvalid, -⟩ := parseResponse_ends hroot { c.mem with mReason := "" } c.env.junk
  obtain ⟨rfl, hreason⟩ := hinvalid htype
  have hlog : r.log = .ok () := by
    apply AgentResponse.log_ok
    rw [hreason]
    exact Nat.zero_le 64
  have hleft : methodLeft .request root (AgentMessage.uninit c.env.junk) = .ofInt n :=
    methodLeft_eq (htype.attrInt _) rfl (hmethod.attrInt _)
  have hknown : MessageMethod.ofInt n = .switch ∨ MessageMethod.ofInt n = .ptz := by
    rcases hn with rfl | rfl
    · exact Or.inl rfl
    · exact Or.inr rfl
  have hne : MessageMethod.ofInt n ≠ .register := by
    rcases hknown with h | h
    · rw [h]
      decide
    · rw [h]
      decide
  rcases parse_ends hroot (AgentMessage.uninit c.env.junk) c.env.junk with ⟨v, m, hrequest, hm, -⟩ | ⟨-, -, hoverrun⟩
  · rw [hleft] at hm
    have hprint : AgentRequest.log c.obuf m = .ok () := by
      apply AgentRequest.log_ok
      rw [hm]
      exact hknown
    refine ⟨.onServerRxRequest m, ?_, trivial, ?_⟩
    · rw [serverHand_refused hresponse hrequest, hlog, if_neg (by rw [hm]; exact hne)]
      rfl
    · intro Q _ s fd
      unfold ResourceManager.receive
      simp only [hprint]
      rfl
  · exact absurd (fun hreg => absurd (hleft.symm.trans hreg) hne) hoverrun

/-- **The server** is certain to discard a text exactly if the text decides. -/
theorem serverHand_discards_iff {doc : Document} : Agent.server.Discards doc ↔ DecidesAtServer doc :=
  ⟨Agent.Discards.decidesAtServer, DecidesAtServer.discards⟩

/-- What the client makes of a text that is no request in its memory. -/
theorem clientHand_refused {doc : Document} {root : Element} (hroot : rootElement doc = some root) {c : Chunk}
    (hrefused : ¬ RequestReads root c.mem.toAgentMessage) {valid : Bool} {r : AgentResponse}
    (hresponse : AgentResponse.parse (AgentResponse.uninit c.env.junk) c.env.junk doc = .ok (valid, r)) :
    Agent.client.hand c doc = r.log >>= fun _ => .ok (.onClientRxResponse r) := by
  show Agent.clientHand c doc = _
  unfold Agent.clientHand
  rcases parse_ends hroot c.mem.toAgentMessage c.env.junk with ⟨v, m, hrequest, -, hvalid, -⟩ | ⟨-, hreads, -⟩
  · cases v with
    | true => exact absurd (hvalid.mp rfl) hrefused
    | false =>
      simp only [hrequest, hresponse, ok_bind, Bool.false_eq_true, if_false]
      rfl
  · exact absurd hreads hrefused

/-- In some memory what is acceptable is accepted. -/
theorem Agent.Discards.not_acceptable {doc : Document} (hall : Agent.client.Discards doc) {root : Element}
    (hroot : rootElement doc = some root) : ¬ Acceptable root := by
  intro hacceptable
  obtain ⟨mem, hreads⟩ := acceptable_iff.mp hacceptable
  obtain ⟨h, hhand, hdisc, -⟩ :=
    hall { worstChunk with mem := { toAgentMessage := mem, mStatusCode := 0, mReason := "" } }
  unfold Agent.hand Agent.clientHand at hhand
  obtain ⟨⟨valid, m⟩, hrequest, hhand⟩ := bind_eq_ok hhand
  rcases parse_ends hroot mem worstChunk.env.junk with ⟨v, m', hends, -, hvalid, -⟩ | ⟨⟨f, hf⟩, -⟩
  · rw [hends, hvalid.mpr hreads] at hrequest
    cases hrequest
    obtain ⟨_, -, hhand⟩ := bind_eq_ok hhand
    cases hhand
    exact hdisc
  · rw [hf] at hrequest
    cases hrequest

/-- In some memory the log of a response takes the most it can. -/
theorem Agent.Discards.log_lt {doc : Document} (hall : Agent.client.Discards doc) {root status : Element}
    {reason : Text} (hroot : rootElement doc = some root) (hread : ReasonRead root status reason) :
    longestLog root status reason < obufSize := by
  let c : Chunk := { worstChunk with env := { Env.at 0 with junk := longestMemory } }
  obtain ⟨valid, r, hresponse, -, hleft⟩ :=
    parseResponse_ends hroot (AgentResponse.uninit longestMemory) longestMemory
  have hrefused : ¬ RequestReads root c.mem.toAgentMessage :=
    fun h => hall.not_acceptable hroot (acceptable_iff.mpr ⟨_, h⟩)
  obtain ⟨h, hhand, -⟩ := hall c
  rw [clientHand_refused hroot hrefused hresponse] at hhand
  obtain ⟨_, hlog, -⟩ := bind_eq_ok hhand
  have hreads : ReasonReads root status reason (AgentResponse.uninit longestMemory).toAgentMessage :=
    hread.reasonReads rfl
  rcases hleft with ⟨-, hnone⟩ | ⟨status', reason', hreads', hleft⟩
  · exact absurd hreads (hnone status reason)
  · obtain ⟨rfl, rfl⟩ := hreads.2.unique hreads'.2
    rw [← size_log_worst hleft hreads]
    unfold AgentResponse.log at hlog
    by_contra hlong
    rw [if_neg hlong] at hlog
    cases hlog

/-- What is acceptable in no memory and short enough for the log in all of them is discarded. -/
theorem DecidesAtClient.discards {doc : Document} (h : DecidesAtClient doc) : Agent.client.Discards doc := by
  intro c
  obtain ⟨root, hroot, hnot, hshort⟩ := h
  have hrefused : ¬ RequestReads root c.mem.toAgentMessage := fun h => hnot (acceptable_iff.mpr ⟨_, h⟩)
  obtain ⟨valid, r, hresponse, -, hleft⟩ := parseResponse_ends hroot (AgentResponse.uninit c.env.junk) c.env.junk
  have hlog : r.log = .ok () := by
    rcases hleft with ⟨hreason, -⟩ | ⟨status, reason, hreads, hleft⟩
    · apply AgentResponse.log_ok
      rw [hreason]
      exact Nat.zero_le 64
    · unfold AgentResponse.log
      exact if_pos (lt_of_le_of_lt (size_log_le hleft hreads) (hshort status reason hreads.reasonRead))
  refine ⟨.onClientRxResponse r, ?_, trivial, ?_⟩
  · rw [clientHand_refused hroot hrefused hresponse, hlog]
    rfl
  · intro Q _ s fd
    unfold ResourceManager.receive
    simp only [hlog]
    rfl

/-- **The client** is certain to discard a text exactly if the text decides. -/
theorem clientHand_discards_iff {doc : Document} : Agent.client.Discards doc ↔ DecidesAtClient doc := by
  refine ⟨fun hall => ?_, DecidesAtClient.discards⟩
  cases hroot : rootElement doc with
  | none =>
    obtain ⟨h, hhand, -⟩ := hall worstChunk
    rw [Agent.hand_none hroot] at hhand
    cases hhand
  | some root => exact ⟨root, hroot, hall.not_acceptable hroot, fun status reason hread => hall.log_lt hroot hread⟩

/-! ## Main result -/

/-- The buffer is discarded, whatever memory holds that nothing wrote. -/
def Discarded (tinyxml : List UInt8 → Document) (a : Agent) (data : List UInt8) : Prop :=
  ∀ c : Chunk, c.data = data → ∃ handed, a.onReadable tinyxml c = .ok handed ∧ ∀ h ∈ handed, h.IsDiscarded ∧
    ∀ (Q : Type) [PriorityQueue Q User] (s : ResourceManager Q) (fd : Int), s.receive c fd h = .ok (s, [])

/-- What an agent makes of a document does not depend on the bytes it was read from. -/
theorem Agent.hand_data (a : Agent) (c : Chunk) (data : List UInt8) (doc : Document) :
    a.hand { c with data := data } doc = a.hand c doc := by
  cases a with
  | server => rfl
  | client => rfl

/-- A handler does not look at the bytes its message was read from. -/
theorem ResourceManager.receive_data {Q : Type} [PriorityQueue Q User] (s : ResourceManager Q) (c : Chunk)
    (data : List UInt8) (fd : Int) (h : Handed) : s.receive { c with data := data } fd h = s.receive c fd h := by
  cases h <;> rfl

/-- The head of `onReadable` asserts that there is a byte, returns on a zero, and writes behind the text. -/
theorem discarded_iff_of {tinyxml : List UInt8 → Document} {a : Agent} {data : List UInt8} :
    Discarded tinyxml a data ↔
      data.head? = some 0 ∨ data ≠ [] ∧ data.length < recvSize ∧ a.Discards (tinyxml data) := by
  constructor
  · intro hall
    by_cases hzero : data.head? = some 0
    · exact Or.inl hzero
    · obtain ⟨handed, hread, -⟩ := hall { worstChunk with data := data } rfl
      obtain ⟨h, -⟩ | ⟨hne, -, hroom, -⟩ := Agent.onReadable_eq_ok_iff.mp hread
      · exact absurd h hzero
      · refine Or.inr ⟨hne, hroom, fun c => ?_⟩
        obtain ⟨handed, hread, hdisc⟩ := hall { c with data := data } rfl
        obtain ⟨h, -⟩ | ⟨-, -, -, h, hhand, rfl⟩ := Agent.onReadable_eq_ok_iff.mp hread
        · exact absurd h hzero
        · obtain ⟨his, hcall⟩ := hdisc h (List.mem_singleton.mpr rfl)
          refine ⟨h, (a.hand_data c data _).symm.trans hhand, his, fun Q _ s fd => ?_⟩
          rw [← s.receive_data c data fd h]
          exact hcall Q s fd
  · rintro (hzero | ⟨hne, hroom, hall⟩) c rfl
    · refine ⟨[], Agent.onReadable_eq_ok_iff.mpr (Or.inl ⟨hzero, rfl⟩), fun h hh => ?_⟩
      cases hh
    · by_cases hzero : c.data.head? = some 0
      · refine ⟨[], Agent.onReadable_eq_ok_iff.mpr (Or.inl ⟨hzero, rfl⟩), fun h hh => ?_⟩
        cases hh
      · obtain ⟨h, hhand, hdisc⟩ := hall c
        refine ⟨[h], Agent.onReadable_eq_ok_iff.mpr (Or.inr ⟨hne, hzero, hroom, h, hhand, rfl⟩), fun h' hh' => ?_⟩
        rw [List.mem_singleton.mp hh']
        exact hdisc

/-- **Malformed input.** A buffer is discarded at the server, or at the client, exactly if it starts with a
    zero byte, or it leaves room for the terminator and its text decides there. -/
theorem discarded_iff (tinyxml : List UInt8 → Document) (data : List UInt8) :
    (Discarded tinyxml .server data ↔
      data.head? = some 0 ∨ data ≠ [] ∧ data.length < recvSize ∧ DecidesAtServer (tinyxml data)) ∧
    (Discarded tinyxml .client data ↔
      data.head? = some 0 ∨ data ≠ [] ∧ data.length < recvSize ∧ DecidesAtClient (tinyxml data)) := by
  rw [← serverHand_discards_iff, ← clientHand_discards_iff]
  exact ⟨discarded_iff_of, discarded_iff_of⟩

/-- **Two texts that neither parser accepts and nobody discards.** A root that says `REGISTER` and no more is
    registered, as the child and for the time that memory happened to hold; a text without a root is a null
    pointer at both ends. -/
theorem malformed_not_discarded :
    let doc : Document := [.element "XML_MESSAGE" [("type", ['0']), ("method", ['0'])] []]
    let c : Chunk := ⟨[65], .uninit fun _ => 7, { Env.at 100 with junk := fun _ => 7 }, fun _ => 7⟩
    let start : ResourceManager (List User) := .configured 0 1 0 [4] [1] [(1, 2)]
    ((AgentResponse.parse c.mem c.env.junk doc).map Prod.fst = .ok false ∧
      (AgentRequest.parse (.uninit c.env.junk) c.env.junk doc).map Prod.fst = .ok false) ∧
    ((Agent.server.hand c doc >>= start.receive c 3).map fun r => r.1.mChildMatrixs.contains 7) = .ok true ∧
    ¬ Discarded (fun _ => []) .server [65] ∧ ¬ Discarded (fun _ => []) .client [65] := by
  intro doc c start
  refine ⟨⟨rfl, rfl⟩, ?_, ?_, ?_⟩
  · have hresponse : AgentResponse.parse { c.mem with mReason := "" } c.env.junk doc =
        .ok (false, { AgentResponse.uninit (fun _ => 7) with mType := .request }) := rfl
    have hlog : AgentResponse.log { AgentResponse.uninit (fun _ => 7) with mType := .request } = .ok () :=
      AgentResponse.log_ok (Nat.zero_le 64)
    show ((Agent.serverHand c doc >>= start.receive c 3).map fun r => r.1.mChildMatrixs.contains 7) = .ok true
    unfold Agent.serverHand
    simp only [hresponse, ok_bind, Bool.false_eq_true, if_false, hlog]
    rfl
  · intro hall
    obtain ⟨handed, hread, -⟩ := hall ⟨[65], .uninit fun _ => 0, Env.at 100, fun _ => 0⟩ rfl
    cases hread
  · intro hall
    obtain ⟨handed, hread, -⟩ := hall ⟨[65], .uninit fun _ => 0, Env.at 100, fun _ => 0⟩ rfl
    cases hread

end Mcc
