import Mcc.Correctness.Codec

/-!
# `Correctness.RoundTrip` — what a message is after it was printed and parsed

`Codec` has the parts; here the two codecs are taken as wholes. Every request of the three builders comes
back as it was, whatever its fields hold. A response does so only when it is about a `SWITCH` and its reason
does not start with a number: the parser of responses has no case for `PTZ`, and it reads the reason through
the initiator.

## Contents
- **Requests.** `AgentRequest.round_trip`.
- **Responses.** `AgentResponse.round_trip_iff`.
-/

namespace Mcc

open Xml

/-! ## Requests -/

namespace AgentMessage

/-- What the builders make, with any values in its fields: a request of a known method; the children of a
    `REGISTER` fit the array. -/
structure Sendable (m : AgentRequest) : Prop where
  type : m.mType = .request
  method : m.mMethod = .register ∨ m.mMethod = .switch ∨ m.mMethod = .ptz
  children : m.mMethod = .register →
    0 ≤ m.mContent.regChildrenNum ∧ m.mContent.regChildrenNum ≤ maxChildrenNum

/-- The ids a `REGISTER` lists. -/
def children (m : AgentRequest) : List Int :=
  (List.range m.mContent.regChildrenNum.toNat).map m.mContent.regChild

/-- The same header, and the same content as far as the method has one. -/
structure SameRequest (m m' : AgentRequest) : Prop where
  type : m'.mType = m.mType
  method : m'.mMethod = m.mMethod
  id : m'.mId = m.mId
  source : m'.mFrom = m.mFrom
  target : m'.mTo = m.mTo
  initiator : m'.mInitiatorId = m.mInitiatorId
  register : m.mMethod = .register → m'.mContent.regExpire = m.mContent.regExpire ∧
    m'.mContent.regChildrenNum = m.mContent.regChildrenNum ∧ m'.children = m.children
  switch : m.mMethod = .switch → m'.mContent.swiUserid = m.mContent.swiUserid ∧
    m'.mContent.swiCameraid = m.mContent.swiCameraid
  ptz : m.mMethod = .ptz → m'.mContent.ptzUserid = m.mContent.ptzUserid ∧
    m'.mContent.ptzCameraid = m.mContent.ptzCameraid ∧
    m'.mContent.ptzDirection = m.mContent.ptzDirection ∧ m'.mContent.ptzAngle = m.mContent.ptzAngle

/-- Where `children_num` is in range, the builder's message is sendable: it leaves that word as it was. -/
theorem sendable_buildRegRequest {mem : AgentRequest} (mid expire : Int)
    (h : 0 ≤ mem.mContent.regChildrenNum ∧ mem.mContent.regChildrenNum ≤ maxChildrenNum) :
    Sendable (buildRegRequest mid expire mem) := by
  refine ⟨rfl, Or.inl rfl, ?_⟩
  intro _
  have hnum : (buildRegRequest mid expire mem).mContent.regChildrenNum = mem.mContent.regChildrenNum :=
    Content.set_ne mem.mContent (i := 0) (j := 1) expire (by decide)
  rw [hnum]
  exact h

theorem sendable_buildPtzRequest (env : Env) (uid cid : GlobalID) (opcode angle : Int)
    (mem : AgentRequest) : Sendable (buildPtzRequest env uid cid opcode angle mem) :=
  ⟨rfl, Or.inr (Or.inr rfl), fun h => by cases h⟩

/-- A known method prints as itself. -/
theorem Sendable.ofInt_method {m : AgentRequest} (h : m.Sendable) :
    MessageMethod.ofInt m.mMethod.toInt = m.mMethod := by
  rcases h.method with hm | hm | hm
  · rw [hm]
    rfl
  · rw [hm]
    rfl
  · rw [hm]
    rfl

end AgentMessage

/-- The `Item` elements that follow each other are all read. -/
theorem childElementsFrom_items (attrs : List (String × Text)) (ids : List Int) :
    (⟨"ChildMatrix", attrs, ids.map fun id => intLeaf "Item" [("id", id)]⟩ : Element).childElementsFrom
      "Item" = ids.map item := by
  cases ids with
  | nil => rfl
  | cons id ids =>
    have hrest : (ids.map fun id => intLeaf "Item" [("id", id)]).filterMap Node.toElement =
        ids.map item := by
      rw [List.filterMap_map]
      apply List.filterMap_eq_map_iff_forall_eq_some.mpr
      intro _ _
      rfl
    show item id :: (ids.map fun id => intLeaf "Item" [("id", id)]).filterMap Node.toElement = _
    rw [hrest]
    rfl

/-- `Expire` and `Item` elements that hold what they should are read. -/
theorem parseRequestBody_register (root expire : Element) {time : Int} {ids : List Int}
    (hexpire : root.firstChildElement "Expire" = some expire) (htime : expire.Holds "time" time)
    (hitems : List.Forall₂ (fun item id => item.Holds "id" id) (registerItems root) ids)
    (hlen : ids.length ≤ maxChildrenNum) (junk : ℕ → Int) {m : AgentMessage} (hmethod : m.mMethod = .register) :
    parseRequestBody junk root m =
      .ok { m with mContent := ((m.mContent.set 0 time).fill 0 ids).set 1 ids.length } := by
  have hloop := parseItems_eq m hitems (m.mContent.set 0 time) 0 (junk 1) (by rwa [Nat.zero_add])
  rw [Nat.zero_add] at hloop
  unfold parseRequestBody
  simp only [hmethod, hexpire, htime.attrInt, orFail_some, ok_bind]
  rw [hmethod] at hloop
  exact hloop

/-- `User`, `Camera` and `Operation` elements that hold numbers are read. -/
theorem parseRequestBody_ptz (root user camera operation : Element) {u c d a : Int}
    (huser : root.firstChildElement "User" = some user) (hu : user.Holds "id" u)
    (hcamera : root.firstChildElement "Camera" = some camera) (hc : camera.Holds "id" c)
    (hoperation : root.firstChildElement "Operation" = some operation)
    (hd : operation.Holds "direction" d) (ha : operation.Holds "angle" a)
    (junk : ℕ → Int) {m : AgentMessage} (hmethod : m.mMethod = .ptz) :
    parseRequestBody junk root m =
      .ok { m with mContent := (((m.mContent.set 0 u).set 1 c).set 2 d).set 3 a } := by
  unfold parseRequestBody
  simp only [hmethod, parseUserCamera_eq root user camera huser hu hcamera hc, ok_bind, hoperation,
    orFail_some, hd.readInt, ha.readInt]
  rw [← hmethod]
  rfl

/-- A request whose header was printed, and whose elements are read to content `c`, is parsed. -/
theorem AgentRequest.parse_eq {m mem : AgentRequest} (h : m.Sendable) {children : List Node}
    {junk : ℕ → Int} {c : Content}
    (hbody : parseRequestBody junk (root m children) { m with mContent := mem.mContent } =
      .ok { m with mContent := c }) :
    AgentRequest.parse mem junk (xmlDocument (headerAttrs m) children) =
      .ok (true, { m with mContent := c }) := by
  have hroot : rootElement (xmlDocument (headerAttrs m) children) = some (root m children) := rfl
  have hheader : parseHeader .request (root m children) mem = .ok { m with mContent := mem.mContent } :=
    parseHeader_root rfl h.type h.ofInt_method
  unfold AgentRequest.parse
  simp only [hroot, hheader, ok_bind, hbody]
  rfl

/-- What a `REGISTER` is read to is what it lists. -/
theorem AgentMessage.stored_children (m : AgentRequest) (mem : Content) (time : Int) (ids : List Int) :
    let c := ((mem.set 0 time).fill 0 ids).set 1 ids.length
    c.regExpire = time ∧ c.regChildrenNum = ids.length ∧ AgentMessage.children { m with mContent := c } = ids := by
  intro c
  have hcount : c.regChildrenNum = ids.length := Content.set_self _ _ _
  refine ⟨?_, hcount, ?_⟩
  · show ((mem.set 0 time).fill 0 ids).set 1 ids.length 0 = time
    rw [Content.set_ne (i := 1) (j := 0) _ _ (by decide), Content.fill_lt (by decide), Content.set_self]
  · show (List.range c.regChildrenNum.toNat).map c.regChild = ids
    rw [hcount]
    apply List.ext_getElem
    · simp
    · intro i hi hi'
      rw [List.getElem_map, List.getElem_range]
      have hfill := Content.regChild_fill (c := mem.set 0 time) (i := 0) hi'
      rw [Nat.zero_add] at hfill
      rw [← hfill]
      exact Content.set_ne _ _ (by omega)

/-- **Requests.** A printed request is valid and reads back as it was, into any memory. -/
theorem AgentRequest.round_trip {m : AgentRequest} (h : m.Sendable) (mem : AgentRequest) (junk : ℕ → Int) :
    ∃ m', AgentRequest.parse mem junk (AgentRequest.print m) = .ok (true, m') ∧ m.SameRequest m' := by
  have other : ∀ {a b : MessageMethod} {p : Prop}, m.mMethod = a → a ≠ b → m.mMethod = b → p :=
    fun ha hab hb => absurd (ha.symm.trans hb) hab
  rcases h.method with hm | hm | hm
  · obtain ⟨hnum, hle⟩ := h.children hm
    have hprint : AgentRequest.print m = xmlDocument (headerAttrs m)
        [intLeaf "Expire" [("time", m.mContent.regExpire)],
         .element "ChildMatrix" [] (m.children.map fun id => intLeaf "Item" [("id", id)])] := by
      unfold AgentRequest.print AgentMessage.children
      rw [hm, List.map_map]
      rfl
    have hlength : (m.children.length : Int) = m.mContent.regChildrenNum := by
      unfold AgentMessage.children
      rw [List.length_map, List.length_range]
      exact Int.toNat_of_nonneg hnum
    let e := root m [intLeaf "Expire" [("time", m.mContent.regExpire)],
      .element "ChildMatrix" [] (m.children.map fun id => intLeaf "Item" [("id", id)])]
    have hitems : registerItems e = m.children.map item := childElementsFrom_items [] m.children
    have hhold := items_hold m.children
    rw [← hitems] at hhold
    have hbody := parseRequestBody_register e ⟨"Expire", [("time", decimal m.mContent.regExpire)], []⟩ rfl
      (Element.holds_decimal rfl) hhold (by omega) junk (m := { m with mContent := mem.mContent }) hm
    have hstored := AgentMessage.stored_children m mem.mContent m.mContent.regExpire m.children
    rw [hlength] at hbody hstored
    rw [hprint]
    exact ⟨_, AgentRequest.parse_eq h hbody, rfl, rfl, rfl, rfl, rfl, rfl,
      fun _ => hstored, other hm (by decide), other hm (by decide)⟩
  · refine ⟨_, AgentRequest.parse_print ⟨h.type, hm⟩ mem junk, rfl, rfl, rfl, rfl, rfl, rfl,
      other hm (by decide), ?_, other hm (by decide)⟩
    intro _
    exact ⟨m.received_swiUserid mem, m.received_swiCameraid mem⟩
  · have hprint : AgentRequest.print m = xmlDocument (headerAttrs m)
        [intLeaf "User" [("id", m.mContent.ptzUserid)], intLeaf "Camera" [("id", m.mContent.ptzCameraid)],
         intLeaf "Operation" [("direction", m.mContent.ptzDirection), ("angle", m.mContent.ptzAngle)]] := by
      unfold AgentRequest.print
      rw [hm]
    have hbody := parseRequestBody_ptz
      (root m [intLeaf "User" [("id", m.mContent.ptzUserid)],
        intLeaf "Camera" [("id", m.mContent.ptzCameraid)],
        intLeaf "Operation" [("direction", m.mContent.ptzDirection), ("angle", m.mContent.ptzAngle)]])
      ⟨"User", [("id", decimal m.mContent.ptzUserid)], []⟩
      ⟨"Camera", [("id", decimal m.mContent.ptzCameraid)], []⟩
      ⟨"Operation", [("direction", decimal m.mContent.ptzDirection),
        ("angle", decimal m.mContent.ptzAngle)], []⟩ rfl (Element.holds_decimal rfl) rfl
      (Element.holds_decimal rfl) rfl (Element.holds_decimal rfl) (Element.holds_decimal rfl) junk
      (m := { m with mContent := mem.mContent }) hm
    rw [hprint]
    refine ⟨_, AgentRequest.parse_eq h hbody, rfl, rfl, rfl, rfl, rfl, rfl, other hm (by decide),
      other hm (by decide), ?_⟩
    intro _
    simp [Content.ptzUserid, Content.ptzCameraid, Content.ptzDirection, Content.ptzAngle]

/-- A matrix with two children registers. -/
theorem AgentRequest.round_trip_of_register :
    let m := buildRegRequest 5 60 ⟨0, 0, 0, .request, .register, 0, fun _ => 2⟩
    ∃ m', AgentRequest.parse (.uninit fun _ => 7) (fun _ => 7) (AgentRequest.print m) = .ok (true, m') ∧
      m.SameRequest m' :=
  AgentRequest.round_trip (AgentMessage.sendable_buildRegRequest 5 60 (by decide)) _ _

/-! ## Responses -/

namespace AgentResponse

/-- What `buildSwitchResponse` and `buildPtzResponse` make of a request of their method. -/
inductive Built : AgentResponse → Prop where
  | switch {request : AgentRequest} (statuscode : Int) (reason : String) (outport : Int)
      (mem : AgentResponse) : request.mMethod = .switch →
      Built (buildSwitchResponse request statuscode reason outport mem)
  | ptz {request : AgentRequest} (statuscode : Int) (reason : String) (mem : AgentResponse) :
      request.mMethod = .ptz → Built (buildPtzResponse request statuscode reason mem)

/-- The same header, status and reason, and for a `SWITCH` the same port. -/
structure SameResponse (m m' : AgentResponse) : Prop where
  type : m'.mType = m.mType
  method : m'.mMethod = m.mMethod
  id : m'.mId = m.mId
  source : m'.mFrom = m.mFrom
  target : m'.mTo = m.mTo
  initiator : m'.mInitiatorId = m.mInitiatorId
  statuscode : m'.mStatusCode = m.mStatusCode
  reason : m'.mReason = m.mReason
  switch : m.mMethod = .switch → m'.mContent.swiOutport = m.mContent.swiOutport

/-- The printed response is valid where it arrives, says the same, and so reaches `onServerRxResponse`. -/
def Arrives (m mem : AgentResponse) (env : Env) : Prop :=
  ∃ m', AgentResponse.parse mem env.junk m.print = .ok (true, m') ∧ m.SameResponse m' ∧
    ∀ (Q : Type) (s : ResourceManager Q) (fd : Int),
      s.readableAtServer env mem fd m.print = s.onServerRxResponse m'

theorem Built.type {m : AgentResponse} (h : m.Built) : m.mType = .response := by
  cases h with
  | switch => rfl
  | ptz => rfl

theorem Built.method {m : AgentResponse} (h : m.Built) : m.mMethod = .switch ∨ m.mMethod = .ptz := by
  cases h with
  | switch _ _ _ _ hmethod => exact Or.inl hmethod
  | ptz _ _ _ hmethod => exact Or.inr hmethod

/-- A printed `PTZ` response is read as far as its reason and then refused: its method is not one the parser of
    responses knows. -/
theorem parse_print_ptz {m : AgentResponse} (htype : m.mType = .response) (hmethod : m.mMethod = .ptz)
    (mem : AgentResponse) (junk : ℕ → Int) :
    AgentResponse.parse mem junk m.print = .ok (false,
      { m with
        mInitiatorId := (scanInt m.mReason.toList).getD m.mInitiatorId, mContent := mem.mContent }) := by
  let e := root m.toAgentMessage
    [.element "Status" [("code", decimal m.mStatusCode), ("reason", m.mReason.toList)] []]
  have hprint : m.print = xmlDocument e.attrs e.children := by
    unfold AgentResponse.print
    rw [hmethod]
    rfl
  have hroot : rootElement (xmlDocument e.attrs e.children) = some e := rfl
  have hheader : parseHeader .response e mem.toAgentMessage =
      .ok { m.toAgentMessage with mContent := mem.mContent } :=
    parseHeader_root rfl htype (by rw [hmethod]; rfl)
  have hstatus : e.firstChildElement "Status" =
      some ⟨"Status", [("code", decimal m.mStatusCode), ("reason", m.mReason.toList)], []⟩ := rfl
  have hcode : (⟨"Status", [("code", decimal m.mStatusCode), ("reason", m.mReason.toList)], []⟩ :
      Element).Holds "code" m.mStatusCode := Element.holds_decimal rfl
  have hreason : (⟨"Status", [("code", decimal m.mStatusCode), ("reason", m.mReason.toList)], []⟩ :
      Element).attr "reason" = some m.mReason.toList := rfl
  have hread : (⟨"Status", [("code", decimal m.mStatusCode), ("reason", m.mReason.toList)], []⟩ :
      Element).readInt "reason" m.mInitiatorId = (scanInt m.mReason.toList).getD m.mInitiatorId := rfl
  unfold AgentResponse.parse
  simp only [hprint, hroot, hheader]
  unfold parseResponseBody
  simp only [hstatus, hcode.attrInt, hreason, hread, orFail_some, ok_bind, hmethod,
    String.ofList_toList]
  rw [← hmethod]
  rfl

/-- **Responses.** A printed response reads back as it was exactly when it is about a `SWITCH` and its reason
    does not start with a number other than the initiator. -/
theorem round_trip_iff {m : AgentResponse} (h : m.Built) (mem : AgentResponse) (env : Env) :
    m.Arrives mem env ↔
      m.mMethod = .switch ∧ ∀ n, scanInt m.mReason.toList = some n → n = m.mInitiatorId := by
  rcases h.method with hm | hm
  · have hread : AgentResponse.parse mem env.junk m.print = .ok (true, m.received mem) :=
      AgentResponse.parse_print ⟨h.type, hm⟩ mem env.junk
    constructor
    · rintro ⟨m', hparse, hsame, -⟩
      rw [hread] at hparse
      cases hparse
      have hinit : (scanInt m.mReason.toList).getD m.mInitiatorId = m.mInitiatorId := hsame.initiator
      refine ⟨hm, ?_⟩
      intro n hn
      rwa [hn] at hinit
    · rintro ⟨-, hreason⟩
      have hinit : (scanInt m.mReason.toList).getD m.mInitiatorId = m.mInitiatorId := by
        cases hscan : scanInt m.mReason.toList with
        | none => rfl
        | some n => exact hreason n hscan
      refine ⟨_, hread, ⟨rfl, rfl, rfl, rfl, rfl, hinit, rfl, rfl, ?_⟩, ?_⟩
      · exact fun _ => m.received_swiOutport mem
      · intro Q s fd
        exact s.readableAtServer_print ⟨h.type, hm⟩ env mem fd
  · have hbad := parse_print_ptz h.type hm mem env.junk
    constructor
    · rintro ⟨m', hparse, -⟩
      rw [hbad] at hparse
      cases hparse
    · rintro ⟨hswitch, -⟩
      rw [hm] at hswitch
      cases hswitch

/-- The answer to a granted `SWITCH` arrives. -/
theorem round_trip_of_ok :
    (buildSwitchResponse ⟨1, 2, 3, .request, .switch, 77, fun _ => 4⟩ 200 "Ok" 5 (.uninit fun _ => 0)).Arrives
      (.uninit fun _ => 7) (Env.at 100) :=
  (round_trip_iff (.switch 200 "Ok" 5 _ rfl) _ (Env.at 100)).mpr ⟨rfl, fun n hn => by cases hn⟩

/-- **Two responses that do not arrive.** The answer to an accepted `PTZ` is refused where it arrives, and an
    answer to user 1 with the reason "3 trunks busy" is read as one to user 3. -/
theorem responses_do_not_arrive :
    ¬ (buildPtzResponse ⟨1, 2, 3, .request, .ptz, 77, fun _ => 4⟩ 200 "Ok" (.uninit fun _ => 0)).Arrives
        (.uninit fun _ => 0) (Env.at 100) ∧
    ¬ (buildSwitchResponse ⟨1, 2, 3, .request, .switch, 77, fun _ => 4⟩ 404 "3 trunks busy" 0
        (.uninit fun _ => 0)).Arrives (.uninit fun _ => 0) (Env.at 100) := by
  constructor
  · rintro ⟨m', hparse, -⟩
    have hbad := parse_print_ptz
      (m := buildPtzResponse ⟨1, 2, 3, .request, .ptz, 77, fun _ => 4⟩ 200 "Ok" (.uninit fun _ => 0))
      rfl rfl (.uninit fun _ => 0) (Env.at 100).junk
    rw [hbad] at hparse
    cases hparse
  · rintro ⟨m', hparse, hsame, -⟩
    rw [AgentResponse.parse_print ⟨rfl, rfl⟩] at hparse
    cases hparse
    exact absurd hsame.initiator (by decide)

end AgentResponse

end Mcc
