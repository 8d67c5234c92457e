import Mcc.Model.System

/-!
# `Correctness.Codec` — a `SWITCH` reads back as what was printed

The printer and the parser of requests and of responses, composed. A parse writes into memory that is there
already, so what comes back is the printed message except for the words of the content that are not printed,
and except for the initiator of a response, which a reason that starts with a number overwrites.

`readableAtClient_print` and `readableAtServer_print` carry this to the two `onReadable`s: what a peer
printed reaches the handler.
-/

namespace Mcc

open Xml

@[simp] theorem orFail_some {α μ : Type} (m : μ) (a : α) : orFail m (some a) = .ok a := rfl

theorem ok_bind {α β ε : Type} (a : α) (f : α → Except ε β) : (Except.ok a >>= f) = f a := rfl

/-- **The header.** Six attributes that hold numbers are read, whatever the memory held. -/
theorem parseHeader_holds {root : Element} {kind : MessageType} {type method seq source target initiator : Int}
    (hkind : MessageType.ofInt type = kind) (htype : root.Holds "type" type)
    (hmethod : root.Holds "method" method) (hseq : root.Holds "seq" seq) (hfrom : root.Holds "from" source)
    (hto : root.Holds "to" target) (hinit : root.Holds "initiator" initiator) (mem : AgentMessage) :
    parseHeader kind root mem =
      .ok ⟨initiator, source, target, kind, .ofInt method, seq, mem.mContent⟩ := by
  unfold parseHeader
  simp only [htype.attrInt, hmethod.attrInt, hseq.attrInt, hfrom.attrInt, hto.attrInt, hinit.attrInt,
    orFail_some, ok_bind]
  rw [if_neg (not_not.mpr hkind), hkind]
  rfl

/-- The root of either kind of text. -/
def root (m : AgentMessage) (children : List Node) : Element := ⟨"XML_MESSAGE", headerAttrs m, children⟩

/-- **A printed header.** Every field but the content is read back, if the method is one that prints as
    itself. -/
theorem parseHeader_root {m mem : AgentMessage} {kind : MessageType} {children : List Node}
    (hkind : MessageType.ofInt kind.toInt = kind) (htype : m.mType = kind)
    (hmethod : MessageMethod.ofInt m.mMethod.toInt = m.mMethod) :
    parseHeader kind (root m children) mem = .ok { m with mContent := mem.mContent } := by
  have htype' : (root m children).Holds "type" m.mType.toInt := Element.holds_decimal rfl
  have hmethod' : (root m children).Holds "method" m.mMethod.toInt := Element.holds_decimal rfl
  have hseq : (root m children).Holds "seq" m.mId := Element.holds_decimal rfl
  have hfrom : (root m children).Holds "from" m.mFrom := Element.holds_decimal rfl
  have hto : (root m children).Holds "to" m.mTo := Element.holds_decimal rfl
  have hinit : (root m children).Holds "initiator" m.mInitiatorId := Element.holds_decimal rfl
  rw [htype] at htype'
  rw [parseHeader_holds hkind htype' hmethod' hseq hfrom hto hinit mem, hmethod, ← htype]

/-! ## Requests -/

/-- `User` and `Camera` elements that hold numbers are read. -/
theorem parseUserCamera_eq (root user camera : Element) {u c : Int}
    (huser : root.firstChildElement "User" = some user) (hu : user.Holds "id" u)
    (hcamera : root.firstChildElement "Camera" = some camera) (hc : camera.Holds "id" c)
    (localid : Int) (m : AgentMessage) :
    parseUserCamera root localid m = .ok { m with mContent := (m.mContent.set 0 u).set 1 c } := by
  unfold parseUserCamera
  simp only [huser, hcamera, orFail_some, ok_bind, hu.readInt, hc.readInt]
  rfl

theorem parseRequestBody_switch {m : AgentMessage} (h : m.mMethod = .switch) (junk : ℕ → Int)
    (root : Element) : parseRequestBody junk root m = parseUserCamera root (junk 0) m := by
  unfold parseRequestBody
  rw [h]

/-- What is read of a printed request into memory that holds `mem`. -/
def AgentMessage.received (m mem : AgentRequest) : AgentRequest :=
  { m with mContent := (mem.mContent.set 0 m.mContent.swiUserid).set 1 m.mContent.swiCameraid }

theorem AgentMessage.received_swiUserid (m mem : AgentRequest) :
    (m.received mem).mContent.swiUserid = m.mContent.swiUserid := by
  simp [AgentMessage.received, Content.swiUserid]

theorem AgentMessage.received_swiCameraid (m mem : AgentRequest) :
    (m.received mem).mContent.swiCameraid = m.mContent.swiCameraid := by
  simp [AgentMessage.received, Content.swiCameraid]

/-- **A printed `SWITCH` reads back.** -/
theorem AgentRequest.parse_print {m : AgentRequest} (h : m.IsSwitch) (mem : AgentRequest)
    (junk : ℕ → Int) : AgentRequest.parse mem junk (AgentRequest.print m) = .ok (true, m.received mem) := by
  let e := root m
    [intLeaf "User" [("id", m.mContent.swiUserid)], intLeaf "Camera" [("id", m.mContent.swiCameraid)]]
  have hprint : AgentRequest.print m = xmlDocument e.attrs e.children := by
    unfold AgentRequest.print
    rw [h.method]
    rfl
  have hheader : parseHeader .request e mem = .ok { m with mContent := mem.mContent } :=
    parseHeader_root rfl h.type (by rw [h.method]; rfl)
  have hbody : parseRequestBody junk e { m with mContent := mem.mContent } = .ok (m.received mem) := by
    refine (parseRequestBody_switch (m := { m with mContent := mem.mContent }) h.method junk e).trans ?_
    exact parseUserCamera_eq e ⟨"User", [("id", decimal m.mContent.swiUserid)], []⟩
      ⟨"Camera", [("id", decimal m.mContent.swiCameraid)], []⟩ rfl (Element.holds_decimal rfl) rfl
      (Element.holds_decimal rfl) _ _
  have hroot : rootElement (xmlDocument e.attrs e.children) = some e := rfl
  unfold AgentRequest.parse
  simp only [hprint, hroot, hheader, ok_bind]
  rw [hbody]
  rfl

/-! ## Responses -/

/-- `Status` and `Connection` elements that hold what they should are read. -/
theorem parseResponseBody_eq (root status connection : Element) {code outport : Int} {reason : Text}
    (hstatus : root.firstChildElement "Status" = some status)
    (hcode : status.Holds "code" code) (hreason : status.attr "reason" = some reason)
    (hconnection : root.firstChildElement "Connection" = some connection)
    (hport : connection.Holds "outport" outport) (junk : ℕ → Int) {m : AgentResponse}
    (hmethod : m.mMethod = .switch) :
    parseResponseBody junk root m = .ok { m with
      mStatusCode := code, mReason := String.ofList reason
      mInitiatorId := (scanInt reason).getD m.mInitiatorId
      mContent := m.mContent.set 2 outport } := by
  have hread : status.readInt "reason" m.mInitiatorId = (scanInt reason).getD m.mInitiatorId := by
    unfold Element.readInt Element.attrInt
    rw [hreason]
    rfl
  unfold parseResponseBody
  simp only [hstatus, hcode.attrInt, hreason, hread, orFail_some, ok_bind, hmethod, hconnection,
    hport.readInt]
  rfl

/-- What is read of a printed response into memory that holds `mem`. -/
def AgentResponse.received (m mem : AgentResponse) : AgentResponse :=
  { m with
    mInitiatorId := (scanInt m.mReason.toList).getD m.mInitiatorId
    mContent := mem.mContent.set 2 m.mContent.swiOutport }

theorem AgentResponse.received_swiOutport (m mem : AgentResponse) :
    (m.received mem).mContent.swiOutport = m.mContent.swiOutport := by
  simp [AgentResponse.received, Content.swiOutport]

/-- **A printed answer reads back.** -/
theorem AgentResponse.parse_print {m : AgentResponse} (h : m.IsSwitch) (mem : AgentResponse)
    (junk : ℕ → Int) : AgentResponse.parse mem junk m.print = .ok (true, m.received mem) := by
  let e := root m.toAgentMessage
    [.element "Status" [("code", decimal m.mStatusCode), ("reason", m.mReason.toList)] [],
     intLeaf "Connection" [("outport", m.mContent.swiOutport)]]
  have hprint : m.print = xmlDocument e.attrs e.children := by
    unfold AgentResponse.print
    rw [if_pos h.method]
    rfl
  have hheader : parseHeader .response e mem.toAgentMessage =
      .ok { m.toAgentMessage with mContent := mem.mContent } :=
    parseHeader_root rfl h.type (by rw [h.method]; rfl)
  have hbody : parseResponseBody junk e
      { mem with toAgentMessage := { m.toAgentMessage with mContent := mem.mContent } } =
      .ok (m.received mem) := by
    have heq := parseResponseBody_eq e
      ⟨"Status", [("code", decimal m.mStatusCode), ("reason", m.mReason.toList)], []⟩
      ⟨"Connection", [("outport", decimal m.mContent.swiOutport)], []⟩ rfl (Element.holds_decimal rfl) rfl rfl
      (Element.holds_decimal rfl) junk
      (m := { mem with toAgentMessage := { m.toAgentMessage with mContent := mem.mContent } }) h.method
    rw [String.ofList_toList] at heq
    exact heq
  have hroot : rootElement (xmlDocument e.attrs e.children) = some e := rfl
  unfold AgentResponse.parse
  simp only [hprint, hroot, hheader]
  rw [hbody]
  rfl

/-! ## Lists of children -/

namespace Content

/-- The list of children with `ids` in it from index `i` on. -/
def fill (c : Content) : ℕ → List Int → Content
  | _, [] => c
  | i, id :: ids => fill (c.set (i + 2) id) (i + 1) ids

/-- The words before the list, and its first `i` members, stay. -/
theorem fill_lt {j : ℕ} : ∀ {ids : List Int} {c : Content} {i : ℕ}, j < i + 2 → fill c i ids j = c j := by
  intro ids
  induction ids with
  | nil => exact fun _ => rfl
  | cons id ids ih =>
    intro c i hj
    have hne : j ≠ i + 2 := by omega
    show fill (c.set (i + 2) id) (i + 1) ids j = c j
    rw [ih (by omega), set_ne c id hne]

/-- The list is there. -/
theorem regChild_fill :
    ∀ {ids : List Int} {c : Content} {i k : ℕ} (hk : k < ids.length),
      (fill c i ids).regChild (i + k) = ids[k] := by
  intro ids
  induction ids with
  | nil => exact fun hk => absurd hk (Nat.not_lt_zero _)
  | cons id ids ih =>
    intro c i k hk
    cases k with
    | zero =>
      show fill (c.set (i + 2) id) (i + 1) ids (i + 2) = id
      rw [fill_lt (by omega), set_self]
    | succ k =>
      have hrest := ih (c := c.set (i + 2) id) (i := i + 1) (Nat.lt_of_succ_lt_succ hk)
      rw [List.getElem_cons_succ, ← hrest]
      show fill (c.set (i + 2) id) (i + 1) ids (i + (k + 1) + 2) = _
      congr 1
      omega

end Content

/-- The elements the loop over the `Item`s visits. -/
def registerItems (root : Element) : List Element :=
  ((root.firstChildElement "ChildMatrix").map (·.childElementsFrom "Item")).getD []

/-- An `Item` as TinyXML reads it. -/
def item (id : Int) : Element := ⟨"Item", [("id", decimal id)], []⟩

theorem items_hold (ids : List Int) :
    List.Forall₂ (fun item id => item.Holds "id" id) (ids.map item) ids := by
  rw [List.forall₂_map_left_iff]
  exact List.forall₂_same.mpr fun _ _ => Element.holds_decimal rfl

/-- **The `Item` loop** stores the ids in order and counts them, as long as they fit. -/
theorem parseItems_eq (m : AgentMessage) {items : List Element} {ids : List Int}
    (h : List.Forall₂ (fun item id => item.Holds "id" id) items ids) :
    ∀ (c : Content) (i : ℕ) (matrixid : Int), i + ids.length ≤ maxChildrenNum →
      parseItems { m with mContent := c } matrixid i items =
        .ok { m with mContent := (c.fill i ids).set 1 ((i + ids.length : ℕ) : Int) } := by
  induction h with
  | nil => exact fun _ _ _ _ => rfl
  | @cons item id items ids hid _ ih =>
    intro c i matrixid hlen
    rw [List.length_cons] at hlen
    have hi : i < maxChildrenNum := by omega
    have hcount : i + 1 + ids.length = i + (id :: ids).length := by
      rw [List.length_cons]
      omega
    unfold parseItems
    rw [if_pos hi]
    simp only [hid.readInt]
    rw [ih (c.set (i + 2) id) (i + 1) id (by omega), hcount]
    rfl

namespace ResourceManager

/-- `buildRegister` stores the ids in order, as long as they fit. -/
theorem storeChildren_eq :
    ∀ (ids : List Int) (c : Content) (j : ℕ), j + ids.length ≤ maxChildrenNum →
      storeChildren c j ids = .ok (c.fill j ids, j + ids.length) := by
  intro ids
  induction ids with
  | nil => exact fun _ _ _ => rfl
  | cons id ids ih =>
    intro c j hlen
    rw [List.length_cons] at hlen
    have hj : j < maxChildrenNum := by omega
    have hcount : j + 1 + ids.length = j + (id :: ids).length := by
      rw [List.length_cons]
      omega
    unfold storeChildren
    rw [if_pos hj, ih _ _ (by omega), hcount]
    rfl

/-- A longer list overruns the array. -/
theorem storeChildren_fault :
    ∀ (ids : List Int) (c : Content) (j : ℕ), j ≤ maxChildrenNum → maxChildrenNum < j + ids.length →
      storeChildren c j ids = .error .outOfBounds := by
  intro ids
  induction ids with
  | nil =>
    intro c j hj hlen
    rw [List.length_nil] at hlen
    omega
  | cons id ids ih =>
    intro c j hj hlen
    rw [List.length_cons] at hlen
    unfold storeChildren
    by_cases hlt : j < maxChildrenNum
    · rw [if_pos hlt]
      exact ih _ _ (by omega) (by omega)
    · rw [if_neg hlt]

/-! ## What a manager announces -/

variable {Q : Type}

/-- The children and the matrices below them, in the order they are announced to the parent. -/
def announced (children : IntMap MatrixInfo) : List Int :=
  (children.toList.map Prod.snd).flatMap fun m => m.mId :: m.mChildset.toList

/-- The `REGISTER` that announces them. -/
def announcement (env : Env) (s : ResourceManager Q) : AgentRequest :=
  let request := buildRegRequest s.mMatrixId 60 (AgentMessage.uninit env.junk)
  let ids := announced s.mChildMatrixs
  { request with mContent := (request.mContent.fill 0 ids).set 1 ids.length }

/-- **`buildRegister` announces the children, and overruns the array where there are too many.** -/
theorem buildRegister_eq (env : Env) (s : ResourceManager Q) :
    s.buildRegister env =
      if (announced s.mChildMatrixs).length ≤ maxChildrenNum then .ok (s.announcement env)
      else .error .outOfBounds := by
  unfold buildRegister
  by_cases hfits : (announced s.mChildMatrixs).length ≤ maxChildrenNum
  · rw [if_pos hfits]
    have hstore := storeChildren_eq (announced s.mChildMatrixs)
      (buildRegRequest s.mMatrixId 60 (AgentMessage.uninit env.junk)).mContent 0
      ((Nat.zero_add _).le.trans hfits)
    rw [Nat.zero_add] at hstore
    unfold announced at hstore
    simp only [hstore]
    rfl
  · rw [if_neg hfits]
    have hstore := storeChildren_fault (announced s.mChildMatrixs)
      (buildRegRequest s.mMatrixId 60 (AgentMessage.uninit env.junk)).mContent 0
      (Nat.zero_le _) (by omega)
    unfold announced at hstore
    simp only [hstore]
    rfl

theorem buildRegister_error {env : Env} {s : ResourceManager Q} {f : Fault}
    (h : s.buildRegister env = .error f) : f = .outOfBounds := by
  rw [buildRegister_eq] at h
  split at h
  · cases h
  · cases h
    rfl

variable [PriorityQueue Q User]

/-! ## The two ends of a connection -/

/-- What the parent printed reaches `onClientRxRequest`. -/
theorem readableAtClient_print {m : AgentRequest} (h : m.IsSwitch) (env : Env) (mem : AgentRequest)
    (s : ResourceManager Q) :
    s.readableAtClient env mem (AgentRequest.print m) = s.onClientRxRequest env (m.received mem) := by
  unfold readableAtClient
  rw [AgentRequest.parse_print h]
  rfl

omit [PriorityQueue Q User] in
/-- What a child printed reaches `onServerRxResponse`. -/
theorem readableAtServer_print {m : AgentResponse} (h : m.IsSwitch) (env : Env) (mem : AgentResponse)
    (s : ResourceManager Q) (fd : Int) :
    s.readableAtServer env mem fd m.print = s.onServerRxResponse (m.received mem) := by
  unfold readableAtServer
  rw [AgentResponse.parse_print h]
  rfl

end ResourceManager

end Mcc
