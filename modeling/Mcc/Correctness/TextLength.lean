import Mcc.Correctness.RoundTrip
import Mcc.Correctness.Trunk
import Mcc.Model.Framing

/-!
# `Correctness.TextLength` — printed messages and the 1024 bytes they are copied into

`print` copies its text with `strcpy` into the buffer of its caller. The two `Send`s and the two `operator<<`
have 1024 bytes each. What a text takes is literal text and the widths of its numbers, so a `SWITCH`, a `PTZ`
and every answer of the manager fit with room to spare. A `REGISTER` has up to 50 children in it, each with 15
bytes around its id: `registerSize` says how long it is.

## Contents
- **Sizes.** `size_headText`, `size_text`, and the bounds for fields that are `int`s.
- **The log.** Which messages `operator<<` prints: `AgentRequest.log_ok`, `AgentResponse.log_ok`.
- **Main result.** `printed_fits_iff`; `register_fits_of_length`: 29 children always fit.
-/

namespace Mcc

open Xml Transition

/-- The text and its terminating zero fit the buffer. -/
def FitsObuf (m : Message) : Prop := m.bytes.length + 1 ≤ obufSize

instance (m : Message) : Decidable (FitsObuf m) := inferInstanceAs (Decidable (_ ≤ _))

theorem length_bytes (m : Message) : m.bytes.length = size m.text := rfl

/-! ## Widths -/

/-- An `int` takes 11 characters at most. -/
theorem width_int {n : Int} (h : IsInt n) : width n ≤ 11 := by
  unfold IsInt at h
  have hle := width_le (n := n) (k := 10) (by omega) (by decide)
  split at hle
  · exact hle
  · omega

/-- The fields of the header are `int`s. -/
structure AgentMessage.HeaderInts (m : AgentMessage) : Prop where
  type : IsInt m.mType.toInt
  method : IsInt m.mMethod.toInt
  id : IsInt m.mId
  source : IsInt m.mFrom
  target : IsInt m.mTo
  initiator : IsInt m.mInitiatorId

/-- All fields are. -/
structure AgentMessage.Ints (m : AgentMessage) : Prop extends m.HeaderInts where
  content : ∀ i, IsInt (m.mContent i)

/-- What the numbers of the header take. -/
def AgentMessage.headWidth (m : AgentMessage) : ℕ :=
  width m.mType.toInt + width m.mMethod.toInt + width m.mId + width m.mFrom + width m.mTo + width m.mInitiatorId

theorem AgentMessage.HeaderInts.headWidth_le {m : AgentMessage} (h : m.HeaderInts) : m.headWidth ≤ 66 := by
  have htype := width_int h.type
  have hmethod := width_int h.method
  have hid := width_int h.id
  have hsource := width_int h.source
  have htarget := width_int h.target
  have hinitiator := width_int h.initiator
  unfold AgentMessage.headWidth
  omega

/-! ## Sizes -/

theorem size_headText (m : AgentMessage) : size (headText m) = 107 + m.headWidth := by
  have hdecl : size ('<' :: "?xml version=\"1.0\" encoding=\"UTF-8\"?>\r\n<XML_MESSAGE type=\"".toList) = 59 := by
    simp [size, Char.utf8Size]
  have hmethod : size "\" method=\"".toList = 10 := by simp [size, Char.utf8Size]
  have hseq : size "\" seq=\"".toList = 7 := by simp [size, Char.utf8Size]
  have hfrom : size "\" from=\"".toList = 8 := by simp [size, Char.utf8Size]
  have hto : size "\" to=\"".toList = 6 := by simp [size, Char.utf8Size]
  have hinitiator : size "\" initiator=\"".toList = 13 := by simp [size, Char.utf8Size]
  have hend : size "\">\r\n".toList = 4 := by simp [size, Char.utf8Size]
  unfold headText AgentMessage.headWidth
  simp only [size_append, size_decimal, hdecl, hmethod, hseq, hfrom, hto, hinitiator, hend]
  omega

/-- What a `REGISTER` takes: 173 bytes, its numbers, and 15 bytes around the id of each child. -/
def AgentMessage.registerSize (m : AgentRequest) : ℕ :=
  173 + m.headWidth + width m.mContent.regExpire + (m.children.map fun id => 15 + width id).sum

/-- **The size of a request**, by its method. -/
theorem AgentRequest.size_text (m : AgentRequest) :
    size (AgentRequest.text m) = match m.mMethod with
      | .register => m.registerSize
      | .switch => 155 + m.headWidth + width m.mContent.swiUserid + width m.mContent.swiCameraid
      | .ptz => 191 + m.headWidth + width m.mContent.ptzUserid + width m.mContent.ptzCameraid +
          width m.mContent.ptzDirection + width m.mContent.ptzAngle
      | .other _ => 0 := by
  have huser : size "<User id=\"".toList = 10 := by simp [size, Char.utf8Size]
  have hcamera : size "\"/>\r\n<Camera id=\"".toList = 17 := by simp [size, Char.utf8Size]
  have hend : size "\"/>\r\n</XML_MESSAGE>\r\n".toList = 21 := by simp [size, Char.utf8Size]
  unfold AgentRequest.text
  cases m.mMethod with
  | register =>
    have hexpire : size "<Expire time=\"".toList = 14 := by simp [size, Char.utf8Size]
    have hlist : size "\"/>\r\n<ChildMatrix>\r\n".toList = 20 := by simp [size, Char.utf8Size]
    have hitem : size "<Item id=\"".toList = 10 := by simp [size, Char.utf8Size]
    have hitemEnd : size "\"/>\r\n".toList = 5 := by simp [size, Char.utf8Size]
    have hlistEnd : size "</ChildMatrix>\r\n</XML_MESSAGE>\r\n".toList = 32 := by simp [size, Char.utf8Size]
    have hchildren : (m.children.map fun id => 15 + width id) =
        (List.range m.mContent.regChildrenNum.toNat).map fun i => 10 + width (m.mContent.regChild i) + 5 := by
      unfold AgentMessage.children
      rw [List.map_map]
      apply List.map_congr_left
      intro i _
      show 15 + width (m.mContent.regChild i) = 10 + width (m.mContent.regChild i) + 5
      omega
    unfold AgentMessage.registerSize
    simp only [size_append, size_decimal, size_flatMap, size_headText, hexpire, hlist, hitem, hitemEnd, hlistEnd,
      hchildren]
    omega
  | switch =>
    simp only [size_append, size_decimal, size_headText, huser, hcamera, hend]
    omega
  | ptz =>
    have hoperation : size "\"/>\r\n<Operation direction=\"".toList = 27 := by simp [size, Char.utf8Size]
    have hangle : size "\" angle=\"".toList = 9 := by simp [size, Char.utf8Size]
    simp only [size_append, size_decimal, size_headText, huser, hcamera, hoperation, hangle, hend]
    omega
  | other n => rfl

/-- **The size of a response**: 152 bytes, its numbers and its reason, and 26 more with the port of a `SWITCH`. -/
theorem AgentResponse.size_text (m : AgentResponse) :
    size m.text = 152 + m.headWidth + width m.mStatusCode + size m.mReason.toList +
      if m.mMethod = .switch then 26 + width m.mContent.swiOutport else 0 := by
  have hstatus : size "<Status code=\"".toList = 14 := by simp [size, Char.utf8Size]
  have hreason : size "\" reason=\"".toList = 10 := by simp [size, Char.utf8Size]
  have hclose : size "\"/>\r\n".toList = 5 := by simp [size, Char.utf8Size]
  have hend : size "</XML_MESSAGE>\r\n".toList = 16 := by simp [size, Char.utf8Size]
  have hopen : size "<Connection outport=\"".toList = 21 := by simp [size, Char.utf8Size]
  have hconnection : size (if m.mMethod = .switch then
      "<Connection outport=\"".toList ++ decimal m.mContent.swiOutport ++ "\"/>\r\n".toList else []) =
      if m.mMethod = .switch then 26 + width m.mContent.swiOutport else 0 := by
    by_cases hm : m.mMethod = .switch
    · simp only [if_pos hm, size_append, size_decimal, hopen, hclose]
      omega
    · rw [if_neg hm, if_neg hm]
      rfl
  unfold AgentResponse.text
  rw [size_append, size_append, hconnection]
  simp only [size_append, size_decimal, size_headText, hstatus, hreason, hclose, hend]
  omega

/-- The length of a response is bounded by that of its reason. -/
theorem AgentResponse.size_text_le {m : AgentResponse} (h : m.HeaderInts) (hcode : IsInt m.mStatusCode)
    (hport : m.mMethod = .switch → IsInt m.mContent.swiOutport) : size m.text ≤ 266 + size m.mReason.toList := by
  have hhead := h.headWidth_le
  have hwidth := width_int hcode
  rw [AgentResponse.size_text]
  by_cases hm : m.mMethod = .switch
  · have hwidth' := width_int (hport hm)
    rw [if_pos hm]
    omega
  · rw [if_neg hm]
    omega

/-! ## Requests -/

/-- **A request fits** if it is no `REGISTER`, or if that is not too long. -/
theorem AgentRequest.fits_iff {m : AgentRequest} (h : m.Ints) :
    FitsObuf (.request m) ↔ (m.mMethod = .register → m.registerSize < obufSize) := by
  have hhead := h.headWidth_le
  have hsize := AgentRequest.size_text m
  have hw := fun i => width_int (h.content i)
  unfold FitsObuf
  rw [length_bytes]
  show size (AgentRequest.text m) + 1 ≤ obufSize ↔ _
  rw [hsize]
  cases m.mMethod with
  | register => simp
  | switch =>
    have h0 := hw 0
    have h1 := hw 1
    simp only [Content.swiUserid, Content.swiCameraid, obufSize]
    simp
    omega
  | ptz =>
    have h0 := hw 0
    have h1 := hw 1
    have h2 := hw 2
    have h3 := hw 3
    simp only [Content.ptzUserid, Content.ptzCameraid, Content.ptzDirection, Content.ptzAngle, obufSize]
    simp
    omega
  | other n => simp [obufSize]

/-- 29 children fit, whatever the fields hold. -/
theorem AgentMessage.register_fits_of_length {m : AgentRequest} (h : m.Ints) (hlen : m.children.length ≤ 29) :
    m.registerSize < obufSize := by
  have hhead := h.headWidth_le
  have hexpire : width m.mContent.regExpire ≤ 11 := width_int (h.content 0)
  have hsum : (m.children.map fun id => 15 + width id).sum ≤ m.children.length * 26 := by
    have hle : ∀ w ∈ m.children.map (fun id => 15 + width id), w ≤ 26 := by
      intro w hw
      obtain ⟨id, hid, rfl⟩ := List.mem_map.mp hw
      obtain ⟨i, -, rfl⟩ := List.mem_map.mp hid
      have hchild := width_int (h.content (i + 2))
      show 15 + width (m.mContent (i + 2)) ≤ 26
      omega
    simpa using List.sum_le_card_nsmul _ 26 hle
  unfold AgentMessage.registerSize obufSize
  omega

/-! ## The log -/

theorem MessageType.isInt_toInt_asInt (t : MessageType) : IsInt t.asInt.toInt := by
  cases t with
  | request => decide
  | response => decide
  | other n => exact isInt_asInt n

theorem MessageMethod.isInt_toInt_asInt (method : MessageMethod) : IsInt method.asInt.toInt := by
  cases method with
  | register => decide
  | switch => decide
  | ptz => decide
  | other n => exact isInt_asInt n

theorem AgentMessage.ints_asInts (m : AgentMessage) : m.asInts.Ints :=
  ⟨⟨m.mType.isInt_toInt_asInt, m.mMethod.isInt_toInt_asInt, isInt_asInt _, isInt_asInt _, isInt_asInt _,
    isInt_asInt _⟩, fun _ => isInt_asInt _⟩

theorem MessageType.asInt_eq {t : MessageType} (h : IsInt t.toInt) : t.asInt = t := by
  cases t with
  | request => rfl
  | response => rfl
  | other n => exact congrArg MessageType.other (Mcc.asInt_eq h)

theorem MessageMethod.asInt_eq {method : MessageMethod} (h : IsInt method.toInt) : method.asInt = method := by
  cases method with
  | register => rfl
  | switch => rfl
  | ptz => rfl
  | other n => exact congrArg MessageMethod.other (Mcc.asInt_eq h)

/-- A word that is written leaves the others what they were. -/
theorem Content.isInt_set {c : Content} (h : ∀ i, IsInt (c i)) {v : Int} (hv : IsInt v) (i : ℕ) :
    ∀ j, IsInt (c.set i v j) := by
  intro j
  by_cases hj : j = i
  · rw [hj, Content.set_self]
    exact hv
  · rw [Content.set_ne _ _ hj]
    exact h j

/-- An unknown method stays unknown. -/
theorem MessageMethod.eq_of_asInt {method known : MessageMethod} (h : method.asInt = known)
    (hknown : ∀ n, known ≠ .other n) : method = known := by
  cases method with
  | register => exact h
  | switch => exact h
  | ptz => exact h
  | other n => exact absurd h.symm (hknown _)

/-- Fields that are `int`s are printed as they are. -/
theorem AgentMessage.asInts_eq {m : AgentMessage} (h : m.Ints) : m.asInts = m := by
  have hcontent : (fun i => asInt (m.mContent i)) = m.mContent := funext fun i => asInt_eq (h.content i)
  unfold AgentMessage.asInts
  rw [asInt_eq h.initiator, asInt_eq h.source, asInt_eq h.target, MessageType.asInt_eq h.type,
    MessageMethod.asInt_eq h.method, asInt_eq h.id, hcontent]

theorem AgentResponse.asInts_eq {m : AgentResponse} (h : m.Ints) (hcode : IsInt m.mStatusCode) : m.asInts = m := by
  unfold AgentResponse.asInts
  rw [AgentMessage.asInts_eq h, asInt_eq hcode]

/-- A request of a known method is printed if it is short enough. -/
theorem AgentRequest.log_eq {m : AgentRequest}
    (h : m.mMethod = .register ∨ m.mMethod = .switch ∨ m.mMethod = .ptz) (obuf : ℕ → UInt8) :
    AgentRequest.log obuf m =
      if size (AgentRequest.text m.asInts) < obufSize then .ok () else .error .outOfBounds := by
  unfold AgentRequest.log
  rcases h with hm | hm | hm
  · rw [hm]
  · rw [hm]
  · rw [hm]

/-- A `SWITCH` or a `PTZ` always is, whatever its fields hold. -/
theorem AgentRequest.log_ok {m : AgentRequest} (h : m.mMethod = .switch ∨ m.mMethod = .ptz) (obuf : ℕ → UInt8) :
    AgentRequest.log obuf m = .ok () := by
  have hfits : FitsObuf (.request m.asInts) := by
    apply (AgentRequest.fits_iff m.ints_asInts).mpr
    intro hreg
    have hmethod : m.asInts.mMethod = m.mMethod.asInt := rfl
    rw [hmethod] at hreg
    rcases h with hm | hm
    · rw [hm] at hreg
      cases hreg
    · rw [hm] at hreg
      cases hreg
  rw [AgentRequest.log_eq (Or.inr h)]
  exact if_pos hfits

/-- Of a response only the reason can be too long. -/
theorem AgentResponse.log_ok {m : AgentResponse} (h : size m.mReason.toList ≤ 64) : m.log = .ok () := by
  have hints := m.toAgentMessage.ints_asInts
  have hle := AgentResponse.size_text_le (m := m.asInts) hints.toHeaderInts (isInt_asInt _)
    fun _ => hints.content 2
  have hreason : m.asInts.mReason = m.mReason := rfl
  rw [hreason] at hle
  unfold AgentResponse.log obufSize
  rw [if_pos (by omega)]

/-! ## Answers -/

namespace ResourceManager

variable {Q : Type}

theorem isInt_response : IsInt MessageType.response.toInt := by decide

/-- What `switchAnswer` and `ptzAnswer` write fits, if the reason is short. -/
theorem switchAnswer_fits {request : AgentRequest} (h : request.Ints) (env : Env) {statuscode outport : Int}
    {reason : String} (hcode : IsInt statuscode) (hport : IsInt outport) (hreason : size reason.toList ≤ 64) :
    FitsObuf (.response (request.switchAnswer env statuscode reason outport)) := by
  have hints : (request.switchAnswer env statuscode reason outport).HeaderInts :=
    ⟨isInt_response, h.method, h.id, h.target, h.source, h.initiator⟩
  have hport' : (request.switchAnswer env statuscode reason outport).mContent.swiOutport = outport := by
    simp [AgentMessage.switchAnswer, buildSwitchResponse, Content.swiOutport]
  have hsize := AgentResponse.size_text_le hints hcode fun _ => by rwa [hport']
  have hreason' : (request.switchAnswer env statuscode reason outport).mReason = reason := rfl
  rw [hreason'] at hsize
  unfold FitsObuf obufSize
  rw [length_bytes]
  show size (request.switchAnswer env statuscode reason outport).text + 1 ≤ 1024
  omega

theorem ptzAnswer_fits {request : AgentRequest} (h : request.Ints) (hmethod : request.mMethod = .ptz) (env : Env)
    {statuscode : Int} {reason : String} (hcode : IsInt statuscode) (hreason : size reason.toList ≤ 64) :
    FitsObuf (.response (request.ptzAnswer env statuscode reason)) := by
  have hints : (request.ptzAnswer env statuscode reason).HeaderInts :=
    ⟨isInt_response, h.method, h.id, h.target, h.source, h.initiator⟩
  have hmethod' : (request.ptzAnswer env statuscode reason).mMethod = .ptz := hmethod
  have hsize := AgentResponse.size_text_le hints hcode fun hswitch => by
    rw [hmethod'] at hswitch
    cases hswitch
  have hreason' : (request.ptzAnswer env statuscode reason).mReason = reason := rfl
  rw [hreason'] at hsize
  unfold FitsObuf obufSize
  rw [length_bytes]
  show size (request.ptzAnswer env statuscode reason).text + 1 ≤ 1024
  omega

variable [PriorityQueue Q User]

/-- **Every answer of the manager fits.** -/
theorem answers_fit {env : Env} {s s' : ResourceManager Q} {request : AgentRequest} {out : List Action}
    (hints : request.Ints) (hports : ∀ t ∈ s.mTrunks, IsInt t.mOutport)
    (h : Step s (⟨env, .clientRequest request⟩, out) s') {response : AgentResponse}
    (hr : .clientRespond response ∈ out) : FitsObuf (.response response) := by
  have hpurged : ∀ {i : ℕ} {t : Trunk Q}, (purgeTrunks env s.mTrunks)[i]? = some t → IsInt t.mOutport := by
    intro i t ht
    obtain ⟨t₀, ht₀, rfl⟩ := of_getElem?_purgeTrunks ht
    rw [Trunk.updateUsers_mOutport]
    exact hports t₀ (List.mem_of_getElem? ht₀)
  cases h.clientRequest with
  | ignored => cases hr
  | switch _ hout =>
    cases hout with
    | busy =>
      obtain rfl : response = _ := by simpa using hr
      exact switchAnswer_fits hints env (by decide) (by decide) (by decide)
    | granted _ ht =>
      obtain rfl : response = _ := by simpa using hr
      exact switchAnswer_fits hints env (by decide) (hpurged ht) (by decide)
    | noCamera _ ht =>
      obtain rfl : response = _ := by simpa using hr
      exact switchAnswer_fits hints env (by decide) (hpurged ht) (by decide)
    | noMatrix _ ht =>
      obtain rfl : response = _ := by simpa using hr
      exact switchAnswer_fits hints env (by decide) (hpurged ht) (by decide)
    | forwarded => simp at hr
  | ptz hmethod hout =>
    cases hout with
    | noCamera =>
      obtain rfl : response = _ := by simpa using hr
      exact ptzAnswer_fits hints hmethod env (by decide) (by decide)
    | accepted =>
      obtain rfl : response = _ := by simpa using hr
      exact ptzAnswer_fits hints hmethod env (by decide) (by decide)
    | refused =>
      obtain rfl : response = _ := by simpa using hr
      exact ptzAnswer_fits hints hmethod env (by decide) (by decide)
    | noMatrix =>
      obtain rfl : response = _ := by simpa using hr
      exact ptzAnswer_fits hints hmethod env (by decide) (by decide)

/-! ## Main result -/

/-- **What fits the buffers.** Of the requests whose fields are `int`s, all but the `REGISTER`s longer than the
    buffer; and every answer the manager builds. -/
theorem printed_fits_iff {m : AgentRequest} (hints : m.Ints) (s : ResourceManager Q)
    (hports : ∀ t ∈ s.mTrunks, IsInt t.mOutport) :
    (FitsObuf (.request m) ↔ (m.mMethod = .register → m.registerSize < obufSize)) ∧
    ∀ env s' out, Step s (⟨env, .clientRequest m⟩, out) s' → ∀ response, .clientRespond response ∈ out →
      FitsObuf (.response response) :=
  ⟨AgentRequest.fits_iff hints, fun _ _ _ hstep _ => answers_fit hints hports hstep⟩

/-- Two children and their parent. -/
theorem printed_fits_register :
    FitsObuf (.request ⟨0, 2, 0, .request, .register, 0, fun i => if i = 1 then 2 else 60⟩) :=
  (printed_fits_iff ⟨⟨by decide, by decide, by decide, by decide, by decide, by decide⟩,
    fun i => by by_cases hi : i = 1 <;> simp [hi, IsInt]⟩
    (configured 0 1 1 [4] [1] [(1, 2)] : ResourceManager (List User)) (by decide)).1.mpr fun _ => by decide

/-- **50 children with ids of nine digits do not.** -/
theorem printed_overflow :
    ¬ ∀ m : AgentRequest, m.Ints → m.mMethod = .register → m.mContent.regChildrenNum ≤ maxChildrenNum →
      FitsObuf (.request m) := by
  intro h
  let m : AgentRequest := ⟨0, 2, 0, .request, .register, 0, fun i => if i = 1 then 50 else 123456789⟩
  have hints : m.Ints := ⟨⟨by decide, by decide, by decide, by decide, by decide, by decide⟩,
    fun i => by by_cases hi : i = 1 <;> simp [m, hi, IsInt]⟩
  have hlong := (AgentRequest.fits_iff hints).mp (h m hints rfl (by decide)) rfl
  have hchildren : m.children = List.replicate 50 123456789 := by decide
  have hwidth : width 123456789 = 9 := by decide
  unfold AgentMessage.registerSize obufSize at hlong
  rw [hchildren, List.map_replicate, List.sum_replicate, hwidth, smul_eq_mul] at hlong
  omega

end ResourceManager

end Mcc
