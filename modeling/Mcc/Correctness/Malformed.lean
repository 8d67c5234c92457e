import Mcc.Correctness.Codec

/-!
# `Correctness.Malformed` — how the two parsers end

Neither parser looks at the root before it uses it, and a parse that stops early leaves the fields it did not get
to as memory had them. What a parse of a given text can come to, in any memory, is said here for requests and for
responses: whether it can fault, when it accepts, and what the object then holds.

## Contents
- **Requests.** `parseHeader_ends`, `parseRequestBody_ends`, `parse_ends`.
- **Responses.** `parseResponse_ends`: which fields are read on the way to the reason.
- **Acceptable.** `acceptable_iff`: the texts that some memory makes requests.
-/

namespace Mcc

open Xml

/-! ## How a parse ends -/

/-- How a parse may end: with a fault only where `F`, with `return 1` only in an object that is `P`, and
    otherwise with a result that is `R`. -/
def Ends {μ α : Type} (F : Prop) (P : μ → Prop) (R : α → Prop) : Except (Stop μ) α → Prop
  | .ok a => R a
  | .error (.fail m) => P m
  | .error (.fault _) => F

theorem Ends.bind {μ α β : Type} {F : Prop} {P : μ → Prop} {R : α → Prop} {S : β → Prop}
    {x : Except (Stop μ) α} {f : α → Except (Stop μ) β} (hx : Ends F P R x)
    (hf : ∀ a, R a → Ends F P S (f a)) : Ends F P S (x >>= f) := by
  cases x with
  | ok a => exact hf a hx
  | error e =>
    cases e with
    | fail m => exact hx
    | fault f => exact hx

/-- `if((x = ...) == NULL) return 1;`, and what follows. -/
theorem Ends.orFail {μ α β : Type} {F : Prop} {P : μ → Prop} {S : β → Prop} {o : Option α} {m : μ}
    {f : α → Except (Stop μ) β} (hnone : o = none → P m) (hsome : ∀ a, o = some a → Ends F P S (f a)) :
    Ends F P S (Mcc.orFail m o >>= f) := by
  cases o with
  | none => exact hnone rfl
  | some a => exact hsome a rfl

theorem Ends.mono {μ α : Type} {F F' : Prop} {P P' : μ → Prop} {R R' : α → Prop} {x : Except (Stop μ) α}
    (h : Ends F P R x) (hF : F → F') (hP : ∀ m, P m → P' m) (hR : ∀ a, R a → R' a) : Ends F' P' R' x := by
  cases x with
  | ok a => exact hR a h
  | error e =>
    cases e with
    | fail m => exact hP m h
    | fault f => exact hF h

theorem MessageType.ofInt_eq_request {n : Int} : MessageType.ofInt n = .request ↔ n = 0 := by
  unfold MessageType.ofInt
  by_cases h0 : n = 0
  · simp [h0]
  · by_cases h1 : n = 1
    · simp [h1]
    · simp [h0, h1]

theorem MessageType.ofInt_eq_response {n : Int} : MessageType.ofInt n = .response ↔ n = 1 := by
  unfold MessageType.ofInt
  by_cases h0 : n = 0
  · simp [h0]
  · by_cases h1 : n = 1
    · simp [h1]
    · simp [h0, h1]

theorem MessageMethod.ofInt_eq_register {n : Int} : MessageMethod.ofInt n = .register ↔ n = 0 := by
  unfold MessageMethod.ofInt
  by_cases h0 : n = 0
  · simp [h0]
  · by_cases h1 : n = 1
    · simp [h1]
    · by_cases h2 : n = 2
      · simp [h2]
      · simp [h0, h1, h2]

/-! ## The parser of requests -/

/-- The method an object holds after its header was read as far as it goes. -/
def methodLeft (kind : MessageType) (root : Element) (m : AgentMessage) : MessageMethod :=
  ((root.attrInt "type" m.mType.toInt).bind fun t =>
    if MessageType.ofInt t = kind then (root.attrInt "method" m.mMethod.toInt).map .ofInt
    else none).getD m.mMethod

/-- The header can be read to its end. -/
structure HeaderReads (kind : MessageType) (root : Element) (m : AgentMessage) : Prop where
  type : ∃ t, root.attrInt "type" m.mType.toInt = some t ∧ MessageType.ofInt t = kind
  method : root.attr "method" ≠ none
  seq : root.attr "seq" ≠ none
  source : root.attr "from" ≠ none
  target : root.attr "to" ≠ none
  initiator : root.attr "initiator" ≠ none

theorem attr_of_attrInt {e : Element} {name : String} {old v : Int} (h : e.attrInt name old = some v) :
    e.attr name ≠ none := by
  intro hnone
  rw [Element.attrInt_none hnone] at h
  cases h

theorem attr_eq_none {e : Element} {name : String} {old : Int} (h : e.attrInt name old = none) :
    e.attr name = none := Option.map_eq_none_iff.mp h

/-- **The header never faults**: it is read to its end or it fails, and the method it leaves is known. -/
theorem parseHeader_ends (kind : MessageType) (root : Element) (m : AgentMessage) :
    Ends False (fun m' => m'.mMethod = methodLeft kind root m ∧ ¬ HeaderReads kind root m)
      (fun m' => m'.mMethod = methodLeft kind root m ∧ HeaderReads kind root m)
      (parseHeader kind root m) := by
  unfold parseHeader
  apply Ends.orFail
  · intro htype
    refine ⟨by simp [methodLeft, htype], ?_⟩
    rintro ⟨⟨t, ht, -⟩, -⟩
    rw [htype] at ht
    cases ht
  · intro t ht
    by_cases hkind : MessageType.ofInt t = kind
    · simp only [hkind, ne_eq, not_true_eq_false, if_false]
      apply Ends.orFail
      · intro hmethod
        exact ⟨by simp [methodLeft, ht, hmethod], fun h => h.method (attr_eq_none hmethod)⟩
      · intro v hv
        have hleft : MessageMethod.ofInt v = methodLeft kind root m := by simp [methodLeft, ht, hkind, hv]
        apply Ends.orFail
        · exact fun hseq => ⟨hleft, fun h => h.seq (attr_eq_none hseq)⟩
        · intro seq hseq
          apply Ends.orFail
          · exact fun hfrom => ⟨hleft, fun h => h.source (attr_eq_none hfrom)⟩
          · intro source hfrom
            apply Ends.orFail
            · exact fun hto => ⟨hleft, fun h => h.target (attr_eq_none hto)⟩
            · intro target hto
              apply Ends.orFail
              · exact fun hinit => ⟨hleft, fun h => h.initiator (attr_eq_none hinit)⟩
              · intro initiator hinit
                exact ⟨hleft, ⟨t, ht, hkind⟩, attr_of_attrInt hv, attr_of_attrInt hseq, attr_of_attrInt hfrom,
                  attr_of_attrInt hto, attr_of_attrInt hinit⟩
    · simp only [hkind, ne_eq, not_false_eq_true, if_true]
      refine ⟨by simp [methodLeft, ht, hkind], ?_⟩
      rintro ⟨⟨t', ht', hkind'⟩, -⟩
      rw [ht, Option.some.injEq] at ht'
      exact hkind (ht' ▸ hkind')

/-- The elements a request of this method needs. -/
def HasElements (root : Element) : MessageMethod → Prop
  | .register => ∃ expire, root.firstChildElement "Expire" = some expire ∧ expire.attr "time" ≠ none
  | .switch => root.firstChildElement "User" ≠ none ∧ root.firstChildElement "Camera" ≠ none
  | .ptz => root.firstChildElement "User" ≠ none ∧ root.firstChildElement "Camera" ≠ none ∧
      root.firstChildElement "Operation" ≠ none
  | .other _ => False

theorem parseUserCamera_ends (root : Element) (localid : Int) (m : AgentMessage) :
    Ends False
      (fun m' => m'.mMethod = m.mMethod ∧
        ¬ (root.firstChildElement "User" ≠ none ∧ root.firstChildElement "Camera" ≠ none))
      (fun m' => m'.mMethod = m.mMethod ∧
        root.firstChildElement "User" ≠ none ∧ root.firstChildElement "Camera" ≠ none)
      (parseUserCamera root localid m) := by
  unfold parseUserCamera
  apply Ends.orFail
  · exact fun huser => ⟨rfl, fun h => h.1 huser⟩
  · intro user huser
    apply Ends.orFail
    · exact fun hcamera => ⟨rfl, fun h => h.2 hcamera⟩
    · intro camera hcamera
      exact ⟨rfl, by simp [huser], by simp [hcamera]⟩

/-- The loop keeps the method and counts the items, if the array has room for them; it overruns it otherwise. -/
theorem parseItems_ends :
    ∀ (items : List Element) (m : AgentMessage) (matrixid : Int) (i : ℕ), i ≤ maxChildrenNum →
      Ends (maxChildrenNum < i + items.length) (fun _ => False)
        (fun m' => m'.mMethod = m.mMethod ∧ i + items.length ≤ maxChildrenNum ∧
          m'.mContent.regChildrenNum = ((i + items.length : ℕ) : Int)) (parseItems m matrixid i items) := by
  intro items
  induction items with
  | nil => exact fun _ _ _ hi => ⟨rfl, hi, by simp [Content.regChildrenNum]⟩
  | cons item items ih =>
    intro m matrixid i hi
    have hcount : i + 1 + items.length = i + (item :: items).length := by
      rw [List.length_cons]
      omega
    unfold parseItems
    by_cases hlt : i < maxChildrenNum
    · rw [if_pos hlt, ← hcount]
      exact ih _ _ _ hlt
    · rw [if_neg hlt]
      show maxChildrenNum < i + (item :: items).length
      omega

/-- What a request of this method needs of its items: a `REGISTER` must have room for them. -/
def ItemsFit (root : Element) (method : MessageMethod) : Prop :=
  method = .register → (registerItems root).length ≤ maxChildrenNum

/-- **The rest of a request** fails exactly where an element is missing, and faults exactly where a `REGISTER`
    has too many items. -/
theorem parseRequestBody_ends (junk : ℕ → Int) (root : Element) (m : AgentMessage) :
    Ends (HasElements root m.mMethod ∧ ¬ ItemsFit root m.mMethod)
      (fun m' => m'.mMethod = m.mMethod ∧ ¬ HasElements root m.mMethod)
      (fun m' => m'.mMethod = m.mMethod ∧ HasElements root m.mMethod ∧ ItemsFit root m.mMethod ∧
        (m.mMethod = .register → m'.mContent.regChildrenNum = ((registerItems root).length : Int)))
      (parseRequestBody junk root m) := by
  unfold parseRequestBody
  cases hmethod : m.mMethod with
  | register =>
    apply Ends.orFail
    · intro hexpire
      refine ⟨hmethod, ?_⟩
      rintro ⟨expire, hsome, -⟩
      rw [hexpire] at hsome
      cases hsome
    · intro expire hexpire
      apply Ends.orFail
      · intro htime
        refine ⟨hmethod, ?_⟩
        rintro ⟨expire', hsome, hattr⟩
        rw [hexpire, Option.some.injEq] at hsome
        exact hattr (hsome ▸ attr_eq_none htime)
      · intro time htime
        have hhas : HasElements root .register := ⟨expire, hexpire, attr_of_attrInt htime⟩
        have hitems := parseItems_ends (registerItems root)
          { m with mMethod := .register, mContent := m.mContent.set 0 time } (junk 1) 0 (Nat.zero_le _)
        rw [Nat.zero_add] at hitems
        exact hitems.mono (fun h => ⟨hhas, fun hfit => absurd (hfit rfl) (not_le.mpr h)⟩) (fun _ h => h.elim)
          fun m' h => ⟨h.1, hhas, fun _ => h.2.1, fun _ => h.2.2⟩
  | switch =>
    exact (parseUserCamera_ends root (junk 0) m).mono False.elim (fun m' h => ⟨h.1.trans hmethod, h.2⟩)
      fun m' h => ⟨h.1.trans hmethod, h.2, fun hreg => (by cases hreg), fun hreg => by cases hreg⟩
  | ptz =>
    have huc := parseUserCamera_ends root (junk 0) m
    have hfirst : Ends (HasElements root .ptz ∧ ¬ ItemsFit root .ptz)
        (fun m' => m'.mMethod = .ptz ∧ ¬ HasElements root .ptz)
        (fun m' => m'.mMethod = .ptz ∧
          root.firstChildElement "User" ≠ none ∧ root.firstChildElement "Camera" ≠ none)
        (parseUserCamera root (junk 0) m) :=
      huc.mono False.elim (fun m' h => ⟨h.1.trans hmethod, fun hall => h.2 ⟨hall.1, hall.2.1⟩⟩)
        fun m' h => ⟨h.1.trans hmethod, h.2⟩
    apply hfirst.bind
    rintro m' ⟨hm', huser, hcamera⟩
    apply Ends.orFail
    · exact fun hop => ⟨hm', fun hall => hall.2.2 hop⟩
    · intro operation hop
      exact ⟨hm', ⟨huser, hcamera, by simp [hop]⟩, fun hreg => (by cases hreg), fun hreg => by cases hreg⟩
  | other n => exact ⟨hmethod, fun h => h⟩

/-- The text can be read as a request into this memory, or overruns the array of children. -/
def RequestReads (root : Element) (mem : AgentRequest) : Prop :=
  HeaderReads .request root mem ∧ HasElements root (methodLeft .request root mem)

/-- **A request, parsed**: it is valid exactly if it can be read, it faults exactly if it is then a `REGISTER`
    with too many items, and the method it leaves is known. -/
theorem parse_ends {doc : Document} {root : Element} (hroot : rootElement doc = some root)
    (mem : AgentRequest) (junk : ℕ → Int) :
    (∃ valid m', AgentRequest.parse mem junk doc = .ok (valid, m') ∧
        m'.mMethod = methodLeft .request root mem ∧ (valid = true ↔ RequestReads root mem) ∧
        (valid = true → ItemsFit root m'.mMethod ∧
          (m'.mMethod = .register → m'.mContent.regChildrenNum = ((registerItems root).length : Int)))) ∨
      (∃ f, AgentRequest.parse mem junk doc = .error f) ∧ RequestReads root mem ∧
        ¬ ItemsFit root (methodLeft .request root mem) := by
  have hends : Ends (RequestReads root mem ∧ ¬ ItemsFit root (methodLeft .request root mem))
      (fun m' => m'.mMethod = methodLeft .request root mem ∧ ¬ RequestReads root mem)
      (fun m' => m'.mMethod = methodLeft .request root mem ∧ RequestReads root mem ∧ ItemsFit root m'.mMethod ∧
        (m'.mMethod = .register → m'.mContent.regChildrenNum = ((registerItems root).length : Int)))
      (parseHeader .request root mem >>= parseRequestBody junk root) := by
    have hheader := parseHeader_ends .request root mem
    refine (hheader.mono False.elim (fun m' h => ⟨h.1, fun hall => h.2 hall.1⟩) fun m' h => h).bind ?_
    rintro m' ⟨hleft, hreads⟩
    have hbody := parseRequestBody_ends junk root m'
    rw [hleft] at hbody
    refine hbody.mono (fun h => ⟨⟨hreads, h.1⟩, h.2⟩) (fun _ h => ⟨h.1, fun hall => h.2 hall.2⟩) ?_
    rintro m'' ⟨hm, hhas, hfit, hnum⟩
    rw [← hm] at hfit hnum
    exact ⟨hm, ⟨hreads, hhas⟩, hfit, hnum⟩
  have hparse : AgentRequest.parse mem junk doc =
      Stop.settle (parseHeader .request root mem >>= parseRequestBody junk root) := by
    unfold AgentRequest.parse
    rw [hroot]
  rw [hparse]
  cases hx : parseHeader .request root mem >>= parseRequestBody junk root with
  | ok m' =>
    rw [hx] at hends
    exact Or.inl ⟨true, m', rfl, hends.1, iff_of_true rfl hends.2.1, fun _ => hends.2.2⟩
  | error e =>
    rw [hx] at hends
    cases e with
    | fail m' =>
      exact Or.inl ⟨false, m', rfl, hends.1, iff_of_false Bool.false_ne_true hends.2,
        fun h => absurd h Bool.false_ne_true⟩
    | fault f => exact Or.inr ⟨⟨f, rfl⟩, hends.1, hends.2⟩

/-! ## The parser of responses -/

/-- A header that was read to its end, over what the object held before. -/
def headerRead (root : Element) (m : AgentMessage) : AgentMessage :=
  { m with
    mType := .ofInt (root.readInt "type" m.mType.toInt), mMethod := .ofInt (root.readInt "method" m.mMethod.toInt)
    mId := root.readInt "seq" m.mId, mFrom := root.readInt "from" m.mFrom, mTo := root.readInt "to" m.mTo
    mInitiatorId := root.readInt "initiator" m.mInitiatorId }

theorem readInt_of_attrInt {e : Element} {name : String} {old v : Int} (h : e.attrInt name old = some v) :
    e.readInt name old = v := by
  unfold Element.readInt
  rw [h]
  rfl

/-- A header read to its end is in the object. -/
theorem parseHeader_reads (kind : MessageType) (root : Element) (m : AgentMessage) :
    Ends False (fun _ => True) (fun m' => m' = headerRead root m) (parseHeader kind root m) := by
  unfold parseHeader
  apply Ends.orFail (fun _ => trivial)
  intro t ht
  by_cases hkind : MessageType.ofInt t = kind
  · simp only [hkind, ne_eq, not_true_eq_false, if_false]
    apply Ends.orFail (fun _ => trivial)
    intro v hv
    apply Ends.orFail (fun _ => trivial)
    intro seq hseq
    apply Ends.orFail (fun _ => trivial)
    intro source hfrom
    apply Ends.orFail (fun _ => trivial)
    intro target hto
    apply Ends.orFail (fun _ => trivial)
    intro initiator hinit
    have hread : headerRead root m = ⟨initiator, source, target, kind, .ofInt v, seq, m.mContent⟩ := by
      unfold headerRead
      rw [readInt_of_attrInt ht, readInt_of_attrInt hv, readInt_of_attrInt hseq, readInt_of_attrInt hfrom,
        readInt_of_attrInt hto, readInt_of_attrInt hinit, hkind]
    exact hread.symm
  · simp only [hkind, ne_eq, not_false_eq_true, if_true]
    trivial

/-- The status can be read as far as its reason. -/
structure StatusReads (root status : Element) (reason : Text) : Prop where
  child : root.firstChildElement "Status" = some status
  code : status.attr "code" ≠ none
  reason : status.attr "reason" = some reason

/-- The port a response holds after a `SWITCH` was read as far as it goes. -/
def portLeft (junk : ℕ → Int) (root : Element) (old : Int) : Int :=
  match root.firstChildElement "Connection" with
  | some connection => connection.readInt "outport" (junk 0)
  | none => old

/-- What is left of `m` once its reason was read. -/
structure StatusLeft (junk : ℕ → Int) (root status : Element) (reason : Text) (m r : AgentResponse) : Prop where
  type : r.mType = m.mType
  method : r.mMethod = m.mMethod
  id : r.mId = m.mId
  source : r.mFrom = m.mFrom
  target : r.mTo = m.mTo
  initiator : r.mInitiatorId = status.readInt "reason" m.mInitiatorId
  code : r.mStatusCode = status.readInt "code" m.mStatusCode
  reason : r.mReason = String.ofList reason
  port : m.mMethod = .switch → r.mContent.swiOutport = portLeft junk root m.mContent.swiOutport

/-- **The rest of a response** never faults, and it writes the reason if it gets that far. -/
theorem parseResponseBody_ends (junk : ℕ → Int) (root : Element) (m : AgentResponse) :
    Ends False
      (fun r => r.mReason = m.mReason ∧ (∀ status reason, ¬ StatusReads root status reason) ∨
        ∃ status reason, StatusReads root status reason ∧ StatusLeft junk root status reason m r)
      (fun r => ∃ status reason, StatusReads root status reason ∧ StatusLeft junk root status reason m r)
      (parseResponseBody junk root m) := by
  unfold parseResponseBody
  apply Ends.orFail
  · intro hstatus
    refine Or.inl ⟨rfl, ?_⟩
    rintro status reason ⟨hsome, -, -⟩
    rw [hstatus] at hsome
    cases hsome
  intro status hstatus
  apply Ends.orFail
  · intro hcode
    refine Or.inl ⟨rfl, ?_⟩
    rintro status' reason ⟨hsome, hattr, -⟩
    rw [hstatus, Option.some.injEq] at hsome
    exact hattr (hsome ▸ attr_eq_none hcode)
  intro code hcode
  apply Ends.orFail
  · intro hreason
    refine Or.inl ⟨rfl, ?_⟩
    rintro status' reason ⟨hsome, -, hattr⟩
    rw [hstatus, Option.some.injEq] at hsome
    rw [← hsome, hreason] at hattr
    cases hattr
  intro reason hreason
  have hreads : StatusReads root status reason := ⟨hstatus, attr_of_attrInt hcode, hreason⟩
  have hcode' := (readInt_of_attrInt hcode).symm
  obtain ⟨⟨initiator, source, target, type, method, id, content⟩, oldCode, oldReason⟩ := m
  have other : method ≠ .switch → StatusLeft junk root status reason
      ⟨⟨initiator, source, target, type, method, id, content⟩, oldCode, oldReason⟩
      ⟨⟨status.readInt "reason" initiator, source, target, type, method, id, content⟩, code, .ofList reason⟩ :=
    fun hne => ⟨rfl, rfl, rfl, rfl, rfl, rfl, hcode', rfl, fun hm => absurd hm hne⟩
  cases method with
  | switch =>
    apply Ends.orFail
    · intro hconnection
      refine Or.inr ⟨status, reason, hreads, rfl, rfl, rfl, rfl, rfl, rfl, hcode', rfl, ?_⟩
      intro _
      unfold portLeft
      rw [hconnection]
    · intro connection hconnection
      refine ⟨status, reason, hreads, rfl, rfl, rfl, rfl, rfl, rfl, hcode', rfl, ?_⟩
      intro _
      unfold portLeft
      rw [hconnection]
      exact Content.set_self content 2 _
  | register => exact Or.inr ⟨status, reason, hreads, other (by decide)⟩
  | ptz => exact Or.inr ⟨status, reason, hreads, other (by decide)⟩
  | other n => exact Or.inr ⟨status, reason, hreads, other fun h => by cases h⟩

/-- The reason is read into an object that held `m`. -/
def ReasonReads (root status : Element) (reason : Text) (m : AgentMessage) : Prop :=
  HeaderReads .response root m ∧ StatusReads root status reason

/-- **A response, parsed**: no fault, and no success where the type is that of a request. The reason is the old
    one, or it was read, after a header read to its end. -/
theorem parseResponse_ends {doc : Document} {root : Element} (hroot : rootElement doc = some root)
    (mem : AgentResponse) (junk : ℕ → Int) :
    ∃ valid r, AgentResponse.parse mem junk doc = .ok (valid, r) ∧
      (root.Holds "type" 0 → valid = false ∧ r.mReason = mem.mReason) ∧
      (r.mReason = mem.mReason ∧ (∀ status reason, ¬ ReasonReads root status reason mem.toAgentMessage) ∨
        ∃ status reason, ReasonReads root status reason mem.toAgentMessage ∧ StatusLeft junk root status reason
          { mem with toAgentMessage := headerRead root mem.toAgentMessage } r) := by
  have hheader := parseHeader_ends .response root mem.toAgentMessage
  have hread := parseHeader_reads .response root mem.toAgentMessage
  unfold AgentResponse.parse
  rw [hroot]
  cases hx : parseHeader .response root mem.toAgentMessage with
  | error e =>
    rw [hx] at hheader
    cases e with
    | fail m =>
      refine ⟨false, { mem with toAgentMessage := m }, by simp only [hx], fun _ => ⟨rfl, rfl⟩, Or.inl ⟨rfl, ?_⟩⟩
      exact fun _ _ h => hheader.2 h.1
    | fault f => exact hheader.elim
  | ok m =>
    rw [hx] at hheader hread
    obtain rfl : m = headerRead root mem.toAgentMessage := hread
    obtain ⟨t, ht, hkind⟩ := hheader.2.type
    have hnot : ¬ root.Holds "type" 0 := by
      intro hzero
      rw [hzero.attrInt, Option.some.injEq] at ht
      rw [← ht] at hkind
      cases hkind
    have hbody := parseResponseBody_ends junk root { mem with toAgentMessage := headerRead root mem.toAgentMessage }
    cases hy : parseResponseBody junk root { mem with toAgentMessage := headerRead root mem.toAgentMessage } with
    | ok r =>
      rw [hy] at hbody
      obtain ⟨status, reason, hreads, hleft⟩ := hbody
      exact ⟨true, r, by simp only [hx, hy, Stop.settle], fun h => absurd h hnot,
        Or.inr ⟨status, reason, ⟨hheader.2, hreads⟩, hleft⟩⟩
    | error e =>
      rw [hy] at hbody
      cases e with
      | fail r =>
        refine ⟨false, r, by simp only [hx, hy, Stop.settle], fun h => absurd h hnot, ?_⟩
        rcases hbody with ⟨hold, hnone⟩ | ⟨status, reason, hreads, hleft⟩
        · exact Or.inl ⟨hold, fun status reason h => hnone status reason h.2⟩
        · exact Or.inr ⟨status, reason, ⟨hheader.2, hreads⟩, hleft⟩
      | fault f => exact hbody.elim

/-! ## Texts that some memory makes requests -/

theorem MessageMethod.toInt_ofInt (n : Int) : (MessageMethod.ofInt n).toInt = n := by
  unfold MessageMethod.ofInt
  by_cases h0 : n = 0
  · rw [if_pos h0, h0]
    rfl
  · rw [if_neg h0]
    by_cases h1 : n = 1
    · rw [if_pos h1, h1]
      rfl
    · rw [if_neg h1]
      by_cases h2 : n = 2
      · rw [if_pos h2, h2]
        rfl
      · rw [if_neg h2]
        rfl

/-- Some contents of the memory make the text a request (or an overrun). -/
structure Acceptable (root : Element) : Prop where
  type : root.CanHold "type" 0
  method : ∃ method : MessageMethod, root.CanHold "method" method.toInt ∧ HasElements root method
  seq : root.attr "seq" ≠ none
  source : root.attr "from" ≠ none
  target : root.attr "to" ≠ none
  initiator : root.attr "initiator" ≠ none

/-- The method is known where the header was read so far. -/
theorem methodLeft_eq {kind : MessageType} {root : Element} {m : AgentMessage} {t v : Int}
    (ht : root.attrInt "type" m.mType.toInt = some t) (hkind : MessageType.ofInt t = kind)
    (hv : root.attrInt "method" m.mMethod.toInt = some v) : methodLeft kind root m = .ofInt v := by
  simp [methodLeft, ht, hkind, hv]

/-- The exact meaning of `Acceptable`. -/
theorem acceptable_iff {root : Element} : Acceptable root ↔ ∃ mem : AgentRequest, RequestReads root mem := by
  constructor
  · rintro ⟨htype, ⟨method, hmethod, helements⟩, hseq, hfrom, hto, hinit⟩
    let mem : AgentRequest := ⟨0, 0, 0, .request, method, 0, fun _ => 0⟩
    have ht : root.attrInt "type" mem.mType.toInt = some 0 := htype.attrInt
    have hv : root.attrInt "method" mem.mMethod.toInt = some method.toInt := hmethod.attrInt
    have hof : MessageMethod.ofInt method.toInt = method := by
      cases method with
      | register => rfl
      | switch => rfl
      | ptz => rfl
      | other n => exact helements.elim
    have hleft : methodLeft .request root mem = .ofInt method.toInt := methodLeft_eq ht rfl hv
    refine ⟨mem, ⟨⟨0, ht, rfl⟩, attr_of_attrInt hv, hseq, hfrom, hto, hinit⟩, ?_⟩
    rw [hleft, hof]
    exact helements
  · rintro ⟨mem, ⟨⟨t, ht, hkind⟩, hmethod, hseq, hfrom, hto, hinit⟩, helements⟩
    rw [MessageType.ofInt_eq_request] at hkind
    subst hkind
    obtain ⟨v, hv⟩ : ∃ v, root.attrInt "method" mem.mMethod.toInt = some v := by
      cases hv : root.attrInt "method" mem.mMethod.toInt with
      | none => exact absurd (attr_eq_none hv) hmethod
      | some v => exact ⟨v, rfl⟩
    have hleft : methodLeft .request root mem = .ofInt v := methodLeft_eq ht rfl hv
    rw [hleft] at helements
    refine ⟨Element.canHold_of_attrInt ht, ⟨.ofInt v, ?_, helements⟩, hseq, hfrom, hto, hinit⟩
    rw [MessageMethod.toInt_ofInt]
    exact Element.canHold_of_attrInt hv

end Mcc
