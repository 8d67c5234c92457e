import Mcc.Correctness.Malformed
import Mcc.Correctness.RoundTrip

/-!
# `Correctness.Grammar` — which documents are requests

The header of `mccagentmessage.h` describes the requests as a grammar. `InGrammar` says it of a tree, for any
notion of what an integer is; `ParseExact` says that the parser accepts the documents of the grammar and no
others, and takes every field from the document.

The parser looks for the attributes of the root and for `time`, but not at what is in them, and not at all for
those of the other elements: what it then stores is whatever its locals held.

## Contents
- **The grammar.** `InGrammar`, over `childNamed`, the first element of a name.
- **The parser on it.** `parse_of_inGrammar`: accepted, and the same from any memory.
- **Main result.** `parse_exact_iff`.
-/

namespace Xml

namespace Element

/-- The children that are elements. -/
def childElements (e : Element) : List Element := e.children.filterMap Node.toElement

/-- The first of them with this name. -/
def childNamed (e : Element) (name : String) : Option Element := e.childElements.find? fun c => c.value == name

/-- What the parser finds is the first element of the name, if it finds one: a comment of the same value
    hides it. -/
theorem childNamed_of_firstChildElement {e c : Element} {name : String} (h : e.firstChildElement name = some c) :
    e.childNamed name = some c := by
  unfold firstChildElement firstChild at h
  unfold childNamed childElements
  generalize e.children = children at h ⊢
  induction children with
  | nil => cases h
  | cons n rest ih =>
    cases n with
    | element v attrs children =>
      have hcons : (Node.element v attrs children :: rest).filterMap Node.toElement =
          ⟨v, attrs, children⟩ :: rest.filterMap Node.toElement := rfl
      rw [hcons]
      by_cases hv : (v == name) = true
      · rw [List.find?_cons_of_pos (by simpa [Node.value] using hv)] at h
        rw [List.find?_cons_of_pos (by simpa using hv)]
        exact h
      · rw [List.find?_cons_of_neg (by simpa [Node.value] using hv)] at h
        rw [List.find?_cons_of_neg (by simpa using hv)]
        exact ih h
    | other v =>
      have hcons : (Node.other v :: rest).filterMap Node.toElement = rest.filterMap Node.toElement := rfl
      rw [hcons]
      by_cases hv : (v == name) = true
      · rw [List.find?_cons_of_pos (by simpa [Node.value] using hv)] at h
        cases h
      · rw [List.find?_cons_of_neg (by simpa [Node.value] using hv)] at h
        exact ih h

/-- The elements from the first of a name on are children. -/
theorem mem_childElements_of_from {e c : Element} {name : String} (h : c ∈ e.childElementsFrom name) :
    c ∈ e.childElements := by
  unfold childElementsFrom at h
  have hsub : ∀ n, n ∈ e.children.dropWhile (fun n => !(n.value == name)) → n ∈ e.children :=
    fun n hn => (List.dropWhile_sublist _).subset hn
  generalize e.children.dropWhile (fun n => !(n.value == name)) = tail at h hsub
  cases tail with
  | nil => cases h
  | cons n rest =>
    cases hn : n.toElement with
    | none =>
      simp only [hn] at h
      cases h
    | some first =>
      simp only [hn] at h
      rcases List.mem_cons.mp h with rfl | hrest
      · exact List.mem_filterMap.mpr ⟨n, hsub n List.mem_cons_self, hn⟩
      · obtain ⟨n', hn', hc⟩ := List.mem_filterMap.mp hrest
        exact List.mem_filterMap.mpr ⟨n', hsub n' (List.mem_cons_of_mem _ hn'), hc⟩

end Element

end Xml

namespace Mcc

open Xml

/-! ## The grammar -/

section

variable (N : IntegerText)

/-- There is an element of this name, and its attribute is an integer. -/
def HasInteger (root : Element) (child name : String) : Prop :=
  ∃ e, root.childNamed child = some e ∧ ∃ n, e.IsInteger N name n

/-- What the grammar asks of the elements below the root. -/
def BodyInGrammar (root : Element) : MessageMethod → Prop
  | .register => HasInteger N root "Expire" "time" ∧
      ∀ list, root.childNamed "ChildMatrix" = some list →
        ∀ item ∈ list.childElements, item.value = "Item" ∧ ∃ n, item.IsInteger N "id" n
  | .switch => HasInteger N root "User" "id" ∧ HasInteger N root "Camera" "id"
  | .ptz => HasInteger N root "User" "id" ∧ HasInteger N root "Camera" "id" ∧
      HasInteger N root "Operation" "direction" ∧ HasInteger N root "Operation" "angle"
  | .other _ => False

/-- **The grammar of requests.** -/
structure InGrammar (root : Element) : Prop where
  type : root.IsInteger N "type" 0
  method : ∃ method : MessageMethod, root.IsInteger N "method" method.toInt ∧ BodyInGrammar N root method
  seq : ∃ n, root.IsInteger N "seq" n
  source : ∃ n, root.IsInteger N "from" n
  target : ∃ n, root.IsInteger N "to" n
  initiator : ∃ n, root.IsInteger N "initiator" n

/-- **The parser is exact on a document**: from any memory it ends, with a valid request exactly if the document
    is in the grammar, and any two valid requests are the same. -/
structure ParseExact (doc : Document) : Prop where
  accepts : ∀ mem junk, ∃ valid m, AgentRequest.parse mem junk doc = .ok (valid, m) ∧
    (valid = true ↔ ∃ root, rootElement doc = some root ∧ InGrammar N root)
  determined : ∀ mem junk m mem' junk' m', AgentRequest.parse mem junk doc = .ok (true, m) →
    AgentRequest.parse mem' junk' doc = .ok (true, m') → m.SameRequest m'

end

/-! ## The parser on the grammar -/

variable {N : IntegerText}

/-- An element the parser finds holds what the grammar says. -/
theorem HasInteger.holds {root e : Element} {child name : String} (h : HasInteger N root child name)
    (hfirst : root.firstChildElement child = some e) : ∃ n, e.Holds name n := by
  obtain ⟨e', he', n, hn⟩ := h
  rw [Element.childNamed_of_firstChildElement hfirst, Option.some.injEq] at he'
  exact ⟨n, (he' ▸ hn).holds⟩

/-- Two requests that are both the same as a third. -/
theorem AgentMessage.SameRequest.both {m₀ m m' : AgentRequest} (h : m₀.SameRequest m) (h' : m₀.SameRequest m') :
    m.SameRequest m' := by
  have hmethod : ∀ {method}, m.mMethod = method → m₀.mMethod = method := fun hm => h.method.symm.trans hm
  refine ⟨h'.type.trans h.type.symm, h'.method.trans h.method.symm, h'.id.trans h.id.symm,
    h'.source.trans h.source.symm, h'.target.trans h.target.symm, h'.initiator.trans h.initiator.symm, ?_, ?_, ?_⟩
  · intro hm
    obtain ⟨hexp, hnum, hids⟩ := h.register (hmethod hm)
    obtain ⟨hexp', hnum', hids'⟩ := h'.register (hmethod hm)
    exact ⟨hexp'.trans hexp.symm, hnum'.trans hnum.symm, hids'.trans hids.symm⟩
  · intro hm
    obtain ⟨huser, hcamera⟩ := h.switch (hmethod hm)
    obtain ⟨huser', hcamera'⟩ := h'.switch (hmethod hm)
    exact ⟨huser'.trans huser.symm, hcamera'.trans hcamera.symm⟩
  · intro hm
    obtain ⟨huser, hcamera, hdir, hangle⟩ := h.ptz (hmethod hm)
    obtain ⟨huser', hcamera', hdir', hangle'⟩ := h'.ptz (hmethod hm)
    exact ⟨huser'.trans huser.symm, hcamera'.trans hcamera.symm, hdir'.trans hdir.symm, hangle'.trans hangle.symm⟩

/-- The method of a text that may be a request is the one the grammar reads. -/
theorem Acceptable.hasElements {root : Element} (h : Acceptable root) {method : MessageMethod}
    (hmethod : root.Holds "method" method.toInt) (hbody : BodyInGrammar N root method) :
    HasElements root method := by
  obtain ⟨method', hcan, helements⟩ := h.method
  have heq := hmethod.unique hcan
  cases method with
  | other n => exact hbody.elim
  | register =>
    cases method' with
    | register => exact helements
    | switch => cases heq
    | ptz => cases heq
    | other n => exact helements.elim
  | switch =>
    cases method' with
    | switch => exact helements
    | register => cases heq
    | ptz => cases heq
    | other n => exact helements.elim
  | ptz =>
    cases method' with
    | ptz => exact helements
    | register => cases heq
    | switch => cases heq
    | other n => exact helements.elim

/-- The items the loop visits hold numbers. -/
theorem registerItems_hold {root : Element} (h : BodyInGrammar N root .register) :
    ∃ ids : List Int, List.Forall₂ (fun item id => item.Holds "id" id) (registerItems root) ids := by
  have hall : ∀ item ∈ registerItems root, ∃ id, item.Holds "id" id := by
    intro item hitem
    unfold registerItems at hitem
    cases hlist : root.firstChildElement "ChildMatrix" with
    | none =>
      rw [hlist] at hitem
      cases hitem
    | some list =>
      rw [hlist] at hitem
      obtain ⟨-, n, hn⟩ := h.2 list (Element.childNamed_of_firstChildElement hlist) item
        (Element.mem_childElements_of_from hitem)
      exact ⟨n, hn.holds⟩
  generalize registerItems root = items at hall
  induction items with
  | nil => exact ⟨[], .nil⟩
  | cons item items ih =>
    obtain ⟨id, hid⟩ := hall item List.mem_cons_self
    obtain ⟨ids, hids⟩ := ih fun item' hin => hall item' (List.mem_cons_of_mem _ hin)
    exact ⟨id :: ids, .cons hid hids⟩

/-- **The body**, read to contents that mean the same from any memory. -/
theorem parseRequestBody_of_inGrammar {root : Element} {m₀ : AgentMessage} (hhas : HasElements root m₀.mMethod)
    (hbody : BodyInGrammar N root m₀.mMethod)
    (hfits : ItemsFit root m₀.mMethod) :
    ∃ c₀ : Content, ∀ (c : Content) (junk : ℕ → Int), ∃ c' : Content,
      parseRequestBody junk root { m₀ with mContent := c } = .ok { m₀ with mContent := c' } ∧
      AgentMessage.SameRequest { m₀ with mContent := c₀ } { m₀ with mContent := c' } := by
  let blank : Content := fun _ => 0
  obtain ⟨initiator, source, target, type, method, seq, content⟩ := m₀
  cases method with
  | register =>
    obtain ⟨expire, hexpire, -⟩ := hhas
    obtain ⟨time, htime⟩ := hbody.1.holds hexpire
    obtain ⟨ids, hids⟩ := registerItems_hold hbody
    have hlen : ids.length ≤ maxChildrenNum := hids.length_eq ▸ hfits rfl
    refine ⟨((blank.set 0 time).fill 0 ids).set 1 ids.length, fun c junk => ?_⟩
    refine ⟨((c.set 0 time).fill 0 ids).set 1 ids.length,
      parseRequestBody_register root expire hexpire htime hids hlen junk rfl, rfl, rfl, rfl, rfl, rfl, rfl, ?_,
      fun h => (by cases h), fun h => by cases h⟩
    intro _
    obtain ⟨hexp, hnum, hlist⟩ := AgentMessage.stored_children
      ⟨initiator, source, target, type, .register, seq, content⟩ c time ids
    obtain ⟨hexp₀, hnum₀, hlist₀⟩ := AgentMessage.stored_children
      ⟨initiator, source, target, type, .register, seq, content⟩ blank time ids
    exact ⟨hexp.trans hexp₀.symm, hnum.trans hnum₀.symm, hlist.trans hlist₀.symm⟩
  | switch =>
    obtain ⟨user, huser⟩ := Option.ne_none_iff_exists'.mp hhas.1
    obtain ⟨camera, hcamera⟩ := Option.ne_none_iff_exists'.mp hhas.2
    obtain ⟨u, hu⟩ := hbody.1.holds huser
    obtain ⟨n, hn⟩ := hbody.2.holds hcamera
    refine ⟨(blank.set 0 u).set 1 n, fun c junk => ⟨(c.set 0 u).set 1 n, ?_⟩⟩
    refine ⟨?_, rfl, rfl, rfl, rfl, rfl, rfl, fun h => (by cases h), ?_, fun h => by cases h⟩
    · exact (parseRequestBody_switch rfl junk root).trans
        (parseUserCamera_eq root user camera huser hu hcamera hn _ _)
    · simp [Content.swiUserid, Content.swiCameraid]
  | ptz =>
    obtain ⟨user, huser⟩ := Option.ne_none_iff_exists'.mp hhas.1
    obtain ⟨camera, hcamera⟩ := Option.ne_none_iff_exists'.mp hhas.2.1
    obtain ⟨operation, hop⟩ := Option.ne_none_iff_exists'.mp hhas.2.2
    obtain ⟨u, hu⟩ := hbody.1.holds huser
    obtain ⟨n, hn⟩ := hbody.2.1.holds hcamera
    obtain ⟨d, hd⟩ := hbody.2.2.1.holds hop
    obtain ⟨a, ha⟩ := hbody.2.2.2.holds hop
    refine ⟨(((blank.set 0 u).set 1 n).set 2 d).set 3 a, fun c junk => ?_⟩
    refine ⟨(((c.set 0 u).set 1 n).set 2 d).set 3 a,
      parseRequestBody_ptz root user camera operation huser hu hcamera hn hop hd ha junk rfl,
      rfl, rfl, rfl, rfl, rfl, rfl, fun h => (by cases h), fun h => (by cases h), ?_⟩
    simp [Content.ptzUserid, Content.ptzCameraid, Content.ptzDirection, Content.ptzAngle]
  | other n => exact hhas.elim

/-- **A document of the grammar that the parser can read** is accepted, and read the same from any memory. -/
theorem parse_of_inGrammar {doc : Document} {root : Element} (hroot : rootElement doc = some root)
    (hin : InGrammar N root) (hacc : Acceptable root)
    (hfits : root.Holds "method" 0 → (registerItems root).length ≤ maxChildrenNum) :
    ∃ m₀ : AgentRequest, ∀ mem junk, ∃ m, AgentRequest.parse mem junk doc = .ok (true, m) ∧ m₀.SameRequest m := by
  obtain ⟨method, hmethod, hbody⟩ := hin.method
  obtain ⟨seq, hseq⟩ := hin.seq
  obtain ⟨source, hfrom⟩ := hin.source
  obtain ⟨target, hto⟩ := hin.target
  obtain ⟨initiator, hinit⟩ := hin.initiator
  have hof : MessageMethod.ofInt method.toInt = method := by
    cases method with
    | register => rfl
    | switch => rfl
    | ptz => rfl
    | other n => exact hbody.elim
  let header : AgentMessage := ⟨initiator, source, target, .request, method, seq, fun _ => 0⟩
  obtain ⟨c₀, hall⟩ := @parseRequestBody_of_inGrammar N root header (hacc.hasElements hmethod.holds hbody) hbody
    fun hreg => hfits (by
      have hzero : method = .register := hreg
      simpa [hzero, MessageMethod.toInt] using hmethod.holds)
  refine ⟨{ header with mContent := c₀ }, fun mem junk => ?_⟩
  obtain ⟨c, hparse, hsame⟩ := hall mem.mContent junk
  refine ⟨_, ?_, hsame⟩
  have htype : MessageType.ofInt 0 = .request := rfl
  have hheader := parseHeader_holds htype hin.type.holds hmethod.holds hseq.holds hfrom.holds hto.holds
    hinit.holds mem
  rw [hof] at hheader
  unfold AgentRequest.parse
  rw [hroot]
  simp only [hheader, ok_bind]
  rw [hparse]
  rfl

/-! ## Main result -/

/-- An exact parse has a root: without one it is used all the same. -/
theorem ParseExact.exists_root {doc : Document} (h : ParseExact N doc) : ∃ root, rootElement doc = some root := by
  cases hroot : rootElement doc with
  | none =>
    obtain ⟨valid, m, hparse, -⟩ := h.accepts (.uninit fun _ => 0) fun _ => 0
    unfold AgentRequest.parse at hparse
    rw [hroot] at hparse
    cases hparse
  | some root => exact ⟨root, rfl⟩

/-- What an exact parse ends with. -/
theorem ParseExact.ends {doc : Document} {root : Element} (h : ParseExact N doc) (hroot : rootElement doc = some root)
    (mem : AgentRequest) : ∃ (valid : Bool) (m : AgentRequest), (valid = true ↔ InGrammar N root) ∧
      (valid = true ↔ RequestReads root mem) ∧ m.mMethod = methodLeft .request root mem ∧
      (valid = true → m.mMethod = .register → (registerItems root).length ≤ maxChildrenNum) := by
  obtain ⟨valid, m, hparse, hvalid⟩ := h.accepts mem fun _ => 0
  rcases parse_ends hroot mem fun _ => 0 with ⟨valid', m', hends, hleft, hreads, hfit⟩ | ⟨⟨f, hf⟩, -⟩
  · rw [hparse] at hends
    cases hends
    refine ⟨valid, m, ?_, hreads, hleft, fun hv => (hfit hv).1⟩
    rw [hvalid, hroot]
    simp
  · rw [hparse] at hf
    cases hf

theorem ParseExact.acceptable_iff_inGrammar {doc : Document} {root : Element} (h : ParseExact N doc)
    (hroot : rootElement doc = some root) : Acceptable root ↔ InGrammar N root := by
  rw [acceptable_iff]
  constructor
  · rintro ⟨mem, hreads⟩
    obtain ⟨valid, m, hin, hvalid, -⟩ := h.ends hroot mem
    exact hin.mp (hvalid.mpr hreads)
  · intro hin
    obtain ⟨valid, m, hin', hvalid, -⟩ := h.ends hroot (.uninit fun _ => 0)
    exact ⟨_, hvalid.mp (hin'.mpr hin)⟩

theorem ParseExact.items_fit {doc : Document} {root : Element} (h : ParseExact N doc)
    (hroot : rootElement doc = some root) (hin : InGrammar N root) (hregister : root.Holds "method" 0) :
    (registerItems root).length ≤ maxChildrenNum := by
  obtain ⟨valid, m, hin', -, hleft, hfit⟩ := h.ends hroot (.uninit fun _ => 0)
  refine hfit (hin'.mpr hin) ?_
  rw [hleft]
  exact methodLeft_eq (hin.type.holds.attrInt _) rfl (hregister.attrInt _)

/-- A document of the grammar that can be read is parsed exactly. -/
theorem parseExact_of_inGrammar {doc : Document} {root : Element} (hroot : rootElement doc = some root)
    (hin : InGrammar N root) (hacc : Acceptable root)
    (hfits : root.Holds "method" 0 → (registerItems root).length ≤ maxChildrenNum) : ParseExact N doc := by
  obtain ⟨m₀, hall⟩ := parse_of_inGrammar hroot hin hacc hfits
  constructor
  · intro mem junk
    obtain ⟨m, hparse, -⟩ := hall mem junk
    exact ⟨true, m, hparse, iff_of_true rfl ⟨root, hroot, hin⟩⟩
  · intro mem junk m mem' junk' m' hparse hparse'
    obtain ⟨m₁, hparse₁, hsame₁⟩ := hall mem junk
    obtain ⟨m₂, hparse₂, hsame₂⟩ := hall mem' junk'
    rw [hparse] at hparse₁
    rw [hparse'] at hparse₂
    cases hparse₁
    cases hparse₂
    exact hsame₁.both hsame₂

/-- A document that is not of the grammar is parsed exactly where the parser misses something. -/
theorem parseExact_of_refused {doc : Document} {root : Element} (hroot : rootElement doc = some root)
    (hin : ¬ InGrammar N root) (hacc : ¬ Acceptable root) : ParseExact N doc := by
  have hrefused : ∀ mem, ¬ RequestReads root mem := fun mem hreads => hacc (acceptable_iff.mpr ⟨mem, hreads⟩)
  have hfalse : ∀ mem junk, ∃ m, AgentRequest.parse mem junk doc = .ok (false, m) := by
    intro mem junk
    rcases parse_ends hroot mem junk with ⟨valid, m, hends, -, hvalid, -⟩ | ⟨-, hreads, -⟩
    · cases valid with
      | true => exact absurd (hvalid.mp rfl) (hrefused mem)
      | false => exact ⟨m, hends⟩
    · exact absurd hreads (hrefused mem)
  constructor
  · intro mem junk
    obtain ⟨m, hparse⟩ := hfalse mem junk
    refine ⟨false, m, hparse, ?_⟩
    simp [hroot, hin]
  · intro mem junk m mem' junk' m' hparse
    obtain ⟨m₁, hparse₁⟩ := hfalse mem junk
    rw [hparse] at hparse₁
    cases hparse₁

/-- **When the parser is exact.** A document has a root; the root is in the grammar, or it lacks something that
    the parser does ask for; and a `REGISTER` of the grammar has at most `MAX_CHILDREN_NUM` items. -/
theorem parse_exact_iff (N : IntegerText) (doc : Document) :
    ParseExact N doc ↔ ∃ root, rootElement doc = some root ∧ (Acceptable root ↔ InGrammar N root) ∧
      (InGrammar N root → root.Holds "method" 0 → (registerItems root).length ≤ maxChildrenNum) := by
  constructor
  · intro h
    obtain ⟨root, hroot⟩ := h.exists_root
    exact ⟨root, hroot, h.acceptable_iff_inGrammar hroot, h.items_fit hroot⟩
  · rintro ⟨root, hroot, hiff, hfits⟩
    by_cases hin : InGrammar N root
    · exact parseExact_of_inGrammar hroot hin (hiff.mpr hin) (hfits hin)
    · exact parseExact_of_refused hroot hin (mt hiff.mp hin)

/-- **A `SWITCH` whose user has no `id`** is accepted, with whatever the local held. No notion of an integer
    makes the parser exact on it. -/
theorem switch_without_id_accepted : ¬ ∃ N : IntegerText, ∀ doc, ParseExact N doc := by
  rintro ⟨N, h⟩
  have hexact := h [.element "XML_MESSAGE" [("type", ['0']), ("method", ['1']), ("seq", ['7']), ("from", ['1']),
    ("to", ['2']), ("initiator", ['3'])] [.element "User" [] [], intLeaf "Camera" [("id", 4)]]]
  have hsame := hexact.determined (.uninit fun _ => 0) (fun _ => 5) _ (.uninit fun _ => 0) (fun _ => 6) _ rfl rfl
  exact absurd (hsame.switch rfl).1 (by decide)

end Mcc
