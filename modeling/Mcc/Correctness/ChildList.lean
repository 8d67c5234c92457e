import Mcc.Correctness.Grammar
import Mcc.Correctness.Routing

/-!
# `Correctness.ChildList` — the array of children

A `REGISTER` lists its children in an array of `MAX_CHILDREN_NUM` words. Two loops fill it: the parser's, once
for each `Item` a peer wrote, and `buildRegister`'s, once for each matrix below this one. Neither looks at the
index. `parse_in_bounds_iff` and `build_in_bounds_iff` say where that goes well.
-/

namespace Mcc

open Xml Transition

/-! ## The parser -/

/-- A parse keeps inside the array, and a `REGISTER` it accepts counts what is in it. -/
structure ParseInBounds (mem : AgentRequest) (junk : ℕ → Int) (doc : Document) : Prop where
  index : AgentRequest.parse mem junk doc ≠ .error .outOfBounds
  count : ∀ m, AgentRequest.parse mem junk doc = .ok (true, m) → m.mMethod = .register →
    0 ≤ m.mContent.regChildrenNum ∧ m.mContent.regChildrenNum ≤ maxChildrenNum

/-- The only fault of the loop is the overrun. -/
theorem parseItems_fault :
    ∀ {items : List Element} {m : AgentMessage} {matrixid : Int} {i : ℕ} {f : Fault},
      parseItems m matrixid i items = .error (.fault f) → f = .outOfBounds := by
  intro items
  induction items with
  | nil =>
    intro m matrixid i f h
    cases h
  | cons item items ih =>
    intro m matrixid i f h
    unfold parseItems at h
    by_cases hi : i < maxChildrenNum
    · rw [if_pos hi] at h
      exact ih h
    · rw [if_neg hi] at h
      cases h
      rfl

theorem parseRequestBody_fault {junk : ℕ → Int} {root : Element} {m : AgentMessage} {f : Fault}
    (h : parseRequestBody junk root m = .error (.fault f)) : f = .outOfBounds := by
  have hends := parseRequestBody_ends junk root m
  rw [h] at hends
  -- only a `REGISTER` faults
  have hreg : m.mMethod = .register := by
    by_contra hne
    exact hends.2 fun hreg => absurd hreg hne
  obtain ⟨expire, hexpire, htime⟩ : HasElements root .register := hreg ▸ hends.1
  obtain ⟨v, hv⟩ := Option.ne_none_iff_exists'.mp htime
  unfold parseRequestBody at h
  simp only [hreg, hexpire, orFail_some, ok_bind, Element.attrInt_some hv] at h
  exact parseItems_fault h

/-- **Where a parse overruns the array**: it reads a `REGISTER` with more items than that. -/
theorem parse_overruns_iff {doc : Document} {root : Element} (hroot : rootElement doc = some root)
    (mem : AgentRequest) (junk : ℕ → Int) :
    AgentRequest.parse mem junk doc = .error .outOfBounds ↔
      RequestReads root mem ∧ ¬ ItemsFit root (methodLeft .request root mem) := by
  rcases parse_ends hroot mem junk with ⟨valid, m, hends, hleft, hvalid, hfit⟩ | ⟨⟨f, hf⟩, hreads, hnot⟩
  · rw [hends, ← hleft]
    refine iff_of_false (fun h => by cases h) ?_
    rintro ⟨hreads, hnot⟩
    exact hnot (hfit (hvalid.mpr hreads)).1
  · refine iff_of_true ?_ ⟨hreads, hnot⟩
    rw [hf]
    have hparse : AgentRequest.parse mem junk doc =
        Stop.settle (parseHeader .request root mem >>= parseRequestBody junk root) := by
      unfold AgentRequest.parse
      rw [hroot]
    rw [hparse] at hf
    have hheader := parseHeader_ends .request root mem
    cases hx : parseHeader .request root mem with
    | error e =>
      rw [hx] at hheader hf
      cases e with
      | fail m' => exact absurd hreads.1 hheader.2
      | fault f' => exact hheader.elim
    | ok m' =>
      rw [hx, ok_bind] at hf
      cases hy : parseRequestBody junk root m' with
      | ok m'' =>
        rw [hy] at hf
        cases hf
      | error e =>
        rw [hy] at hf
        cases e with
        | fail m'' => cases hf
        | fault f' =>
          cases hf
          rw [parseRequestBody_fault hy]

/-- **The parser** keeps inside the array exactly where a document that it reads as a `REGISTER` has at most
    `MAX_CHILDREN_NUM` items. -/
theorem parse_in_bounds_iff {mem : AgentRequest} {junk : ℕ → Int} {doc : Document} :
    ParseInBounds mem junk doc ↔ ∀ root, rootElement doc = some root → RequestReads root mem →
      ItemsFit root (methodLeft .request root mem) := by
  constructor
  · intro h root hroot hreads
    by_contra hnot
    exact h.index ((parse_overruns_iff hroot mem junk).mpr ⟨hreads, hnot⟩)
  · intro h
    cases hroot : rootElement doc with
    | none =>
      have hnull : AgentRequest.parse mem junk doc = .error .nullDeref := by
        unfold AgentRequest.parse
        rw [hroot]
      constructor
      · simp [hnull]
      · simp [hnull]
    | some root =>
      constructor
      · intro hover
        obtain ⟨hreads, hnot⟩ := (parse_overruns_iff hroot mem junk).mp hover
        exact hnot (h root hroot hreads)
      · intro m hparse hreg
        rcases parse_ends hroot mem junk with ⟨valid, m', hends, -, -, hfit⟩ | ⟨⟨f, hf⟩, -⟩
        · rw [hparse] at hends
          cases hends
          obtain ⟨hlen, hnum⟩ := hfit rfl
          rw [hnum hreg]
          exact ⟨Int.natCast_nonneg _, Int.ofNat_le.mpr (hlen hreg)⟩
        · rw [hparse] at hf
          cases hf

/-! ## The builder -/

namespace ResourceManager

variable {Q : Type}

/-- `buildRegister` keeps inside the array, and counts what is in it. -/
def BuildInBounds (env : Env) (s : ResourceManager Q) : Prop :=
  ∃ request, s.buildRegister env = .ok request ∧
    0 ≤ request.mContent.regChildrenNum ∧ request.mContent.regChildrenNum ≤ maxChildrenNum

/-- **The builder** does so exactly where at most `MAX_CHILDREN_NUM` matrices are below this one. -/
theorem build_in_bounds_iff {env : Env} {s : ResourceManager Q} :
    BuildInBounds env s ↔ (announced s.mChildMatrixs).length ≤ maxChildrenNum := by
  unfold BuildInBounds
  rw [buildRegister_eq]
  by_cases hfits : (announced s.mChildMatrixs).length ≤ maxChildrenNum
  · rw [if_pos hfits]
    refine iff_of_true ⟨_, rfl, ?_⟩ hfits
    have hnum : (s.announcement env).mContent.regChildrenNum = (announced s.mChildMatrixs).length := by
      simp [announcement, Content.regChildrenNum]
    rw [hnum]
    exact ⟨Int.natCast_nonneg _, Int.ofNat_le.mpr hfits⟩
  · rw [if_neg hfits]
    refine iff_of_false ?_ hfits
    rintro ⟨request, hrequest, -⟩
    cases hrequest

/-- **The array of children**, on both sides: a parse keeps inside it exactly where the document is not read as a
    `REGISTER` with more than `MAX_CHILDREN_NUM` items, and `buildRegister` exactly where no more than that many
    children and matrices below them are known. -/
theorem child_list_in_bounds_iff (mem : AgentRequest) (junk : ℕ → Int) (doc : Document) (env : Env)
    (s : ResourceManager Q) :
    (ParseInBounds mem junk doc ↔ ∀ root, rootElement doc = some root → RequestReads root mem →
      ItemsFit root (methodLeft .request root mem)) ∧
    (BuildInBounds env s ↔ (announced s.mChildMatrixs).length ≤ maxChildrenNum) :=
  ⟨parse_in_bounds_iff, build_in_bounds_iff⟩

/-- A `REGISTER` of matrix 2 that lists `n` matrices below it. -/
def crowded (n : ℕ) : AgentRequest := ⟨0, 2, 1, .request, .register, 0, fun i => if i = 1 then n else 60 + i⟩

/-- **51 items overrun the parser's array; a child with 50 below it overruns the builder's.** -/
theorem child_list_overrun :
    (¬ ∀ mem junk doc, ParseInBounds mem junk doc) ∧
    ¬ ∀ (env : Env) (s : ResourceManager (List User)), Reachable s → BuildInBounds env s := by
  constructor
  · intro h
    exact (h (.uninit fun _ => 0) (fun _ => 0) (AgentRequest.print (crowded 51))).index rfl
  · intro h
    have hinit : Initial (configured 0 1 0 [4] [1] [(1, 2)] : ResourceManager (List User)) :=
      configured_initial (by decide)
    have hrun := run_of_exec [⟨Env.at 100, .register 3 (crowded 50)⟩]
      (s := (configured 0 1 0 [4] [1] [(1, 2)] : ResourceManager (List User))) rfl
    have hfits := build_in_bounds_iff.mp (h (Env.at 100) _ (hinit.reachable.run hrun))
    exact absurd hfits (by set_option maxRecDepth 4096 in decide)

end ResourceManager

end Mcc
