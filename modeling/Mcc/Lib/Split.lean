import Mathlib.Data.List.Infix
import Mathlib.Data.Nat.Notation

/-!
# `Lib.Split` — lists with separators

A list can be cut at its occurrences of a separator, from the first one on; the pieces between, with the separator
between them again, are the list. `findFrom` looks for an occurrence by its position. What lies before the first one
does not contain the separator (`findFrom_spec`), so neither does any piece: a list of pieces is a `Splitting`. There
may be several, as occurrences may overlap, unless the separator is a single element (`Splitting.unique`).
-/

namespace Split

variable {α : Type}

/-- The pieces, with the separator between them, are the list; and none of them contains it. -/
structure Splitting (sep src : List α) (pieces : List (List α)) : Prop where
  join : sep.intercalate pieces = src
  free : ∀ p ∈ pieces, ¬ sep <:+: p

/-- One piece more. -/
theorem Splitting.cons {sep src piece : List α} {pieces : List (List α)} (h : Splitting sep src pieces)
    (hne : pieces ≠ []) (hfree : ¬ sep <:+: piece) : Splitting sep (piece ++ sep ++ src) (piece :: pieces) where
  join := by rw [List.intercalate_cons_of_ne_nil hne, h.join]
  free := List.forall_mem_cons.mpr ⟨hfree, h.free⟩

theorem Splitting.single {sep src : List α} (hfree : ¬ sep <:+: src) : Splitting sep src [src] where
  join := List.intercalate_singleton
  free := by simpa using hfree

/-- **A separator of one element** leaves one splitting. -/
theorem Splitting.unique [DecidableEq α] {a : α} {src : List α} {pieces pieces' : List (List α)}
    (h : Splitting [a] src pieces) (h' : Splitting [a] src pieces') (hne : pieces ≠ []) (hne' : pieces' ≠ []) :
    pieces = pieces' := by
  have hsplit {ps : List (List α)} (h : Splitting [a] src ps) (hne : ps ≠ []) : ps = src.splitOn a := by
    have hfree (p : List α) (hp : p ∈ ps) : a ∉ p := fun ha => h.free p hp ((List.singleton_infix_iff a p).mpr ha)
    rw [← h.join, List.splitOn_intercalate a hfree hne]
  rw [hsplit h hne, hsplit h' hne']

/-- No piece contains the separator. -/
theorem not_mem_of_mem_splitOn [DecidableEq α] {a : α} {src piece : List α} (h : piece ∈ src.splitOn a) :
    a ∉ piece := by
  induction src generalizing piece with
  | nil =>
    rw [List.splitOn_nil, List.mem_singleton] at h
    rw [h]
    exact List.not_mem_nil
  | cons x src ih =>
    obtain ⟨first, rest, hpieces⟩ := List.exists_cons_of_ne_nil (List.splitOn_ne_nil a src)
    rw [List.splitOn_cons_eq_if_modifyHead] at h
    rw [hpieces] at h ih
    split_ifs at h with hx
    · rcases List.mem_cons.mp h with rfl | h
      · exact List.not_mem_nil
      · exact ih h
    · rcases List.mem_cons.mp h with rfl | h
      · have hfirst : a ∉ first := ih List.mem_cons_self
        simp only [beq_iff_eq] at hx
        simp [hfirst, Ne.symm hx]
      · exact ih (List.mem_cons_of_mem _ h)

/-! ## Occurrences -/

variable [DecidableEq α]

/-- The first place from `pos` on where the separator occurs. -/
def findFrom (src sep : List α) (pos : ℕ) : Option ℕ :=
  (List.range' pos (src.length + 1 - pos)).find? fun i => decide (sep <+: src.drop i)

variable {src sep : List α} {pos n : ℕ}

theorem findFrom_eq_some_iff : findFrom src sep pos = some n ↔
    sep <+: src.drop n ∧ (pos ≤ n ∧ n ≤ src.length) ∧ ∀ i, pos ≤ i → i < n → ¬ sep <+: src.drop i := by
  unfold findFrom
  rw [List.find?_range'_eq_some, List.mem_range'_1]
  simp only [decide_eq_true_eq, Bool.not_eq_true', decide_eq_false_iff_not]
  refine and_congr_right fun _ => and_congr_left fun _ => ?_
  omega

theorem findFrom_eq_none_iff (h : pos ≤ src.length) : findFrom src sep pos = none ↔
    ∀ i, pos ≤ i → i ≤ src.length → ¬ sep <+: src.drop i := by
  unfold findFrom
  rw [List.find?_range'_eq_none]
  simp only [Bool.not_eq_true', decide_eq_false_iff_not]
  refine forall_congr' fun i => forall_congr' fun _ => ?_
  rw [show pos + (src.length + 1 - pos) = src.length + 1 by omega, Nat.lt_succ_iff]

omit [DecidableEq α] in
/-- An occurrence in a part is one in the whole. -/
theorem exists_occurrence {k : ℕ} (hle : pos ≤ src.length) (h : sep <:+: (src.drop pos).take k) :
    ∃ i, pos ≤ i ∧ i + sep.length ≤ pos + k ∧ i ≤ src.length ∧ sep <+: src.drop i := by
  obtain ⟨before, after, hpart⟩ := h
  have hlength := congrArg List.length hpart
  simp only [List.length_append, List.length_take, List.length_drop] at hlength
  refine ⟨pos + before.length, Nat.le_add_right _ _, by omega, by omega, after ++ (src.drop pos).drop k, ?_⟩
  rw [← List.drop_drop]
  nth_rewrite 2 [← List.take_append_drop k (src.drop pos)]
  rw [← hpart, List.append_assoc, List.append_assoc, List.drop_left]

/-- **Before the first occurrence there is none**: a piece, the separator and the rest. -/
theorem findFrom_spec (hsep : sep ≠ []) (h : findFrom src sep pos = some n) :
    ¬ sep <:+: (src.drop pos).take (n - pos) ∧
      src.drop pos = (src.drop pos).take (n - pos) ++ sep ++ src.drop (n + sep.length) := by
  obtain ⟨⟨rest, hrest⟩, ⟨hle, hlast⟩, hfirst⟩ := findFrom_eq_some_iff.mp h
  constructor
  · intro hoccurs
    obtain ⟨i, hpos, hend, -, hi⟩ := exists_occurrence (Nat.le_trans hle hlast) hoccurs
    have hlength := List.length_pos_iff.mpr hsep
    exact hfirst i hpos (by omega) hi
  · have hdrop : (src.drop pos).drop (n - pos) = src.drop n := by
      rw [List.drop_drop, Nat.add_sub_cancel' hle]
    have htail : src.drop (n + sep.length) = rest := by
      rw [← List.drop_drop, ← hrest, List.drop_left]
    rw [htail, List.append_assoc, hrest, ← hdrop, List.take_append_drop]

/-- Where there is none, none is in the rest. -/
theorem findFrom_none (hle : pos ≤ src.length) (h : findFrom src sep pos = none) : ¬ sep <:+: src.drop pos := by
  intro hoccurs
  rw [← @List.take_length _ (src.drop pos)] at hoccurs
  obtain ⟨i, hpos, -, hlast, hi⟩ := exists_occurrence hle hoccurs
  exact (findFrom_eq_none_iff hle).mp h i hpos hlast hi

end Split
