import Mcc.Model.StringUtil

/-!
# `Correctness.StringUtil` — `split` undoes joining

The loop goes from one occurrence of the separator to the next, so what it still has to split is the rest of the
string from `oldPos` on, and gets shorter by a separator at least each time (`splitLoop_spec`). What it appends is
a `Splitting` of the string; for a separator of one character there is only one.

## Contents
- **`split`.** Its loop, and all of it.
- **`atoi`.** On digits.
- **Both.** `split_inverse`, and the setup of a port (`loadSetup_eq`).
-/

namespace Mcc

namespace StringUtil

open IntOp Split Xml

/-! ## `split` -/

/-- **The loop splits the rest of the string**, with as much fuel as there is rest. -/
theorem splitLoop_spec {src sep : Text} (hsep : sep ≠ []) (oldPos : ℕ) (hle : oldPos ≤ src.length) :
    ∃ pieces, pieces ≠ [] ∧ Splitting sep (src.drop oldPos) pieces ∧
      ∀ fuel destVec, src.length - oldPos < fuel →
        splitLoop src sep fuel oldPos destVec = some (destVec ++ pieces) := by
  have hlength := List.length_pos_iff.mpr hsep
  induction hrest : src.length - oldPos using Nat.strongRecOn generalizing oldPos with
  | ind rest ih =>
    cases hfind : findFrom src sep oldPos with
    | none =>
      refine ⟨[src.drop oldPos], by simp, .single (findFrom_none hle hfind), ?_⟩
      intro fuel destVec hfuel
      obtain ⟨fuel, rfl⟩ := Nat.exists_eq_succ_of_ne_zero (Nat.ne_of_gt (Nat.zero_lt_of_lt hfuel))
      simp [splitLoop, hfind, hle]
    | some newPos =>
      obtain ⟨⟨after, hafter⟩, ⟨hpos, hlast⟩, -⟩ := findFrom_eq_some_iff.mp hfind
      obtain ⟨hfree, hcut⟩ := findFrom_spec hsep hfind
      -- the occurrence ends inside the string
      have hend : newPos + sep.length ≤ src.length := by
        have hroom := congrArg List.length hafter
        simp only [List.length_append, List.length_drop] at hroom
        omega
      obtain ⟨pieces, hne, hpieces, hloop⟩ := ih _ (by omega) (newPos + sep.length) hend rfl
      refine ⟨(src.drop oldPos).take (newPos - oldPos) :: pieces, by simp, ?_, ?_⟩
      · have hcons := hpieces.cons hne hfree
        rwa [← hcut] at hcons
      · intro fuel destVec hfuel
        obtain ⟨fuel, rfl⟩ := Nat.exists_eq_succ_of_ne_zero (Nat.ne_of_gt (Nat.zero_lt_of_lt hfuel))
        simp only [splitLoop, hfind]
        rw [hloop fuel _ (by omega), List.append_assoc, List.singleton_append]

/-- **`split` ends**, and appends a splitting; there is none where there is nothing to split. -/
theorem split_spec (src : Text) {sep : Text} (hsep : sep ≠ []) :
    ∃ pieces, Splitting sep src pieces ∧ (pieces = [] ↔ src = []) ∧
      ∀ fuel destVec, src.length < fuel → split fuel src sep destVec = some (destVec ++ pieces) := by
  by_cases hsrc : src = []
  · refine ⟨[], ⟨by simp [hsrc], by simp⟩, by simp [hsrc], ?_⟩
    intro fuel destVec _
    simp [split, hsrc]
  · obtain ⟨pieces, hne, hpieces, hloop⟩ := splitLoop_spec hsep 0 (Nat.zero_le src.length)
    refine ⟨pieces, by simpa using hpieces, by simp [hne, hsrc], ?_⟩
    intro fuel destVec hfuel
    simp only [split, List.length_eq_zero_iff, hsrc, if_false]
    exact hloop fuel destVec hfuel

/-- **Joined pieces are split again**, unless they are one empty piece. -/
theorem split_join (c : Char) {pieces : List Text} (hne : pieces ≠ []) (hone : pieces ≠ [[]])
    (hfree : ∀ p ∈ pieces, c ∉ p) (fuel : ℕ) (destVec : List Text) (hfuel : ([c].intercalate pieces).length < fuel) :
    split fuel ([c].intercalate pieces) [c] destVec = some (destVec ++ pieces) := by
  obtain ⟨pieces', hpieces', hempty, hsplit⟩ := split_spec ([c].intercalate pieces) (List.cons_ne_nil c [])
  have hpieces : Splitting [c] ([c].intercalate pieces) pieces :=
    ⟨rfl, fun p hp h => hfree p hp ((List.singleton_infix_iff c p).mp h)⟩
  have hjoin : [c].intercalate pieces ≠ [] := by
    intro hnil
    obtain ⟨p, ps, rfl⟩ := List.exists_cons_of_ne_nil hne
    cases ps with
    | nil =>
      rw [List.intercalate_singleton] at hnil
      exact hone (by rw [hnil])
    | cons q ps => simp [List.intercalate_cons_cons] at hnil
  have hne' : pieces' ≠ [] := fun h => hjoin (hempty.mp h)
  rw [hsplit fuel destVec hfuel, hpieces'.unique hpieces hne' hne]

/-! ## `atoi` -/

theorem atoiLoop_eq {l : Text} (hl : ∀ c ∈ l, c.isDigit = true) (res : Int) :
    atoiLoop res l = l.foldlM pushDigit res := by
  induction l generalizing res with
  | nil => simp [atoiLoop]
  | cons c l ih =>
    obtain ⟨hc, hl⟩ := List.forall_mem_cons.mp hl
    have hdigit : ¬ (c < '0' ∨ c > '9') := by
      simp only [Char.isDigit, Bool.and_eq_true, decide_eq_true_eq] at hc
      exact not_or.mpr ⟨Char.not_lt.mpr hc.1, Char.not_lt.mpr hc.2⟩
    rw [atoiLoop, if_neg hdigit, List.foldlM_cons]
    exact bind_congr fun res => ih hl res

/-- **The decimal form of a number is read as it.** -/
theorem atoi_toDigits {n : ℕ} (h : n < 2 ^ 31) : atoi (Nat.toDigits 10 n) = some (n : Int) := by
  have hdigits : ∀ c ∈ Nat.toDigits 10 n, c.isDigit = true := fun c hc => isDigit_of_mem_toDigits hc
  have hread := foldlM_pushDigit hdigits (n := 0) (by simpa using h)
  unfold atoi
  rw [atoiLoop_eq hdigits]
  simpa using hread

/-! ## Both -/

/-- **`split` is the inverse of joining.** It ends for every separator there is something of, and appends pieces whose
join is the source and none of which contains the separator, none for an empty source. Pieces without a character
that are joined with it are split into themselves, unless they are one empty piece. And `atoi` reads numbers. -/
theorem split_inverse :
    (∀ (src sep : Text) (destVec : List Text), sep ≠ [] → ∃ pieces fuel₀,
      (∀ fuel, fuel₀ ≤ fuel → split fuel src sep destVec = some (destVec ++ pieces)) ∧
        (src = [] → pieces = []) ∧ sep.intercalate pieces = src ∧ ∀ p ∈ pieces, ¬ sep <:+: p) ∧
    (∀ (c : Char) (pieces destVec : List Text), pieces ≠ [] → pieces ≠ [[]] → (∀ p ∈ pieces, c ∉ p) → ∃ fuel₀,
      ∀ fuel, fuel₀ ≤ fuel → split fuel ([c].intercalate pieces) [c] destVec = some (destVec ++ pieces)) ∧
    ∀ n : ℕ, n < 2 ^ 31 → atoi (Nat.toDigits 10 n) = some (n : Int) := by
  refine ⟨?_, ?_, ?_⟩
  · intro src sep destVec hsep
    obtain ⟨pieces, hpieces, hempty, hsplit⟩ := split_spec src hsep
    exact ⟨pieces, src.length + 1, fun fuel hfuel => hsplit fuel destVec hfuel, hempty.mpr, hpieces.join,
      hpieces.free⟩
  · intro c pieces destVec hne hone hfree
    exact ⟨_, fun fuel hfuel => split_join c hne hone hfree fuel destVec hfuel⟩
  · intro n hn
    exact atoi_toDigits hn

/-- The setup of a port, split at its commas, and the number in front. -/
theorem split_inverse_of_setup :
    (∃ fuel₀, ∀ fuel, fuel₀ ≤ fuel → split fuel "9600,8,1,n".toList ",".toList [] =
      some ["9600".toList, "8".toList, "1".toList, "n".toList]) ∧
    atoi "9600".toList = some 9600 := by
  obtain ⟨-, hjoined, hnumber⟩ := split_inverse
  constructor
  · exact hjoined ',' ["9600".toList, "8".toList, "1".toList, "n".toList] [] (by simp) (by simp) (by decide)
  · exact hnumber 9600 (by decide)

end StringUtil

open StringUtil Xml in
/-- **The setup of a port**: three numbers and a parity, with commas between them, are read as written. -/
theorem loadSetup_eq {baudrate databits stopbits : ℕ} {parity : Text} (hbaudrate : baudrate < 2 ^ 31)
    (hdatabits : databits < 2 ^ 31) (hstopbits : stopbits < 2 ^ 31) (hparity : ',' ∉ parity) {fuel : ℕ} {setup : Text}
    (hsetup : setup = [','].intercalate
      [Nat.toDigits 10 baudrate, Nat.toDigits 10 databits, Nat.toDigits 10 stopbits, parity])
    (hfuel : setup.length < fuel) :
    loadSetup fuel setup = some (some ⟨baudrate, databits, stopbits, parity.headD '\x00'⟩) := by
  have hdigits (n : ℕ) : ',' ∉ Nat.toDigits 10 n := fun h => absurd (isDigit_of_mem_toDigits h) (by decide)
  have hsplit := split_join ',' (by simp) (by simp) (by simp [hdigits, hparity]) fuel [] (hsetup ▸ hfuel)
  unfold loadSetup
  rw [hsetup, hsplit]
  simp [atoi_toDigits hbaudrate, atoi_toDigits hdatabits, atoi_toDigits hstopbits]

end Mcc
