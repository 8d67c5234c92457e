import Mathlib

/-!
# `Lib.Xml` — document trees and decimal attributes

What a DOM reader sees of an XML document: nodes with a value, elements among them with attributes and
children. Text is a list of characters.

## Contents
- **Trees.** `Node`, `Element`, and the lookups of a DOM API: the root element, the first child of a given
  value, the next sibling element, an attribute by name.
- **Decimal integers.** `decimal`, what a stream prints for an integer, and `scanInt`, what `"%d"` reads.
  `scanInt_decimal`: the second reads back the first. `Holds` and `CanHold`: what an attribute is read as,
  into any variable or into some. `IntegerText`: which texts a grammar calls integers.
- **Sizes.** `size`, the bytes of a text, and `width`, what a number takes of them (`size_decimal`).
-/

namespace Xml

abbrev Text := List Char

/-! ## Trees -/

/-- A node: an element, or anything else (text, a comment, a declaration), known by its value only. -/
inductive Node where
  | element (value : String) (attrs : List (String × Text)) (children : List Node)
  | other (value : String)

/-- An element, as a node that is known to be one. -/
structure Element where
  value : String
  attrs : List (String × Text)
  children : List Node

abbrev Document := List Node

namespace Node

def value : Node → String
  | element v _ _ => v
  | other v => v

def toElement : Node → Option Element
  | element v as cs => some ⟨v, as, cs⟩
  | other _ => none

end Node

/-- The first top-level element, if there is one. -/
def rootElement (doc : Document) : Option Element := doc.findSome? Node.toElement

namespace Element

/-- The first child **node** of this value; it need not be an element. -/
def firstChild (e : Element) (value : String) : Option Node :=
  e.children.find? (fun n => n.value == value)

/-- The first child node of this value, if that node is an element. -/
def firstChildElement (e : Element) (value : String) : Option Element :=
  (e.firstChild value).bind Node.toElement

/-- The first child of this value and the sibling elements that follow it, whatever their value. -/
def childElementsFrom (e : Element) (value : String) : List Element :=
  match e.children.dropWhile (fun n => !(n.value == value)) with
  | [] => []
  | n :: rest => match n.toElement with
    | none => []
    | some first => first :: rest.filterMap Node.toElement

/-- The value of an attribute, if the element has it. -/
def attr (e : Element) (name : String) : Option Text :=
  (e.attrs.find? (fun a => a.1 == name)).map Prod.snd

end Element

/-! ## Decimal integers -/

/-- An integer as a stream prints it. -/
def decimal (n : Int) : Text :=
  if n < 0 then '-' :: Nat.toDigits 10 n.natAbs else Nat.toDigits 10 n.natAbs

/-- The white space `"%d"` skips. -/
def isSpace (c : Char) : Bool :=
  c == ' ' || c == '\t' || c == '\n' || c == '\r' || c == Char.ofNat 11 || c == Char.ofNat 12

/-- The longest run of digits, as a number; nothing when there is no digit. -/
def scanNat (s : Text) : Option Nat :=
  match s.takeWhile Char.isDigit with
  | [] => none
  | ds => some (Nat.ofDigitChars 10 ds 0)

/-- `"%d"`: white space, an optional sign, digits. What follows the digits is not looked at. -/
def scanInt (s : Text) : Option Int :=
  match s.dropWhile isSpace with
  | '-' :: ds => (scanNat ds).map (fun n => -(n : Int))
  | '+' :: ds => (scanNat ds).map Int.ofNat
  | ds => (scanNat ds).map Int.ofNat

theorem isDigit_of_mem_toDigits {n : Nat} {c : Char} (h : c ∈ Nat.toDigits 10 n) : c.isDigit = true :=
  Nat.isDigit_of_mem_toDigits (by omega) (by omega) h

theorem scanNat_toDigits (n : Nat) : scanNat (Nat.toDigits 10 n) = some n := by
  have hall : (Nat.toDigits 10 n).takeWhile Char.isDigit = Nat.toDigits 10 n :=
    List.takeWhile_eq_self_iff.mpr fun _ hc => isDigit_of_mem_toDigits hc
  have hne : Nat.toDigits 10 n ≠ [] := Nat.toDigits_ne_nil
  unfold scanNat
  rw [hall]
  cases hds : Nat.toDigits 10 n with
  | nil => exact absurd hds hne
  | cons c cs =>
    show some (Nat.ofDigitChars 10 (c :: cs) 0) = some n
    rw [← hds, Nat.ofDigitChars_ten_toDigits]

/-- The value of an attribute read as an integer into a variable that holds `old`: nothing when the
    attribute is missing; a value that is no number leaves the variable as it was. -/
def Element.attrInt (e : Element) (name : String) (old : Int) : Option Int :=
  (e.attr name).map (fun v => (scanInt v).getD old)

/-- The variable after such a read, whether or not the attribute is there. -/
def Element.readInt (e : Element) (name : String) (old : Int) : Int := (e.attrInt name old).getD old

theorem Element.attrInt_none {e : Element} {name : String} (h : e.attr name = none) (old : Int) :
    e.attrInt name old = none := by
  unfold Element.attrInt
  rw [h]
  rfl

theorem Element.attrInt_some {e : Element} {name : String} {v : Text} (h : e.attr name = some v) (old : Int) :
    e.attrInt name old = some ((scanInt v).getD old) := by
  unfold Element.attrInt
  rw [h]
  rfl

/-- The attribute holds this number. -/
def Element.Holds (e : Element) (name : String) (n : Int) : Prop :=
  ∃ v, e.attr name = some v ∧ scanInt v = some n

/-- The number an attribute holds, if it is there and holds one. -/
def Element.number (e : Element) (name : String) : Option Int := (e.attr name).bind scanInt

theorem Element.readInt_eq (e : Element) (name : String) (old : Int) :
    e.readInt name old = (e.number name).getD old := by
  unfold Element.readInt Element.attrInt Element.number
  cases e.attr name with
  | none => rfl
  | some v => rfl

/-- Which texts are integers is a matter of taste (signs, leading zeros, what may follow the digits): a notion
    of it must agree with `"%d"` where it says yes. -/
structure IntegerText where
  value : Text → Option Int
  scan : ∀ {v n}, value v = some n → scanInt v = some n

/-- Whatever `"%d"` reads. -/
def IntegerText.scanned : IntegerText := ⟨scanInt, id⟩

/-- An optional sign, digits, and nothing else. -/
def isNumeral (v : Text) : Bool :=
  let digits := if v.head? = some '-' ∨ v.head? = some '+' then v.tail else v
  !digits.isEmpty && digits.all Char.isDigit

/-- Numerals only. -/
def IntegerText.numeral : IntegerText where
  value v := if isNumeral v then scanInt v else none
  scan := by
    intro v n h
    by_cases hv : isNumeral v = true
    · rwa [if_pos hv] at h
    · rw [if_neg hv] at h
      cases h

/-- The attribute is an integer, this one. -/
def Element.IsInteger (N : IntegerText) (e : Element) (name : String) (n : Int) : Prop :=
  ∃ v, e.attr name = some v ∧ N.value v = some n

/-- What is an integer can be read as it. -/
theorem Element.IsInteger.holds {N : IntegerText} {e : Element} {name : String} {n : Int}
    (h : e.IsInteger N name n) : e.Holds name n := by
  obtain ⟨v, hv, hn⟩ := h
  exact ⟨v, hv, N.scan hn⟩

/-- The attribute holds this number, or no number at all: it may be read as this number. -/
def Element.CanHold (e : Element) (name : String) (n : Int) : Prop :=
  ∃ v, e.attr name = some v ∧ ∀ k, scanInt v = some k → k = n

theorem Element.Holds.attrInt {e : Element} {name : String} {n : Int} (h : e.Holds name n) (old : Int) :
    e.attrInt name old = some n := by
  obtain ⟨v, hv, hn⟩ := h
  rw [Element.attrInt_some hv, hn]
  rfl

theorem Element.Holds.readInt {e : Element} {name : String} {n : Int} (h : e.Holds name n) (old : Int) :
    e.readInt name old = n := by
  unfold Element.readInt
  rw [h.attrInt]
  rfl

/-- An attribute holds one number at most. -/
theorem Element.Holds.unique {e : Element} {name : String} {n k : Int} (h : e.Holds name n)
    (hk : e.CanHold name k) : n = k := by
  obtain ⟨v, hv, hn⟩ := h
  obtain ⟨v', hv', hcan⟩ := hk
  rw [hv] at hv'
  cases hv'
  exact hcan n hn

/-- Into a variable that holds the number already. -/
theorem Element.CanHold.attrInt {e : Element} {name : String} {n : Int} (h : e.CanHold name n) :
    e.attrInt name n = some n := by
  obtain ⟨v, hv, hn⟩ := h
  rw [Element.attrInt_some hv]
  cases hk : scanInt v with
  | none => rfl
  | some k => rw [hn k hk, Option.getD_some]

theorem Element.canHold_of_attrInt {e : Element} {name : String} {old n : Int}
    (h : e.attrInt name old = some n) : e.CanHold name n := by
  cases hv : e.attr name with
  | none =>
    rw [Element.attrInt_none hv] at h
    cases h
  | some v =>
    rw [Element.attrInt_some hv, Option.some.injEq] at h
    refine ⟨v, hv, ?_⟩
    intro k hk
    rw [hk] at h
    exact h

/-- What is read is in the text, if it is not what the variable held. -/
theorem Element.holds_of_attrInt {e : Element} {name : String} {old n : Int}
    (h : e.attrInt name old = some n) (hne : n ≠ old) : e.Holds name n := by
  cases hv : e.attr name with
  | none =>
    rw [Element.attrInt_none hv] at h
    cases h
  | some v =>
    rw [Element.attrInt_some hv, Option.some.injEq] at h
    cases hk : scanInt v with
    | none =>
      rw [hk] at h
      exact absurd h.symm hne
    | some k =>
      rw [hk] at h
      exact ⟨v, hv, by rw [hk]; exact congrArg some h⟩

/-- A digit is neither white space nor a sign. -/
theorem digit_plain {c : Char} (h : c.isDigit = true) : isSpace c = false ∧ c ≠ '-' ∧ c ≠ '+' := by
  have hne : ∀ d : Char, d.isDigit = false → c ≠ d := by
    intro d hd he
    rw [he, hd] at h
    cases h
  refine ⟨?_, hne '-' (by decide), hne '+' (by decide)⟩
  simp only [isSpace, Bool.or_eq_false_iff, beq_eq_false_iff_ne]
  exact ⟨⟨⟨⟨⟨hne _ (by decide), hne _ (by decide)⟩, hne _ (by decide)⟩, hne _ (by decide)⟩,
    hne _ (by decide)⟩, hne _ (by decide)⟩

theorem dropWhile_isSpace_cons {c : Char} {cs : Text} (h : isSpace c = false) :
    (c :: cs).dropWhile isSpace = c :: cs := by
  rw [List.dropWhile_cons, h]
  rfl

theorem scanInt_toDigits (n : Nat) : scanInt (Nat.toDigits 10 n) = some (n : Int) := by
  cases hds : Nat.toDigits 10 n with
  | nil => exact absurd hds Nat.toDigits_ne_nil
  | cons c cs =>
    have hc : c.isDigit = true := isDigit_of_mem_toDigits (n := n) (by rw [hds]; exact List.mem_cons_self)
    obtain ⟨hsp, hminus, hplus⟩ := digit_plain hc
    have hnat : scanNat (c :: cs) = some n := by rw [← hds]; exact scanNat_toDigits n
    unfold scanInt
    rw [dropWhile_isSpace_cons hsp]
    split
    · rename_i heq
      exact absurd (List.cons.inj heq).1 hminus
    · rename_i heq
      exact absurd (List.cons.inj heq).1 hplus
    · rw [hnat]
      rfl

/-- **Reading back what was printed.** -/
theorem scanInt_decimal (n : Int) : scanInt (decimal n) = some n := by
  unfold decimal
  by_cases hn : n < 0
  · rw [if_pos hn]
    unfold scanInt
    rw [dropWhile_isSpace_cons (by decide)]
    show (scanNat (Nat.toDigits 10 n.natAbs)).map (fun m => -(m : Int)) = some n
    rw [scanNat_toDigits]
    show some (-(n.natAbs : Int)) = some n
    congr 1
    omega
  · rw [if_neg hn, scanInt_toDigits]
    congr 1
    omega

/-- A text that was printed as a number holds it. -/
theorem Element.holds_decimal {e : Element} {name : String} {n : Int} (h : e.attr name = some (decimal n)) :
    e.Holds name n := ⟨_, h, scanInt_decimal n⟩

/-! ## Sizes -/

/-- The bytes a text takes. -/
def size (t : Text) : ℕ := (t.flatMap String.utf8EncodeChar).length

@[simp] theorem size_append (s t : Text) : size (s ++ t) = size s + size t := by
  simp [size]

/-- One byte for each character, as long as they are ASCII. -/
theorem size_ascii {t : Text} (h : t.all (fun c => c.utf8Size == 1) = true) : size t = t.length := by
  unfold size
  rw [List.length_flatMap, List.map_congr_left (g := fun _ => 1), List.map_const', List.sum_replicate, smul_eq_mul,
    mul_one]
  intro c hc
  rw [String.length_utf8EncodeChar]
  exact beq_iff_eq.mp (List.all_eq_true.mp h c hc)

theorem size_flatMap {α : Type} (f : α → Text) (l : List α) : size (l.flatMap f) = (l.map fun a => size (f a)).sum := by
  induction l with
  | nil => rfl
  | cons a l ih => rw [List.flatMap_cons, size_append, ih, List.map_cons, List.sum_cons]

/-- The characters a number is printed in: a sign and the digits. -/
def width (n : Int) : ℕ := (if n < 0 then 1 else 0) + (Nat.log 10 n.natAbs + 1)

theorem length_toDigits (n : ℕ) : (Nat.toDigits 10 n).length = Nat.log 10 n + 1 := by
  have hiff : ∀ k, 0 < k → ((Nat.toDigits 10 n).length ≤ k ↔ Nat.log 10 n + 1 ≤ k) := by
    intro k hk
    rw [Nat.length_toDigits_le_iff (by omega) hk, Nat.add_one_le_iff]
    by_cases hn : n = 0
    · simp [hn, hk]
    · exact (Nat.log_lt_iff_lt_pow (by omega) hn).symm
  apply le_antisymm
  · exact (hiff _ (Nat.succ_pos _)).mpr (le_refl _)
  · exact (hiff _ Nat.length_toDigits_pos).mp (le_refl _)

theorem length_decimal (n : Int) : (decimal n).length = width n := by
  unfold decimal width
  by_cases hn : n < 0
  · rw [if_pos hn, if_pos hn, List.length_cons, length_toDigits, Nat.add_comm]
  · rw [if_neg hn, if_neg hn, length_toDigits, Nat.zero_add]

theorem utf8Size_of_isDigit {c : Char} (h : c.isDigit = true) : c.utf8Size = 1 := by
  have hle : c.val ≤ 57 := by
    simp only [Char.isDigit, ge_iff_le, Bool.and_eq_true, decide_eq_true_eq] at h
    exact h.2
  unfold Char.utf8Size
  rw [if_pos (UInt32.le_trans hle (by decide))]

/-- A printed number is ASCII. -/
theorem ascii_decimal (n : Int) : (decimal n).all (fun c => c.utf8Size == 1) = true := by
  have hdigits : ∀ c ∈ Nat.toDigits 10 n.natAbs, (c.utf8Size == 1) = true := fun c hc =>
    beq_iff_eq.mpr (utf8Size_of_isDigit (isDigit_of_mem_toDigits hc))
  unfold decimal
  apply List.all_eq_true.mpr
  by_cases hn : n < 0
  · rw [if_pos hn]
    intro c hc
    rcases List.mem_cons.mp hc with rfl | hmem
    · decide
    · exact hdigits c hmem
  · rw [if_neg hn]
    exact hdigits

@[simp] theorem size_decimal (n : Int) : size (decimal n) = width n := by
  rw [size_ascii (ascii_decimal n), length_decimal]

theorem width_pos (n : Int) : 1 ≤ width n := by
  unfold width
  omega

/-- A number of fewer than `k` digits, or of a sign and so many. -/
theorem width_le {n : Int} {k : ℕ} (h : n.natAbs < 10 ^ k) (hk : 0 < k) :
    width n ≤ (if n < 0 then 1 else 0) + k := by
  have hlog : Nat.log 10 n.natAbs + 1 ≤ k := by
    rw [← length_toDigits]
    exact (Nat.length_toDigits_le_iff (by omega) hk).mpr h
  unfold width
  omega

end Xml
