import Mathlib.Algebra.BigOperators.Group.List.Basic

/-!
# `Lib.Checksum` — additive checksums

A loop `for(i = lo; i < hi; i++) sum += p[i];` over a packet, in any group. Of a single element that changes
such a sum notices exactly what happens at the positions it runs over: `Covers.sum_set_ne` there,
`sum_set_of_not_covers` elsewhere.
-/

namespace Checksum

variable {G : Type} [AddCommGroup G]

/-- `sum` after the loop. -/
def sum (p : List G) (lo hi : ℕ) : G := ((p.take hi).drop lo).foldl (· + ·) 0

/-- The sum runs over position `i` of the packet. -/
structure Covers (p : List G) (lo hi i : ℕ) : Prop where
  lo_le : lo ≤ i
  lt_hi : i < hi
  lt_length : i < p.length

variable {p : List G} {lo hi i : ℕ} {a : G}

theorem sum_eq : sum p lo hi = ((p.take hi).drop lo).sum := (List.sum_eq_foldl).symm

/-- An element the sum does not run over may change. -/
theorem sum_set_of_not_covers (h : ¬ (lo ≤ i ∧ i < hi)) : sum (p.set i a) lo hi = sum p lo hi := by
  rw [sum_eq, sum_eq, List.take_set, List.drop_set]
  split_ifs with hlo
  · rfl
  · have hhi : (p.take hi).length ≤ i := by
      rw [List.length_take]
      omega
    rw [List.set_eq_of_length_le (by rw [List.length_drop]; omega)]

/-- The sum follows an element it runs over. -/
theorem Covers.sum_set (h : Covers p lo hi i) (a : G) :
    sum (p.set i a) lo hi = sum p lo hi + (- p.get ⟨i, h.lt_length⟩ + a) := by
  obtain ⟨hlo, hhi, hlength⟩ := h
  have hposition : i - lo < ((p.take hi).drop lo).length := by
    rw [List.length_drop, List.length_take]
    omega
  have helement : ((p.take hi).drop lo)[i - lo] = p[i] := by
    simp only [List.getElem_drop, List.getElem_take, Nat.add_sub_cancel' hlo]
  rw [sum_eq, sum_eq, List.take_set, List.drop_set, if_neg (by omega), List.sum_set', dif_pos hposition, helement,
    List.get_eq_getElem]

/-- **A single element that changes changes the sum**, if the sum runs over it. -/
theorem Covers.sum_set_ne (h : Covers p lo hi i) (ha : a ≠ p.get ⟨i, h.lt_length⟩) :
    sum (p.set i a) lo hi ≠ sum p lo hi := by
  rw [h.sum_set a]
  intro heq
  have hzero := add_eq_left.mp heq
  exact ha (neg_add_eq_zero.mp hzero).symm

end Checksum
