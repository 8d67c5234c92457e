import Mathlib

/-!
# `Lib.Blocks` — fixed-size records in a stream that arrives in chunks

A reader takes whole records of `n` elements from the front of its buffer and drops what is left over. A
stream is cut into chunks, and each chunk is read by itself.

## Contents
- **One buffer.** `blocks`, with its length and how it goes over an append.
- **A stream in chunks.** Reading chunk by chunk is reading the stream when every chunk is a whole number of
  records (`flatMap_blocks`), and reads fewer records otherwise (`dvd_of_length_flatMap`).
- **Pieces at the front of chunks.** `eq_of_prefixes`: chunks that each start with the piece they stand for
  and are no longer in all are these pieces.
-/

namespace Blocks

variable {α : Type*}

/-! ## One buffer -/

/-- Records of `n` elements from the front, while there is a whole one. -/
def blocks (n : ℕ) (buf : List α) : List (List α) :=
  if 0 < n ∧ n ≤ buf.length then buf.take n :: blocks n (buf.drop n) else []
termination_by buf.length
decreasing_by
  rw [List.length_drop]
  omega

theorem blocks_of_lt {n : ℕ} {buf : List α} (h : buf.length < n) : blocks n buf = [] := by
  rw [blocks, if_neg]
  omega

/-- A record at the front is the first one read. -/
theorem blocks_append_block {n : ℕ} (hn : 0 < n) {a : List α} (ha : a.length = n) (b : List α) :
    blocks n (a ++ b) = a :: blocks n b := by
  have hle : n ≤ (a ++ b).length := by
    rw [List.length_append]
    omega
  rw [blocks, if_pos ⟨hn, hle⟩, List.take_left' ha, List.drop_left' ha]

/-- As many records are read as there is room for. -/
theorem length_blocks {n : ℕ} (hn : 0 < n) (buf : List α) : (blocks n buf).length = buf.length / n := by
  induction buf using blocks.induct n with
  | case1 buf hle ih =>
    have hdiv : buf.length / n = (buf.length - n) / n + 1 := Nat.div_eq_sub_div hn hle.2
    rw [blocks, if_pos hle, List.length_cons, ih, List.length_drop, hdiv]
  | case2 buf hnot =>
    have hlt : buf.length < n := by omega
    rw [blocks_of_lt hlt, Nat.div_eq_of_lt hlt]
    rfl

theorem blocks_append {n : ℕ} (hn : 0 < n) {a : List α} (ha : n ∣ a.length) (b : List α) :
    blocks n (a ++ b) = blocks n a ++ blocks n b := by
  induction a using blocks.induct n with
  | case1 a hle ih =>
    have hrest : n ∣ (a.drop n).length := by
      rw [List.length_drop]
      exact Nat.dvd_sub ha (dvd_refl n)
    have htake : (a.take n).length = n := List.length_take_of_le hle.2
    have hsplit : a ++ b = a.take n ++ (a.drop n ++ b) := by
      rw [← List.append_assoc, List.take_append_drop]
    rw [hsplit, blocks_append_block hn htake, ih hrest]
    conv_rhs => rw [blocks, if_pos hle]
    rfl
  | case2 a hnot =>
    have hnil : a = [] := by
      apply List.length_eq_zero_iff.mp
      exact Nat.eq_zero_of_dvd_of_lt ha (by omega)
    have hempty : blocks n ([] : List α) = [] := blocks_of_lt hn
    rw [hnil, List.nil_append, hempty, List.nil_append]

/-- Records written one after the other are read back. -/
theorem blocks_flatten {n : ℕ} (hn : 0 < n) {records : List (List α)} (h : ∀ r ∈ records, r.length = n) :
    blocks n records.flatten = records := by
  induction records with
  | nil => exact blocks_of_lt hn
  | cons r records ih =>
    rw [List.flatten_cons, blocks_append_block hn (h r List.mem_cons_self),
      ih fun r hr => h r (List.mem_cons_of_mem _ hr)]

theorem length_flatten_of {n : ℕ} {records : List (List α)} (h : ∀ r ∈ records, r.length = n) :
    records.flatten.length = records.length * n := by
  rw [List.length_flatten, List.map_congr_left h, List.map_const', List.sum_replicate, smul_eq_mul]

/-! ## A stream in chunks -/

/-- What is left over in the chunks is what is missing. -/
theorem length_flatMap_blocks {n : ℕ} (hn : 0 < n) (chunks : List (List α)) :
    (chunks.flatMap (blocks n)).length * n + (chunks.map fun c => c.length % n).sum =
      chunks.flatten.length := by
  induction chunks with
  | nil => simp
  | cons c chunks ih =>
    have hc : c.length / n * n + c.length % n = c.length := Nat.div_add_mod' c.length n
    rw [List.flatMap_cons, List.length_append, List.map_cons, List.sum_cons, List.flatten_cons,
      List.length_append, length_blocks hn, Nat.add_mul]
    omega

/-- Chunks of whole records are read as the stream is. -/
theorem flatMap_blocks {n : ℕ} (hn : 0 < n) {chunks : List (List α)} (h : ∀ c ∈ chunks, n ∣ c.length) :
    chunks.flatMap (blocks n) = blocks n chunks.flatten := by
  induction chunks with
  | nil => exact (blocks_of_lt hn).symm
  | cons c chunks ih =>
    rw [List.flatMap_cons, List.flatten_cons, blocks_append hn (h c List.mem_cons_self),
      ih fun c hc => h c (List.mem_cons_of_mem _ hc)]

/-- If as many records are read as the stream has, no chunk ends inside one. -/
theorem dvd_of_length_flatMap {n k : ℕ} (hn : 0 < n) {chunks : List (List α)}
    (htotal : chunks.flatten.length = k * n) (hread : (chunks.flatMap (blocks n)).length = k) :
    ∀ c ∈ chunks, n ∣ c.length := by
  have hsum := length_flatMap_blocks hn chunks
  rw [htotal, hread] at hsum
  have hzero : (chunks.map fun c => c.length % n).sum = 0 := by omega
  intro c hc
  apply Nat.dvd_of_mod_eq_zero
  exact List.sum_eq_zero_iff.mp hzero _ (List.mem_map_of_mem hc)

/-! ## Pieces at the front of chunks -/

theorem length_flatten_le {pieces chunks : List (List α)} (h : List.Forall₂ (· <+: ·) pieces chunks) :
    pieces.flatten.length ≤ chunks.flatten.length := by
  induction h with
  | nil => exact le_refl _
  | cons hp _ ih =>
    have hle := hp.length_le
    rw [List.flatten_cons, List.flatten_cons, List.length_append, List.length_append]
    omega

/-- Nothing is left over where the lengths agree. -/
theorem eq_of_prefixes {pieces chunks : List (List α)} (h : List.Forall₂ (· <+: ·) pieces chunks)
    (hlen : chunks.flatten.length ≤ pieces.flatten.length) : chunks = pieces := by
  induction h with
  | nil => rfl
  | cons hp hrest ih =>
    have hle := hp.length_le
    have hrestle := length_flatten_le hrest
    rw [List.flatten_cons, List.flatten_cons, List.length_append, List.length_append] at hlen
    rw [hp.eq_of_length (by omega), ih (by omega)]

/-- A part of the chunks that is as long as all of them is all of them, if none is empty. -/
theorem eq_of_sublist {part chunks : List (List α)} (h : part.Sublist chunks) (hne : [] ∉ chunks)
    (hlen : chunks.flatten.length ≤ part.flatten.length) : part = chunks := by
  induction h with
  | slnil => rfl
  | @cons part chunks c hsub ih =>
    have hc : c.length ≠ 0 := by
      intro h0
      apply hne
      rw [List.length_eq_zero_iff.mp h0]
      exact List.mem_cons_self
    have hle : part.flatten.length ≤ chunks.flatten.length := (hsub.flatten).length_le
    rw [List.flatten_cons, List.length_append] at hlen
    omega
  | @cons_cons part chunks c hsub ih =>
    rw [List.flatten_cons, List.flatten_cons, List.length_append, List.length_append] at hlen
    rw [ih (fun hmem => hne (List.mem_cons_of_mem _ hmem)) (by omega)]

end Blocks
