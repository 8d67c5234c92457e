import Mathlib.Data.List.Basic
import Mathlib.Data.Nat.Notation

/-!
# `Lib.Buffer` — arrays of a fixed size

Blocks of cells are stored into an array and loaded from it, and nothing happens outside its bounds: an access
that leaves them has no result.

## Contents
- **Blocks.** `store`, `load`, and what the first leaves for the second (`slice_store_self`,
  `slice_store_of_le`).
- **Strides.** `storeAll` stores block after block, each a stride behind the last, over what the last one has
  beyond its stride. `slice_storeAll`: the array then holds the first stride of each.
- **Chunks.** `loadChunks` loads a range in chunks of one length, the last one whole too: `loadChunks_eq_some_iff`.
-/

/-- `size` cells. -/
structure Buffer (α : Type) (size : ℕ) where
  cells : List α
  length_cells : cells.length = size

namespace Buffer

variable {α : Type} {size : ℕ}

/-! ## Blocks -/

/-- The `n` cells from `p` on, as far as there are so many. -/
def slice (b : Buffer α size) (p n : ℕ) : List α := (b.cells.drop p).take n

/-- `n` cells are read at `p`. -/
def load (b : Buffer α size) (p n : ℕ) : Option (List α) := if p + n ≤ size then some (b.slice p n) else none

/-- A block is written at `p`. -/
def store (b : Buffer α size) (p : ℕ) (l : List α) : Option (Buffer α size) :=
  if h : p + l.length ≤ size then
    some ⟨b.cells.take p ++ (l ++ b.cells.drop (p + l.length)), by simp [b.length_cells]; omega⟩
  else none

variable {b b' : Buffer α size} {p q m n : ℕ} {l : List α}

theorem store_eq_some_iff : b.store p l = some b' ↔
    p + l.length ≤ size ∧ b'.cells = b.cells.take p ++ (l ++ b.cells.drop (p + l.length)) := by
  unfold store
  split_ifs with h
  · obtain ⟨cells, hlength⟩ := b'
    simp [h, eq_comm]
  · simp [h]

theorem exists_store_iff : (∃ b', b.store p l = some b') ↔ p + l.length ≤ size := by
  unfold store
  split_ifs with h
  · simp [h]
  · simp [h]

theorem load_eq_some_iff : b.load p n = some l ↔ p + n ≤ size ∧ b.slice p n = l := by
  unfold load
  split_ifs with h
  · simp [h]
  · simp [h]

theorem length_slice (h : p + n ≤ size) : (b.slice p n).length = n := by
  unfold slice
  rw [List.length_take, List.length_drop, b.length_cells]
  omega

theorem slice_add : b.slice p (m + n) = b.slice p m ++ b.slice (p + m) n := by
  unfold slice
  rw [List.take_add, List.drop_drop]

/-- **What is stored is there.** -/
theorem slice_store_self (h : b.store p l = some b') : b'.slice p l.length = l := by
  obtain ⟨hfits, hcells⟩ := store_eq_some_iff.mp h
  have hlength : (b.cells.take p).length = p := by
    rw [List.length_take, b.length_cells]
    omega
  unfold slice
  rw [hcells, List.drop_left' hlength, List.take_left' rfl]

/-- **What lies before what is stored stays.** -/
theorem slice_store_of_le (h : b.store p l = some b') (hle : q + n ≤ p) : b'.slice q n = b.slice q n := by
  obtain ⟨hfits, hcells⟩ := store_eq_some_iff.mp h
  have hlength : (b.cells.take p).length = p := by
    rw [List.length_take, b.length_cells]
    omega
  unfold slice
  have hroom : n ≤ ((b.cells.take p).drop q).length := by
    rw [List.length_drop, hlength]
    omega
  rw [hcells, List.drop_append_of_le_length (by omega), List.take_append_of_le_length hroom, List.drop_take,
    List.take_take, Nat.min_eq_left (by omega)]

/-- A block begins with its beginning. -/
theorem slice_store_take (h : b.store p l = some b') (hle : n ≤ l.length) : b'.slice p n = l.take n := by
  have hself := slice_store_self h
  rw [← hself]
  unfold slice
  rw [List.take_take, Nat.min_eq_left hle]

/-! ## Strides -/

/-- A loop `store(p, l); p += stride;` over the blocks. -/
def storeAll (stride : ℕ) (b : Buffer α size) (p : ℕ) : List (List α) → Option (Buffer α size)
  | [] => some b
  | l :: ls => do
    let b ← b.store p l
    storeAll stride b (p + stride) ls

variable {stride : ℕ} {ls : List (List α)}

theorem storeAll_cons : storeAll stride b p (l :: ls) = some b' ↔
    ∃ b₁, b.store p l = some b₁ ∧ storeAll stride b₁ (p + stride) ls = some b' := by
  rw [storeAll]
  exact Option.bind_eq_some_iff

/-- What lies before the blocks stays. -/
theorem slice_storeAll_of_le : ∀ {ls : List (List α)} {b : Buffer α size} {p : ℕ},
    storeAll stride b p ls = some b' → q + n ≤ p → b'.slice q n = b.slice q n := by
  intro ls
  induction ls with
  | nil =>
    intro b p h hle
    cases h
    rfl
  | cons l ls ih =>
    intro b p h hle
    obtain ⟨b₁, hstore, hrest⟩ := storeAll_cons.mp h
    rw [ih hrest (by omega), slice_store_of_le hstore hle]

/-- **The array holds the first stride of each block**, one after the other. -/
theorem slice_storeAll : ∀ {ls : List (List α)} {b : Buffer α size} {p : ℕ},
    storeAll stride b p ls = some b' → (∀ l ∈ ls, stride ≤ l.length) →
      b'.slice p (stride * ls.length) = ls.flatMap (List.take stride) := by
  intro ls
  induction ls with
  | nil =>
    intro b p h hlong
    simp [slice]
  | cons l ls ih =>
    intro b p h hlong
    obtain ⟨b₁, hstore, hrest⟩ := storeAll_cons.mp h
    obtain ⟨hfirst, hothers⟩ := List.forall_mem_cons.mp hlong
    have hsize : stride * (l :: ls).length = stride + stride * ls.length := by
      rw [List.length_cons, Nat.mul_succ, Nat.add_comm]
    -- the later blocks leave the first stride of this one alone
    rw [hsize, slice_add, slice_storeAll_of_le hrest (Nat.le_refl _), slice_store_take hstore hfirst,
      ih hrest hothers, List.flatMap_cons]

/-- **The loop stays inside the array** exactly if every block does. -/
theorem exists_storeAll_iff : ∀ {ls : List (List α)} {b : Buffer α size} {p : ℕ},
    (∃ b', storeAll stride b p ls = some b') ↔ ∀ k l, ls[k]? = some l → p + stride * k + l.length ≤ size := by
  intro ls
  induction ls with
  | nil =>
    intro b p
    simp [storeAll]
  | cons l ls ih =>
    intro b p
    constructor
    · rintro ⟨b', h⟩ k l' hl'
      obtain ⟨b₁, hstore, hrest⟩ := storeAll_cons.mp h
      cases k with
      | zero =>
        obtain rfl : l = l' := by simpa using hl'
        simpa using (store_eq_some_iff.mp hstore).1
      | succ k =>
        have hk := ih.mp ⟨b', hrest⟩ k l' (by simpa using hl')
        rw [Nat.mul_succ]
        omega
    · intro h
      have hfirst := h 0 l (by simp)
      obtain ⟨b₁, hstore⟩ := exists_store_iff.mpr (by simpa using hfirst)
      obtain ⟨b', hrest⟩ := (ih (b := b₁) (p := p + stride)).mpr fun k l' hl' => by
        have hk := h (k + 1) l' (by simpa using hl')
        rw [Nat.mul_succ] at hk
        omega
      exact ⟨b', storeAll_cons.mpr ⟨b₁, hstore, hrest⟩⟩

/-! ## Chunks -/

/-- A loop `while(len > 0) { load(p, c); p += c; len -= c; }`: all that is loaded. -/
def loadChunks (c : ℕ) (hc : 0 < c) (b : Buffer α size) (p len : ℕ) : Option (List α) :=
  if len = 0 then some []
  else do
    let chunk ← b.load p c
    let rest ← loadChunks c hc b (p + c) (len - c)
    return chunk ++ rest
termination_by len
decreasing_by exact Nat.sub_lt (by omega) hc

/-- The chunks it takes. -/
def chunks (c len : ℕ) : ℕ := (len + (c - 1)) / c

theorem chunks_mul {c : ℕ} (hc : 0 < c) (n : ℕ) : chunks c (c * n) = n := by
  unfold chunks
  rw [Nat.add_comm, Nat.add_mul_div_left _ _ hc, Nat.div_eq_of_lt (by omega), Nat.zero_add]

theorem chunks_of_pos {c len : ℕ} (hc : 0 < c) (h : len ≠ 0) : chunks c len = chunks c (len - c) + 1 := by
  unfold chunks
  rw [← Nat.add_div_right _ hc]
  rcases Nat.lt_or_ge len c with hlt | hge
  · -- the last chunk
    have hsum : len + (c - 1) = len - 1 + c := by omega
    rw [hsum, Nat.sub_eq_zero_of_le (Nat.le_of_lt hlt), Nat.zero_add, Nat.add_div_right _ hc, Nat.add_div_right _ hc,
      Nat.div_eq_of_lt (by omega), Nat.div_eq_of_lt (by omega)]
  · have hsum : len + (c - 1) = len - c + (c - 1) + c := by omega
    rw [hsum]

/-- **Whole chunks are loaded**, so many as it takes. -/
theorem loadChunks_eq_some_iff {c : ℕ} (hc : 0 < c) (b : Buffer α size) (p len : ℕ) (h : p ≤ size) (l : List α) :
    loadChunks c hc b p len = some l ↔ p + c * chunks c len ≤ size ∧ b.slice p (c * chunks c len) = l := by
  induction len using Nat.strongRecOn generalizing p l with
  | ind len ih =>
    rw [loadChunks]
    split_ifs with hlen
    · subst hlen
      have hnone : chunks c 0 = 0 := chunks_mul hc 0
      simp [hnone, h, slice]
    · have hmul : c * chunks c len = c + c * chunks c (len - c) := by
        rw [chunks_of_pos hc hlen, Nat.mul_succ, Nat.add_comm]
      simp only [Option.bind_eq_bind, Option.bind_eq_some_iff, load_eq_some_iff, Option.pure_def, Option.some.injEq]
      rw [hmul, slice_add]
      constructor
      · rintro ⟨chunk, ⟨hfits, rfl⟩, rest, hrest, rfl⟩
        obtain ⟨hrestFits, rfl⟩ := (ih (len - c) (by omega) (p + c) hfits rest).mp hrest
        exact ⟨by omega, rfl⟩
      · rintro ⟨hfits, rfl⟩
        exact ⟨_, ⟨by omega, rfl⟩, _, (ih (len - c) (by omega) (p + c) (by omega) _).mpr ⟨by omega, rfl⟩, rfl⟩

end Buffer
