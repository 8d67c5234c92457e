import Mathlib.Data.Int.Notation
import Mathlib.Tactic.Linarith

/-!
# `Lib.Tiling` — windows on a grid of tiles

A screen is tiled by rectangles of one size, and a window is any rectangle on it. It covers a tile that lies in it
whole. `covers_ofTiles`: a window from one tile to another covers the tiles between both, by column and by row; if
the two are the wrong way round it is empty (`ofTiles_nonempty_iff`).
-/

namespace Tiling

/-- A rectangle; the right and the lower edge are outside. -/
@[ext] structure Window where
  left : ℤ
  top : ℤ
  right : ℤ
  bottom : ℤ
deriving DecidableEq, Repr

/-- There is something in the rectangle. -/
def Window.Nonempty (w : Window) : Prop := w.left < w.right ∧ w.top < w.bottom

/-- The size of the tiles. -/
structure Size where
  width : ℤ
  height : ℤ
  width_pos : 0 < width
  height_pos : 0 < height

variable (size : Size)

/-- The window from a tile to another. -/
def ofTiles (col row col' row' : ℤ) : Window :=
  ⟨col * size.width, row * size.height, (col' + 1) * size.width, (row' + 1) * size.height⟩

/-- The tile lies in the window. -/
def Window.Covers (w : Window) (col row : ℤ) : Prop :=
  w.left ≤ col * size.width ∧ w.top ≤ row * size.height ∧ (col + 1) * size.width ≤ w.right ∧
    (row + 1) * size.height ≤ w.bottom

variable {size}

theorem ofTiles_nonempty_iff {col row col' row' : ℤ} :
    (ofTiles size col row col' row').Nonempty ↔ col ≤ col' ∧ row ≤ row' := by
  unfold Window.Nonempty ofTiles
  rw [mul_lt_mul_iff_left₀ size.width_pos, mul_lt_mul_iff_left₀ size.height_pos, Int.lt_add_one_iff,
    Int.lt_add_one_iff]

/-- **The tiles between** are covered, and no others. -/
theorem covers_ofTiles {col row col' row' c r : ℤ} :
    (ofTiles size col row col' row').Covers size c r ↔ (col ≤ c ∧ c ≤ col') ∧ (row ≤ r ∧ r ≤ row') := by
  unfold Window.Covers ofTiles
  rw [mul_le_mul_iff_left₀ size.width_pos, mul_le_mul_iff_left₀ size.height_pos,
    mul_le_mul_iff_left₀ size.width_pos, mul_le_mul_iff_left₀ size.height_pos]
  omega

end Tiling
