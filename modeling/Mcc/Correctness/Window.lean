import Mcc.Model.JxjEn

/-!
# `Correctness.Window` — which windows are the rectangle between two monitors

`getEdge` takes the column and the row of each corner by itself. That the second corner is no smaller a number
keeps the rows in order, not the columns: from monitor 3 to monitor 4 the window ends left of where it begins.
`create_shows_iff`: this is all that goes wrong, up to the last row whose lower edge is an `int`.

## Contents
- **The monitors.** Their columns and rows, and the window that shows a rectangle of them (`Shows`).
- **The command.** What `create` prints, and when it is right.
-/

namespace Mcc

namespace KeyboardJXJEn

open IntOp Tiling

/-! ## The monitors -/

/-- A monitor in pixels. -/
def tile : Size := ⟨1366, 768, by decide, by decide⟩

/-- The column of a monitor. -/
def tileCol (m : Int) : Int := (m - 1) % 3

/-- The row of a monitor. -/
def tileRow (m : Int) : Int := (m - 1) / 3

/-- **The window shows the rectangle** between two monitors: it is one of tiles and not empty, both corners are in
it, and it covers the tiles between them and no others. -/
structure Shows (w : Window) (first last : Int) : Prop where
  nonempty : w.Nonempty
  aligned : ∃ col row col' row', w = ofTiles tile col row col' row' ∧ 0 ≤ col ∧ col' < 3 ∧ 0 ≤ row
  coversFirst : w.Covers tile (tileCol first) (tileRow first)
  coversLast : w.Covers tile (tileCol last) (tileRow last)
  covers_iff : ∀ c r, w.Covers tile c r ↔
    (min (tileCol first) (tileCol last) ≤ c ∧ c ≤ max (tileCol first) (tileCol last)) ∧
      (min (tileRow first) (tileRow last) ≤ r ∧ r ≤ max (tileRow first) (tileRow last))

/-- `create` refuses, or prints a window that shows the rectangle; nothing overflows. -/
def CreatesRight (type inport first last : Int) : Prop :=
  ∃ out, create type inport first last = some out ∧ ∀ cmd, out = some cmd → Shows cmd.window first last

variable {type inport first last : Int}

theorem tileCol_nonneg (m : Int) : 0 ≤ tileCol m ∧ tileCol m < 3 := by
  unfold tileCol
  omega

theorem tileRow_le (h : first ≤ last) : tileRow first ≤ tileRow last := Int.ediv_le_ediv (by decide) (by omega)

theorem tileRow_nonneg (h : 1 ≤ first) : 0 ≤ tileRow first := by
  unfold tileRow
  omega

/-- From the upper left tile to the lower right one the window is right. -/
theorem shows_ofTiles_iff (hfirst : 1 ≤ first) (hle : first ≤ last) :
    Shows (ofTiles tile (tileCol first) (tileRow first) (tileCol last) (tileRow last)) first last ↔
      tileCol first ≤ tileCol last := by
  have hrow := tileRow_le hle
  constructor
  · intro h
    exact (ofTiles_nonempty_iff.mp h.nonempty).1
  · intro hcol
    refine ⟨ofTiles_nonempty_iff.mpr ⟨hcol, hrow⟩, ?_, ?_, ?_, ?_⟩
    · exact ⟨_, _, _, _, rfl, (tileCol_nonneg first).1, (tileCol_nonneg last).2, tileRow_nonneg hfirst⟩
    · exact covers_ofTiles.mpr ⟨⟨Int.le_refl _, hcol⟩, Int.le_refl _, hrow⟩
    · exact covers_ofTiles.mpr ⟨⟨hcol, Int.le_refl _⟩, hrow, Int.le_refl _⟩
    · intro c r
      rw [covers_ofTiles, min_eq_left hcol, max_eq_right hcol, min_eq_left hrow, max_eq_right hrow]

/-! ## The command -/

theorem getEdge_eq (hfirst : 1 ≤ first) (hlast : 1 ≤ last) (hints : IsInt first ∧ IsInt last) :
    getEdge first last = some (tileCol first, tileCol last, tileRow first, tileRow last) := by
  obtain ⟨⟨-, hfirstLt⟩, -, hlastLt⟩ := hints
  unfold getEdge tileCol tileRow
  rw [bind_of_eq (sub_of_range (by omega) (by omega)), bind_of_eq (sub_of_range (by omega) (by omega)),
    Int.tmod_eq_emod_of_nonneg (by omega), Int.tmod_eq_emod_of_nonneg (by omega),
    Int.tdiv_eq_ediv_of_nonneg (by omega), Int.tdiv_eq_ediv_of_nonneg (by omega)]
  rfl

/-- The window of two tiles, while its lower edge is an `int`. -/
theorem window_eq_some_iff {left right top bottom : Int} {w : Window} (hleft : 0 ≤ left ∧ left < 3)
    (hright : 0 ≤ right ∧ right < 3) (htop : 0 ≤ top ∧ top ≤ bottom) :
    window left right top bottom = some w ↔ bottom ≤ 2796201 ∧ w = ofTiles tile left top right bottom := by
  have hwindow : ofTiles tile left top right bottom =
      ⟨left * 1366, top * 768, right * 1366 + 1366, bottom * 768 + 768⟩ := by
    simp [ofTiles, tile, Int.add_mul]
  rw [hwindow]
  simp only [window, mul, add, bind_int_eq_some_iff]
  constructor
  · rintro ⟨-, -, -, -, -, ⟨-, hlt⟩, hw⟩
    exact ⟨by omega, (Option.some.inj hw).symm⟩
  · rintro ⟨hle, rfl⟩
    -- the lower edge is the greatest of the numbers
    refine ⟨⟨?_, ?_⟩, ⟨?_, ?_⟩, ⟨?_, ?_⟩, ⟨?_, ?_⟩, ⟨?_, ?_⟩, ⟨?_, ?_⟩, rfl⟩ <;> omega

/-- What `create` prints: a window, for `VIDEO` and for `DVI`. -/
theorem create_eq_some_iff (htype : type = video ∨ type = dvi) (hfirst : 1 ≤ first) (hlast : 1 ≤ last)
    (hints : IsInt first ∧ IsInt last) {out : Option WinSize} : create type inport first last = some out ↔
      ∃ w, window (tileCol first) (tileCol last) (tileRow first) (tileRow last) = some w ∧
        out = some ⟨if type = video then 'V' else 'D', inport, w⟩ := by
  unfold create move
  rw [bind_of_eq (getEdge_eq hfirst hlast hints)]
  rcases htype with rfl | rfl
  · simp [Option.bind_eq_some_iff, @eq_comm _ out]
  · have hne : dvi ≠ video := by simp [dvi, video]
    simp [hne, Option.bind_eq_some_iff, @eq_comm _ out]

theorem CreatesRight.of_window (h : CreatesRight type inport first last) (htype : type = video ∨ type = dvi)
    (hfirst : 1 ≤ first) (hle : first ≤ last) (hint : IsInt last) :
    tileCol first ≤ tileCol last ∧ tileRow last ≤ 2796201 := by
  obtain ⟨out, hout, hshows⟩ := h
  have hfirstInt : IsInt first := ⟨by omega, Int.lt_of_le_of_lt hle hint.2⟩
  obtain ⟨w, hw, rfl⟩ := (create_eq_some_iff htype hfirst (Int.le_trans hfirst hle) ⟨hfirstInt, hint⟩).mp hout
  obtain ⟨hbottom, rfl⟩ := (window_eq_some_iff (tileCol_nonneg first) (tileCol_nonneg last)
    ⟨tileRow_nonneg hfirst, tileRow_le hle⟩).mp hw
  exact ⟨(shows_ofTiles_iff hfirst hle).mp (hshows _ rfl), hbottom⟩

/-- **When the window is right**: the columns of the corners are in order, and the lower edge is an `int`. -/
theorem create_shows_iff (htype : type = video ∨ type = dvi) (inport : Int) (hfirst : 1 ≤ first)
    (hle : first ≤ last) (hint : IsInt last) :
    CreatesRight type inport first last ↔ (first - 1) % 3 ≤ (last - 1) % 3 ∧ last ≤ 8388606 := by
  have hlower : tileRow last ≤ 2796201 ↔ last ≤ 8388606 := by
    unfold tileRow
    omega
  constructor
  · intro h
    obtain ⟨hcols, hbottom⟩ := h.of_window htype hfirst hle hint
    exact ⟨hcols, hlower.mp hbottom⟩
  · rintro ⟨hcols, hlast⟩
    have hfirstInt : IsInt first := ⟨by omega, Int.lt_of_le_of_lt hle hint.2⟩
    have hwindow := (window_eq_some_iff (tileCol_nonneg first) (tileCol_nonneg last)
      ⟨tileRow_nonneg hfirst, tileRow_le hle⟩).mpr ⟨hlower.mpr hlast, rfl⟩
    refine ⟨_, (create_eq_some_iff htype hfirst (Int.le_trans hfirst hle) ⟨hfirstInt, hint⟩).mpr
      ⟨_, hwindow, rfl⟩, ?_⟩
    intro cmd hcmd
    rw [← Option.some.inj hcmd]
    exact (shows_ofTiles_iff hfirst hle).mpr hcols

/-- Monitors 1, 2, 4 and 5. -/
theorem create_shows_of_four : CreatesRight video 0 1 5 :=
  (create_shows_iff (Or.inl rfl) 0 (by decide) (by decide) (by decide)).mpr (by decide)

/-- **From monitor 3 to monitor 4** the window is 1366 pixels wide the wrong way. -/
theorem window_inverted : ¬ ∀ type inport first last, type = video ∨ type = dvi → 1 ≤ first → first ≤ last →
    IsInt last → CreatesRight type inport first last := by
  intro h
  have hcols := ((h video 0 3 4 (Or.inl rfl) (by decide) (by decide) (by decide)).of_window (Or.inl rfl) (by decide)
    (by decide) (by decide)).1
  exact absurd hcols (by decide)

/-- `SendSwitch` prints the window of the corners it leaves in the message. -/
theorem sendSwitch_command {msg : KeyboardMessage} {sent : Sent} (h : sendSwitch msg = some sent) :
    ∃ type inport, (type = video ∨ type = dvi) ∧
      create type inport sent.msg.leftUpMonitorId sent.msg.rightDownMonitorId = some sent.command := by
  unfold sendSwitch at h
  set corners := if msg.leftUpMonitorId = 0 ∧ msg.rightDownMonitorId = 0 then
    { msg with leftUpMonitorId := msg.monitorId, rightDownMonitorId := msg.monitorId } else msg
  by_cases hvideo : corners.cameraId.lid ≤ 4
  · simp only [hvideo, if_true] at h
    by_cases hport : corners.leftUpMonitorId > 4
    · simp only [hport, if_true] at h
      obtain ⟨command, hcommand, h⟩ := Option.bind_eq_some_iff.mp h
      obtain rfl := Option.some.inj h
      exact ⟨video, 3, Or.inl rfl, hcommand⟩
    · simp only [hport, if_false] at h
      obtain ⟨inport, -, h⟩ := Option.bind_eq_some_iff.mp h
      obtain ⟨command, hcommand, h⟩ := Option.bind_eq_some_iff.mp h
      obtain rfl := Option.some.inj h
      exact ⟨video, inport, Or.inl rfl, hcommand⟩
  · simp only [hvideo, if_false] at h
    obtain ⟨inport, -, h⟩ := Option.bind_eq_some_iff.mp h
    obtain ⟨command, hcommand, h⟩ := Option.bind_eq_some_iff.mp h
    obtain rfl := Option.some.inj h
    exact ⟨dvi, inport, Or.inr rfl, hcommand⟩

end KeyboardJXJEn

end Mcc
