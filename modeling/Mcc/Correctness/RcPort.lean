import Mcc.Correctness.Pin
import Mcc.Model.RcPort

/-!
# `Correctness.RcPort` — what arrives at the matrix ports

Three numbers have to fit what `MCCKeyboardRC` reserves for them: a row the low half of a header byte, a command
its twelve bytes, the commands of a rectangle the buffer. `port_bytes_exact_iff` says for which messages they all
do: then, and only then, the ports are written the header and the commands and nothing else.

## Contents
- **The wall.** Monitors by row and column, and the header bytes (`encodes_iff`).
- **Commands.** Their lengths.
- **The two branches.** What is printed and written for a `SWITCH` and for a `Pin`.
- **The condition.** `port_bytes_exact_iff`.
-/

namespace Mcc

namespace KeyboardRC

open Xml

/-! ## The wall -/

/-- Row of a monitor on the wall, from 1. -/
def wallRow (m : Int) : ℕ := (m.toNat - 1) / 6 + 1

/-- Column of a monitor on the wall, from 1 to 6. -/
def wallCol (m : Int) : ℕ := (m.toNat - 1) % 6 + 1

/-- The monitor at a place on the wall. -/
def monitorAt (row col : ℕ) : Int := 6 * (row - 1) + col

/-- The monitors from one corner to the other, row by row. -/
def rectangle (first last : Int) : List Int :=
  (List.range' (wallRow first) (wallRow last + 1 - wallRow first)).flatMap fun row =>
    (List.range' (wallCol first) (wallCol last + 1 - wallCol first)).map fun col => monitorAt row col

/-- The byte says which monitor it is: its column is the high half, its row the low one. -/
def Encodes (b : Byte) (m : Int) : Prop :=
  (1 ≤ b.toNat / 16 ∧ b.toNat / 16 ≤ 6) ∧ m = monitorAt (b.toNat % 16) (b.toNat / 16)

theorem wallCol_le (m : Int) : 1 ≤ wallCol m ∧ wallCol m ≤ 6 := by
  unfold wallCol
  omega

theorem monitorAt_wall {m : Int} (h : 0 < m) : monitorAt (wallRow m) (wallCol m) = m := by
  unfold monitorAt wallRow wallCol
  omega

theorem wallRow_le {m : Int} (h : m ≤ 90) : wallRow m ≤ 15 := by
  unfold wallRow
  omega

/-- Up to row 15 the encoder finds a monitor where it is. -/
theorem gridPosition_wall {m : Int} (h : 0 < m ∧ m ≤ 90) : gridPosition m = (wallCol m, wallRow m) := by
  have hmod : m % 256 = m := by omega
  rw [gridPosition_eq, Prod.mk.injEq]
  unfold gridCol gridRow wallCol wallRow
  rw [hmod, if_neg (by omega)]
  exact ⟨rfl, Nat.add_comm _ _⟩

/-- **A header byte** says which monitor it was made from exactly up to monitor 90. -/
theorem encodes_iff {m : Int} (h : 0 < m) : Encodes (BitVec.ofNat 8 (gridByte (gridPosition m))) m ↔ m ≤ 90 := by
  unfold Encodes
  constructor
  · rintro ⟨hcol, hm⟩
    unfold monitorAt at hm
    omega
  · intro hle
    have hcol := wallCol_le m
    have hrow := wallRow_le hle
    have hbyte : (BitVec.ofNat 8 (gridByte (gridPosition m))).toNat = wallCol m * 16 + wallRow m := by
      rw [gridPosition_wall ⟨h, hle⟩, BitVec.toNat_ofNat]
      unfold gridByte
      omega
    have hhigh : (wallCol m * 16 + wallRow m) / 16 = wallCol m := by omega
    have hlow : (wallCol m * 16 + wallRow m) % 16 = wallRow m := by omega
    rw [hbyte, hhigh, hlow]
    exact ⟨hcol, (monitorAt_wall h).symm⟩

theorem length_rectangle (first last : Int) : (rectangle first last).length =
    (wallRow last + 1 - wallRow first) * (wallCol last + 1 - wallCol first) := by
  unfold rectangle
  simp [List.length_flatMap]

/-- The monitors of a rectangle up to monitor 90. -/
theorem mem_rectangle {first last m : Int} (hlast : last ≤ 90) (h : m ∈ rectangle first last) : 0 < m ∧ m ≤ 90 := by
  unfold rectangle at h
  simp only [List.mem_flatMap, List.mem_map, List.mem_range'_1] at h
  obtain ⟨row, hrow, col, hcol, rfl⟩ := h
  have hfirst : 1 ≤ wallRow first := by unfold wallRow; omega
  have hlastRow := wallRow_le hlast
  have hfirstCol := wallCol_le first
  have hlastCol := wallCol_le last
  unfold monitorAt
  omega

theorem rectangle_self {m : Int} (h : 0 < m) : rectangle m m = [m] := by
  unfold rectangle
  simp [monitorAt_wall h]

/-- All that fits on a wall of 90 monitors, but for the wall itself, takes 84 commands at most. -/
theorem length_rectangle_le {first last : Int} (hlast : last ≤ 90) (hfirst : 0 < first)
    (hwall : ¬ (first = 1 ∧ last = 90)) : (rectangle first last).length ≤ 84 := by
  rw [length_rectangle]
  have hlastRow := wallRow_le hlast
  have hfirstCol := wallCol_le first
  have hlastCol := wallCol_le last
  have hfirstRow : 1 ≤ wallRow first := by unfold wallRow; omega
  rcases Nat.lt_or_ge (wallRow last + 1 - wallRow first) 15 with hrows | hrows
  · exact (Nat.mul_le_mul (Nat.le_of_lt_succ hrows) (by omega : _ ≤ 6)).trans (by decide)
  · -- all fifteen rows and all six columns are only in the wall itself
    have hcols : wallCol last + 1 - wallCol first ≤ 5 := by
      unfold wallRow at hrows
      unfold wallCol
      omega
    exact (Nat.mul_le_mul (by omega : _ ≤ 15) hcols).trans (by decide)

/-! ## Commands -/

theorem width_le_two_iff {n : Int} (h : 0 < n) : width n ≤ 2 ↔ n ≤ 99 := by
  unfold width
  have hlog : Nat.log 10 n.natAbs < 2 ↔ n.natAbs < 10 ^ 2 := Nat.log_lt_iff_lt_pow (by decide) (by omega)
  rw [if_neg (by omega)]
  omega

theorem length_twoDigits (n : Int) : (twoDigits n).length = max 2 (width n) := by
  have hpos := width_pos n
  unfold twoDigits
  rw [length_decimal]
  split_ifs with h
  · rw [List.length_cons, length_decimal]
    omega
  · rw [length_decimal]
    omega

theorem length_text (c : SwitchCommand) : c.text.length = 8 + max 2 (width c.input) + max 2 (width c.monitor) := by
  unfold SwitchCommand.text
  simp only [List.length_append, List.length_cons, List.length_nil, length_twoDigits]
  omega

@[simp] theorem length_textBytes (t : Text) : (textBytes t).length = t.length := by simp [textBytes]

@[simp] theorem length_cString (t : Text) : (cString t).length = t.length + 1 := by simp [cString]

theorem not_mem_twoDigits (n : Int) : 'T' ∉ twoDigits n := by
  have hdecimal : 'T' ∉ decimal n := by
    unfold decimal
    have hdigits : 'T' ∉ Nat.toDigits 10 n.natAbs := fun h => absurd (isDigit_of_mem_toDigits h) (by decide)
    split_ifs
    · simpa using hdigits
    · exact hdigits
  unfold twoDigits
  split_ifs
  · simpa using hdecimal
  · exact hdecimal

/-- `strstr` finds the end of a command. -/
theorem idxOf_text {c : SwitchCommand} (h : c.port ≠ 'T') : c.text.idxOf 'T' + 1 = c.text.length := by
  have hnot : 'T' ∉ ['P', c.port, '0', '1', 'S', 'W'] ++ twoDigits c.input ++ twoDigits c.monitor := by
    simp [not_mem_twoDigits, h.symm]
  unfold SwitchCommand.text
  have hend : ['N', 'T'].idxOf 'T' = 1 := by decide
  rw [List.idxOf_append_of_notMem hnot, hend]
  simp only [List.length_append, List.length_cons, List.length_nil, Nat.add_assoc]

theorem switchCommand_port (cameraId monitorId : Int) : (switchCommand cameraId monitorId).port ≠ 'T' := by
  unfold switchCommand
  split_ifs
  · simp
  · simp

/-- The length of a camera's commands for the first 90 monitors. -/
def commandLength (cam : Int) : ℕ := (switchCommand cam 1).text.length

theorem length_command {cam m : Int} (hm : 0 < m ∧ m ≤ 90) :
    (switchCommand cam m).text.length = commandLength cam := by
  have hmonitor : width m ≤ 2 := (width_le_two_iff hm.1).mpr (by omega)
  have hone : width 1 ≤ 2 := (width_le_two_iff (by decide)).mpr (by decide)
  have hinput : (switchCommand cam m).input = (switchCommand cam 1).input := by
    unfold switchCommand
    split_ifs
    · rfl
    · rfl
  unfold commandLength
  rw [length_text, length_text, hinput, switchCommand_monitor, switchCommand_monitor]
  omega

theorem le_commandLength (cam : Int) : 12 ≤ commandLength cam := by
  unfold commandLength
  rw [length_text]
  omega

/-- **A command keeps to its twelve bytes** up to camera 107. -/
theorem commandLength_eq_iff {cam : Int} (hcam : 0 < cam) : commandLength cam = 12 ↔ cam ≤ 107 := by
  have hone : width 1 ≤ 2 := (width_le_two_iff (by decide)).mpr (by decide)
  have hinput : width (switchCommand cam 1).input ≤ 2 ↔ cam ≤ 107 := by
    unfold switchCommand
    split_ifs with hport
    · rw [width_le_two_iff (by omega : 0 < cam - 8)]
      omega
    · rw [width_le_two_iff hcam]
      omega
  unfold commandLength
  rw [length_text, switchCommand_monitor]
  omega

/-- Two chunks are always enough, and never filled. -/
theorem commandLength_lt {cam : Int} (hcam : 0 < cam) (hint : IsInt cam) : commandLength cam < 24 := by
  have hone : width 1 ≤ 2 := (width_le_two_iff (by decide)).mpr (by decide)
  have hinput : width (switchCommand cam 1).input ≤ 10 := by
    unfold IsInt at hint
    unfold switchCommand
    split_ifs with hport
    · have hle := width_le (by omega : (cam - 8).natAbs < 10 ^ 10) (by decide)
      rwa [if_neg (by omega), Nat.zero_add] at hle
    · have hle := width_le (by omega : cam.natAbs < 10 ^ 10) (by decide)
      rwa [if_neg (by omega), Nat.zero_add] at hle
  unfold commandLength
  rw [length_text, switchCommand_monitor]
  omega

/-! ## The two branches -/

theorem inBounds_eq_ok_iff {α : Type} {o : Option α} {a : α} : inBounds o = .ok a ↔ o = some a := by
  cases o with
  | none => simp [inBounds]
  | some b => simp [inBounds]

/-- Once the packet is built, the header goes out and as many chunks of twelve bytes as it takes. -/
theorem sendSwitchBytes_eq_ok_iff {buf buf' : PortBuffer} {msg : KeyboardMessage} {n : ℕ} {bytes : List Byte}
    (h : buildPacketInto buf msg = .ok (6 + n, buf')) : sendSwitchBytes buf msg = .ok bytes ↔
      6 + 12 * Buffer.chunks 12 n ≤ 1024 ∧ buf'.slice 0 6 ++ buf'.slice 6 (12 * Buffer.chunks 12 n) = bytes := by
  unfold sendSwitchBytes
  rw [h]
  have hhead : buf'.load 0 6 = some (buf'.slice 0 6) := Buffer.load_eq_some_iff.mpr ⟨by decide, rfl⟩
  simp only [bind, Except.bind, hhead, inBounds, Nat.add_sub_cancel_left, if_pos (by omega : 6 + n > 0)]
  constructor
  · intro hok
    obtain ⟨chunks, hchunks, hok⟩ := bind_eq_ok hok
    obtain ⟨hfits, rfl⟩ := (Buffer.loadChunks_eq_some_iff (by decide) buf' 6 n (by decide) chunks).mp
      (inBounds_eq_ok_iff.mp hchunks)
    exact ⟨hfits, Except.ok.inj hok⟩
  · rintro ⟨hfits, rfl⟩
    rw [(Buffer.loadChunks_eq_some_iff (by decide) buf' 6 n (by decide) _).mpr ⟨hfits, rfl⟩]
    rfl

/-- The corners of the rectangle that the two branches print. -/
def corners (msg : KeyboardMessage) : Int × Int :=
  match msg.type with
  | .pin => (msg.leftUpMonitorId, msg.rightDownMonitorId)
  | _ => (msg.monitorId, msg.monitorId)

/-- The command a message's camera gets for a monitor, as text. -/
def commandText (msg : KeyboardMessage) (m : Int) : Text := (switchCommand msg.cameraId.lid m).text

/-- The header of a message's packet. -/
def messageHeader (msg : KeyboardMessage) : List Byte :=
  headerBytes msg.cameraId.lid (gridPosition (corners msg).1) (gridPosition (corners msg).2)

/-- **A `SWITCH`**: its command is printed behind the header, and its length is found. -/
theorem buildPacketInto_switch {buf : PortBuffer} {msg : KeyboardMessage} (htype : msg.type = .switch)
    {r : ℕ × PortBuffer} : buildPacketInto buf msg = .ok r ↔ ∃ buf₁ buf₂, buf.store 0 (messageHeader msg) = some buf₁ ∧
      buf₁.store 6 (cString (commandText msg msg.monitorId)) = some buf₂ ∧
      r = (6 + (commandText msg msg.monitorId).length, buf₂) := by
  have hlength := idxOf_text (switchCommand_port msg.cameraId.lid msg.monitorId)
  unfold buildPacketInto messageHeader corners commandText
  simp only [htype]
  constructor
  · intro h
    obtain ⟨buf₁, hhead, h⟩ := bind_eq_ok h
    obtain ⟨buf₂, hcommand, h⟩ := bind_eq_ok h
    cases h
    exact ⟨buf₁, buf₂, inBounds_eq_ok_iff.mp hhead, inBounds_eq_ok_iff.mp hcommand, by rw [Nat.add_assoc, hlength]⟩
  · rintro ⟨buf₁, buf₂, hhead, hcommand, rfl⟩
    rw [hhead]
    simp only [inBounds, bind, Except.bind, hcommand, Nat.add_assoc, hlength]
    rfl

/-- The commands a `Pin` is made into, as they are printed one after the other. -/
def pinCommands (msg : KeyboardMessage) : List (List Byte) :=
  (List.range (gridRow msg.rightDownMonitorId - gridRow msg.leftUpMonitorId + 1)).flatMap fun (i : ℕ) =>
    (List.range (gridCol msg.rightDownMonitorId - gridCol msg.leftUpMonitorId + 1)).map fun (j : ℕ) =>
      cString (commandText msg (msg.leftUpMonitorId + j + 6 * i))

theorem length_pinCommands (msg : KeyboardMessage) : (pinCommands msg).length =
    (gridRow msg.rightDownMonitorId - gridRow msg.leftUpMonitorId + 1) *
      (gridCol msg.rightDownMonitorId - gridCol msg.leftUpMonitorId + 1) := by
  unfold pinCommands
  simp [List.length_flatMap]

/-- **A `Pin`**: its commands are printed behind the header, twelve bytes apart. -/
theorem buildPacketInto_pin {buf : PortBuffer} {msg : KeyboardMessage} (htype : msg.type = .pin)
    (hle : gridRow msg.leftUpMonitorId ≤ gridRow msg.rightDownMonitorId ∧
      gridCol msg.leftUpMonitorId ≤ gridCol msg.rightDownMonitorId)
    {r : ℕ × PortBuffer} : buildPacketInto buf msg = .ok r ↔ ∃ buf₁ buf₂, buf.store 0 (messageHeader msg) = some buf₁ ∧
      buf₁.storeAll 12 6 (pinCommands msg) = some buf₂ ∧ r = (6 + 12 * (pinCommands msg).length, buf₂) := by
  rw [length_pinCommands]
  unfold buildPacketInto messageHeader corners pinCommands commandText
  simp only [htype, gridPosition_eq]
  rw [if_neg (by omega)]
  constructor
  · intro h
    obtain ⟨buf₁, hhead, h⟩ := bind_eq_ok h
    obtain ⟨buf₂, hcommands, h⟩ := bind_eq_ok h
    cases h
    exact ⟨buf₁, buf₂, inBounds_eq_ok_iff.mp hhead, inBounds_eq_ok_iff.mp hcommands, rfl⟩
  · rintro ⟨buf₁, buf₂, hhead, hcommands, rfl⟩
    rw [hhead]
    simp only [inBounds, bind, Except.bind, hcommands]
    rfl

/-! ## The condition -/

/-- A request the encoder is meant for: a `SWITCH`, or a `Pin` whose rectangle is not inverted. Its ids are
    `int`s. -/
structure Request (msg : KeyboardMessage) : Prop where
  type : msg.type = .switch ∨ msg.type = .pin
  camera : 0 < msg.cameraId.lid ∧ IsInt msg.cameraId.lid
  first : 0 < (corners msg).1 ∧ IsInt (corners msg).1
  last : 0 < (corners msg).2 ∧ IsInt (corners msg).2
  row_le : wallRow (corners msg).1 ≤ wallRow (corners msg).2
  col_le : wallCol (corners msg).1 ≤ wallCol (corners msg).2

/-- The commands of the rectangle, row by row, and nothing between them. -/
def commandBytes (msg : KeyboardMessage) : List Byte :=
  (rectangle (corners msg).1 (corners msg).2).flatMap fun m => textBytes (commandText msg m)

/-- **What the ports should be written**: six bytes that say which monitors are meant, and a command for each. -/
def SendsExactly (buf : PortBuffer) (msg : KeyboardMessage) : Prop :=
  ∃ head : List Byte, head.length = 6 ∧ (∃ b, head[1]? = some b ∧ Encodes b (corners msg).1) ∧
    (∃ b, head[2]? = some b ∧ Encodes b (corners msg).2) ∧
    sendSwitchBytes buf msg = .ok (head ++ commandBytes msg)

variable {buf buf' : PortBuffer} {msg : KeyboardMessage}

theorem length_messageHeader (msg : KeyboardMessage) : (messageHeader msg).length = 6 := by
  simp [messageHeader, headerBytes, header]

theorem Request.first_le (h : Request msg) : (corners msg).1 ≤ (corners msg).2 := by
  have hfirst := monitorAt_wall h.first.1
  have hlast := monitorAt_wall h.last.1
  have hrow := h.row_le
  have hcol := h.col_le
  unfold monitorAt at hfirst hlast
  omega

/-- A packet that is built begins with the header. -/
theorem slice_buildPacketInto {n : ℕ} (htype : msg.type = .switch ∨ msg.type = .pin)
    (h : buildPacketInto buf msg = .ok (n, buf')) :
    n = 0 ∨ 6 ≤ n ∧ buf'.slice 0 6 = messageHeader msg := by
  have hhead := length_messageHeader msg
  rcases htype with hswitch | hpin
  · obtain ⟨buf₁, buf₂, hstore, hcommand, heq⟩ := (buildPacketInto_switch hswitch).mp h
    cases heq
    refine Or.inr ⟨by omega, ?_⟩
    rw [Buffer.slice_store_of_le hcommand (by decide), ← hhead]
    exact Buffer.slice_store_self hstore
  · by_cases hle : gridRow msg.leftUpMonitorId ≤ gridRow msg.rightDownMonitorId ∧
      gridCol msg.leftUpMonitorId ≤ gridCol msg.rightDownMonitorId
    · obtain ⟨buf₁, buf₂, hstore, hcommands, heq⟩ := (buildPacketInto_pin hpin hle).mp h
      cases heq
      refine Or.inr ⟨by omega, ?_⟩
      rw [Buffer.slice_storeAll_of_le hcommands (by decide), ← hhead]
      exact Buffer.slice_store_self hstore
    · unfold buildPacketInto at h
      simp only [hpin, gridPosition_eq] at h
      rw [if_pos (by omega)] at h
      cases h
      exact Or.inl rfl

/-- What goes out begins with the header. -/
theorem take_sendSwitchBytes {bytes : List Byte} (htype : msg.type = .switch ∨ msg.type = .pin)
    (h : sendSwitchBytes buf msg = .ok bytes) : bytes = [] ∨ bytes.take 6 = messageHeader msg := by
  have hok := h
  unfold sendSwitchBytes at hok
  obtain ⟨⟨n, buf'⟩, hbuild, hok⟩ := bind_eq_ok hok
  rcases slice_buildPacketInto htype hbuild with hzero | ⟨hn, hslice⟩
  · rw [hzero] at hok
    exact Or.inl (Except.ok.inj hok).symm
  · obtain ⟨k, rfl⟩ := Nat.exists_eq_add_of_le hn
    obtain ⟨-, rfl⟩ := (sendSwitchBytes_eq_ok_iff hbuild).mp h
    rw [hslice, List.take_left' (length_messageHeader msg)]
    exact Or.inr rfl

/-- **The header says which monitors are meant** only up to monitor 90. -/
theorem SendsExactly.last_le (h : SendsExactly buf msg) (hreq : Request msg) : (corners msg).2 ≤ 90 := by
  obtain ⟨head, hlength, -, ⟨b, hb, hencodes⟩, hsend⟩ := h
  have hhead : head = messageHeader msg := by
    rcases take_sendSwitchBytes hreq.type hsend with hnone | hhead
    · have hzero := congrArg List.length hnone
      rw [List.length_append, hlength] at hzero
      exact absurd hzero (by simp)
    · rwa [List.take_left' hlength] at hhead
  have hbyte : b = BitVec.ofNat 8 (gridByte (gridPosition (corners msg).2)) := by
    rw [hhead] at hb
    simpa [messageHeader, headerBytes, header, eq_comm] using hb
  rw [hbyte] at hencodes
  exact (encodes_iff hreq.last.1).mp hencodes

/-- The rectangle's commands, one as long as the other. -/
theorem length_commandBytes (hlast : (corners msg).2 ≤ 90) : (commandBytes msg).length =
    (rectangle (corners msg).1 (corners msg).2).length * commandLength msg.cameraId.lid := by
  unfold commandBytes
  rw [List.length_flatMap, List.map_congr_left (g := fun _ => commandLength msg.cameraId.lid), List.map_const',
    List.sum_replicate, smul_eq_mul]
  intro m hm
  rw [length_textBytes]
  exact length_command (mem_rectangle hlast hm)

/-- A `SWITCH` names one monitor. -/
theorem corners_switch (hswitch : msg.type = .switch) : corners msg = (msg.monitorId, msg.monitorId) := by
  unfold corners
  rw [hswitch]

/-- A `Pin` names two. -/
theorem corners_pin (hpin : msg.type = .pin) : corners msg = (msg.leftUpMonitorId, msg.rightDownMonitorId) := by
  unfold corners
  rw [hpin]

/-- The encoder counts rows and columns from the first corner; on the wall that comes to the same. -/
theorem rectangle_eq {first last : Int} (hfirst : 0 < first) (hle : first ≤ last) (hlast : last ≤ 90)
    (hrow : wallRow first ≤ wallRow last) (hcol : wallCol first ≤ wallCol last) :
    (gridRow first ≤ gridRow last ∧ gridCol first ≤ gridCol last) ∧
    rectangle first last = (List.range (gridRow last - gridRow first + 1)).flatMap fun (i : ℕ) =>
      (List.range (gridCol last - gridCol first + 1)).map fun (j : ℕ) => first + j + 6 * i := by
  have hgridFirst := gridPosition_wall ⟨hfirst, hle.trans hlast⟩
  have hgridLast := gridPosition_wall ⟨hfirst.trans_le hle, hlast⟩
  rw [gridPosition_eq, Prod.mk.injEq] at hgridFirst hgridLast
  rw [hgridFirst.1, hgridFirst.2, hgridLast.1, hgridLast.2]
  refine ⟨⟨hrow, hcol⟩, ?_⟩
  have hrows : wallRow last - wallRow first + 1 = wallRow last + 1 - wallRow first := by omega
  have hcols : wallCol last - wallCol first + 1 = wallCol last + 1 - wallCol first := by omega
  unfold rectangle
  rw [List.range'_eq_map_range, List.range'_eq_map_range, List.flatMap_map, hrows, hcols]
  apply List.flatMap_congr
  intro i hi
  rw [List.map_map]
  apply List.map_congr_left
  intro j hj
  have hat := monitorAt_wall hfirst
  unfold monitorAt at hat
  simp only [Function.comp_apply, monitorAt]
  push_cast
  omega

theorem Request.rectangle_pin (hpin : msg.type = .pin) (hreq : Request msg) (hlast : (corners msg).2 ≤ 90) :
    (gridRow msg.leftUpMonitorId ≤ gridRow msg.rightDownMonitorId ∧
      gridCol msg.leftUpMonitorId ≤ gridCol msg.rightDownMonitorId) ∧
    rectangle (corners msg).1 (corners msg).2 =
      (List.range (gridRow msg.rightDownMonitorId - gridRow msg.leftUpMonitorId + 1)).flatMap fun (i : ℕ) =>
        (List.range (gridCol msg.rightDownMonitorId - gridCol msg.leftUpMonitorId + 1)).map fun (j : ℕ) =>
          msg.leftUpMonitorId + j + 6 * i := by
  have hle := hreq.first_le
  obtain ⟨-, -, ⟨hfirst, -⟩, -, hrow, hcol⟩ := hreq
  rw [corners_pin hpin] at hle hlast hfirst hrow hcol ⊢
  exact rectangle_eq hfirst hle hlast hrow hcol

/-- On the wall the encoder prints the rectangle's commands. -/
theorem pinCommands_eq (hpin : msg.type = .pin) (hreq : Request msg) (hlast : (corners msg).2 ≤ 90) :
    pinCommands msg = (rectangle (corners msg).1 (corners msg).2).map fun m => cString (commandText msg m) := by
  rw [(hreq.rectangle_pin hpin hlast).2]
  unfold pinCommands
  simp only [List.map_flatMap, List.map_map, Function.comp_def]

/-- **They are the commands of `Frontend`'s packet**, printed. -/
theorem commandBytes_eq_sendSwitch (hreq : Request msg) (hlast : (corners msg).2 ≤ 90) :
    commandBytes msg = (sendSwitch msg).flatMap fun c => textBytes c.text := by
  unfold commandBytes commandText sendSwitch buildPacketFromMessage
  rcases hreq.type with hswitch | hpin
  · have hpos := hreq.first.1
    rw [corners_switch hswitch] at hpos ⊢
    simp [hswitch, rectangle_self hpos]
  · obtain ⟨hle, hrectangle⟩ := hreq.rectangle_pin hpin hlast
    rw [hrectangle]
    simp only [hpin, gridPosition_eq, Nat.not_lt.mpr hle.1, Nat.not_lt.mpr hle.2, or_self, if_false, Option.map_some,
      Option.getD_some, List.flatMap_assoc, List.flatMap_map]

/-- The chunks are whole. -/
theorem length_sendSwitchBytes {n : ℕ} {bytes : List Byte} (hbuild : buildPacketInto buf msg = .ok (6 + n, buf'))
    (hsend : sendSwitchBytes buf msg = .ok bytes) : bytes.length = 6 + 12 * Buffer.chunks 12 n := by
  obtain ⟨hfits, rfl⟩ := (sendSwitchBytes_eq_ok_iff hbuild).mp hsend
  rw [List.length_append, Buffer.length_slice (by decide), Buffer.length_slice hfits]

theorem Request.length_pos (hreq : Request msg) : 0 < (rectangle (corners msg).1 (corners msg).2).length := by
  have hrow := hreq.row_le
  have hcol := hreq.col_le
  rw [length_rectangle]
  exact Nat.mul_pos (by omega) (by omega)

/-- **A command of twelve bytes for each monitor** is what a camera up to 107 gets, and only such a camera. -/
theorem SendsExactly.camera_le (h : SendsExactly buf msg) (hreq : Request msg) : msg.cameraId.lid ≤ 107 := by
  have hlast := h.last_le hreq
  obtain ⟨head, hlength, -, -, hsend⟩ := h
  have hbuilt := hsend
  unfold sendSwitchBytes at hbuilt
  obtain ⟨⟨n, buf'⟩, hbuild, -⟩ := bind_eq_ok hbuilt
  rw [← commandLength_eq_iff hreq.camera.1]
  rcases hreq.type with hswitch | hpin
  · have hmonitor := corners_switch hswitch
    obtain ⟨-, buf₂, -, -, heq⟩ := (buildPacketInto_switch hswitch).mp hbuild
    cases heq
    have htotal := length_sendSwitchBytes hbuild hsend
    have hpos := hreq.first.1
    rw [hmonitor] at hpos hlast
    rw [List.length_append, hlength, length_commandBytes (by rw [hmonitor]; exact hlast), hmonitor,
      rectangle_self hpos, commandText, length_command ⟨hpos, hlast⟩] at htotal
    -- one command, sent in whole chunks: of the lengths from 12 to 23 only 12 comes out even
    have hmin := le_commandLength msg.cameraId.lid
    have hmax := commandLength_lt hreq.camera.1 hreq.camera.2
    unfold Buffer.chunks at htotal
    simp only [List.length_cons, List.length_nil] at htotal
    omega
  · have hle := (hreq.rectangle_pin hpin hlast).1
    have hcommands := pinCommands_eq hpin hreq hlast
    obtain ⟨-, buf₂, -, -, heq⟩ := (buildPacketInto_pin hpin hle).mp hbuild
    cases heq
    have htotal := length_sendSwitchBytes hbuild hsend
    rw [List.length_append, hlength, length_commandBytes hlast, Buffer.chunks_mul (by decide), hcommands,
      List.length_map, Nat.mul_comm 12] at htotal
    -- twelve bytes went out for each
    exact Nat.eq_of_mul_eq_mul_left hreq.length_pos (Nat.add_left_cancel htotal)

/-- The whole wall does not fit the buffer. -/
theorem SendsExactly.not_wall (h : SendsExactly buf msg) (hreq : Request msg) :
    ¬ ((corners msg).1 = 1 ∧ (corners msg).2 = 90) := by
  rintro ⟨hfirst, hlast⟩
  have hcamera := (commandLength_eq_iff hreq.camera.1).mpr (h.camera_le hreq)
  obtain ⟨head, -, -, -, hsend⟩ := h
  unfold sendSwitchBytes at hsend
  obtain ⟨⟨n, buf'⟩, hbuild, -⟩ := bind_eq_ok hsend
  rcases hreq.type with hswitch | hpin
  · rw [corners_switch hswitch] at hfirst hlast
    simp only at hfirst hlast
    omega
  · have hle := (hreq.rectangle_pin hpin hlast.le).1
    have hcommands := pinCommands_eq hpin hreq hlast.le
    obtain ⟨buf₁, buf₂, -, hstore, -⟩ := (buildPacketInto_pin hpin hle).mp hbuild
    have hfits := Buffer.exists_storeAll_iff.mp ⟨buf₂, hstore⟩
    have hninety : (rectangle (corners msg).1 (corners msg).2).length = 90 := by
      rw [hfirst, hlast, length_rectangle]
      decide
    -- the last of 90 commands would end at byte 1087
    have hlt : 89 < (rectangle (corners msg).1 (corners msg).2).length := by omega
    have hend := hfits 89 (cString (commandText msg (rectangle (corners msg).1 (corners msg).2)[89])) (by
      rw [hcommands, List.getElem?_map, List.getElem?_eq_getElem hlt]
      rfl)
    rw [length_cString, commandText, length_command (mem_rectangle hlast.le (List.getElem_mem hlt)), hcamera] at hend
    omega

/-- A packet of whole commands that is the rectangle's is sent as it is. -/
theorem sendsExactly_of_packet {n : ℕ} (hreq : Request msg) (hlast : (corners msg).2 ≤ 90)
    (hbuild : buildPacketInto buf msg = .ok (6 + 12 * n, buf')) (hroom : 6 + 12 * n ≤ 1024)
    (hslice : buf'.slice 6 (12 * n) = commandBytes msg) : SendsExactly buf msg := by
  have hfirst := hreq.first_le.trans hlast
  refine ⟨messageHeader msg, length_messageHeader msg, ⟨_, rfl, (encodes_iff hreq.first.1).mpr hfirst⟩,
    ⟨_, rfl, (encodes_iff hreq.last.1).mpr hlast⟩, ?_⟩
  rw [sendSwitchBytes_eq_ok_iff hbuild, Buffer.chunks_mul (by decide), hslice]
  rcases slice_buildPacketInto hreq.type hbuild with hzero | ⟨-, hhead⟩
  · omega
  · exact ⟨hroom, by rw [hhead]⟩

/-- There is room for the header. -/
theorem exists_store_header (buf : PortBuffer) (msg : KeyboardMessage) :
    ∃ buf₁, buf.store 0 (messageHeader msg) = some buf₁ := by
  rw [Buffer.exists_store_iff, length_messageHeader]
  decide

/-- **One command that fits is sent exactly.** -/
theorem sendsExactly_switch (buf : PortBuffer) (hreq : Request msg) (hswitch : msg.type = .switch)
    (hcamera : msg.cameraId.lid ≤ 107) (hlast : (corners msg).2 ≤ 90) : SendsExactly buf msg := by
  have hmonitor := corners_switch hswitch
  have hpos := hreq.first.1
  have hle := hlast
  rw [hmonitor] at hpos hle
  have hlength : (commandText msg msg.monitorId).length = 12 := by
    rw [commandText, length_command ⟨hpos, hle⟩, commandLength_eq_iff hreq.camera.1]
    exact hcamera
  obtain ⟨buf₁, hstore⟩ := exists_store_header buf msg
  obtain ⟨buf₂, hprint⟩ : ∃ buf₂, buf₁.store 6 (cString (commandText msg msg.monitorId)) = some buf₂ := by
    rw [Buffer.exists_store_iff, length_cString, hlength]
    decide
  have hbuild : buildPacketInto buf msg = .ok (6 + 12 * 1, buf₂) := by
    rw [buildPacketInto_switch hswitch]
    exact ⟨buf₁, buf₂, hstore, hprint, by rw [hlength]⟩
  refine sendsExactly_of_packet hreq hlast hbuild (by decide) ?_
  rw [Buffer.slice_store_take hprint (by rw [length_cString, hlength]; decide), cString,
    List.take_left' (by rw [length_textBytes, hlength])]
  unfold commandBytes
  rw [hmonitor, rectangle_self hpos, List.flatMap_singleton]

/-- **The commands of a rectangle are sent exactly**, if each of them fits and they are not those of the whole wall. -/
theorem sendsExactly_pin (buf : PortBuffer) (hreq : Request msg) (hpin : msg.type = .pin)
    (hcamera : msg.cameraId.lid ≤ 107) (hlast : (corners msg).2 ≤ 90)
    (hwall : ¬ ((corners msg).1 = 1 ∧ (corners msg).2 = 90)) : SendsExactly buf msg := by
  have hle := (hreq.rectangle_pin hpin hlast).1
  have hcommands := pinCommands_eq hpin hreq hlast
  have hcount := length_rectangle_le hlast hreq.first.1 hwall
  have hlength : ∀ m ∈ rectangle (corners msg).1 (corners msg).2, (commandText msg m).length = 12 := by
    intro m hm
    rw [commandText, length_command (mem_rectangle hlast hm), commandLength_eq_iff hreq.camera.1]
    exact hcamera
  obtain ⟨buf₁, hstore⟩ := exists_store_header buf msg
  obtain ⟨buf₂, hprint⟩ : ∃ buf₂, buf₁.storeAll 12 6 (pinCommands msg) = some buf₂ := by
    rw [Buffer.exists_storeAll_iff]
    intro k l hl
    rw [hcommands, List.getElem?_map, Option.map_eq_some_iff] at hl
    obtain ⟨m, hm, rfl⟩ := hl
    -- the last of 84 commands ends at byte 1015
    have hk := (List.getElem?_eq_some_iff.mp hm).1
    rw [length_cString, hlength m (List.mem_of_getElem? hm)]
    omega
  have hbuild := (buildPacketInto_pin hpin hle).mpr ⟨buf₁, buf₂, hstore, hprint, rfl⟩
  refine sendsExactly_of_packet hreq hlast hbuild (by rw [hcommands, List.length_map]; omega) ?_
  have hlong : ∀ l ∈ pinCommands msg, 12 ≤ l.length := by
    rw [hcommands, List.forall_mem_map]
    intro m hm
    rw [length_cString, hlength m hm]
    decide
  rw [Buffer.slice_storeAll hprint hlong, hcommands, List.flatMap_map]
  unfold commandBytes
  apply List.flatMap_congr
  intro m hm
  rw [cString, List.take_left' (by rw [length_textBytes, hlength m hm])]

/-- **When the ports are written what they should be**: the camera is one of the first 107, the last monitor one
    of the first 90, and the rectangle is not all of these. -/
theorem port_bytes_exact_iff (buf : PortBuffer) (hreq : Request msg) : SendsExactly buf msg ↔
    msg.cameraId.lid ≤ 107 ∧ (corners msg).2 ≤ 90 ∧ ¬ ((corners msg).1 = 1 ∧ (corners msg).2 = 90) := by
  constructor
  · intro h
    exact ⟨h.camera_le hreq, h.last_le hreq, h.not_wall hreq⟩
  · rintro ⟨hcamera, hlast, hwall⟩
    rcases hreq.type with hswitch | hpin
    · exact sendsExactly_switch buf hreq hswitch hcamera hlast
    · exact sendsExactly_pin buf hreq hpin hcamera hlast hwall

/-- A buffer of zeros. -/
def zeroBuffer : PortBuffer := ⟨List.replicate 1024 0, List.length_replicate⟩

/-- Camera 12 on four monitors. -/
theorem port_bytes_exact_of_four : SendsExactly zeroBuffer
    { KeyboardMessage.new with type := .pin, cameraId := ⟨1, 12⟩, leftUpMonitorId := 2, rightDownMonitorId := 9 } :=
  (port_bytes_exact_iff zeroBuffer ⟨by decide, by decide, by decide, by decide, by decide, by decide⟩).mpr (by decide)

/-- **Monitor 91** is in row 16, and the header byte says row 0. -/
theorem monitor_91_lost : ¬ ∀ (buf : PortBuffer) (msg : KeyboardMessage), Request msg → SendsExactly buf msg := by
  intro h
  have hreq : Request { KeyboardMessage.new with type := .switch, cameraId := ⟨1, 4⟩, monitorId := 91 } :=
    ⟨by decide, by decide, by decide, by decide, by decide, by decide⟩
  have hlast := (h zeroBuffer _ hreq).last_le hreq
  exact absurd hlast (by decide)

end KeyboardRC

end Mcc
