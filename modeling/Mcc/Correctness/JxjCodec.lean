import Mcc.Model.Jxj

/-!
# `Correctness.JxjCodec` — what survives the eight bytes

`buildPacketFromMessage` writes into a buffer that still holds the last packet, and `buildMessageFromPacket`
reads ids as signed bytes. `IsCommand` is what a keyboard may be asked to send; `Fits` is the part of it that
the packet carries whatever was sent before. `codec_iff` says that it is exactly this part.

## Contents
- **Bytes.** Ids and steps as a `char`.
- **Packets.** What each byte is written from, and what each field is read from.
- **The round trip.** `IsCommand`, `Fits`, `codec_iff`.
-/

namespace Mcc

namespace KeyboardJXJ

open PTZType KeyboardMessage

/-! ## Bytes -/

/-- An id in `0..255` comes back from a signed byte exactly up to 127. -/
theorem toInt_ofInt_iff {id : Int} (h : 0 ≤ id ∧ id ≤ 255) : (BitVec.ofInt 8 id).toInt = id ↔ id ≤ 127 := by
  rw [BitVec.toInt_ofInt, Int.bmod_def]
  split
  · omega
  · omega

/-- A step written as it is: its low bits are the step, its high bit is clear. -/
theorem step_plain {step : Int} (h : 0 ≤ step ∧ step ≤ 127) :
    ((BitVec.ofInt 8 step &&& 0x7f).toNat : Int) = step ∧ BitVec.ofInt 8 step &&& 0x80 = 0 := by
  obtain ⟨n, rfl⟩ := Int.eq_ofNat_of_zero_le h.1
  have hall : ∀ n : Fin 128, (BitVec.ofInt 8 (n : ℕ) &&& 0x7f).toNat = n ∧
      BitVec.ofInt 8 ((n : ℕ) : Int) &&& 0x80 = 0 := by decide
  obtain ⟨hlow, hhigh⟩ := hall ⟨n, by omega⟩
  exact ⟨by rw [hlow], hhigh⟩

/-- A step written on top of `0x80`: its low bits are the step, its high bit is set. -/
theorem step_marked {step : Int} (h : 0 ≤ step ∧ step ≤ 127) :
    ((BitVec.ofInt 8 (0x80 + step) &&& 0x7f).toNat : Int) = step ∧
      BitVec.ofInt 8 (0x80 + step) &&& 0x80 ≠ 0 := by
  obtain ⟨n, rfl⟩ := Int.eq_ofNat_of_zero_le h.1
  have hall : ∀ n : Fin 128, (BitVec.ofInt 8 (0x80 + (n : ℕ)) &&& 0x7f).toNat = n ∧
      BitVec.ofInt 8 (0x80 + ((n : ℕ) : Int)) &&& 0x80 ≠ 0 := by decide
  obtain ⟨hlow, hhigh⟩ := hall ⟨n, by omega⟩
  exact ⟨by rw [hlow], hhigh⟩

/-! ## Packets -/

/-- What is written to the zoom byte, if anything is. -/
def zoomByte (msg : KeyboardMessage) : Option Byte :=
  if msg.ptzOptType = stop then some 0x00
  else if msg.Has zoomOut then some 0x80
  else if msg.Has zoomIn then some 0x40
  else none

/-- What is written to a step byte. -/
def moveByte (plain marked step : Int) (msg : KeyboardMessage) : Option Byte :=
  if msg.ptzOptType = stop then some 0x00
  else if msg.Has marked then some (BitVec.ofInt 8 (0x80 + step))
  else if msg.Has plain then some (BitVec.ofInt 8 step)
  else none

section Write

variable (buf : JxjPacket) (msg : KeyboardMessage)

/-- A byte that is written on a condition. -/
theorem getD_ite {c : Prop} [Decidable c] (b : Byte) (o : Option Byte) (old : Byte) :
    (if c then some b else o).getD old = if c then b else o.getD old := by
  split_ifs
  · rfl
  · rfl

theorem writePtz_b2 : (writePtz buf msg).b2 = 0x21 := by
  simp only [writePtz, apply_ite JxjPacket.b2, ite_self]

/-- **The zoom byte** is what `zoomByte` says, or what it was. -/
theorem writePtz_b3 : (writePtz buf msg).b3 = (zoomByte msg).getD buf.b3 := by
  unfold zoomByte
  simp only [writePtz, apply_ite JxjPacket.b3, ite_self, getD_ite, Option.getD_none]

theorem writePtz_b4 : (writePtz buf msg).b4 = BitVec.ofInt 8 msg.cameraId.lid := by
  simp only [writePtz, apply_ite JxjPacket.b4, ite_self]

/-- **The horizontal byte.** -/
theorem writePtz_b5 : (writePtz buf msg).b5 = (moveByte left right msg.ptzOptHstep msg).getD buf.b5 := by
  unfold moveByte
  simp only [writePtz, apply_ite JxjPacket.b5, ite_self, getD_ite, Option.getD_none]

/-- **The vertical byte.** -/
theorem writePtz_b6 : (writePtz buf msg).b6 = (moveByte up down msg.ptzOptVstep msg).getD buf.b6 := by
  unfold moveByte
  simp only [writePtz, apply_ite JxjPacket.b6, ite_self, getD_ite, Option.getD_none]

/-- The header of every packet. -/
theorem writePtz_head : (writePtz buf msg).b0 = buf.b0 ∧ (writePtz buf msg).b1 = buf.b1 := by
  constructor
  · simp only [writePtz, apply_ite JxjPacket.b0, ite_self]
  · simp only [writePtz, apply_ite JxjPacket.b1, ite_self]

end Write

/-- Adding no operation changes nothing. -/
theorem withOpt_zero (msg : KeyboardMessage) : msg.withOpt 0 = msg := by
  have hlor : Int.lor msg.ptzOptType 0 = msg.ptzOptType := by
    cases msg.ptzOptType with
    | ofNat n => exact congrArg Int.ofNat (Nat.or_zero n)
    | negSucc n =>
      have hldiff : Nat.ldiff n 0 = n := by
        apply Nat.eq_of_testBit_eq
        intro k
        simp [Nat.testBit_ldiff]
      exact congrArg Int.negSucc hldiff
  unfold withOpt
  rw [hlor]

/-- The operation a zoom byte stands for. -/
def zoomOf (b : Byte) : Int := if b = 0x40 then zoomIn else if b = 0x80 then zoomOut else 0

/-- The operation a step byte stands for. -/
def moveOf (plain marked : Int) (b : Byte) : Int :=
  if ((b &&& 0x7f).toNat : Int) ≠ 0 then if b &&& 0x80 = 0 then plain else marked else 0

theorem readZoom_eq (b : Byte) (msg : KeyboardMessage) : readZoom b msg = msg.withOpt (zoomOf b) := by
  unfold readZoom zoomOf
  split_ifs
  · rfl
  · rfl
  · exact (withOpt_zero msg).symm

theorem readMove_eq (plain marked : Int) {step : Int} {b : Byte} (h : step = (b &&& 0x7f).toNat)
    (msg : KeyboardMessage) : readMove plain marked step b msg = msg.withOpt (moveOf plain marked b) := by
  subst h
  unfold readMove moveOf
  split_ifs
  · rfl
  · rfl
  · exact (withOpt_zero msg).symm

/-- **Reading a PTZ packet** into a message without operations: the steps, and one operation of each kind. -/
theorem readPtz_eq {packet : JxjPacket} {msg : KeyboardMessage} (h : msg.ptzOptType = stop) :
    readPtz packet msg = { msg with
      type := .ptz, ptzOptHstep := (packet.b5 &&& 0x7f).toNat, ptzOptVstep := (packet.b6 &&& 0x7f).toNat
      ptzOptType := zoomOf packet.b3 + moveOf left right packet.b5 + moveOf up down packet.b6 } := by
  have hsum : Int.lor (Int.lor (Int.lor stop (zoomOf packet.b3)) (moveOf left right packet.b5))
      (moveOf up down packet.b6) =
      zoomOf packet.b3 + moveOf left right packet.b5 + moveOf up down packet.b6 := by
    unfold zoomOf moveOf
    split_ifs <;> rfl
  -- whatever the first three tests of the source say, there are no operations yet
  have hfirst : ∀ c : Prop, [Decidable c] → (if c then { msg with type := .ptz } else
      { msg with type := .ptz, ptzOptType := stop }) = { msg with type := .ptz, ptzOptType := stop } := by
    intro c _
    rw [← h, ite_self]
  unfold readPtz
  simp only [hfirst, readZoom_eq, withOpt_ptzOptHstep, readMove_eq, withOpt_ptzOptVstep]
  unfold withOpt
  rw [← hsum]

/-- Reading a PTZ packet into a fresh message. -/
theorem buildMessageFromPacket_ptz {mId matrixId : Int} {packet : JxjPacket} {msg : KeyboardMessage}
    (h : packet.b2 = 0x21) : buildMessageFromPacket mId matrixId packet msg =
      readPtz packet { msg with keyboardId := mId, cameraId := ⟨matrixId, packet.b4.toInt⟩ } := by
  unfold buildMessageFromPacket
  dsimp only
  rw [if_neg (by rw [h]; decide), if_pos h]

theorem buildPacketFromMessage_switch (buf : JxjPacket) {msg : KeyboardMessage} (h : msg.type = .switch) :
    ∃ sum, buildPacketFromMessage buf msg =
      ⟨0xff, 0x00, 0x11, 0x00, BitVec.ofInt 8 msg.cameraId.lid, BitVec.ofInt 8 msg.monitorId, 0x55, sum⟩ := by
  unfold buildPacketFromMessage
  rw [h]
  exact ⟨_, rfl⟩

/-! ## The round trip -/

/-- What a keyboard may be asked to send: a switch between ids of one byte, or a PTZ operation with at most
    one direction of each kind and the steps that go with it. -/
inductive IsCommand (msg : KeyboardMessage) : Prop where
  | switch : msg.type = .switch → 0 ≤ msg.cameraId.lid ∧ msg.cameraId.lid ≤ 255 →
      0 ≤ msg.monitorId ∧ msg.monitorId ≤ 255 → IsCommand msg
  | ptz : msg.type = .ptz → 0 ≤ msg.cameraId.lid ∧ msg.cameraId.lid ≤ 255 →
      ¬ (msg.Has left ∧ msg.Has right) → ¬ (msg.Has up ∧ msg.Has down) → ¬ (msg.Has zoomIn ∧ msg.Has zoomOut) →
      (if msg.Has left ∨ msg.Has right then 1 ≤ msg.ptzOptHstep ∧ msg.ptzOptHstep ≤ 127
        else msg.ptzOptHstep = 0) →
      (if msg.Has up ∨ msg.Has down then 1 ≤ msg.ptzOptVstep ∧ msg.ptzOptVstep ≤ 127
        else msg.ptzOptVstep = 0) → IsCommand msg

/-- One operation of each kind and nothing else. -/
def IsFull (ptz : Int) : Prop :=
  ∃ z h v, (z = zoomIn ∨ z = zoomOut) ∧ (h = left ∨ h = right) ∧ (v = up ∨ v = down) ∧ ptz = z + h + v

/-- The ids are below 128; a PTZ operation is `STOP`, or one of each kind and nothing else. -/
inductive Fits (msg : KeyboardMessage) : Prop where
  | switch : msg.type = .switch → msg.cameraId.lid ≤ 127 → msg.monitorId ≤ 127 → Fits msg
  | stop : msg.type = .ptz → msg.cameraId.lid ≤ 127 → msg.ptzOptType = stop → Fits msg
  | full : msg.type = .ptz → msg.cameraId.lid ≤ 127 → IsFull msg.ptzOptType → Fits msg

/-- What reading a packet must give back of the message it was built from. -/
structure GivesBack (msg msg' : KeyboardMessage) : Prop where
  type : msg'.type = msg.type
  camera : msg'.cameraId.lid = msg.cameraId.lid
  monitor : msg.type = .switch → msg'.monitorId = msg.monitorId
  ptz : msg.type = .ptz → msg'.ptzOptType = msg.ptzOptType ∧ msg'.ptzOptHstep = msg.ptzOptHstep ∧
    msg'.ptzOptVstep = msg.ptzOptVstep

/-- **The packet speaks for the message alone**, and the message can be read from it. -/
structure Carried (mId matrixId : Int) (msg : KeyboardMessage) : Prop where
  independent : ∀ buf buf', buildPacketFromMessage buf msg = buildPacketFromMessage buf' msg
  givesBack : ∀ buf, GivesBack msg
    (buildMessageFromPacket mId matrixId (buildPacketFromMessage buf msg) KeyboardMessage.new)

/-- A switch is carried exactly between ids below 128. -/
theorem carried_switch_iff {mId matrixId : Int} {msg : KeyboardMessage} (htype : msg.type = .switch)
    (hcam : 0 ≤ msg.cameraId.lid ∧ msg.cameraId.lid ≤ 255) (hmon : 0 ≤ msg.monitorId ∧ msg.monitorId ≤ 255) :
    Carried mId matrixId msg ↔ msg.cameraId.lid ≤ 127 ∧ msg.monitorId ≤ 127 := by
  constructor
  · intro h
    have hback := h.givesBack startBuf
    obtain ⟨sum, hpacket⟩ := buildPacketFromMessage_switch startBuf htype
    rw [hpacket] at hback
    exact ⟨(toInt_ofInt_iff hcam).mp hback.camera, (toInt_ofInt_iff hmon).mp (hback.monitor htype)⟩
  · rintro ⟨hc, hm⟩
    constructor
    · intro buf buf'
      unfold buildPacketFromMessage
      rw [htype]
    · intro buf
      obtain ⟨sum, hpacket⟩ := buildPacketFromMessage_switch buf htype
      rw [hpacket]
      refine ⟨htype.symm, (toInt_ofInt_iff hcam).mpr hc, fun _ => (toInt_ofInt_iff hmon).mpr hm, ?_⟩
      intro hptz
      rw [htype] at hptz
      cases hptz

section Ptz

variable {mId matrixId : Int} {msg : KeyboardMessage}

/-- A PTZ packet: where nothing is written to a byte, it holds what it did. -/
theorem buildPacketFromMessage_ptz (buf : JxjPacket) (htype : msg.type = .ptz) {b3 b5 b6 : Byte}
    (h3 : (zoomByte msg).getD buf.b3 = b3) (h5 : (moveByte left right msg.ptzOptHstep msg).getD buf.b5 = b5)
    (h6 : (moveByte up down msg.ptzOptVstep msg).getD buf.b6 = b6) :
    buildPacketFromMessage buf msg = ⟨0xff, 0x00, 0x21, b3, BitVec.ofInt 8 msg.cameraId.lid, b5, b6,
      0x00 + 0x21 + b3 + BitVec.ofInt 8 msg.cameraId.lid + b5 + b6⟩ := by
  let head : JxjPacket := { buf with b0 := 0xff, b1 := 0x00 }
  have hhead := writePtz_head head msg
  subst h3 h5 h6
  unfold buildPacketFromMessage
  simp only [htype]
  rw [hhead.1, hhead.2, writePtz_b2, writePtz_b3, writePtz_b4, writePtz_b5, writePtz_b6]

/-- Reading it into a fresh message. -/
theorem read_ptz (buf : JxjPacket) (htype : msg.type = .ptz) {b3 b5 b6 : Byte}
    (h3 : (zoomByte msg).getD buf.b3 = b3) (h5 : (moveByte left right msg.ptzOptHstep msg).getD buf.b5 = b5)
    (h6 : (moveByte up down msg.ptzOptVstep msg).getD buf.b6 = b6) :
    buildMessageFromPacket mId matrixId (buildPacketFromMessage buf msg) KeyboardMessage.new =
      { KeyboardMessage.new with
        type := .ptz, keyboardId := mId, cameraId := ⟨matrixId, (BitVec.ofInt 8 msg.cameraId.lid).toInt⟩
        ptzOptType := zoomOf b3 + moveOf left right b5 + moveOf up down b6
        ptzOptHstep := (b5 &&& 0x7f).toNat, ptzOptVstep := (b6 &&& 0x7f).toNat } := by
  rw [buildPacketFromMessage_ptz buf htype h3 h5 h6, buildMessageFromPacket_ptz rfl, readPtz_eq rfl]

/-- Two contents of the buffer that differ in every byte. -/
def zeros : JxjPacket := ⟨0, 0, 0, 0, 0, 0, 0, 0⟩
def ones : JxjPacket := ⟨1, 1, 1, 1, 1, 1, 1, 1⟩

/-- A byte is the same whatever the buffer held only if it is written. -/
theorem written_of_getD {o : Option Byte} (h : o.getD 0 = o.getD 1) : ∃ b, o = some b := by
  cases o with
  | none =>
    have hne : (0 : Byte) ≠ 1 := by decide
    exact absurd h hne
  | some b => exact ⟨b, rfl⟩

/-- **The packet depends on the message alone only if every byte is written.** -/
theorem written_of_independent (htype : msg.type = .ptz)
    (h : ∀ buf buf', buildPacketFromMessage buf msg = buildPacketFromMessage buf' msg) :
    ∃ b3 b5 b6, zoomByte msg = some b3 ∧ moveByte left right msg.ptzOptHstep msg = some b5 ∧
      moveByte up down msg.ptzOptVstep msg = some b6 := by
  have hsame := h zeros ones
  rw [buildPacketFromMessage_ptz zeros htype rfl rfl rfl, buildPacketFromMessage_ptz ones htype rfl rfl rfl,
    JxjPacket.mk.injEq] at hsame
  obtain ⟨-, -, -, hzoom, -, hhor, hver, -⟩ := hsame
  obtain ⟨b3, h3⟩ := written_of_getD hzoom
  obtain ⟨b5, h5⟩ := written_of_getD hhor
  obtain ⟨b6, h6⟩ := written_of_getD hver
  exact ⟨b3, b5, b6, h3, h5, h6⟩

/-- A zoom byte that is written stands for one of the two operations. -/
theorem zoomOf_zoomByte {b : Byte} (hrun : msg.ptzOptType ≠ stop) (h : zoomByte msg = some b) :
    zoomOf b = zoomIn ∨ zoomOf b = zoomOut := by
  unfold zoomByte at h
  rw [if_neg hrun] at h
  split_ifs at h
  · cases h
    exact Or.inr rfl
  · cases h
    exact Or.inl rfl

/-- A step byte that is written stands for one of the two directions, and for the step. -/
theorem moveOf_moveByte {plain marked step : Int} {b : Byte} (hrun : msg.ptzOptType ≠ stop)
    (hstep : msg.Has plain ∨ msg.Has marked → 1 ≤ step ∧ step ≤ 127)
    (h : moveByte plain marked step msg = some b) :
    ((b &&& 0x7f).toNat : Int) = step ∧
      ((msg.Has marked ∧ moveOf plain marked b = marked) ∨ (¬ msg.Has marked ∧ moveOf plain marked b = plain)) := by
  unfold moveByte at h
  rw [if_neg hrun] at h
  unfold moveOf
  split_ifs at h with hmarked hplain
  · cases h
    obtain ⟨hlow, hhigh⟩ := hstep (Or.inr hmarked)
    have hrange : 0 ≤ step ∧ step ≤ 127 := ⟨by omega, hhigh⟩
    obtain ⟨heq, hbit⟩ := step_marked hrange
    refine ⟨heq, Or.inl ⟨hmarked, ?_⟩⟩
    rw [heq, if_pos (by omega), if_neg hbit]
  · cases h
    obtain ⟨hlow, hhigh⟩ := hstep (Or.inl hplain)
    have hrange : 0 ≤ step ∧ step ≤ 127 := ⟨by omega, hhigh⟩
    obtain ⟨heq, hbit⟩ := step_plain hrange
    refine ⟨heq, Or.inr ⟨hmarked, ?_⟩⟩
    rw [heq, if_pos (by omega), if_pos hbit]

/-- The operations of a full message can be told apart. -/
theorem has_of_full {z h v : Int} (hz : z = zoomIn ∨ z = zoomOut) (hh : h = left ∨ h = right)
    (hv : v = up ∨ v = down) (hptz : msg.ptzOptType = z + h + v) :
    msg.ptzOptType ≠ stop ∧ (msg.Has zoomOut ↔ z = zoomOut) ∧ (msg.Has zoomIn ↔ z = zoomIn) ∧
      (msg.Has right ↔ h = right) ∧ (msg.Has left ↔ h = left) ∧
      (msg.Has down ↔ v = down) ∧ (msg.Has up ↔ v = up) := by
  unfold Has
  rw [hptz]
  rcases hz with rfl | rfl <;> rcases hh with rfl | rfl <;> rcases hv with rfl | rfl <;> decide

/-- A direction of a full message is written, and read again. -/
theorem moveByte_full {plain marked step d : Int} (hrun : msg.ptzOptType ≠ stop) (hd : d = plain ∨ d = marked)
    (hne : plain ≠ marked) (hmarked : msg.Has marked ↔ d = marked) (hplain : msg.Has plain ↔ d = plain)
    (hstep : msg.Has plain ∨ msg.Has marked → 1 ≤ step ∧ step ≤ 127) :
    ∃ b, moveByte plain marked step msg = some b ∧ ((b &&& 0x7f).toNat : Int) = step ∧
      moveOf plain marked b = d := by
  have hsome : ∃ b, moveByte plain marked step msg = some b := by
    unfold moveByte
    rw [if_neg hrun]
    rcases hd with rfl | rfl
    · rw [if_neg (fun hm => hne (hmarked.mp hm)), if_pos (hplain.mpr rfl)]
      exact ⟨_, rfl⟩
    · rw [if_pos (hmarked.mpr rfl)]
      exact ⟨_, rfl⟩
  obtain ⟨b, hb⟩ := hsome
  obtain ⟨hlow, hmove⟩ := moveOf_moveByte hrun hstep hb
  refine ⟨b, hb, hlow, ?_⟩
  rcases hmove with ⟨hm, hmove⟩ | ⟨hm, hmove⟩
  · rw [hmove, hmarked.mp hm]
  · rw [hmove]
    rcases hd with rfl | rfl
    · rfl
    · exact absurd (hmarked.mpr rfl) hm

/-- The zoom of a message is read back from its byte. -/
theorem zoomByte_full {z : Int} (hrun : msg.ptzOptType ≠ stop) (hz : z = zoomIn ∨ z = zoomOut)
    (hout : msg.Has zoomOut ↔ z = zoomOut) (hin : msg.Has zoomIn ↔ z = zoomIn) :
    ∃ b, zoomByte msg = some b ∧ zoomOf b = z := by
  unfold zoomByte
  rw [if_neg hrun]
  rcases hz with rfl | rfl
  · rw [if_neg (fun hc => absurd (hout.mp hc) (by decide)), if_pos (hin.mpr rfl)]
    exact ⟨_, rfl, rfl⟩
  · rw [if_pos (hout.mpr rfl)]
    exact ⟨_, rfl, rfl⟩

/-- The rule for the steps, where an operation is set. -/
theorem step_of_rule {c : Prop} [Decidable c] {step : Int}
    (h : if c then 1 ≤ step ∧ step ≤ 127 else step = 0) (hc : c) : 1 ≤ step ∧ step ≤ 127 := by
  rwa [if_pos hc] at h

/-- A PTZ message is carried exactly if it is `STOP` or full, for a camera below 128. -/
theorem carried_ptz_iff (htype : msg.type = .ptz) (hcam : 0 ≤ msg.cameraId.lid ∧ msg.cameraId.lid ≤ 255)
    (hhor : if msg.Has left ∨ msg.Has right then 1 ≤ msg.ptzOptHstep ∧ msg.ptzOptHstep ≤ 127
      else msg.ptzOptHstep = 0)
    (hver : if msg.Has up ∨ msg.Has down then 1 ≤ msg.ptzOptVstep ∧ msg.ptzOptVstep ≤ 127
      else msg.ptzOptVstep = 0) :
    Carried mId matrixId msg ↔ msg.cameraId.lid ≤ 127 ∧ (msg.ptzOptType = stop ∨ IsFull msg.ptzOptType) := by
  constructor
  · intro h
    have hback := h.givesBack zeros
    rw [read_ptz zeros htype rfl rfl rfl] at hback
    refine ⟨(toInt_ofInt_iff hcam).mp hback.camera, ?_⟩
    by_cases hstop : msg.ptzOptType = stop
    · exact Or.inl hstop
    · right
      obtain ⟨b3, b5, b6, h3, h5, h6⟩ := written_of_independent htype h.independent
      rw [h3, h5, h6] at hback
      obtain ⟨-, hmove⟩ := moveOf_moveByte hstop (step_of_rule hhor) h5
      obtain ⟨-, hmove'⟩ := moveOf_moveByte hstop (step_of_rule hver) h6
      refine ⟨_, _, _, zoomOf_zoomByte hstop h3, ?_, ?_, (hback.ptz htype).1.symm⟩
      · rcases hmove with ⟨-, he⟩ | ⟨-, he⟩
        · exact Or.inr he
        · exact Or.inl he
      · rcases hmove' with ⟨-, he⟩ | ⟨-, he⟩
        · exact Or.inr he
        · exact Or.inl he
  · rintro ⟨hc, hops⟩
    -- in both cases every byte is written, and read as what it was written for
    have hbytes : ∃ b3 b5 b6, zoomByte msg = some b3 ∧ moveByte left right msg.ptzOptHstep msg = some b5 ∧
        moveByte up down msg.ptzOptVstep msg = some b6 ∧
        zoomOf b3 + moveOf left right b5 + moveOf up down b6 = msg.ptzOptType ∧
        ((b5 &&& 0x7f).toNat : Int) = msg.ptzOptHstep ∧ ((b6 &&& 0x7f).toNat : Int) = msg.ptzOptVstep := by
      rcases hops with hstop | ⟨z, h, v, hz, hh, hv, hptz⟩
      · have hnone : ∀ opt ∈ [left, right, up, down], ¬ msg.Has opt := by
          unfold Has
          rw [hstop]
          decide
        rw [if_neg (by simp [hnone])] at hhor hver
        refine ⟨0x00, 0x00, 0x00, if_pos hstop, if_pos hstop, if_pos hstop, hstop.symm, ?_, ?_⟩
        · rw [hhor]
          rfl
        · rw [hver]
          rfl
      · obtain ⟨hrun, hout, hin, hright, hleft, hdown, hup⟩ := has_of_full hz hh hv hptz
        obtain ⟨b3, h3, hzoom⟩ := zoomByte_full hrun hz hout hin
        obtain ⟨b5, h5, hlow5, hmove5⟩ :=
          moveByte_full hrun hh (by decide) hright hleft (step_of_rule hhor)
        obtain ⟨b6, h6, hlow6, hmove6⟩ := moveByte_full hrun hv (by decide) hdown hup (step_of_rule hver)
        exact ⟨b3, b5, b6, h3, h5, h6, by rw [hzoom, hmove5, hmove6, hptz], hlow5, hlow6⟩
    obtain ⟨b3, b5, b6, h3, h5, h6, hops', hlow5, hlow6⟩ := hbytes
    have hpacket : ∀ buf, (zoomByte msg).getD buf = b3 ∧ (moveByte left right msg.ptzOptHstep msg).getD buf = b5 ∧
        (moveByte up down msg.ptzOptVstep msg).getD buf = b6 := by
      intro buf
      rw [h3, h5, h6]
      exact ⟨rfl, rfl, rfl⟩
    constructor
    · intro buf buf'
      rw [buildPacketFromMessage_ptz buf htype (hpacket _).1 (hpacket _).2.1 (hpacket _).2.2,
        buildPacketFromMessage_ptz buf' htype (hpacket _).1 (hpacket _).2.1 (hpacket _).2.2]
    · intro buf
      rw [read_ptz buf htype (hpacket _).1 (hpacket _).2.1 (hpacket _).2.2]
      refine ⟨htype.symm, (toInt_ofInt_iff hcam).mpr hc, ?_, fun _ => ⟨hops', hlow5, hlow6⟩⟩
      intro hswitch
      rw [htype] at hswitch
      cases hswitch

end Ptz

/-- **The codec carries exactly what fits.** For every message a keyboard may be asked to send: the packet is
    the same whatever the buffer held, and reading it gives the message back, if and only if the ids are below
    128 and a PTZ operation is `STOP` or has one operation of each kind. -/
theorem codec_iff (mId matrixId : Int) {msg : KeyboardMessage} (h : IsCommand msg) :
    Carried mId matrixId msg ↔ Fits msg := by
  cases h with
  | switch htype hcam hmon =>
    refine (carried_switch_iff htype hcam hmon).trans ⟨fun ⟨hc, hm⟩ => .switch htype hc hm, ?_⟩
    intro hfits
    cases hfits with
    | switch _ hc hm => exact ⟨hc, hm⟩
    | stop hptz | full hptz =>
      rw [htype] at hptz
      cases hptz
  | ptz htype hcam _ _ _ hhor hver =>
    refine (carried_ptz_iff htype hcam hhor hver).trans ⟨?_, ?_⟩
    · rintro ⟨hc, hstop | hfull⟩
      · exact .stop htype hc hstop
      · exact .full htype hc hfull
    · intro hfits
      cases hfits with
      | switch hswitch =>
        rw [htype] at hswitch
        cases hswitch
      | stop _ hc hstop => exact ⟨hc, Or.inl hstop⟩
      | full _ hc hfull => exact ⟨hc, Or.inr hfull⟩

/-- Camera 5 zooms in while it turns left by 3 and up by 7. -/
theorem codec_iff_full : Carried 1 2 { KeyboardMessage.new with
    type := .ptz, cameraId := ⟨2, 5⟩, ptzOptType := 0x15, ptzOptHstep := 3, ptzOptVstep := 7 } := by
  refine (codec_iff 1 2 (.ptz rfl (by decide) (by decide) (by decide) (by decide) (by decide) (by decide))).mpr ?_
  exact .full rfl (by decide) ⟨zoomIn, left, up, Or.inl rfl, Or.inl rfl, Or.inl rfl, rfl⟩

/-- A camera turned left, and nothing else: the zoom byte is whatever the last packet left there. -/
theorem codec_keeps_last_packet : ¬ ∀ msg, IsCommand msg → Carried 1 2 msg := by
  intro h
  have hcarried := h { KeyboardMessage.new with
      type := .ptz, cameraId := ⟨2, 5⟩, ptzOptType := left, ptzOptHstep := 3 }
    (.ptz rfl (by decide) (by decide) (by decide) (by decide) (by decide) (by decide))
  have hzoom := congrArg JxjPacket.b3 (hcarried.independent zeros ones)
  exact absurd hzoom (by decide)

end KeyboardJXJ

end Mcc
