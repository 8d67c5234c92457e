import Mcc.Model.Jxj

/-!
# `Correctness.Checksum` — the checksum that is written and the one that is tested

`buildPacketFromMessage` and `SendSwitch` write the sum of bytes 1 to 6 into byte 7. `ValidatePacket` has two
tests, and neither is made for these packets: the start byte, an `int` there, is never `0xff`, and the sum it
compares with byte 7 stops before byte 6. `checksum_never_agrees` says what each of them comes to.
-/

namespace Mcc

namespace KeyboardJXJ

/-- A `char` is never `0xff` where it is an `int`. -/
theorem toInt_ne_start (b : Byte) : b.toInt ≠ 0xff := by
  have hlt := BitVec.toInt_lt (x := b)
  omega

/-- **Nothing is valid.** -/
theorem validatePacket_eq_false (packet : JxjPacket) (len : Int) : validatePacket packet len = false := by
  unfold validatePacket
  rw [if_pos (toInt_ne_start packet.b0)]

/-! ## The sum -/

/-- The second test alone: the sum `ValidatePacket` makes is the one in the packet. -/
def SumMatches (packet : JxjPacket) : Prop := packetSum packet = packet.b7

instance (packet : JxjPacket) : Decidable (SumMatches packet) := inferInstanceAs (Decidable (_ = _))

theorem packetSum_eq (packet : JxjPacket) :
    packetSum packet = packet.b1 + packet.b2 + packet.b3 + packet.b4 + packet.b5 := by
  unfold packetSum Checksum.sum JxjPacket.toList
  simp

/-- Where byte 7 is the sum of the six bytes before it, the test comes to byte 6. -/
theorem sumMatches_iff {packet : JxjPacket}
    (h : packet.b7 = packet.b1 + packet.b2 + packet.b3 + packet.b4 + packet.b5 + packet.b6) :
    SumMatches packet ↔ packet.b6 = 0 := by
  unfold SumMatches
  rw [packetSum_eq, h]
  exact left_eq_add

/-- **What is written for a message** ends with the sum of six bytes. -/
theorem buildPacketFromMessage_b7 (buf : JxjPacket) (msg : KeyboardMessage) :
    let packet := buildPacketFromMessage buf msg
    packet.b7 = packet.b1 + packet.b2 + packet.b3 + packet.b4 + packet.b5 + packet.b6 := by
  unfold buildPacketFromMessage
  simp

theorem lowByte_eq (id : Int) : lowByte id = BitVec.ofInt 8 id := by
  unfold lowByte
  rw [BitVec.setWidth_and]
  have hmask : BitVec.setWidth 8 (0xff : BitVec 32) = BitVec.allOnes 8 := by decide
  rw [hmask, BitVec.allOnes_and, ← BitVec.signExtend_eq_setWidth_of_le _ (by decide)]
  apply BitVec.eq_of_toInt_eq
  rw [BitVec.toInt_signExtend, BitVec.toInt_ofInt, BitVec.toInt_ofInt]
  exact Int.bmod_bmod_of_dvd (by decide)

/-- **`SendSwitch` writes what a switch message is built to**, whatever the buffer held. -/
theorem sendSwitchCommand_eq (buf : JxjPacket) (msg : KeyboardMessage) (h : msg.type = .switch) :
    sendSwitchCommand msg.cameraId.lid msg.monitorId = buildPacketFromMessage buf msg := by
  unfold sendSwitchCommand buildPacketFromMessage
  rw [h, lowByte_eq, lowByte_eq]
  simp only [JxjPacket.mk.injEq, true_and]
  ring

/-- A byte other than byte 7 reaches the test through the sum, byte 7 by itself. -/
theorem sumMatches_set_iff {packet packet' : JxjPacket} {i : ℕ} {b : Byte} (hi : 1 ≤ i ∧ i ≤ 7)
    (hb : packet.toList[i]? ≠ some b) (hset : packet'.toList = packet.toList.set i b) (h : SumMatches packet) :
    SumMatches packet' ↔ i = 6 := by
  have hlast : some packet'.b7 = (packet.toList.set i b)[7]? := by
    rw [← hset]
    simp [JxjPacket.toList]
  have hold : packet.toList[7]? = some packet.b7 := by simp [JxjPacket.toList]
  unfold SumMatches at h ⊢
  have hkept : i ≠ 7 → packet'.b7 = packetSum packet := by
    intro hne
    rw [List.getElem?_set_ne hne, hold] at hlast
    rw [h]
    exact Option.some.inj hlast
  have hlength : i < packet.toList.length := by simpa [JxjPacket.toList] using Nat.lt_succ_of_le hi.2
  obtain hcovered | rfl | rfl : i < 6 ∨ i = 6 ∨ i = 7 := by omega
  · -- a byte the sum runs over
    have hcovers : Checksum.Covers packet.toList 1 6 i := ⟨hi.1, hcovered, hlength⟩
    have hne : b ≠ packet.toList.get ⟨i, hlength⟩ := by
      rintro rfl
      simp at hb
    refine iff_of_false ?_ (by omega)
    rw [hkept (by omega)]
    unfold packetSum
    rw [hset]
    exact hcovers.sum_set_ne hne
  · -- byte 6 is neither in the sum nor compared with it
    refine iff_of_true ?_ rfl
    rw [hkept (by decide)]
    unfold packetSum
    rw [hset, Checksum.sum_set_of_not_covers (by decide)]
  · -- byte 7 is what the sum is compared with
    refine iff_of_false ?_ (by decide)
    rw [List.getElem?_set_self hlength] at hlast
    rw [hold] at hb
    unfold packetSum
    rw [hset, Checksum.sum_set_of_not_covers (by decide), Option.some.inj hlast]
    intro hsum
    exact hb (congrArg some (h.symm.trans hsum))

/-! ## The agreement -/

/-- **What the checksum is for**: what the two writers write is valid, and a valid packet is so no longer with
    one of its bytes 1 to 7 changed. -/
structure ChecksumAgrees : Prop where
  built : ∀ buf msg, msg.type = .switch ∨ msg.type = .ptz → validatePacket (buildPacketFromMessage buf msg) 8 = true
  sent : ∀ cid mid, validatePacket (sendSwitchCommand cid mid) 8 = true
  noticed : ∀ packet packet' i b, 1 ≤ i ∧ i ≤ 7 → packet.toList[i]? ≠ some b →
    packet'.toList = packet.toList.set i b → validatePacket packet 8 = true → validatePacket packet' 8 = false

/-- **The checksums never agree.** No packet of either writer is valid, for the start byte. Nor is its sum the
    one that is tested, unless byte 6 is 0, which it is in no command of `SendSwitch`; and of a single byte that
    changes the sums notice all but byte 6. -/
theorem checksum_never_agrees (buf : JxjPacket) (msg : KeyboardMessage) (cid mid : Int) (packet packet' : JxjPacket)
    (i : ℕ) (b : Byte) (hi : 1 ≤ i ∧ i ≤ 7) (hb : packet.toList[i]? ≠ some b)
    (hset : packet'.toList = packet.toList.set i b) :
    (validatePacket (buildPacketFromMessage buf msg) 8 = false ∧
      (SumMatches (buildPacketFromMessage buf msg) ↔ (buildPacketFromMessage buf msg).b6 = 0)) ∧
    (validatePacket (sendSwitchCommand cid mid) 8 = false ∧ ¬ SumMatches (sendSwitchCommand cid mid)) ∧
    validatePacket packet' 8 = false ∧ (SumMatches packet → (SumMatches packet' ↔ i = 6)) := by
  have hbuilt := sumMatches_iff (buildPacketFromMessage_b7 buf msg)
  have hsent : ¬ SumMatches (sendSwitchCommand cid mid) := by
    let command : KeyboardMessage :=
      { KeyboardMessage.new with type := .switch, cameraId := ⟨0, cid⟩, monitorId := mid }
    have heq : sendSwitchCommand cid mid = buildPacketFromMessage buf command := sendSwitchCommand_eq buf command rfl
    rw [heq, sumMatches_iff (buildPacketFromMessage_b7 buf command)]
    exact (by decide : ¬ (0x55 : Byte) = 0)
  exact ⟨⟨validatePacket_eq_false _ 8, hbuilt⟩, ⟨validatePacket_eq_false _ 8, hsent⟩, validatePacket_eq_false _ 8,
    sumMatches_set_iff hi hb hset⟩

/-- Camera 1 to monitor 1; and a packet whose byte 6 may be anything. -/
theorem checksum_never_agrees_of_camera_1 :
    validatePacket (buildPacketFromMessage startBuf { KeyboardMessage.new with type := .switch }) 8 = false ∧
    SumMatches ⟨0xff, 0x00, 0x11, 0x00, 0x01, 0x01, 0x55, 0x13⟩ := by
  have h := checksum_never_agrees startBuf { KeyboardMessage.new with type := .switch } 1 1
    ⟨0xff, 0x00, 0x11, 0x00, 0x01, 0x01, 0x00, 0x13⟩ ⟨0xff, 0x00, 0x11, 0x00, 0x01, 0x01, 0x55, 0x13⟩ 6 0x55
    (by decide) (by decide) (by decide)
  exact ⟨h.1.1, (h.2.2.2 (by decide)).mpr rfl⟩

/-- Camera 1 to monitor 1. -/
theorem switch_packet_rejected : ¬ ChecksumAgrees := by
  intro h
  have hsent := h.sent 1 1
  rw [validatePacket_eq_false] at hsent
  cases hsent

end KeyboardJXJ

end Mcc
