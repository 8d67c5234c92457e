import Mcc.Model.Framing

/-!
# `Correctness.PacketFraming` — the client's packets over a byte stream

`MCCClientManager` reads whole packets out of each chunk by itself and drops what is left over. So what a
client sends is read right, however it is cut, exactly when every `recv` ends on a packet boundary.

## Contents
- **The packet in memory.** `ClientPacket.ofBytes_bytes`: what was written is what is read.
- **The client's stream.** `ClientManager.onReadable_framing`, and a packet cut in two.
-/

namespace Mcc

/-! ## The packet in memory -/

theorem append_bytes (v : BitVec 32) :
    (v.extractLsb' 24 8 ++ v.extractLsb' 16 8 ++ v.extractLsb' 8 8 ++ v.extractLsb' 0 8 : BitVec 32) = v := by
  grind

theorem bytesInt_intBytes {n : Int} (h : IsInt n) : bytesInt (intBytes n) = n := by
  obtain ⟨hlow, hhigh⟩ := h
  show (BitVec.extractLsb' 24 8 (BitVec.ofInt 32 n) ++ _ ++ _ ++ _ : BitVec 32).toInt = n
  rw [append_bytes, BitVec.toInt_ofInt]
  apply Int.bmod_eq_of_le
  · omega
  · omega

namespace ClientPacket

theorem length_bytes (packet : ClientPacket) : packet.bytes.length = size := rfl

/-- What a client wrote is what the loop copies out. -/
theorem ofBytes_bytes {packet : ClientPacket} (h : packet.Fits) : ofBytes packet.bytes = packet := by
  have hfield : ∀ n ∈ packet.fields, bytesInt (intBytes n) = n := fun n hn => bytesInt_intBytes (h n hn)
  simp only [fields, List.forall_mem_cons] at hfield
  obtain ⟨h0, h1, h2, h3, h4, h5, h6, h7, h8, -⟩ := hfield
  show (⟨bytesInt (intBytes packet.type), bytesInt (intBytes packet.matrixId),
    bytesInt (intBytes packet.bindKb), bytesInt (intBytes packet.cid), bytesInt (intBytes packet.mid),
    bytesInt (intBytes packet.ptzType), bytesInt (intBytes packet.ptzStart),
    bytesInt (intBytes packet.lumid), bytesInt (intBytes packet.rdmid)⟩ : ClientPacket) = packet
  rw [h0, h1, h2, h3, h4, h5, h6, h7, h8]

end ClientPacket

/-! ## The client's stream -/

namespace ClientManager

open ClientPacket Blocks

/-- What a client that sends these packets writes to the connection. -/
def stream (packets : List ClientPacket) : List Byte := packets.flatMap bytes

/-- What the manager is posted when these chunks arrive. -/
def posted (chunks : List (List Byte)) : List KeyboardMessage := chunks.flatMap onReadable

/-- The stream is read as the packets one by one. -/
def Framed (packets : List ClientPacket) (chunks : List (List Byte)) : Prop :=
  posted chunks = packets.filterMap readPacket

theorem size_pos : 0 < size := by decide

theorem length_stream (packets : List ClientPacket) : (stream packets).length = packets.length * size := by
  have hrecords : ∀ r ∈ packets.map bytes, r.length = size := by
    intro r hr
    obtain ⟨packet, -, rfl⟩ := List.mem_map.mp hr
    exact packet.length_bytes
  show (packets.map bytes).flatten.length = _
  rw [length_flatten_of hrecords, List.length_map]

/-- The stream read in one piece. -/
theorem blocks_stream (packets : List ClientPacket) : blocks size (stream packets) = packets.map bytes := by
  apply blocks_flatten size_pos
  intro r hr
  obtain ⟨packet, -, rfl⟩ := List.mem_map.mp hr
  exact packet.length_bytes

theorem posted_eq (chunks : List (List Byte)) :
    posted chunks = (chunks.flatMap (blocks size)).filterMap fun buf => readPacket (ofBytes buf) := by
  rw [List.filterMap_flatMap]
  rfl

/-- Whole packets in every chunk: nothing is lost. -/
theorem framed_of_dvd {packets : List ClientPacket} (hfits : ∀ p ∈ packets, p.Fits)
    {chunks : List (List Byte)} (hflat : chunks.flatten = stream packets)
    (hdvd : ∀ c ∈ chunks, size ∣ c.length) : Framed packets chunks := by
  unfold Framed
  rw [posted_eq, flatMap_blocks size_pos hdvd, hflat, blocks_stream, List.filterMap_map]
  apply List.filterMap_congr
  intro packet hp
  show readPacket (ofBytes packet.bytes) = readPacket packet
  rw [ofBytes_bytes (hfits packet hp)]

/-- A packet of one of the three types is posted. -/
theorem readPacket_isSome {packet : ClientPacket}
    (h : packet.type = 1 ∨ packet.type = 2 ∨ packet.type = 3) : (readPacket packet).isSome := by
  unfold readPacket
  rcases h with h | h | h
  · simp [h]
  · simp [h]
  · simp [h]

/-- If a message is owed for every packet, a chunk that ends inside one loses it. -/
theorem dvd_of_framed {packets : List ClientPacket} {chunks : List (List Byte)}
    (hflat : chunks.flatten = stream packets)
    (htypes : ∀ p ∈ packets, p.type = 1 ∨ p.type = 2 ∨ p.type = 3) (h : Framed packets chunks) :
    ∀ c ∈ chunks, size ∣ c.length := by
  have hlen : chunks.flatten.length = packets.length * size := by rw [hflat, length_stream]
  have howed : (posted chunks).length = packets.length := by
    rw [h]
    apply List.filterMap_length_eq_length.mpr
    intro p hp
    exact readPacket_isSome (htypes p hp)
  have hle : (posted chunks).length ≤ (chunks.flatMap (blocks size)).length := by
    rw [posted_eq]
    exact List.length_filterMap_le _ _
  have hread : (chunks.flatMap (blocks size)).length = packets.length := by
    have hsum := length_flatMap_blocks size_pos chunks
    rw [hlen] at hsum
    have hge : (chunks.flatMap (blocks size)).length ≤ packets.length := by
      apply Nat.le_of_mul_le_mul_right _ size_pos
      omega
    omega
  exact dvd_of_length_flatMap size_pos hlen hread

/-- A switch of camera 2 to monitor 3. -/
def switchPacket : ClientPacket := ⟨1, 1, 0, 2, 3, 0, 0, 0, 0⟩

theorem switchPacket_fits : switchPacket.Fits := by
  intro n hn
  have hall : ∀ n ∈ switchPacket.fields, -2 ^ 31 ≤ n ∧ n < 2 ^ 31 := by decide
  exact hall n hn

/-- The stream of any packets, cut where another stream of the same length was. -/
theorem cut_stream {packets : List ClientPacket} {lens : List ℕ} (hsum : lens.sum = packets.length * size) :
    (lens.splitLengths (stream packets)).flatten = stream packets ∧
      (lens.splitLengths (stream packets)).map List.length = lens := by
  have hlen : (stream packets).length = lens.sum := by rw [length_stream, hsum]
  exact ⟨List.flatten_splitLengths _ _ hlen.le, List.map_splitLengths_length _ _ hlen.ge⟩

/-- **Framing of the client's stream.** However the stream is cut: whole packets in every chunk are enough;
    they are needed as soon as every packet owes a message; and a stream cut like this is read right whatever
    its packets are exactly when every chunk is a whole number of packets. -/
theorem onReadable_framing {packets : List ClientPacket} {chunks : List (List Byte)}
    (hfits : ∀ p ∈ packets, p.Fits) (hflat : chunks.flatten = stream packets) :
    ((∀ c ∈ chunks, size ∣ c.length) → Framed packets chunks) ∧
    ((∀ p ∈ packets, p.type = 1 ∨ p.type = 2 ∨ p.type = 3) →
      (Framed packets chunks ↔ ∀ c ∈ chunks, size ∣ c.length)) ∧
    ((∀ others : List ClientPacket, others.length = packets.length → (∀ p ∈ others, p.Fits) →
      Framed others ((chunks.map List.length).splitLengths (stream others))) ↔
        ∀ c ∈ chunks, size ∣ c.length) := by
  have hsum : (chunks.map List.length).sum = packets.length * size := by
    rw [← List.length_flatten, hflat, length_stream]
  refine ⟨framed_of_dvd hfits hflat, ?_, ?_, ?_⟩
  · intro htypes
    exact ⟨dvd_of_framed hflat htypes, framed_of_dvd hfits hflat⟩
  · intro h
    have hn : (List.replicate packets.length switchPacket).length = packets.length := List.length_replicate
    obtain ⟨hcut, hlens⟩ := cut_stream (hsum.trans (congrArg (· * size) hn.symm))
    have hframed := h _ hn fun p hp => List.eq_of_mem_replicate hp ▸ switchPacket_fits
    have hdvd := dvd_of_framed hcut (fun p hp => Or.inl (by rw [List.eq_of_mem_replicate hp]; rfl)) hframed
    rw [← List.forall_mem_map (P := fun l => size ∣ l), hlens, List.forall_mem_map] at hdvd
    exact hdvd
  · intro h others hn hothers
    obtain ⟨hcut, hlens⟩ := cut_stream (hsum.trans (congrArg (· * size) hn.symm))
    apply framed_of_dvd hothers hcut
    rw [← List.forall_mem_map (P := fun l => size ∣ l), hlens, List.forall_mem_map]
    exact h

/-- Two packets in two chunks of one packet each. -/
theorem onReadable_framing_of_two :
    Framed [switchPacket, switchPacket] [switchPacket.bytes, switchPacket.bytes] := by
  refine (onReadable_framing ?_ rfl).1 ?_
  · exact List.forall_mem_cons.mpr ⟨switchPacket_fits, List.forall_mem_singleton.mpr switchPacket_fits⟩
  · decide

/-- **A packet in two chunks is lost.** -/
theorem split_packet_lost :
    [switchPacket.bytes.take 20, switchPacket.bytes.drop 20].flatten = stream [switchPacket] ∧
    ¬ Framed [switchPacket] [switchPacket.bytes.take 20, switchPacket.bytes.drop 20] := by
  refine ⟨rfl, ?_⟩
  intro h
  have hlost : posted [switchPacket.bytes.take 20, switchPacket.bytes.drop 20] = [] := by
    rw [posted_eq, List.flatMap_cons, List.flatMap_cons, blocks_of_lt (by decide), blocks_of_lt (by decide)]
    rfl
  rw [Framed, hlost] at h
  exact absurd (congrArg List.length h) (by decide)

end ClientManager

end Mcc
