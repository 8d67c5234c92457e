import Mcc.Model.Jxj

/-!
# `Correctness.Stream` — decoding the keyboard's stream

`OnRxKeyboardPacket` finds the start of a packet by a byte that may also occur inside one. As long as the
stream is packets with noise between them, it never loses its place: every call takes one packet, the next
one, with all its eight bytes. What is posted is then the decoded packets with the repetitions dropped.

## Contents
- **Streams.** `Piece`, and what a call leaves of a stream.
- **Packets.** What one packet leads to.
- **Calls.** One after the other; `stream_decoding`.
-/

namespace Mcc

namespace KeyboardJXJ

/-! ## Streams -/

/-- What the stream of a keyboard is made of. -/
inductive Piece where
  | noise (bytes : List Byte)
  | packet (p : JxjPacket)

namespace Piece

def bytes : Piece → List Byte
  | .noise bytes => bytes
  | .packet p => p.toList

/-- Noise does not contain the start byte; a packet starts with it. -/
def Ok : Piece → Prop
  | .noise bytes => 0xff ∉ bytes
  | .packet p => p.b0 = 0xff

end Piece

/-- The bytes of a stream. -/
def bytesOf (pieces : List Piece) : List Byte := pieces.flatMap Piece.bytes

/-- The packets of a stream. -/
def packetsOf (pieces : List Piece) : List JxjPacket :=
  pieces.filterMap fun piece => match piece with
    | .noise _ => none
    | .packet p => some p

/-- Noise is read over. -/
theorem readStart_noise {noise : List Byte} (h : 0xff ∉ noise) (sp : List Byte) :
    readStart (noise ++ sp) = readStart sp := by
  induction noise with
  | nil => rfl
  | cons b noise ih =>
    have hb : b ≠ 0xff := fun he => h (by rw [he]; exact List.mem_cons_self)
    have hrest := ih (fun hmem => h (List.mem_cons_of_mem _ hmem))
    rw [List.cons_append, readStart, if_neg hb, hrest]

/-- A call that starts in noise is a call that starts behind it. -/
theorem onRxKeyboardPacket_noise (kb : Keyboard) {noise : List Byte} (h : 0xff ∉ noise) (sp : List Byte) :
    onRxKeyboardPacket kb (noise ++ sp) = onRxKeyboardPacket kb sp := by
  unfold onRxKeyboardPacket
  rw [readStart_noise h]

/-- **A call takes a whole packet**, whatever its other seven bytes are. -/
theorem onRxKeyboardPacket_packet (kb : Keyboard) {p : JxjPacket} (h : p.b0 = 0xff) (sp : List Byte) :
    onRxKeyboardPacket kb (p.toList ++ sp) = some ((onPacket kb p).1, (onPacket kb p).2, sp) := by
  obtain ⟨b0, b1, b2, b3, b4, b5, b6, b7⟩ := p
  subst h
  rfl

/-! ## Packets -/

/-- The messages posted. -/
def posted (out : List PortAction) : List KeyboardMessage :=
  out.filterMap fun act => match act with
    | .confirm => none
    | .post msg => some msg

theorem posted_append (out out' : List PortAction) : posted (out ++ out') = posted out ++ posted out' :=
  List.filterMap_append

/-- The messages of `msgs` that are not the same as the one before them; before the first stands `last`. -/
def dropRepeats (last : KeyboardMessage) : List KeyboardMessage → List KeyboardMessage
  | [] => []
  | msg :: msgs => if msg = last then dropRepeats msg msgs else msg :: dropRepeats msg msgs

/-- The packet read into a fresh message. -/
def decode (kb : Keyboard) (p : JxjPacket) : KeyboardMessage :=
  buildMessageFromPacket kb.mId kb.matrixId p KeyboardMessage.new

/-- **One packet.** Whether or not its message is posted, it is the one the next is compared with. -/
theorem onPacket_spec (kb : Keyboard) (p : JxjPacket) :
    (onPacket kb p).2 = { kb with mLastMessage := decode kb p } ∧
    posted (onPacket kb p).1 = (if decode kb p = kb.mLastMessage then [] else [decode kb p]) ∧
    (onPacket kb p).1.count .confirm = if p.b2 = 0x41 then 1 else 0 := by
  have hnone : posted (if p.b2 = 0x41 then [.confirm] else []) = [] := by split_ifs <;> rfl
  have hcount : (if p.b2 = 0x41 then [PortAction.confirm] else []).count .confirm =
      if p.b2 = 0x41 then 1 else 0 := by split_ifs <;> rfl
  have heq : onPacket kb p = if decode kb p = kb.mLastMessage
      then (if p.b2 = 0x41 then [.confirm] else [], kb)
      else ((if p.b2 = 0x41 then [.confirm] else []) ++ [.post (decode kb p)],
        { kb with mLastMessage := decode kb p }) := rfl
  rw [heq]
  by_cases hsame : decode kb p = kb.mLastMessage
  · rw [if_pos hsame, if_pos hsame, hsame]
    exact ⟨rfl, hnone, hcount⟩
  · rw [if_neg hsame, if_neg hsame]
    refine ⟨rfl, ?_, ?_⟩
    · rw [posted_append, hnone]
      rfl
    · rw [List.count_append, hcount]
      rfl

/-! ## Calls -/

/-- `n` calls of `OnRxKeyboardPacket`, one after the other. -/
def calls : ℕ → Keyboard → List Byte → Option (List PortAction × Keyboard × List Byte)
  | 0, kb, sp => some ([], kb, sp)
  | n + 1, kb, sp => do
    let (out, kb, sp) ← onRxKeyboardPacket kb sp
    let (out', kb, sp) ← calls n kb sp
    return (out ++ out', kb, sp)

/-- Noise in front does not matter to calls. -/
theorem calls_noise (n : ℕ) (kb : Keyboard) {noise : List Byte} (h : 0xff ∉ noise) (sp : List Byte) :
    calls (n + 1) kb (noise ++ sp) = calls (n + 1) kb sp := by
  unfold calls
  rw [onRxKeyboardPacket_noise kb h]

/-- The first call takes the packet in front. -/
theorem calls_packet (n : ℕ) (kb : Keyboard) {p : JxjPacket} (h : p.b0 = 0xff) (sp : List Byte) :
    calls (n + 1) kb (p.toList ++ sp) =
      (calls n (onPacket kb p).2 sp).map fun r => ((onPacket kb p).1 ++ r.1, r.2) := by
  rw [calls, onRxKeyboardPacket_packet kb h]
  show ((calls n (onPacket kb p).2 sp).bind fun r => some ((onPacket kb p).1 ++ r.1, r.2)) = _
  cases calls n (onPacket kb p).2 sp with
  | none => rfl
  | some r => rfl

/-- **As many calls as packets** take the packets, and leave what is behind them. -/
theorem calls_pieces {pieces : List Piece} (hok : ∀ piece ∈ pieces, piece.Ok) (rest : List Byte) :
    ∀ (kb : Keyboard) {p : JxjPacket}, p.b0 = 0xff →
      ∃ out kb', calls ((packetsOf pieces).length + 1) kb (bytesOf pieces ++ (p.toList ++ rest)) =
          some (out, kb', rest) ∧
        posted out = dropRepeats kb.mLastMessage ((packetsOf pieces ++ [p]).map (decode kb)) ∧
        out.count .confirm = (packetsOf pieces ++ [p]).countP fun q => decide (q.b2 = 0x41) := by
  induction pieces with
  | nil =>
    intro kb p hp
    obtain ⟨-, hpost, hconf⟩ := onPacket_spec kb p
    refine ⟨(onPacket kb p).1, (onPacket kb p).2, ?_, ?_, ?_⟩
    · show calls (0 + 1) kb (p.toList ++ rest) = _
      rw [calls_packet 0 kb hp]
      show some ((onPacket kb p).1 ++ [], (onPacket kb p).2, rest) = _
      rw [List.append_nil]
    · rw [hpost]
      rfl
    · rw [hconf]
      show _ = [p].countP _
      rw [List.countP_singleton]
      simp only [decide_eq_true_eq]
  | cons piece pieces ih =>
    intro kb p hp
    have hpiece := hok piece List.mem_cons_self
    have hpieces : ∀ piece ∈ pieces, piece.Ok := fun q hq => hok q (List.mem_cons_of_mem _ hq)
    cases piece with
    | noise bytes =>
      obtain ⟨out, kb', hcalls, hpost, hconf⟩ := ih hpieces kb hp
      refine ⟨out, kb', ?_, hpost, hconf⟩
      show calls _ kb ((bytes ++ bytesOf pieces) ++ _) = _
      rw [List.append_assoc]
      exact (calls_noise _ kb hpiece _).trans hcalls
    | packet q =>
      -- the first call leaves a keyboard that differs in its last message only
      obtain ⟨hkb, hpostq, hconfq⟩ := onPacket_spec kb q
      obtain ⟨out, kb', hcalls, hpost, hconf⟩ := ih hpieces (onPacket kb q).2 hp
      refine ⟨(onPacket kb q).1 ++ out, kb', ?_, ?_, ?_⟩
      · show calls _ kb ((q.toList ++ bytesOf pieces) ++ _) = _
        rw [List.append_assoc]
        refine (calls_packet _ kb hpiece _).trans ?_
        have hlength : (packetsOf (.packet q :: pieces)).length = (packetsOf pieces).length + 1 := rfl
        rw [hlength, hcalls]
        rfl
      · rw [posted_append, hpostq, hpost, hkb]
        show _ = dropRepeats kb.mLastMessage (decode kb q :: (packetsOf pieces ++ [p]).map (decode kb))
        rw [dropRepeats]
        by_cases hsame : decode kb q = kb.mLastMessage
        · rw [if_pos hsame, if_pos hsame]
          rfl
        · rw [if_neg hsame, if_neg hsame]
          rfl
      · rw [List.count_append, hconfq, hconf]
        show _ = (q :: (packetsOf pieces ++ [p])).countP _
        rw [List.countP_cons]
        by_cases hreg : q.b2 = 0x41
        · rw [if_pos hreg, if_pos (decide_eq_true hreg), Nat.add_comm]
        · rw [if_neg hreg, if_neg (by simpa using hreg), Nat.zero_add, Nat.add_zero]

/-- Behind the last packet a call waits. -/
theorem calls_wait {pieces : List Piece} (hok : ∀ piece ∈ pieces, piece.Ok) :
    ∀ kb : Keyboard, calls ((packetsOf pieces).length + 1) kb (bytesOf pieces) = none := by
  induction pieces with
  | nil => exact fun _ => rfl
  | cons piece pieces ih =>
    intro kb
    have hpiece := hok piece List.mem_cons_self
    have hpieces : ∀ piece ∈ pieces, piece.Ok := fun q hq => hok q (List.mem_cons_of_mem _ hq)
    cases piece with
    | noise bytes => exact (calls_noise _ kb hpiece _).trans (ih hpieces kb)
    | packet q =>
      refine (calls_packet _ kb hpiece (bytesOf pieces)).trans ?_
      have hlength : (packetsOf (.packet q :: pieces)).length = (packetsOf pieces).length + 1 := rfl
      rw [hlength, ih hpieces]
      rfl

/-- **Stream decoding.** The stream is noise and packets in any order. For every packet of it: as many calls as
    there are packets up to it leave exactly what follows it; they have confirmed each registration among these
    packets once, and posted their messages in order, without those that repeat the message before. With one
    call more than there are packets, the keyboard waits. -/
theorem stream_decoding (kb : Keyboard) {pieces : List Piece} (hok : ∀ piece ∈ pieces, piece.Ok) :
    (∀ before p after, pieces = before ++ .packet p :: after →
      ∃ out kb', calls (packetsOf (before ++ [.packet p])).length kb (bytesOf pieces) =
          some (out, kb', bytesOf after) ∧
        posted out = dropRepeats kb.mLastMessage ((packetsOf (before ++ [.packet p])).map (decode kb)) ∧
        out.count .confirm = (packetsOf (before ++ [.packet p])).countP fun q => decide (q.b2 = 0x41)) ∧
    calls ((packetsOf pieces).length + 1) kb (bytesOf pieces) = none := by
  refine ⟨?_, calls_wait hok kb⟩
  rintro before p after rfl
  have hp : p.b0 = 0xff := hok (.packet p) (by simp)
  have hbefore : ∀ piece ∈ before, piece.Ok := fun q hq => hok q (List.mem_append_left _ hq)
  have hpackets : packetsOf (before ++ [Piece.packet p]) = packetsOf before ++ [p] := List.filterMap_append
  have hbytes : bytesOf (before ++ Piece.packet p :: after) = bytesOf before ++ (p.toList ++ bytesOf after) :=
    List.flatMap_append
  rw [hpackets, hbytes, List.length_append]
  exact calls_pieces hbefore (bytesOf after) kb hp

/-- A switch, the same switch again behind noise, and a registration with a start byte inside. -/
theorem stream_decoding_of_three : ∃ out kb',
    calls 3 ⟨1, 2, KeyboardMessage.new⟩ (bytesOf [.packet startBuf, .noise [0x00, 0x41], .packet startBuf,
        .packet ⟨0xff, 0x00, 0x41, 0xff, 0x55, 0x00, 0x00, 0xa7⟩]) = some (out, kb', []) ∧
      (posted out).length = 2 ∧ out.count .confirm = 1 := by
  obtain ⟨out, kb', hcalls, hpost, hconf⟩ := (@stream_decoding ⟨1, 2, KeyboardMessage.new⟩
    [.packet startBuf, .noise [0x00, 0x41], .packet startBuf,
      .packet ⟨0xff, 0x00, 0x41, 0xff, 0x55, 0x00, 0x00, 0xa7⟩] (by simp [Piece.Ok, startBuf])).1
    [.packet startBuf, .noise [0x00, 0x41], .packet startBuf] _ [] rfl
  refine ⟨out, kb', hcalls, ?_, ?_⟩
  · rw [hpost]
    decide
  · rw [hconf]
    decide

end KeyboardJXJ

end Mcc
