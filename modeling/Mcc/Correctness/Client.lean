import Mcc.Correctness.ServerSessions
import Mcc.Model.Client

/-!
# `Correctness.Client` — from the call of a client to the message of the keyboard manager

A call of the library becomes a packet, the packet part of a stream, the stream chunks at the server, and these
messages that are posted. `requests_arrive` says what comes out at the end, over every run of the server: the message of
every call that returned 0, whatever memory the packets were built in, if no `recv` cut a packet in two.

- A call that fails leaves the descriptor at -1 and the library connected: all later ones fail too
  (`performAll_eq`).
- The message of a `Ptz` does not depend on its `bstart`: the flag travels, and `onReadable` does not read it.
-/

namespace Mcc

open Transition

/-! ## What a call asks for -/

/-- The message a call is to become, for a client bound to keyboard `id`. -/
def ClientCall.message (id : Int) : ClientCall → KeyboardMessage
  | .switch matrixId cameraId monitorId => { KeyboardMessage.new with
      type := .switch, keyboardId := id, cameraId := ⟨matrixId, cameraId⟩, monitorId := monitorId }
  | .switchTo matrixId cameraId leftUpMonitorId rightDownMonitorId => { KeyboardMessage.new with
      type := .pin, keyboardId := id, cameraId := ⟨matrixId, cameraId⟩, monitorId := leftUpMonitorId
      leftUpMonitorId := leftUpMonitorId, rightDownMonitorId := rightDownMonitorId }
  | .ptz type matrixId cameraId _ => { KeyboardMessage.new with
      type := .ptz, keyboardId := id, cameraId := ⟨matrixId, cameraId⟩, ptzOptType := type
      ptzOptVstep := if Int.land type 0x03 ≠ 0 then 20 else 0
      ptzOptHstep := if Int.land type 0x0c ≠ 0 then 20 else 0 }

/-- The arguments are `int`s. -/
def ClientCall.Fits : ClientCall → Prop
  | .switch matrixId cameraId monitorId => IsInt matrixId ∧ IsInt cameraId ∧ IsInt monitorId
  | .switchTo matrixId cameraId leftUpMonitorId rightDownMonitorId =>
    IsInt matrixId ∧ IsInt cameraId ∧ IsInt leftUpMonitorId ∧ IsInt rightDownMonitorId
  | .ptz type matrixId cameraId _ => IsInt type ∧ IsInt matrixId ∧ IsInt cameraId

namespace MCCClient

variable {c : MCCClient}

/-- The manager reads the message off the packet, whatever was in the packet's memory. -/
theorem readPacket_packet (c : MCCClient) (mem : ClientPacket) (call : ClientCall) :
    ClientManager.readPacket (c.packet mem call) = some (call.message c.mBindedId) := by
  cases call <;> rfl

theorem packet_fits (hid : IsInt c.mBindedId) {mem : ClientPacket} (hmem : mem.Fits) {call : ClientCall}
    (hcall : call.Fits) : (c.packet mem call).Fits := by
  have hzero : IsInt 0 := by decide
  have hone : IsInt 1 := by decide
  have htwo : IsInt 2 := by decide
  have hthree : IsInt 3 := by decide
  have hfields : ∀ n ∈ mem.fields, IsInt n := hmem
  simp only [ClientPacket.fields, List.forall_mem_cons] at hfields
  obtain ⟨-, -, -, -, hmid, -, -, hlumid, hrdmid, -⟩ := hfields
  unfold ClientPacket.Fits
  cases call with
  | switch =>
    obtain ⟨hmatrix, hcamera, hmonitor⟩ := hcall
    simp [ClientPacket.fields, packet, *]
  | switchTo =>
    obtain ⟨hmatrix, hcamera, hlu, hrd⟩ := hcall
    simp [ClientPacket.fields, packet, *]
  | ptz type matrixId cameraId bstart =>
    obtain ⟨htype, hmatrix, hcamera⟩ := hcall
    cases bstart <;> simp [ClientPacket.fields, packet, *]

/-! ## The calls of a session -/

/-- What `send` does over a session: it takes a packet whole or not at all, and it fails on the descriptor -1. -/
def Sends (c : MCCClient) : List ClientRequest → Prop
  | [] => True
  | r :: rs => (r.sent = ClientPacket.size ∧ c.mFd ≠ -1 ∨ r.sent ≤ 0) ∧ (c.perform r).2.1.Sends rs

/-- The calls up to the first that fails. -/
def taken (rs : List ClientRequest) : List ClientRequest := rs.takeWhile fun r => decide (0 < r.sent)

/-- A client whose descriptor is gone fails every call and writes nothing. -/
theorem performAll_gone (hconnected : c.mConnected = true) (hfd : c.mFd = -1) :
    ∀ {rs : List ClientRequest}, c.Sends rs → c.performAll rs = (rs.map fun _ => -1, c, []) ∧ taken rs = [] := by
  intro rs
  induction rs with
  | nil => exact fun _ => ⟨rfl, rfl⟩
  | cons r rs ih =>
    rintro ⟨hsent, hrest⟩
    have hfail : r.sent ≤ 0 := by
      rcases hsent with ⟨-, hne⟩ | hfail
      · exact absurd hfd hne
      · exact hfail
    have hdisconnect : c.disConnect = c := by
      obtain ⟨connected, id, fd⟩ := c
      obtain rfl : fd = -1 := hfd
      unfold disConnect
      simp
    have hperform : c.perform r = (-1, c, []) := by
      unfold perform
      simp [hconnected, hfail, hdisconnect]
    rw [hperform] at hrest
    refine ⟨?_, ?_⟩
    · rw [performAll_cons, hperform, (ih hrest).1]
      rfl
    · unfold taken
      rw [List.takeWhile_cons_of_neg (by simpa using hfail)]

theorem stream_cons (p : ClientPacket) (ps : List ClientPacket) :
    ClientManager.stream (p :: ps) = p.bytes ++ ClientManager.stream ps := List.flatMap_cons

/-- **A session**: the calls up to the first that fails return 0 and their packets are written; it and all after it
    return -1 and write nothing. -/
theorem performAll_eq (hconnected : c.mConnected = true) :
    ∀ {rs : List ClientRequest}, c.Sends rs →
      (c.performAll rs).1 = (taken rs).map (fun _ => 0) ++ (rs.drop (taken rs).length).map (fun _ => -1) ∧
      (c.performAll rs).2.2 = ClientManager.stream ((taken rs).map fun r => c.packet r.mem r.call) := by
  intro rs
  induction rs with
  | nil => exact fun _ => ⟨rfl, rfl⟩
  | cons r rs ih =>
    rintro ⟨hsent, hrest⟩
    by_cases hfail : r.sent ≤ 0
    · have hperform : c.perform r = (-1, c.disConnect, []) := by
        unfold perform
        simp [hconnected, hfail]
      have hdisconnect : c.disConnect = { c with mFd := -1 } := by
        unfold disConnect
        simp [hconnected]
      rw [hperform, hdisconnect] at hrest
      obtain ⟨hall, -⟩ := performAll_gone (c := { c with mFd := -1 }) hconnected rfl hrest
      have htaken : taken (r :: rs) = [] := by
        unfold taken
        rw [List.takeWhile_cons_of_neg (by simpa using hfail)]
      rw [performAll_cons, hperform, hdisconnect, hall, htaken]
      exact ⟨rfl, rfl⟩
    · obtain ⟨hwhole, -⟩ : r.sent = ClientPacket.size ∧ c.mFd ≠ -1 := hsent.resolve_right hfail
      have hbytes : (c.packet r.mem r.call).bytes.take r.sent.toNat = (c.packet r.mem r.call).bytes := by
        rw [hwhole]
        exact List.take_of_length_le (c.packet r.mem r.call).length_bytes.le
      have hperform : c.perform r = (0, c, (c.packet r.mem r.call).bytes) := by
        unfold perform
        simp only [hconnected, Bool.true_eq_false, if_false, hfail, hbytes]
      rw [hperform] at hrest
      obtain ⟨hcodes, hstream⟩ := ih hrest
      have htaken : taken (r :: rs) = r :: taken rs := by
        unfold taken
        rw [List.takeWhile_cons_of_pos (by simpa using hfail)]
      rw [performAll_cons, hperform, htaken]
      refine ⟨?_, ?_⟩
      · simp [hcodes]
      · rw [hstream, List.map_cons, stream_cons]

/-- **From the call to the message.** A client connects, makes its calls and closes, and its connection is `k` at the
    server. In every run in which the server hears the connection to its end, in chunks of whole packets, the messages
    posted for it are those of the calls that returned 0, in order and whatever memory their packets were built in. -/
theorem requests_arrive {n n' : ServerNet} {es : List ServerEvent} (h : Run ServerNet.Step n es n')
    (hn : ServerNet.Start n) {k : ℕ} {rs : List ClientRequest} (hconnected : c.mConnected = true) (hsends : c.Sends rs)
    (hid : IsInt c.mBindedId) (hfits : ∀ r ∈ rs, r.mem.Fits ∧ r.call.Fits)
    (hsent : ServerNet.sentBy k es = (c.performAll rs).2.2) {chunks : List (List Byte)}
    (hlog : ServerNet.log k es = Session.closed (chunks, .closed))
    (hwhole : ∀ chunk ∈ chunks, ClientPacket.size ∣ chunk.length) :
    ClientManager.posted chunks = (taken rs).map fun r => r.call.message c.mBindedId := by
  have hstream := (performAll_eq hconnected hsends).2
  have hflat : chunks.flatten = ClientManager.stream ((taken rs).map fun r => c.packet r.mem r.call) := by
    rw [← ServerNet.complete_of_run h hn hlog, hsent, hstream]
  have hpackets : ∀ p ∈ (taken rs).map (fun r => c.packet r.mem r.call), p.Fits := by
    intro p hp
    obtain ⟨r, hr, rfl⟩ := List.mem_map.mp hp
    obtain ⟨hmem, hcall⟩ := hfits r ((List.takeWhile_sublist _).subset hr)
    exact packet_fits hid hmem hcall
  have hframed : ClientManager.Framed _ chunks := ClientManager.framed_of_dvd hpackets hflat hwhole
  rw [hframed, List.filterMap_map]
  calc (taken rs).filterMap (ClientManager.readPacket ∘ fun r => c.packet r.mem r.call)
      = (taken rs).filterMap fun r => some (r.call.message c.mBindedId) :=
        List.filterMap_congr fun r _ => readPacket_packet c r.mem r.call
    _ = (taken rs).map fun r => r.call.message c.mBindedId := by rw [List.filterMap_eq_map']

/-- One call, to its end. -/
theorem requests_arrive_of_one : ∃ chunks, ClientManager.posted chunks = [(ClientCall.switch 1 2 3).message 4] := by
  have hwritten : (performAll ⟨true, 4, 5⟩ [⟨.switch 1 2 3, .zero, 36⟩]).2.2 =
      (packet ⟨true, 4, 5⟩ .zero (.switch 1 2 3)).bytes := rfl
  obtain ⟨es, n, hrun, hsent, hlog⟩ :=
    @ServerNet.exists_heard (packet ⟨true, 4, 5⟩ .zero (.switch 1 2 3)).bytes (by decide) (by decide)
  have hmem : ClientPacket.zero.Fits := by
    intro i hi
    obtain rfl : i = 0 := by simpa [ClientPacket.fields, ClientPacket.zero] using hi
    decide
  have hsends : Sends ⟨true, 4, 5⟩ [⟨.switch 1 2 3, .zero, 36⟩] := ⟨Or.inl ⟨rfl, by decide⟩, trivial⟩
  refine ⟨_, requests_arrive (c := ⟨true, 4, 5⟩) hrun (ServerNet.started_start 3) rfl hsends (by decide) ?_
    (hsent.trans hwritten.symm) hlog ?_⟩
  · simp only [List.mem_singleton, forall_eq]
    exact ⟨hmem, by decide, by decide, by decide⟩
  · simp only [List.mem_singleton, forall_eq]
    exact dvd_refl _

end MCCClient

end Mcc
