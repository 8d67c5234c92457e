import Mcc.Correctness.PacketFraming
import Mcc.Model.Notify

/-!
# `Correctness.Notify` — what the connected clients get to know

A notification is held back if it looks like the last one sent, it goes to all clients or to none, and the
packet it goes out in is read by the same field mapping that reads the packets of clients. Each of the three
has its own condition:

- what looks like a repeat is judged by type and direction only, so it is one only if camera, matrix and
  keyboard are the same too (`only_repeats_withheld_iff`);
- the loop that drops clients does so under its own iterator (`broadcast_exact_iff`);
- two fields of the packet are never written (`client_codec`).
-/

namespace Mcc

open Transition EraseLoop

/-! ## The loop over the descriptors -/

/-- The loop gets to its end exactly if no client is found gone, and has then told and kept all. -/
theorem sendAll_eq_ok_iff {send : ℕ → SendResult} {fds : List Int} {r : List Int × List Int} :
    sendAll send fds = .ok r ↔ (∀ j, j < fds.length → (send j).gone = false) ∧ r = (fds, fds) := by
  have hspares : Spares (fun j (_ : Int) => (send j).gone) 0 fds ↔ ∀ j, j < fds.length → (send j).gone = false := by
    constructor
    · intro h j hj
      have hgone := h j fds[j] (List.getElem?_eq_getElem hj)
      rwa [Nat.zero_add] at hgone
    · intro h j fd hfd
      rw [Nat.zero_add]
      exact h j (List.getElem?_eq_some_iff.mp hfd).1
  rw [← hspares, ← walk_eq_some_iff]
  unfold sendAll
  cases walk (fun j (_ : Int) => (send j).gone) 0 fds with
  | none => simp
  | some r' => simp

/-- A repeat goes to nobody. -/
theorem broadcast_repeated {lastPacket packet : ClientPacket} (h : isRepeated lastPacket packet = true)
    (send : ℕ → SendResult) (fds : List Int) : broadcast lastPacket packet send fds = .ok (lastPacket, none, fds) := by
  unfold broadcast
  simp [h]

/-- Any other packet goes to all, unless the loop finds one gone. -/
theorem broadcast_eq_ok_iff {lastPacket packet : ClientPacket} (h : isRepeated lastPacket packet = false)
    {send : ℕ → SendResult} {fds : List Int} {r : ClientPacket × Option (List Int) × List Int} :
    broadcast lastPacket packet send fds = .ok r ↔
      (∀ j, j < fds.length → (send j).gone = false) ∧ r = (packet, some fds, fds) := by
  unfold broadcast
  simp only [h, Bool.false_eq_true, if_false]
  constructor
  · intro hok
    obtain ⟨⟨sent, kept⟩, hsend, hok⟩ := bind_eq_ok hok
    obtain ⟨hnone, heq⟩ := sendAll_eq_ok_iff.mp hsend
    cases heq
    exact ⟨hnone, (Except.ok.inj hok).symm⟩
  · rintro ⟨hnone, rfl⟩
    rw [sendAll_eq_ok_iff.mpr ⟨hnone, rfl⟩]
    rfl

theorem ofList_toList (s : Std.ExtTreeSet Int compare) : Std.ExtTreeSet.ofList s.toList compare = s := by
  apply Std.ExtTreeSet.ext_mem
  intro k
  simp [Std.ExtTreeSet.mem_ofList]

/-- What remains of the descriptors if those whose send found the client gone are dropped. -/
def remaining (send : ℕ → SendResult) (fds : List Int) : List Int := survivors (fun j _ => (send j).gone) 0 fds

theorem remaining_eq {send : ℕ → SendResult} {fds : List Int}
    (h : ∀ j, j < fds.length → (send j).gone = false) : remaining send fds = fds := by
  apply Spares.survivors_eq
  intro j fd hfd
  rw [Nat.zero_add]
  exact h j (List.getElem?_eq_some_iff.mp hfd).1

namespace ClientManager

/-- A notification that is no repeat. -/
theorem notify_eq_ok_iff {c c' : ClientManager} {mem : ClientPacket} {send : ℕ → SendResult} {msg : KeyboardMessage}
    {sent : Option (List Int)}
    (h : isRepeated c.lastPacket (buildNotifyPacket msg.cameraId.mid mem msg) = false) :
    c.notify mem send msg = .ok (c', sent) ↔
      (∀ j, j < c.mConnFdList.toList.length → (send j).gone = false) ∧
        c' = { c with lastPacket := buildNotifyPacket msg.cameraId.mid mem msg } ∧
        sent = some c.mConnFdList.toList := by
  unfold notify
  constructor
  · intro hok
    obtain ⟨r, hbroadcast, hok⟩ := bind_eq_ok hok
    obtain ⟨hnone, rfl⟩ := (broadcast_eq_ok_iff h).mp hbroadcast
    simp only [pure, Except.pure, Except.ok.injEq, Prod.mk.injEq, ofList_toList] at hok
    exact ⟨hnone, hok.1.symm, hok.2.symm⟩
  · rintro ⟨hnone, rfl, rfl⟩
    simp only [(broadcast_eq_ok_iff h).mpr ⟨hnone, rfl⟩, bind, Except.bind, pure, Except.pure, ofList_toList]

/-- A notification that is one. -/
theorem notify_repeated {c : ClientManager} {mem : ClientPacket} {msg : KeyboardMessage}
    (h : isRepeated c.lastPacket (buildNotifyPacket msg.cameraId.mid mem msg) = true) (send : ℕ → SendResult) :
    c.notify mem send msg = .ok (c, none) := by
  unfold notify
  simp only [broadcast_repeated h, bind, Except.bind, pure, Except.pure, ofList_toList]

/-- **An exact broadcast**: one send to each descriptor, in order, and those found gone are dropped. -/
def BroadcastExact (c : ClientManager) (mem : ClientPacket) (send : ℕ → SendResult) (msg : KeyboardMessage) : Prop :=
  ∃ c', c.notify mem send msg = .ok (c', some c.mConnFdList.toList) ∧
    c'.mConnFdList.toList = remaining send c.mConnFdList.toList

end ClientManager

namespace KeyboardVirtual

theorem update_eq_ok_iff {v v' : KeyboardVirtual} {mem : ClientPacket} {send : ℕ → SendResult}
    {msg : KeyboardMessage} {sent : Option (List Int)}
    (h : isRepeated v.lastPacket (buildNotifyPacket 0 mem msg) = false) :
    v.update mem send msg = .ok (v', sent) ↔
      (∀ j, j < v.mConnFdList.length → (send j).gone = false) ∧
        v' = { v with lastPacket := buildNotifyPacket 0 mem msg } ∧ sent = some v.mConnFdList := by
  unfold update
  constructor
  · intro hok
    obtain ⟨r, hbroadcast, hok⟩ := bind_eq_ok hok
    obtain ⟨hnone, rfl⟩ := (broadcast_eq_ok_iff h).mp hbroadcast
    simp only [pure, Except.pure, Except.ok.injEq, Prod.mk.injEq] at hok
    exact ⟨hnone, hok.1.symm, hok.2.symm⟩
  · rintro ⟨hnone, rfl, rfl⟩
    simp only [(broadcast_eq_ok_iff h).mpr ⟨hnone, rfl⟩, bind, Except.bind, pure, Except.pure]

/-- An exact broadcast of a virtual keyboard, over its vector. -/
def BroadcastExact (v : KeyboardVirtual) (mem : ClientPacket) (send : ℕ → SendResult) (msg : KeyboardMessage) :
    Prop :=
  ∃ v', v.update mem send msg = .ok (v', some v.mConnFdList) ∧ v'.mConnFdList = remaining send v.mConnFdList

end KeyboardVirtual

/-- **When a broadcast is exact**, over the set and over the vector alike: no send of it finds a client gone. -/
theorem broadcast_exact_iff {c : ClientManager} {v : KeyboardVirtual} {mem : ClientPacket} {msg : KeyboardMessage}
    (hc : isRepeated c.lastPacket (buildNotifyPacket msg.cameraId.mid mem msg) = false)
    (hv : isRepeated v.lastPacket (buildNotifyPacket 0 mem msg) = false) (send : ℕ → SendResult) :
    (c.BroadcastExact mem send msg ↔ ∀ j, j < c.mConnFdList.toList.length → (send j).gone = false) ∧
    (v.BroadcastExact mem send msg ↔ ∀ j, j < v.mConnFdList.length → (send j).gone = false) := by
  constructor
  · constructor
    · rintro ⟨c', hok, -⟩
      exact ((ClientManager.notify_eq_ok_iff hc).mp hok).1
    · intro hnone
      exact ⟨_, (ClientManager.notify_eq_ok_iff hc).mpr ⟨hnone, rfl, rfl⟩, (remaining_eq hnone).symm⟩
  · constructor
    · rintro ⟨v', hok, -⟩
      exact ((KeyboardVirtual.update_eq_ok_iff hv).mp hok).1
    · intro hnone
      exact ⟨_, (KeyboardVirtual.update_eq_ok_iff hv).mpr ⟨hnone, rfl, rfl⟩, (remaining_eq hnone).symm⟩

/-- Two clients that are there, and one that is not. -/
theorem broadcast_exact_of_two :
    (⟨.ofList [(4 : Int), 3], .zero⟩ : ClientManager).BroadcastExact .zero (fun _ => ⟨36, 0⟩) .new ∧
    ¬ (⟨[5], .zero⟩ : KeyboardVirtual).BroadcastExact .zero (fun _ => ⟨-1, 104⟩) .new := by
  constructor
  · exact (broadcast_exact_iff (v := ⟨[5], .zero⟩) (by decide) (by decide) _).1.mpr fun _ _ => by decide
  · intro h
    have hnone := (broadcast_exact_iff (c := .start) (by decide) (by decide) _).2.mp h
    exact absurd (hnone 0 (by decide)) (by decide)

/-- **A client that is gone ends the loop.** The first of two is; the second is never told. -/
theorem broadcast_advances_erased :
    (¬ ∀ (c : ClientManager) mem send msg,
      isRepeated c.lastPacket (buildNotifyPacket msg.cameraId.mid mem msg) = false → c.BroadcastExact mem send msg) ∧
    ¬ ∀ (v : KeyboardVirtual) mem send msg,
      isRepeated v.lastPacket (buildNotifyPacket 0 mem msg) = false → v.BroadcastExact mem send msg := by
  constructor
  · intro h
    obtain ⟨c', hok, -⟩ := h ⟨.ofList [(3 : Int), 4], .zero⟩ .zero (fun _ => ⟨0, 0⟩) .new (by decide)
    have hnone := ((ClientManager.notify_eq_ok_iff (by decide)).mp hok).1
    exact absurd (hnone 0 (by decide)) (by decide)
  · intro h
    obtain ⟨v', hok, -⟩ := h ⟨[3, 4], .zero⟩ .zero (fun _ => ⟨0, 0⟩) .new (by decide)
    have hnone := ((KeyboardVirtual.update_eq_ok_iff (by decide)).mp hok).1
    exact absurd (hnone 0 (by decide)) (by decide)

/-! ## Repeats -/

/-- What happens to the client manager. -/
inductive ClientEvent where
  | newConnection (fd : Int)
  | disconnect (fd : Int)
  | notify (mem : ClientPacket) (send : ℕ → SendResult) (msg : KeyboardMessage)

/-- The manager, and the message of the last notification that was sent out. -/
structure Watched where
  manager : ClientManager
  lastSent : Option KeyboardMessage

namespace Watched

def start : Watched := ⟨.start, none⟩

/-- One event. A fault ends the sequence. -/
def next (w : Watched) : ClientEvent → Except Fault Watched
  | .newConnection fd => .ok { w with manager := w.manager.onNewConnection fd }
  | .disconnect fd => .ok { w with manager := w.manager.onDisconnect fd }
  | .notify mem send msg => do
    let (manager, sent) ← w.manager.notify mem send msg
    return ⟨manager, if sent.isSome then some msg else w.lastSent⟩

def Step (w : Watched) (e : ClientEvent) (w' : Watched) : Prop := w.next e = .ok w'

/-- The notification says nothing new: a PTZ notification for the matrix, the camera, the keyboard and the
    direction of the last one sent. -/
def Repeats (w : Watched) (msg : KeyboardMessage) : Prop :=
  msg.type = .ptz ∧ ∃ m, w.lastSent = some m ∧ m.cameraId = msg.cameraId ∧ m.keyboardId = msg.keyboardId ∧
    m.ptzOptType = msg.ptzOptType

/-- **Only repeats are withheld**: a notification says nothing new, or it goes to every connected client. -/
def OnlyRepeatsWithheld (w : Watched) : ClientEvent → Prop
  | .notify mem send msg => ∃ manager sent, w.manager.notify mem send msg = .ok (manager, sent) ∧
      (sent = none → w.Repeats msg) ∧ ∀ fds, sent = some fds → fds = w.manager.mConnFdList.toList
  | _ => True

/-- A PTZ notification after one of the same direction. -/
def LooksRepeated (w : Watched) (msg : KeyboardMessage) : Prop :=
  msg.type = .ptz ∧ ∃ m, w.lastSent = some m ∧ m.type = .ptz ∧ m.ptzOptType = msg.ptzOptType

/-- The condition: what looks like a repeat is one, and where a notification goes out no client is found gone. -/
def LooksAreRight (w : Watched) : ClientEvent → Prop
  | .notify _ send msg => (w.LooksRepeated msg → w.Repeats msg) ∧
      (¬ w.LooksRepeated msg → ∀ j, j < w.manager.mConnFdList.toList.length → (send j).gone = false)
  | _ => True

/-- The last packet is that of the last notification sent, as far as the test for repeats looks. -/
def Remembers (w : Watched) : Prop :=
  match w.lastSent with
  | none => w.manager.lastPacket.type = 0
  | some m => w.manager.lastPacket.type = m.type.toInt ∧ w.manager.lastPacket.ptzType = m.ptzOptType ∧
      w.manager.lastPacket.ptzStart = if m.ptzOptType = 0 then 0 else 1

theorem toInt_eq_two {t : KBMsgType} : t.toInt = 2 ↔ t = .ptz := by
  cases t with
  | unknown => decide
  | switch => decide
  | ptz => decide
  | pin => decide

/-- What the test finds. -/
theorem isRepeated_iff {w : Watched} (h : w.Remembers) (matrixId : Int) (mem : ClientPacket) (msg : KeyboardMessage) :
    isRepeated w.manager.lastPacket (buildNotifyPacket matrixId mem msg) = true ↔ w.LooksRepeated msg := by
  unfold isRepeated LooksRepeated buildNotifyPacket
  rw [decide_eq_true_iff, toInt_eq_two]
  unfold Remembers at h
  cases hlast : w.lastSent with
  | none =>
    -- the static starts as zeros, and is no PTZ packet
    rw [hlast] at h
    simp [h]
  | some m =>
    rw [hlast] at h
    obtain ⟨htype, hptz, hstart⟩ := h
    rw [htype, hptz, hstart, toInt_eq_two]
    constructor
    · rintro ⟨hm, hmsg, hdir, -⟩
      exact ⟨hmsg, m, rfl, hm, hdir⟩
    · rintro ⟨hmsg, m', hm', hm, hdir⟩
      cases hm'
      exact ⟨hm, hmsg, hdir, by rw [hdir]⟩

/-- **Every event keeps it.** -/
theorem Step.remembers {w w' : Watched} {e : ClientEvent} (h : w.Step e w') (hr : w.Remembers) : w'.Remembers := by
  unfold Step next at h
  cases e with
  | newConnection fd =>
    cases h
    exact hr
  | disconnect fd =>
    cases h
    exact hr
  | notify mem send msg =>
    obtain ⟨⟨manager, sent⟩, hnotify, hok⟩ := bind_eq_ok h
    cases hrep : isRepeated w.manager.lastPacket (buildNotifyPacket msg.cameraId.mid mem msg) with
    | true =>
      -- nothing is sent and the last packet stays
      rw [ClientManager.notify_repeated hrep] at hnotify
      cases hnotify
      cases hok
      exact hr
    | false =>
      obtain ⟨-, rfl, rfl⟩ := (ClientManager.notify_eq_ok_iff hrep).mp hnotify
      cases hok
      exact ⟨rfl, rfl, rfl⟩

/-- **One event.** -/
theorem onlyRepeatsWithheld_iff {w : Watched} (h : w.Remembers) (e : ClientEvent) :
    w.OnlyRepeatsWithheld e ↔ w.LooksAreRight e := by
  cases e with
  | newConnection fd => exact Iff.rfl
  | disconnect fd => exact Iff.rfl
  | notify mem send msg =>
    have hiff := isRepeated_iff h msg.cameraId.mid mem msg
    unfold OnlyRepeatsWithheld LooksAreRight
    cases hrep : isRepeated w.manager.lastPacket (buildNotifyPacket msg.cameraId.mid mem msg) with
    | true =>
      have hlooks := hiff.mp hrep
      simp [ClientManager.notify_repeated hrep, hlooks]
    | false =>
      have hlooks : ¬ w.LooksRepeated msg := by simp [← hiff, hrep]
      constructor
      · rintro ⟨manager, sent, hok, -⟩
        exact ⟨fun hl => absurd hl hlooks, fun _ => ((ClientManager.notify_eq_ok_iff hrep).mp hok).1⟩
      · rintro ⟨-, hnone⟩
        refine ⟨_, _, (ClientManager.notify_eq_ok_iff hrep).mpr ⟨hnone hlooks, rfl, rfl⟩, fun hn => ?_, ?_⟩
        · cases hn
        · intro fds hfds
          exact (Option.some.inj hfds).symm

/-- **When only repeats are withheld.** In every sequence of notifications, with clients that come and go: at
    every notification, exactly if what looks like a repeat is one, and no client is found gone. -/
theorem only_repeats_withheld_iff (events : List ClientEvent) :
    Along Step OnlyRepeatsWithheld start events ↔ Along Step LooksAreRight start events :=
  along_congr (I := Remembers) (fun _ _ _ hr hstep => hstep.remembers hr) (fun _ e hr => onlyRepeatsWithheld_iff hr e)
    rfl

/-- **Another camera, moved the same way by another keyboard, goes unnoticed.** -/
theorem other_camera_withheld : ¬ ∀ events, Along Step OnlyRepeatsWithheld start events := by
  intro h
  let up : KeyboardMessage := { KeyboardMessage.new with type := .ptz, cameraId := ⟨1, 4⟩, ptzOptType := 1 }
  have hall := h [.newConnection 3, .notify .zero (fun _ => ⟨36, 0⟩) up,
    .notify .zero (fun _ => ⟨36, 0⟩) { up with keyboardId := 1, cameraId := ⟨2, 7⟩ }]
  obtain ⟨manager, sent, hnotify, hrepeats, -⟩ := (((hall.2 _ rfl).2 _ rfl).1 :)
  cases hnotify
  obtain ⟨-, m, hm, hcamera, -⟩ := hrepeats rfl
  cases hm
  cases hcamera

end Watched

/-! ## The packet -/

/-- The decoder of clients' packets gives back what the message says, as far as its type says it. -/
def GivesBackPacket (packet : ClientPacket) (msg : KeyboardMessage) : Prop :=
  ∃ msg', ClientManager.readPacket packet = some msg' ∧ msg'.type = msg.type ∧
    msg'.keyboardId = msg.keyboardId ∧ msg'.cameraId = msg.cameraId ∧ msg'.ptzOptType = msg.ptzOptType ∧
    (msg.type = .switch ∨ msg.type = .ptz → msg'.monitorId = msg.monitorId) ∧
    (msg.type = .pin → msg'.leftUpMonitorId = msg.leftUpMonitorId ∧
      msg'.rightDownMonitorId = msg.rightDownMonitorId)

/-- **Encoder and decoder agree** about a message, whatever memory the packet is built in, and the bytes that go
    out do not depend on that memory. -/
structure CodecAgrees (msg : KeyboardMessage) : Prop where
  decodes : ∀ mem, GivesBackPacket (buildNotifyPacket msg.cameraId.mid mem msg) msg
  determined : ∀ mem mem', (buildNotifyPacket msg.cameraId.mid mem msg).bytes =
    (buildNotifyPacket msg.cameraId.mid mem' msg).bytes

/-- The last eight bytes are the memory's. -/
theorem drop_bytes (matrixId : Int) (mem : ClientPacket) (msg : KeyboardMessage) :
    (buildNotifyPacket matrixId mem msg).bytes.drop 28 = intBytes mem.lumid ++ intBytes mem.rdmid := rfl

/-- **The codec.** No message's packet is determined by it: the last two fields are what memory held. What the
    decoder gives back is right for a `PTZ`; for a `SWITCH` without a direction, which it does not read; for a
    `Pin` without one, where memory held its two monitors. -/
theorem client_codec (msg : KeyboardMessage) (htype : msg.type ≠ .unknown) :
    ¬ CodecAgrees msg ∧
    ∀ mem, GivesBackPacket (buildNotifyPacket msg.cameraId.mid mem msg) msg ↔
      msg.type = .ptz ∨ msg.ptzOptType = 0 ∧ (msg.type = .switch ∨
        mem.lumid = msg.leftUpMonitorId ∧ mem.rdmid = msg.rightDownMonitorId) := by
  constructor
  · intro h
    have hdrop := congrArg (List.drop 28) (h.determined .zero { ClientPacket.zero with lumid := 1 })
    rw [drop_bytes, drop_bytes] at hdrop
    exact absurd hdrop (by decide)
  · intro mem
    obtain ⟨type, keyboardId, cameraId, monitorId, lumid, rdmid, ptzOptType, vstep, hstep, lock⟩ := msg
    cases type with
    | unknown => exact absurd rfl htype
    | switch =>
      -- `ptz_type` is not read, `mid` is
      constructor
      · rintro ⟨msg', hread, -, -, -, hptz, -⟩
        cases hread
        exact Or.inr ⟨hptz.symm, Or.inl rfl⟩
      · rintro (hfalse | ⟨hptz, -⟩)
        · cases hfalse
        · exact ⟨_, rfl, rfl, rfl, rfl, hptz.symm, fun _ => rfl, fun hpin => by cases hpin⟩
    | ptz => exact iff_of_true ⟨_, rfl, rfl, rfl, rfl, rfl, fun _ => rfl, fun hpin => by cases hpin⟩ (Or.inl rfl)
    | pin =>
      -- both monitors are read from where nothing was written
      constructor
      · rintro ⟨msg', hread, -, -, -, hptz, -, hpin⟩
        cases hread
        exact Or.inr ⟨hptz.symm, Or.inr (hpin rfl)⟩
      · rintro (hfalse | ⟨hptz, hswitch | ⟨hlu, hrd⟩⟩)
        · cases hfalse
        · cases hswitch
        · refine ⟨_, rfl, rfl, rfl, rfl, hptz.symm, fun hother => ?_, fun _ => ⟨hlu, hrd⟩⟩
          rcases hother with hswitch | hptz'
          · cases hswitch
          · cases hptz'

theorem client_codec_of_switch : ¬ CodecAgrees { KeyboardMessage.new with type := .switch } :=
  (client_codec _ (by decide)).1

/-- A PTZ message, in two memories. -/
theorem client_codec_leaks : ¬ ∀ msg : KeyboardMessage, msg.type ≠ .unknown → CodecAgrees msg := by
  intro h
  have hagrees := h { KeyboardMessage.new with type := .ptz } (by decide)
  exact absurd (hagrees.determined .zero { ClientPacket.zero with lumid := 1 }) (by decide)

end Mcc
