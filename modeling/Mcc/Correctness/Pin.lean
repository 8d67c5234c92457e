import Mcc.Model.Frontend
import Mcc.Model.System
import Mcc.Correctness.Monitor

/-!
# `Correctness.Pin` — spliced switches and the arbiter

A `Pin` message of a client names a rectangle of monitors. The arbiter decides on its upper left corner; the
encoder of keyboard 0 then writes a command for every monitor of the rectangle (`mem_sendSwitch_pin`).
`pin_respects_arbitration` follows a packet all the way and says for which rectangles every monitor was free
to the requester and is its own afterwards.
-/

namespace Mcc

open Transition

/-! ## The rectangle -/

namespace KeyboardRC

/-- Column of a monitor id, from 1 to 6; 0 for a multiple of 256. -/
def gridCol (monitorId : Int) : ℕ :=
  if (monitorId % 256).toNat = 0 then 0 else ((monitorId % 256).toNat - 1) % 6 + 1

/-- Row of a monitor id, from 1. -/
def gridRow (monitorId : Int) : ℕ := 1 + ((monitorId % 256).toNat - 1) / 6

/-- The loop takes one row of six away at a time. -/
theorem wrapLoop_eq :
    ∀ (k col row : ℕ), col ≤ k →
      wrapLoop k col row = (if col = 0 then 0 else (col - 1) % 6 + 1, row + (col - 1) / 6) := by
  intro k
  induction k with
  | zero =>
    intro col row h
    rw [Nat.le_zero.mp h]
    rfl
  | succ k ih =>
    intro col row h
    unfold wrapLoop
    by_cases hcol : col > 6
    · rw [if_pos hcol, ih (col - 6) (row + 1) (by omega)]
      rw [if_neg (by omega), if_neg (by omega), Prod.mk.injEq]
      omega
    · rw [if_neg hcol, Prod.mk.injEq]
      by_cases hzero : col = 0
      · rw [if_pos hzero]
        omega
      · rw [if_neg hzero]
        omega

theorem gridPosition_eq (monitorId : Int) : gridPosition monitorId = (gridCol monitorId, gridRow monitorId) :=
  wrapLoop_eq _ _ 1 (le_refl _)

/-- The monitor lies in the rectangle of the message, as the wall numbers its monitors: six in a row. -/
def InRectangle (msg : KeyboardMessage) (m : Int) : Prop :=
  ∃ i j : ℕ, gridRow msg.leftUpMonitorId + i ≤ gridRow msg.rightDownMonitorId ∧
    gridCol msg.leftUpMonitorId + j ≤ gridCol msg.rightDownMonitorId ∧ m = msg.leftUpMonitorId + j + 6 * i

/-- **A `Pin` message makes the encoder switch the monitors of its rectangle**, and no others. -/
theorem mem_sendSwitch_pin {msg : KeyboardMessage} (hpin : msg.type = .pin) (m : Int) :
    (∃ c ∈ sendSwitch msg, c.monitor = m) ↔ InRectangle msg m := by
  unfold sendSwitch buildPacketFromMessage InRectangle
  simp only [hpin, gridPosition_eq]
  by_cases hinv : gridRow msg.rightDownMonitorId < gridRow msg.leftUpMonitorId ∨
      gridCol msg.rightDownMonitorId < gridCol msg.leftUpMonitorId
  · rw [if_pos hinv]
    constructor
    · rintro ⟨c, hc, -⟩
      exact absurd hc List.not_mem_nil
    · rintro ⟨i, j, hi, hj, -⟩
      omega
  · rw [if_neg hinv]
    obtain ⟨hrow, hcol⟩ := not_or.mp hinv
    simp only [Option.map_some, Option.getD_some, List.mem_flatMap, List.mem_range, List.mem_map]
    constructor
    · rintro ⟨c, ⟨i, hi, j, hj, rfl⟩, rfl⟩
      rw [switchCommand_monitor]
      exact ⟨i, j, by omega, by omega, rfl⟩
    · rintro ⟨i, j, hi, hj, rfl⟩
      exact ⟨_, ⟨i, by omega, j, by omega, rfl⟩, switchCommand_monitor _ _⟩

end KeyboardRC

/-! ## A packet's way -/

namespace ResourceManager

open KeyboardRC

variable {Q : Type} [PriorityQueue Q User]

/-- Monitor `m` has an entry, no unexpired keyboard above `k` holds it at the test of the call, and
    afterwards `k` holds it, unexpired at the last reading of the call. -/
structure TakenOver (env : Env) (s s' : ResourceManager Q) (k m : Int) : Prop where
  configured : ∃ mon, s.mMonitors.deref m = some mon
  free : ¬ HeldAbove s m k env.test
  held : Holds s' m k env.update

omit [PriorityQueue Q User] in
/-- The monitor an accepted switch was decided on is taken over. -/
theorem SwitchOutcome.takenOver {env : Env} {s s' : ResourceManager Q} {msg : KeyboardMessage}
    {kb : KeyboardPtr} {out : List Action} (h : SwitchOutcome env s msg kb .accept s' out)
    (hok : MonitorsOk s) : TakenOver env s s' msg.keyboardId msg.monitorId := by
  cases h with
  | @taken m cam hm hfree =>
    refine ⟨⟨m, hm⟩, ?_, m.replace msg.keyboardId env.update, ?_, rfl, ?_⟩
    · rintro ⟨mon, hmon, hexp, hlt⟩
      rw [hm, Option.some.injEq] at hmon
      rw [← hmon] at hexp hlt
      exact hfree ⟨hexp, hlt⟩
    · show IntMap.deref (s.mMonitors.insert msg.monitorId _) msg.monitorId = _
      rw [IntMap.deref_insert, if_pos rfl]
    · rw [Monitor.replace_mExpireTime, hok _ m hm]
      unfold defaultExpire
      omega

omit [PriorityQueue Q User] in
/-- Every other monitor is as it was. -/
theorem SwitchOutcome.others {env : Env} {s s' : ResourceManager Q} {msg : KeyboardMessage}
    {kb : KeyboardPtr} {out : List Action} (h : SwitchOutcome env s msg kb .accept s' out) {m : Int}
    (hne : m ≠ msg.monitorId) : s'.mMonitors.deref m = s.mMonitors.deref m := by
  cases h with
  | taken =>
    show IntMap.deref (s.mMonitors.insert msg.monitorId _) m = _
    rw [IntMap.deref_insert, if_neg (fun he => hne he.symm)]

omit [PriorityQueue Q User] in
/-- A switch goes out to the matrix only where the message is accepted. -/
theorem onSwitch_accepted {env : Env} {s s' : ResourceManager Q} {kb : KeyboardPtr} {msg : KeyboardMessage}
    {out : List Action} (h : s.onSwitch env kb msg = .ok (s', out)) (hacc : .sendSwitch 0 msg ∈ out) :
    ∃ s₁ acts, SwitchOutcome env s msg kb .accept s₁ acts ∧ s'.mMonitors = s₁.mMonitors := by
  obtain ⟨r, s₁, acts, hout, hend⟩ := onSwitch_eq h
  rcases hend with ⟨rfl, rfl, -⟩ | ⟨rfl, -, k, -, rfl⟩ | ⟨rfl, -, rfl⟩
  · exact ⟨s₁, acts, hout, rfl⟩
  · cases hout <;> simp at hacc
  · cases hout
    simp at hacc

/-- A `Pin` packet is read as a message about its upper left monitor. -/
theorem readPacket_pin {packet : ClientPacket} {msg : KeyboardMessage}
    (hread : ClientManager.readPacket packet = some msg) (hpin : packet.type = 3) :
    msg.type = .pin ∧ msg.monitorId = msg.leftUpMonitorId := by
  unfold ClientManager.readPacket at hread
  simp only [hpin, show ¬ ((3 : Int) = 1) by decide, show ¬ ((3 : Int) = 2) by decide, if_false, if_true,
    Option.some.injEq] at hread
  rw [← hread]
  exact ⟨rfl, rfl⟩

/-- **Spliced switches and the arbiter.** In every reachable state, let the packet of a client be a `Pin`
    message that is accepted. The monitors keyboard 0 is told to switch were all free to the requester and
    are all its own afterwards, exactly if each monitor of the rectangle is its upper left corner or is held
    by the requester already. -/
theorem pin_respects_arbitration {s s' : ResourceManager Q} {loaded : ℕ → Bool} {env : Env}
    {packet : ClientPacket} {msg : KeyboardMessage} {out : List Action} (h : Reachable s)
    (hread : ClientManager.readPacket packet = some msg) (hpin : packet.type = 3)
    (hhandle : KeyboardManager.handle loaded env s msg = .ok (s', out)) (hacc : .sendSwitch 0 msg ∈ out) :
    (∀ c ∈ KeyboardRC.sendSwitch msg, TakenOver env s s' msg.keyboardId c.monitor) ↔
      ∀ m, InRectangle msg m → m = msg.leftUpMonitorId ∨ Holds s m msg.keyboardId env.update := by
  obtain ⟨htype, hcorner⟩ := readPacket_pin hread hpin
  -- the message reaches `onSwitch`, and is accepted for its corner
  unfold KeyboardManager.handle at hhandle
  simp only [htype] at hhandle
  obtain ⟨kb, -, hswitch⟩ := bind_eq_ok hhandle
  obtain ⟨s₁, acts, hout, hmons⟩ := onSwitch_accepted hswitch hacc
  have hcornerTaken : TakenOver env s s' msg.keyboardId msg.monitorId := by
    obtain ⟨hconf, hfree, hheld⟩ := hout.takenOver h.monitorsOk
    refine ⟨hconf, hfree, ?_⟩
    unfold Holds
    rw [hmons]
    exact hheld
  have hother : ∀ m, m ≠ msg.monitorId → s'.mMonitors.deref m = s.mMonitors.deref m := by
    intro m hne
    rw [hmons]
    exact hout.others hne
  constructor
  · intro hall m hm
    obtain ⟨c, hc, rfl⟩ := (mem_sendSwitch_pin htype m).mpr hm
    by_cases hne : c.monitor = msg.monitorId
    · exact Or.inl (hne.trans hcorner)
    · right
      obtain ⟨mon, hmon, hk, hT⟩ := (hall c hc).held
      rw [hother _ hne] at hmon
      exact ⟨mon, hmon, hk, hT⟩
  · intro hall c hc
    by_cases hne : c.monitor = msg.monitorId
    · rw [hne]
      exact hcornerTaken
    · rcases hall c.monitor ((mem_sendSwitch_pin htype _).mp ⟨c, hc, rfl⟩) with heq | ⟨mon, hmon, hk, hT⟩
      · exact absurd (heq.trans hcorner.symm) hne
      · refine ⟨⟨mon, hmon⟩, ?_, mon, by rw [hother _ hne]; exact hmon, hk, hT⟩
        rintro ⟨mon', hmon', -, hlt⟩
        rw [hmon, Option.some.injEq] at hmon'
        rw [← hmon', hk] at hlt
        exact absurd hlt (lt_irrefl _)

/-- A rectangle of one monitor respects the arbiter. -/
theorem pin_respects_arbitration_of_one :
    ∃ s' : ResourceManager (List User),
      ∀ c ∈ KeyboardRC.sendSwitch { KeyboardMessage.new with
          type := .pin, keyboardId := 1, cameraId := ⟨1, 4⟩, monitorId := 1, leftUpMonitorId := 1
          rightDownMonitorId := 1 },
        TakenOver (Env.at 100) (configured 0 1 1 [4] [1, 2] [(1, 2)]) s' 1 c.monitor :=
  ⟨_, (@pin_respects_arbitration (List User) _ _ _ (fun _ => true) _ ⟨3, 1, 1, 4, 0, 0, 0, 1, 1⟩ _ _
    (configured_initial (by decide)).reachable rfl rfl rfl List.mem_cons_self).mpr (by
      rintro m ⟨i, j, hi, hj, rfl⟩
      have hi0 : 1 + i ≤ 1 := hi
      have hj0 : 1 + j ≤ 1 := hj
      left
      show (1 : Int) + j + 6 * i = 1
      omega)⟩

/-- **A spliced switch takes a monitor from its holder.** Keyboard 3 holds monitor 2; keyboard 1 splices a
    camera over monitors 1 and 2, and both are switched. -/
theorem pin_switches_held_monitor :
    ¬ ∀ (s s' : ResourceManager (List User)) (loaded : ℕ → Bool) (env : Env) (packet : ClientPacket)
        (msg : KeyboardMessage) (out : List Action), Reachable s →
        ClientManager.readPacket packet = some msg → packet.type = 3 →
        KeyboardManager.handle loaded env s msg = .ok (s', out) → .sendSwitch 0 msg ∈ out →
        ∀ c ∈ KeyboardRC.sendSwitch msg, TakenOver env s s' msg.keyboardId c.monitor := by
  intro h
  have hstart : Reachable (configured 0 1 1 [4] [1, 2] [(1, 2)] : ResourceManager (List User)) :=
    (configured_initial (by decide)).reachable
  have hrun := hstart.run (run_of_exec [⟨Env.at 100, .localSwitch (some 0)
    { KeyboardMessage.new with keyboardId := 3, cameraId := ⟨1, 4⟩, monitorId := 2 }⟩] rfl)
  have htaken := h _ _ (fun _ => true) (Env.at 101) ⟨3, 1, 1, 4, 0, 0, 0, 1, 2⟩ _ _ hrun rfl rfl rfl
    List.mem_cons_self ⟨'V', 4, 2⟩ (by decide)
  exact htaken.free ⟨⟨2, ⟨⟨0, 3⟩, .keyboard, 20, 120⟩⟩, rfl, by decide, by decide⟩

end ResourceManager

end Mcc
