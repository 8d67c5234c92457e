import Mcc.Correctness.RcPort
import Mcc.Correctness.TextLength

/-!
# `Correctness.RcBounds` — which rectangles the command buffer holds

A `Pin` is printed into 1024 bytes, twelve for each monitor of its rectangle, however many these are. The command
of the last monitor ends last (`fits_iff`), so it decides: `pin_printsInside_iff`. Up to 83 monitors fit
whatever is printed, 85 never do, and the rectangle is the client's choice.

## Contents
- **The last command.** `pinCommands_eq_append`.
- **The condition.** `pin_printsInside_iff`, and a rectangle that does not fit.
-/

namespace Mcc

namespace KeyboardRC

open Xml

variable {buf : PortBuffer} {msg : KeyboardMessage}

/-! ## The last command -/

/-- The corners of the rectangle are the wrong way round, and nothing is printed. -/
def Inverted (msg : KeyboardMessage) : Prop :=
  gridRow msg.rightDownMonitorId < gridRow msg.leftUpMonitorId ∨
    gridCol msg.rightDownMonitorId < gridCol msg.leftUpMonitorId

instance (msg : KeyboardMessage) : Decidable (Inverted msg) := inferInstanceAs (Decidable (_ ∨ _))

/-- The monitors of the rectangle. -/
def rectangleSize (msg : KeyboardMessage) : ℕ :=
  (gridRow msg.rightDownMonitorId - gridRow msg.leftUpMonitorId + 1) *
    (gridCol msg.rightDownMonitorId - gridCol msg.leftUpMonitorId + 1)

/-- The number printed last. -/
def lastMonitor (msg : KeyboardMessage) : Int :=
  msg.leftUpMonitorId + (gridCol msg.rightDownMonitorId - gridCol msg.leftUpMonitorId : ℕ) +
    6 * (gridRow msg.rightDownMonitorId - gridRow msg.leftUpMonitorId : ℕ)

/-- What the two numbers of the last command take. -/
def lastWidths (msg : KeyboardMessage) : ℕ :=
  max 2 (width (switchCommand msg.cameraId.lid (lastMonitor msg)).input) + max 2 (width (lastMonitor msg))

/-- **Nothing is printed beyond the buffer**, and no number on the way overflows. -/
structure PrintsInside (buf : PortBuffer) (msg : KeyboardMessage) : Prop where
  ints : ∀ m, InRectangle msg m → IsInt m
  fits : ∃ r, buildPacketInto buf msg = .ok r

/-- Two nested loops end with the last round of both. -/
theorem flatMap_range_succ {α : Type} (f : ℕ → ℕ → α) (r c : ℕ) :
    ∃ l, ((List.range (r + 1)).flatMap fun i => (List.range (c + 1)).map (f i)) = l ++ [f r c] := by
  rw [@List.range_succ r, List.flatMap_append, List.flatMap_singleton, @List.range_succ c, List.map_append,
    List.map_singleton, ← List.append_assoc]
  exact ⟨_, rfl⟩

theorem pinCommands_eq_append (msg : KeyboardMessage) :
    ∃ cmds, pinCommands msg = cmds ++ [cString (commandText msg (lastMonitor msg))] :=
  flatMap_range_succ _ _ _

theorem lastMonitor_mem (h : ¬ Inverted msg) : InRectangle msg (lastMonitor msg) := by
  unfold Inverted at h
  exact ⟨_, _, by omega, by omega, rfl⟩

/-- No monitor of the rectangle is beyond the last. -/
theorem InRectangle.isInt {m : Int} (h : InRectangle msg m) (hfirst : IsInt msg.leftUpMonitorId)
    (hlast : IsInt (lastMonitor msg)) : IsInt m := by
  obtain ⟨i, j, hi, hj, rfl⟩ := h
  unfold lastMonitor at hlast
  unfold IsInt at hfirst hlast ⊢
  omega

theorem mem_pinCommands {l : List Byte} (hcorners : ¬ Inverted msg) (h : l ∈ pinCommands msg) :
    ∃ m, InRectangle msg m ∧ l = cString (commandText msg m) := by
  unfold Inverted at hcorners
  unfold pinCommands at h
  simp only [List.mem_flatMap, List.mem_map, List.mem_range] at h
  obtain ⟨i, hi, j, hj, rfl⟩ := h
  exact ⟨_, ⟨i, j, by omega, by omega, rfl⟩, rfl⟩

theorem length_cString_commandText (msg : KeyboardMessage) (m : Int) : (cString (commandText msg m)).length =
    9 + max 2 (width (switchCommand msg.cameraId.lid m).input) + max 2 (width m) := by
  unfold commandText
  rw [length_cString, length_text, switchCommand_monitor]
  omega

theorem switchCommand_input (cam m m' : Int) : (switchCommand cam m).input = (switchCommand cam m').input := by
  unfold switchCommand
  split_ifs <;> rfl

/-! ## The condition -/

/-- The commands fit exactly if the last one does: no number is wider than eleven, so what the others have beyond
their twelve bytes ends before it. -/
theorem fits_iff (hcorners : ¬ Inverted msg) (hints : ∀ m, InRectangle msg m → IsInt m) :
    (∀ k l, (pinCommands msg)[k]? = some l → 6 + 12 * k + l.length ≤ 1024) ↔
      12 * rectangleSize msg + lastWidths msg ≤ 1021 := by
  obtain ⟨cmds, hcmds⟩ := pinCommands_eq_append msg
  have hsize : rectangleSize msg = cmds.length + 1 := by
    have hlength := congrArg List.length hcmds
    rw [length_pinCommands, List.length_append, List.length_singleton] at hlength
    exact hlength
  have hlast := length_cString_commandText msg (lastMonitor msg)
  unfold lastWidths
  constructor
  · intro h
    have hend := h cmds.length _ (by rw [hcmds]; exact List.getElem?_concat_length)
    omega
  · intro h k l hl
    obtain ⟨m, hm, rfl⟩ := mem_pinCommands hcorners (List.mem_of_getElem? hl)
    have hwidth := width_int (hints m hm)
    have hlength := length_cString_commandText msg m
    rw [switchCommand_input _ m (lastMonitor msg)] at hlength
    have hk : k < cmds.length + 1 := by
      obtain ⟨hk, -⟩ := List.getElem?_eq_some_iff.mp hl
      rwa [hcmds, List.length_append, List.length_singleton] at hk
    rcases Nat.lt_succ_iff_lt_or_eq.mp hk with hk | rfl
    · omega
    · rw [hcmds, List.getElem?_concat_length, Option.some.injEq] at hl
      rw [← hl]
      omega

theorem PrintsInside.last_le (h : PrintsInside buf msg) (hpin : msg.type = .pin) (hcorners : ¬ Inverted msg) :
    12 * rectangleSize msg + lastWidths msg ≤ 1021 := by
  obtain ⟨hints, r, hr⟩ := h
  have hle := hcorners
  unfold Inverted at hle
  obtain ⟨buf₁, buf₂, -, hprint, -⟩ := (buildPacketInto_pin hpin (by omega)).mp hr
  exact (fits_iff hcorners hints).mp (Buffer.exists_storeAll_iff.mp ⟨buf₂, hprint⟩)

/-- **When a `Pin` stays inside the buffer**: nothing is printed, or the last monitor is an `int` and its command
ends inside. -/
theorem pin_printsInside_iff (buf : PortBuffer) (hpin : msg.type = .pin) (hfirst : IsInt msg.leftUpMonitorId) :
    PrintsInside buf msg ↔
      Inverted msg ∨ (IsInt (lastMonitor msg) ∧ 12 * rectangleSize msg + lastWidths msg ≤ 1021) := by
  by_cases hcorners : Inverted msg
  · refine iff_of_true ⟨?_, ?_⟩ (Or.inl hcorners)
    · rintro m ⟨i, j, hi, hj, rfl⟩
      unfold Inverted at hcorners
      omega
    · refine ⟨(0, buf), ?_⟩
      unfold buildPacketInto
      simp only [hpin, gridPosition_eq]
      exact if_pos hcorners
  · constructor
    · intro h
      exact Or.inr ⟨h.ints _ (lastMonitor_mem hcorners), h.last_le hpin hcorners⟩
    · rintro (hinverted | ⟨hlast, hfits⟩)
      · exact absurd hinverted hcorners
      · have hints (m : Int) (hm : InRectangle msg m) : IsInt m := hm.isInt hfirst hlast
        obtain ⟨buf₁, hheader⟩ := Buffer.exists_store_iff.mpr
          (show 0 + (messageHeader msg).length ≤ 1024 by rw [length_messageHeader]; decide)
        obtain ⟨buf₂, hprint⟩ := Buffer.exists_storeAll_iff.mpr ((fits_iff hcorners hints).mpr hfits)
        unfold Inverted at hcorners
        exact ⟨hints, _, (buildPacketInto_pin hpin (by omega)).mpr ⟨buf₁, buf₂, hheader, hprint, rfl⟩⟩

/-- Two monitors fit. -/
theorem pin_printsInside_of_two : PrintsInside zeroBuffer
    { KeyboardMessage.new with type := .pin, cameraId := ⟨1, 4⟩, leftUpMonitorId := 1, rightDownMonitorId := 2 } :=
  (pin_printsInside_iff zeroBuffer rfl (by decide)).mpr (Or.inr (by decide))

open ResourceManager in
/-- **The wall does not fit**: a client asks for the monitors 1 to 90, of which the first is there. -/
theorem pin_wall_overruns : ¬ ∀ (buf : PortBuffer) (s s' : ResourceManager (List User)) (loaded : ℕ → Bool) (env : Env)
    (packet : ClientPacket) (msg : KeyboardMessage) (out : List Action), Reachable s →
      ClientManager.readPacket packet = some msg → msg.type = .pin →
      (∃ mon, s.mMonitors.deref msg.leftUpMonitorId = some mon) →
      KeyboardManager.handle loaded env s msg = .ok (s', out) → .sendSwitch 0 msg ∈ out → PrintsInside buf msg := by
  intro h
  have hstart : Reachable (configured 0 1 1 [4] [1] [(1, 2)] : ResourceManager (List User)) :=
    (configured_initial (by decide)).reachable
  have hinside := h zeroBuffer _ _ (fun _ => true) (Env.at 100) ⟨3, 1, 1, 4, 0, 0, 0, 1, 90⟩ _ _ hstart rfl rfl
    ⟨_, rfl⟩ rfl List.mem_cons_self
  have hlast : 12 * 90 + lastWidths _ ≤ 1021 := hinside.last_le rfl (by decide)
  omega

end KeyboardRC

end Mcc
