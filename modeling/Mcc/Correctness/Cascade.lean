import Mcc.Correctness.Ptz
import Mcc.Correctness.Steps

/-!
# `Correctness.Cascade` — one camera, two routing cascades

`processSwitchMessage` and `processPtzMessage` each decide where a camera's matrix lies, in code of their
own. For a message that nobody stands in the way of, both should say the same: `Classified` is what, for each
`Route`.

The switch cascade ends in a rejection. The PTZ cascade ends in the `return ACCEPT` below its branches, which
a matrix no branch knows falls through to, and it keeps a context that is already stored under the id of the
request it sends.

## Contents
- **The routes.** `Route`, `route`, `Classified`, `RoutedAlike`.
- **The two cascades.** `switch_classified`, and `ptz_classified_iff` with the one condition it needs.
- **Main result.** `routed_alike_iff`.
-/

namespace Mcc

namespace ResourceManager

variable {Q : Type}

/-! ## The routes -/

/-- Where a matrix lies, seen from this one. -/
inductive Route where
  | here
  | below (matrix : MatrixInfo)
  | nowhere

/-- The way to a matrix, through the child `matchMatrix` finds. -/
def route (s : ResourceManager Q) (mid : Int) : Route :=
  if mid = s.mMatrixId then .here
  else match s.matchMatrix mid with
    | some matrix => .below matrix
    | none => .nowhere

theorem route_here {s : ResourceManager Q} {mid : Int} (h : mid = s.mMatrixId) : s.route mid = .here := by
  unfold route
  rw [if_pos h]

theorem route_below {s : ResourceManager Q} {mid : Int} {matrix : MatrixInfo} (h : mid ≠ s.mMatrixId)
    (hm : s.matchMatrix mid = some matrix) : s.route mid = .below matrix := by
  unfold route
  rw [if_neg h, hm]

theorem route_nowhere {s : ResourceManager Q} {mid : Int} (h : mid ≠ s.mMatrixId)
    (hm : s.matchMatrix mid = none) : s.route mid = .nowhere := by
  unfold route
  rw [if_neg h, hm]

/-- How a message for a camera on that route is classified: the result, the actions and the context. -/
inductive Classified (msg : KeyboardMessage) (kb : KeyboardPtr) :
    Route → ProcessResult × ResourceManager Q × List Action → Prop where
  | here {s'} : Classified msg kb .here (.accept, s', [])
  /-- one request is sent to the child, and its answer will find the message -/
  | below {matrix s'} {request : AgentRequest} :
      s'.mProcessContexts[request.mId]? = some ⟨request.mId, kb, msg⟩ →
      Classified msg kb (.below matrix) (.pending, s', [.serverSend matrix.mFd request])
  | nowhere {s'} : Classified msg kb .nowhere (.reject, s', [])

/-- An action that sends a command to a keyboard. -/
def Commands : Action → Prop
  | .sendSwitch _ _ => True
  | .sendPtz _ _ => True
  | _ => False

/-- **Both cascades classify the camera of the message alike**, and a camera that is nowhere moves nothing:
    neither as the camera of a switch nor as the last one switched, which `onPtz` puts into the message. -/
structure RoutedAlike (env : Env) (s : ResourceManager Q) (msg : KeyboardMessage) (kb : KeyboardPtr) :
    Prop where
  switch : Classified msg kb (s.route msg.cameraId.mid) (processSwitchMessage env s msg kb)
  ptz : Classified msg kb (s.route msg.cameraId.mid) (processPtzMessage env s msg kb)
  onSwitch : s.route msg.cameraId.mid = .nowhere →
    ∀ s' out, s.onSwitch env kb msg = .ok (s', out) → ∀ act ∈ out, ¬ Commands act
  onPtz : s.route msg.cameraId.mid = .nowhere → s.lastSwitchCid = msg.cameraId →
    ∀ s' out, s.onPtz env kb msg = .ok (s', out) → ∀ act ∈ out, ¬ Commands act

/-! ## Nobody in the way -/

/-- The monitor of the message exists, and no higher keyboard has it. -/
def MonitorFree (env : Env) (s : ResourceManager Q) (msg : KeyboardMessage) : Prop :=
  ∃ m, s.mMonitors.deref msg.monitorId = some m ∧ ¬ InUse env m msg.keyboardId

/-- The camera of the message exists, and its occupant is not above the keyboard, or expired. -/
def PtzYields (env : Env) (s : ResourceManager Q) (msg : KeyboardMessage) : Prop :=
  ∃ cam, s.mCameras.deref msg.cameraId.lid = some cam ∧
    Yields env cam ⟨msg.cameraId.mid, msg.keyboardId⟩

/-- The lock code of a message fits the lock: a camera can be locked if it is or if the last occupant is not
    above the user (expired or not), and unlocked only if it is locked. -/
structure LockFits (env : Env) (cam : Camera) (u : GlobalID) (lockcode : Int) : Prop where
  lock : lockcode = 1 → (unlockIfExpired env cam).mIsPtzLocked = true ∨ cam.mPtzUser.mId ≤ u
  unlock : lockcode = 2 → (unlockIfExpired env cam).mIsPtzLocked = true

/-- A camera that yields accepts whatever the lock allows. -/
theorem processLocalPtz_accept_iff {env : Env} {cam : Camera} {u : GlobalID} {optcode lockcode : Int}
    (hy : Yields env cam u) :
    (processLocalPtz env cam u optcode lockcode).1 = .accept ↔ LockFits env cam u lockcode := by
  have huser := unlockIfExpired_user env cam
  have hy' : cam.mPtzUser.mId ≤ u ∨ cam.mPtzUser.isExpired env.test = true := hy
  have hfits : LockFits env cam u lockcode ↔
      (lockcode = 1 → (unlockIfExpired env cam).mIsPtzLocked = true ∨ cam.mPtzUser.mId ≤ u) ∧
        (lockcode = 2 → (unlockIfExpired env cam).mIsPtzLocked = true) :=
    ⟨fun h => ⟨h.lock, h.unlock⟩, fun h => ⟨h.1, h.2⟩⟩
  rw [hfits]
  unfold processLocalPtz
  simp only [huser, if_pos hy']
  cases hl : (unlockIfExpired env cam).mIsPtzLocked with
  | true => simp
  | false =>
    by_cases h1 : lockcode = 1
    · by_cases hle : cam.mPtzUser.mId ≤ u
      · simp [h1, hle]
      · simp [h1, hle]
    · by_cases h2 : lockcode = 2
      · simp [h2]
      · simp [h1, h2]

/-! ## The two cascades -/

/-- **A switch is always classified by its route.** -/
theorem switch_classified {env : Env} {s : ResourceManager Q} {msg : KeyboardMessage} (kb : KeyboardPtr)
    (hmon : MonitorFree env s msg) (hcam : msg.cameraId.mid = s.mMatrixId → PtzYields env s msg) :
    Classified msg kb (s.route msg.cameraId.mid) (processSwitchMessage env s msg kb) := by
  obtain ⟨m, hm, hfree⟩ := hmon
  have hout := processSwitchMessage_outcome env s msg kb
  generalize processSwitchMessage env s msg kb = res at hout
  obtain ⟨r, s', out⟩ := res
  simp only at hout
  cases hout with
  | noMonitor hnone =>
    rw [hm] at hnone
    cases hnone
  | inUse hm' huse =>
    rw [hm] at hm'
    cases hm'
    exact absurd huse hfree
  | noCamera _ _ hloc hnone =>
    obtain ⟨cam, hc, -⟩ := hcam hloc
    rw [hc] at hnone
    cases hnone
  | taken _ _ hloc =>
    rw [route_here hloc]
    exact .here
  | noMatrix _ _ hloc hx =>
    rw [route_nowhere hloc hx]
    exact .nowhere
  | sent _ _ hloc hx =>
    rw [route_below hloc hx]
    apply Classified.below
    show (s.mProcessContexts.insert env.rand _)[env.rand]? = _
    rw [Std.ExtTreeMap.getElem?_insert_self]
    rfl

/-- What the PTZ cascade needs: a camera of this matrix whose lock the message fits, or a child that leads to
    the matrix and no other context under the id of the request. -/
inductive PtzRoutes (env : Env) (s : ResourceManager Q) (msg : KeyboardMessage) (kb : KeyboardPtr) : Prop where
  | here (hloc : msg.cameraId.mid = s.mMatrixId)
      (hfits : ∀ cam, s.mCameras.deref msg.cameraId.lid = some cam →
        LockFits env cam ⟨msg.cameraId.mid, msg.keyboardId⟩ msg.lockResource)
  | below {matrix} (hloc : msg.cameraId.mid ≠ s.mMatrixId)
      (hx : s.matchMatrix msg.cameraId.mid = some matrix)
      (hctx : ∀ context, s.mProcessContexts[env.rand]? = some context → context = ⟨env.rand, kb, msg⟩)

/-- The context the cascade leaves under the id of its request is the message's exactly if no other was there. -/
theorem stored_iff {env : Env} {s : ResourceManager Q} {msg : KeyboardMessage} {kb : KeyboardPtr} :
    (if s.mProcessContexts.contains env.rand then s
      else s.storeContext ⟨env.rand, kb, msg⟩).mProcessContexts[env.rand]? = some ⟨env.rand, kb, msg⟩ ↔
    ∀ context, s.mProcessContexts[env.rand]? = some context → context = ⟨env.rand, kb, msg⟩ := by
  cases hctx : s.mProcessContexts[env.rand]? with
  | none =>
    have hno : ¬ s.mProcessContexts.contains env.rand = true := by
      rw [Std.ExtTreeMap.contains_iff_mem]
      exact IntMap.getElem?_eq_none_iff.mp hctx
    rw [if_neg hno]
    simp [storeContext]
  | some context =>
    have hyes : s.mProcessContexts.contains env.rand = true := by
      rw [Std.ExtTreeMap.contains_iff_mem, Std.ExtTreeMap.mem_iff_isSome_getElem?, hctx]
      rfl
    rw [if_pos hyes, hctx]
    simp

/-- **A PTZ message is classified by its route exactly if** the cascade's condition holds. -/
theorem ptz_classified_iff {env : Env} {s : ResourceManager Q} {msg : KeyboardMessage} (kb : KeyboardPtr)
    (hcam : msg.cameraId.mid = s.mMatrixId → PtzYields env s msg) :
    Classified msg kb (s.route msg.cameraId.mid) (processPtzMessage env s msg kb) ↔ PtzRoutes env s msg kb := by
  have hout := processPtzMessage_outcome env s msg kb
  generalize processPtzMessage env s msg kb = res at hout
  obtain ⟨r, s', out⟩ := res
  simp only at hout
  cases hout with
  | noCamera hloc hnone =>
    obtain ⟨cam, hc, -⟩ := hcam hloc
    rw [hc] at hnone
    cases hnone
  | @processed cam cam' r hloc hc hres =>
    obtain ⟨cam₀, hc₀, hy⟩ := hcam hloc
    rw [hc] at hc₀
    cases hc₀
    have hiff := @processLocalPtz_accept_iff env cam _ msg.ptzOptType msg.lockResource hy
    rw [hres] at hiff
    rw [route_here hloc]
    constructor
    · intro h
      cases h with
      | here =>
        refine .here hloc fun cam' hc' => ?_
        rw [hc] at hc'
        cases hc'
        exact hiff.mp rfl
    · intro h
      cases h with
      | here _ hfits =>
        have haccept := hiff.mpr (hfits cam hc)
        simp only at haccept
        rw [haccept]
        exact .here
      | below hne => exact absurd hloc hne
  | noMatrix hloc hx =>
    -- the cascade falls through and accepts
    rw [route_nowhere hloc hx]
    constructor
    · intro h
      cases h
    · intro h
      cases h with
      | here hloc' => exact absurd hloc' hloc
      | below _ hx' =>
        rw [hx] at hx'
        cases hx'
  | @sent matrix hloc hx =>
    -- `insert` keeps a context that is there
    rw [route_below hloc hx]
    constructor
    · intro h
      cases h with
      | below hstored => exact .below hloc hx (stored_iff.mp hstored)
    · intro h
      cases h with
      | here hloc' => exact absurd hloc' hloc
      | below _ _ hctx => exact .below (stored_iff.mpr hctx)

/-! ## Main result -/

/-- A camera that is nowhere moves nothing as the camera of a switch. -/
theorem onSwitch_nowhere {env : Env} {s s' : ResourceManager Q} {msg : KeyboardMessage} {kb : KeyboardPtr}
    {out : List Action} (hnowhere : s.route msg.cameraId.mid = .nowhere)
    (h : s.onSwitch env kb msg = .ok (s', out)) : ∀ act ∈ out, ¬ Commands act := by
  obtain ⟨r, s₁, acts, hout, hend⟩ := onSwitch_eq h
  have hacts : r ≠ .accept ∧ ∀ act ∈ acts, ¬ Commands act := by
    cases hout with
    | noMonitor => simp
    | inUse => simp
    | noCamera => simp
    | taken _ _ hloc =>
      rw [route_here hloc] at hnowhere
      cases hnowhere
    | noMatrix => simp
    | sent => simp [Commands]
  rcases hend with ⟨hr, -⟩ | ⟨-, -, k, -, rfl⟩ | ⟨-, -, rfl⟩
  · exact absurd hr hacts.1
  · intro act hact
    rcases List.mem_append.mp hact with hin | hlast
    · exact hacts.2 act hin
    · rw [List.mem_singleton.mp hlast]
      exact id
  · exact hacts.2

/-- **When the two cascades agree**, for a message whose monitor and camera nobody stands in the way of: the
    camera is of this matrix and its lock allows what the message asks, or a child leads to its matrix and no
    other context has the id the PTZ request is given. -/
theorem routed_alike_iff {env : Env} {s : ResourceManager Q} {msg : KeyboardMessage} (kb : KeyboardPtr)
    (hmon : MonitorFree env s msg) (hcam : msg.cameraId.mid = s.mMatrixId → PtzYields env s msg) :
    RoutedAlike env s msg kb ↔ PtzRoutes env s msg kb := by
  constructor
  · exact fun h => (ptz_classified_iff kb hcam).mp h.ptz
  · intro h
    -- neither way the PTZ cascade agrees on leads nowhere
    have hsomewhere : s.route msg.cameraId.mid ≠ .nowhere := by
      cases h with
      | here hloc => simp [route_here hloc]
      | below hloc hx => simp [route_below hloc hx]
    exact ⟨switch_classified kb hmon hcam, (ptz_classified_iff kb hcam).mpr h,
      fun hnowhere _ _ => onSwitch_nowhere hnowhere, fun hnowhere => absurd hnowhere hsomewhere⟩

/-- A new manager with camera 4 and monitor 1. -/
def cascadeStart : ResourceManager (List User) := configured 0 1 1 [4] [1] [(1, 2)]

theorem routed_alike_for_camera_4 :
    RoutedAlike (Env.at 100) cascadeStart { KeyboardMessage.new with cameraId := ⟨1, 4⟩, monitorId := 1 } none :=
  (routed_alike_iff none ⟨_, rfl, by decide⟩ fun _ => ⟨_, rfl, by decide⟩).mpr
    (.here rfl fun _ _ => ⟨by simp [KeyboardMessage.new], by simp [KeyboardMessage.new]⟩)

/-- **The two cascades end differently.** Nothing leads to matrix 0, and the PTZ message for its camera 1, the
    first `__last_switch_cid`, is accepted. -/
theorem ptz_cascade_falls_through :
    ¬ ∀ (env : Env) (s : ResourceManager (List User)) (msg : KeyboardMessage) (kb : KeyboardPtr), Reachable s →
      MonitorFree env s msg → (msg.cameraId.mid = s.mMatrixId → PtzYields env s msg) →
      RoutedAlike env s msg kb := by
  intro h
  have hinit : Initial cascadeStart := configured_initial (by decide)
  have halike := h (Env.at 100) cascadeStart { KeyboardMessage.new with cameraId := ⟨0, 1⟩, monitorId := 1 } none
    hinit.reachable ⟨_, rfl, by decide⟩ fun hloc => by cases hloc
  have hroutes := (ptz_classified_iff none fun hloc => by cases hloc).mp halike.ptz
  cases hroutes with
  | here hloc => cases hloc
  | below _ hx => cases hx

end ResourceManager

end Mcc
