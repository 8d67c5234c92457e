import Mcc.Correctness.Trunk

/-!
# `Correctness.Lookup` — the trace a rejected message leaves

The local path looks cameras and monitors up with `operator[]`, which adds a null entry for an id it does
not find; the remote path asks whether there is an entry. So a rejected message for an unknown id makes the
id known to the remote path. `rejection_trace` says which rejections leave a trace, what the remote path
then answers, and that a run that never looks up an unknown id is as it should be.
-/

namespace Mcc

open Transition

namespace ResourceManager

variable {Q : Type}

/-- Two states know the same ids, and have the same trunks and contexts. -/
structure NoTrace (s s' : ResourceManager Q) : Prop where
  cameras : ∀ k, k ∈ s'.mCameras ↔ k ∈ s.mCameras
  monitors : ∀ k, k ∈ s'.mMonitors ↔ k ∈ s.mMonitors
  trunks : s'.mTrunks = s.mTrunks
  contexts : s'.mProcessContexts = s.mProcessContexts

theorem NoTrace.refl (s : ResourceManager Q) : NoTrace s s := ⟨fun _ => Iff.rfl, fun _ => Iff.rfl, rfl, rfl⟩

/-- The switch looks up no id that has no entry: its monitor, and its camera if it gets that far. -/
structure SwitchKnown (env : Env) (s : ResourceManager Q) (msg : KeyboardMessage) : Prop where
  monitor : msg.monitorId ∈ s.mMonitors
  camera : ∀ m, s.mMonitors.deref msg.monitorId = some m → ¬ InUse env m msg.keyboardId →
    msg.cameraId.mid = s.mMatrixId → msg.cameraId.lid ∈ s.mCameras

/-- The PTZ message looks up no camera that has no entry. -/
def PtzKnown (s : ResourceManager Q) (msg : KeyboardMessage) : Prop :=
  msg.cameraId.mid = s.mMatrixId → msg.cameraId.lid ∈ s.mCameras

/-- A look-up keeps the keys exactly if its key is there. -/
theorem keys_touch_iff {V : Type} {m : IntMap (Option V)} {k : Int} :
    (∀ j, j ∈ m.touch k ↔ j ∈ m) ↔ k ∈ m := by
  constructor
  · intro h
    exact (h k).mp (IntMap.mem_touch.mpr (Or.inl rfl))
  · intro hk j
    rw [IntMap.touch_of_mem hk]

/-- **Rejected switches**: which of them leave no trace. -/
theorem SwitchOutcome.noTrace_iff {env : Env} {s s' : ResourceManager Q} {msg : KeyboardMessage}
    {kb : KeyboardPtr} {out : List Action} (h : SwitchOutcome env s msg kb .reject s' out) :
    NoTrace s s' ↔ SwitchKnown env s msg := by
  cases h with
  | noMonitor hnone =>
    constructor
    · intro hno
      refine ⟨keys_touch_iff.mp hno.monitors, ?_⟩
      intro m hm
      rw [hnone] at hm
      cases hm
    · intro hknown
      exact ⟨fun _ => Iff.rfl, keys_touch_iff.mpr hknown.monitor, rfl, rfl⟩
  | inUse hm huse =>
    refine ⟨fun _ => ⟨IntMap.mem_of_deref hm, ?_⟩, fun _ => .refl s⟩
    intro m' hm' hfree
    rw [hm, Option.some.injEq] at hm'
    exact absurd (hm' ▸ huse) hfree
  | noCamera hm hfree hloc hnone =>
    constructor
    · intro hno
      exact ⟨IntMap.mem_of_deref hm, fun _ _ _ _ => keys_touch_iff.mp hno.cameras⟩
    · intro hknown
      exact ⟨keys_touch_iff.mpr (hknown.camera _ hm hfree hloc), fun _ => Iff.rfl, rfl, rfl⟩
  | noMatrix hm hfree hfar =>
    refine ⟨fun _ => ⟨IntMap.mem_of_deref hm, ?_⟩, fun _ => .refl s⟩
    intro m' _ _ hloc
    exact absurd hloc hfar

/-- A camera that has an entry keeps it, and no other gets one, when the entry is written. -/
theorem keys_insert {V : Type} {m : IntMap V} {k : Int} {v : V} (hk : k ∈ m) (j : Int) :
    j ∈ m.insert k v ↔ j ∈ m := by
  rw [Std.ExtTreeMap.mem_insert, Std.LawfulEqCmp.compare_eq_iff_eq]
  constructor
  · rintro (rfl | hj)
    · exact hk
    · exact hj
  · exact Or.inr

/-- **Rejected PTZ messages**: which of them leave no trace. -/
theorem PtzMessageOutcome.noTrace_iff {env : Env} {s s' : ResourceManager Q} {msg : KeyboardMessage}
    {kb : KeyboardPtr} {out : List Action} (h : PtzMessageOutcome env s msg kb .reject s' out) :
    NoTrace s s' ↔ PtzKnown s msg := by
  cases h with
  | noCamera hloc hnone =>
    constructor
    · intro hno _
      exact keys_touch_iff.mp hno.cameras
    · intro hknown
      exact ⟨keys_touch_iff.mpr (hknown hloc), fun _ => Iff.rfl, rfl, rfl⟩
  | processed hloc hcam _ =>
    have hmem := IntMap.mem_of_deref hcam
    exact ⟨fun _ _ => hmem, fun _ => ⟨keys_insert hmem, fun _ => Iff.rfl, rfl, rfl⟩⟩

/-! ## What the remote path answers -/

section Reachable

variable [PriorityQueue Q User]

/-- A parent's `SWITCH` or `PTZ` for camera `c` of this matrix is answered 404, and nothing is switched or
    moved. -/
def Answers404 (s : ResourceManager Q) (c : Int) : Prop :=
  ∀ env request, AgentMessage.mTo request = s.mMatrixId → request.mContent.swiCameraid = c →
    request.mMethod = .switch ∨ request.mMethod = .ptz →
    ∃ s' out, Step s (⟨env, .clientRequest request⟩, out) s' ∧
      (∃ response, .clientRespond response ∈ out ∧ response.mStatusCode = 404) ∧
      ∀ kid msg, .sendSwitch kid msg ∉ out ∧ .sendPtz kid msg ∉ out

/-- An id without an entry is answered 404. -/
theorem answers404_of_not_mem {s : ResourceManager Q} {c : Int} (hne : s.mTrunks ≠ []) (hc : c ∉ s.mCameras) :
    Answers404 s c := by
  rintro env request hto rfl (hmeth | hmeth)
  · obtain ⟨s', out, hstep⟩ := switch_step_ok env hne hmeth (fun hfar => absurd hto hfar)
    refine ⟨s', out, hstep, ?_⟩
    cases hstep.request hmeth with
    | busy => exact ⟨⟨_, List.mem_cons_self, rfl⟩, by simp⟩
    | granted _ _ _ hcam => exact absurd hcam hc
    | noCamera => exact ⟨⟨_, List.mem_cons_self, rfl⟩, by simp⟩
    | noMatrix _ _ hfar => exact absurd hto hfar
    | forwarded _ _ hfar => exact absurd hto hfar
  · have hnone : s.mCameras[request.mContent.ptzCameraid]? = none := IntMap.getElem?_eq_none_iff.mpr hc
    refine ⟨s, [.clientRespond (request.ptzAnswer env 404 "Ptz Not Found")], ?_,
      ⟨_, List.mem_cons_self, rfl⟩, by simp⟩
    unfold Step ResourceManager.step
    simp only [onClientRxRequest, hmeth, onClientRxPtz, if_pos hto, hnone]
    rfl

/-- An id with an entry is not: a PTZ request moves the camera, is answered 400, or faults. -/
theorem not_answers404_of_mem {s : ResourceManager Q} {c : Int} (hc : c ∈ s.mCameras) : ¬ Answers404 s c := by
  intro h
  obtain ⟨s', out, hstep, ⟨response, hmem, hcode⟩, -⟩ :=
    h (Env.at 0) ⟨0, 0, s.mMatrixId, .request, .ptz, 0, fun _ => c⟩ rfl rfl (Or.inr rfl)
  have hout : ClientPtzOutcome (Env.at 0) s ⟨0, 0, s.mMatrixId, .request, .ptz, 0, fun _ => c⟩ s' out :=
    onClientRxPtz_outcome hstep
  cases hout with
  | noCamera _ hnot => exact absurd hc hnot
  | accepted =>
    simp only [List.mem_cons, Action.clientRespond.injEq, reduceCtorEq, List.not_mem_nil, or_false] at hmem
    rw [hmem] at hcode
    exact absurd (show (200 : Int) = 404 from hcode) (by decide)
  | refused =>
    simp only [List.mem_cons, Action.clientRespond.injEq, List.not_mem_nil, or_false] at hmem
    rw [hmem] at hcode
    exact absurd (show (400 : Int) = 404 from hcode) (by decide)
  | noMatrix hfar => exact absurd rfl hfar

/-! ## Runs -/

/-- A step that looks up no id without an entry. -/
def LooksUpKnown (s : ResourceManager Q) (l : Event × List Action) (_ : ResourceManager Q) : Prop :=
  (∀ kb msg, l.1.input = .localSwitch kb msg → SwitchKnown l.1.env s msg) ∧
  (∀ kb msg, l.1.input = .localPtz kb msg → PtzKnown s (s.ptzTarget msg))

/-- **Such a step makes no camera known.** -/
theorem Step.cameras_of_known {s s' : ResourceManager Q} {l : Event × List Action} (h : Step s l s')
    (hknown : LooksUpKnown s l s') : ∀ k, k ∈ s'.mCameras → k ∈ s.mCameras := by
  rcases h.cases with ⟨kb, msg, hin, hs⟩ | ⟨kb, msg, hin, hs⟩ | ⟨r, -, -, hs⟩ | ⟨r, -, -, hs⟩ | hs
  · obtain ⟨r, s₁, acts, hout, hend⟩ := onSwitch_eq hs
    have hcams : ∀ k, k ∈ s₁.mCameras → k ∈ s.mCameras := by
      cases hout with
      | noMonitor => exact fun _ hk => hk
      | inUse => exact fun _ hk => hk
      | noCamera hm hfree hloc =>
        -- the one look-up that inserts, of a camera that is known
        intro k hk
        rcases IntMap.mem_touch.mp hk with rfl | hk
        · exact (hknown.1 kb msg hin).camera _ hm hfree hloc
        · exact hk
      | taken => exact fun _ hk => hk
      | noMatrix => exact fun _ hk => hk
      | sent => exact fun _ hk => hk
    rcases hend with ⟨-, rfl, -⟩ | ⟨-, rfl, -⟩ | ⟨-, rfl, -⟩
    · exact hcams
    · exact hcams
    · exact hcams
  · obtain ⟨_, _, hout, -⟩ := onPtz_eq hs
    cases hout with
    | noCamera hloc =>
      intro k hk
      rcases IntMap.mem_touch.mp hk with rfl | hk
      · exact hknown.2 kb msg hin hloc
      · exact hk
    -- a camera is stored where it was found
    | processed _ hcam => exact fun k hk => (keys_insert (IntMap.mem_of_deref hcam) k).mp hk
    | noMatrix => exact fun _ hk => hk
    | sent =>
      split
      · exact fun _ hk => hk
      · exact fun _ hk => hk
  · generalize l.2 = out at hs
    cases hs with
    | busy => exact fun _ hk => hk
    | granted => exact fun _ hk => hk
    | noCamera => exact fun _ hk => hk
    | noMatrix => exact fun _ hk => hk
    | forwarded => exact fun _ hk => hk
  · generalize l.2 = out at hs
    cases hs with
    | noCamera => exact fun _ hk => hk
    | accepted _ hcam =>
      exact fun k hk => (keys_insert (Std.ExtTreeMap.mem_iff_isSome_getElem?.mpr (by rw [hcam]; rfl)) k).mp hk
    | refused _ hcam =>
      exact fun k hk => (keys_insert (Std.ExtTreeMap.mem_iff_isSome_getElem?.mpr (by rw [hcam]; rfl)) k).mp hk
    | noMatrix => exact fun _ hk => hk
  · rw [hs.cameras]
    exact fun _ hk => hk

/-- **Rejections and their trace.** In every reachable state a rejected message leaves no trace exactly if it
    looks up no id without an entry, and the remote path answers 404 for an id exactly if it has no entry.
    A run from a configured manager that looks up no id without an entry gives the configured ids alone
    entries, so the remote path answers 404 for every other one. -/
theorem rejection_trace {s₀ s : ResourceManager Q} {ls : List (Event × List Action)} (h0 : Initial s₀)
    (hrun : Run Step s₀ ls s) :
    (∀ env msg kb, (processSwitchMessage env s msg kb).1 = .reject →
      (NoTrace s (processSwitchMessage env s msg kb).2.1 ↔ SwitchKnown env s msg)) ∧
    (∀ env msg kb, (processPtzMessage env s msg kb).1 = .reject →
      (NoTrace s (processPtzMessage env s msg kb).2.1 ↔ PtzKnown s msg)) ∧
    (∀ c, Answers404 s c ↔ c ∉ s.mCameras) ∧
    (RunOf Step LooksUpKnown s₀ ls s → ∀ c, c ∉ s₀.mCameras → Answers404 s c) := by
  have hne : s.mTrunks ≠ [] := Reachable.some_trunk ⟨s₀, ls, h0, hrun⟩
  have h404 : ∀ c, Answers404 s c ↔ c ∉ s.mCameras := fun c =>
    ⟨fun h hc => not_answers404_of_mem hc h, answers404_of_not_mem hne⟩
  refine ⟨?_, ?_, h404, ?_⟩
  · intro env msg kb hr
    have hout := processSwitchMessage_outcome env s msg kb
    rw [hr] at hout
    exact hout.noTrace_iff
  · intro env msg kb hr
    have hout := processPtzMessage_outcome env s msg kb
    rw [hr] at hout
    exact hout.noTrace_iff
  · intro hof c hc
    have hkeys : ∀ k, k ∈ s.mCameras → k ∈ s₀.mCameras :=
      hof.invariant (I := fun s => ∀ k, k ∈ s.mCameras → k ∈ s₀.mCameras)
        (fun _ _ _ hi hst hknown k hk => hi k (hst.cameras_of_known hknown k hk)) (fun _ hk => hk)
    exact (h404 c).mpr fun hmem => hc (hkeys c hmem)

/-- Camera 4 is switched to monitor 1; a request for camera 99 is still answered 404. -/
theorem rejection_trace_of_99 :
    ∃ s : ResourceManager (List User), s.mMonitors[(1 : Int)]? = some (some ⟨1, ⟨⟨0, 5⟩, .keyboard, 20, 120⟩⟩) ∧
      Answers404 s 99 :=
  ⟨_, rfl, (rejection_trace (configured_initial (by decide)) (run_of_exec (s := configured 0 1 1 [4] [1] [(1, 2)])
      [⟨Env.at 100, .localSwitch (some 0)
        { KeyboardMessage.new with keyboardId := 5, cameraId := ⟨1, 4⟩, monitorId := 1 }⟩] rfl)).2.2.2
    (.single ⟨step_of_eq rfl, fun _ _ hin => by cases hin; exact ⟨by decide, fun _ _ _ _ => by decide⟩,
      fun _ _ hin => by cases hin⟩) 99 (by decide)⟩

/-- **A rejected switch makes its camera known.** Keyboard 5 asks for camera 99, which is not configured, and
    is rejected; a parent's `SWITCH` for camera 99 is then answered 200. -/
theorem rejected_switch_leaves_trace :
    (¬ ∀ (s : ResourceManager (List User)) (env : Env) (msg : KeyboardMessage) (kb : KeyboardPtr), Reachable s →
        (processSwitchMessage env s msg kb).1 = .reject → NoTrace s (processSwitchMessage env s msg kb).2.1) ∧
    ¬ ∀ (s₀ s : ResourceManager (List User)) (ls : List (Event × List Action)) (c : Int), Initial s₀ →
        Run Step s₀ ls s → c ∉ s₀.mCameras → Answers404 s c := by
  have hinit : Initial (configured 0 1 1 [4] [1] [(1, 2)] : ResourceManager (List User)) :=
    configured_initial (by decide)
  constructor
  · intro h
    have hno := h _ (Env.at 100) { KeyboardMessage.new with keyboardId := 5, cameraId := ⟨1, 99⟩, monitorId := 1 }
      (some 0) hinit.reachable rfl
    exact absurd ((hno.cameras 99).mp (by decide)) (by decide)
  · intro h
    have hans := h _ _ _ 99 hinit (run_of_exec [⟨Env.at 100, .localSwitch (some 0)
      { KeyboardMessage.new with keyboardId := 5, cameraId := ⟨1, 99⟩, monitorId := 1 }⟩] rfl) (by decide)
    exact not_answers404_of_mem (by decide) hans

end Reachable

end ResourceManager

end Mcc
