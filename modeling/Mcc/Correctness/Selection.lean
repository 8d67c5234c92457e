import Mcc.Correctness.Picture
import Mcc.Lib.Register

/-!
# `Correctness.Selection` — the camera a keyboard's PTZ messages go to

`onPtz` replaces the camera of a message by `__last_switch_cid`, a variable of the file: every keyboard's
accepted switch writes it, and so does every child's 2xx response to one. So the manager runs a register that
all keyboards share (`Lib.Register`), where a selection would need one for each.

## Contents
- **Accesses.** `Occurrence`: what an event is to the keyboards; the accesses a sequence of events makes.
- **The register.** `Step.lastSwitch`, `ptzTargets_eq`: PTZ messages read the shared register.
- **The main result.** `ptz_selection`, and two keyboards that cross.
-/

namespace Mcc

open Transition ResourceManager Register

/-! ## Accesses -/

/-- What a keyboard has to do with an event: its message, with the outcome of a switch, or the answer to a
    switch of it that was pending. -/
inductive Occurrence where
  | ptz (msg : KeyboardMessage)
  | switch (msg : KeyboardMessage) (result : ProcessResult)
  | answer (event : KeyboardMessage) (ok : Bool)
deriving DecidableEq

namespace Occurrence

/-- The keyboard. -/
def who : Occurrence → Int
  | ptz msg => msg.keyboardId
  | switch msg _ => msg.keyboardId
  | answer event _ => event.keyboardId

/-- A successful switch selects its camera; a PTZ message uses the selection. -/
def access : Occurrence → Option (Access Int GlobalID)
  | ptz msg => some (.read msg.keyboardId)
  | switch msg .accept => some (.write msg.keyboardId msg.cameraId)
  | switch _ _ => none
  | answer event true => some (.write event.keyboardId event.cameraId)
  | answer _ false => none

theorem who_access {o : Occurrence} {a : Access Int GlobalID} (h : o.access = some a) : a.who = o.who := by
  cases o with
  | ptz msg =>
    cases h
    rfl
  | switch msg result =>
    cases result with
    | accept =>
      cases h
      rfl
    | reject => cases h
    | pending => cases h
  | answer event ok =>
    cases ok with
    | true =>
      cases h
      rfl
    | false => cases h

end Occurrence

namespace ResourceManager

variable {Q : Type}

/-- What the event is to a keyboard, in the state it finds. -/
def occurrence (s : ResourceManager Q) (ev : Event) : Option Occurrence :=
  match ev.input with
  | .localPtz _ msg => some (.ptz msg)
  | .localSwitch kb msg => some (.switch msg (processSwitchMessage ev.env s msg kb).1)
  | .serverResponse response =>
    match s.mProcessContexts[response.mId]? with
    | none => none
    | some context =>
      if response.mTo = s.mMatrixId ∧ response.mMethod = .switch ∧ context.mKeyboard.isSome = true then
        some (.answer context.mKeyboardEvent (decide (response.mStatusCode.tdiv 100 = 2)))
      else none
  | _ => none

/-- The access the event makes. -/
def access (s : ResourceManager Q) (ev : Event) : Option (Access Int GlobalID) :=
  (s.occurrence ev).bind Occurrence.access

/-- The cameras the event's PTZ message is processed for, if it is one of keyboard `k`. -/
def ptzCamera (k : Int) (s : ResourceManager Q) (ev : Event) : List GlobalID :=
  match ev.input with
  | .localPtz _ msg => if msg.keyboardId = k then [(s.ptzTarget msg).cameraId] else []
  | _ => []

variable [PriorityQueue Q User]

/-- What a sequence of events is to the keyboards, as far as it gets. -/
def occurrences (s : ResourceManager Q) : List Event → List Occurrence
  | [] => []
  | ev :: evs => (s.occurrence ev).toList ++
      match s.step ev with
      | .ok (s', _) => occurrences s' evs
      | .error _ => []

/-- The accesses it makes. -/
def accesses (s : ResourceManager Q) (evs : List Event) : List (Access Int GlobalID) :=
  (s.occurrences evs).filterMap Occurrence.access

/-- The cameras keyboard `k`'s PTZ messages are processed for, in order. -/
def ptzTargets (k : Int) (s : ResourceManager Q) : List Event → List GlobalID
  | [] => []
  | ev :: evs => ptzCamera k s ev ++
      match s.step ev with
      | .ok (s', _) => ptzTargets k s' evs
      | .error _ => []

/-- What keyboard `k` sees of a run: its messages, with the outcomes of its switches. -/
def view (k : Int) (s : ResourceManager Q) (evs : List Event) : List Occurrence :=
  (s.occurrences evs).filter fun o => decide (o.who = k)

/-! ## The register -/

omit [PriorityQueue Q User] in
/-- A read is a PTZ message: it is processed for what the register holds. -/
theorem ptzCamera_eq (k : Int) (s : ResourceManager Q) (ev : Event) :
    ptzCamera k s ev = sharedReads k s.lastSwitchCid (s.access ev).toList := by
  obtain ⟨env, input⟩ := ev
  cases input with
  | localPtz kb msg => rfl
  | localSwitch kb msg =>
    unfold access occurrence ptzCamera
    simp only [Option.bind_some]
    cases (processSwitchMessage env s msg kb).1 with
    | accept => rfl
    | reject => rfl
    | pending => rfl
  | serverResponse response =>
    unfold access occurrence ptzCamera
    simp only
    cases s.mProcessContexts[response.mId]? with
    | none => rfl
    | some context =>
      simp only
      split
      · simp only [Option.bind_some]
        cases decide (response.mStatusCode.tdiv 100 = 2) with
        | true => rfl
        | false => rfl
      · rfl
  | clientRequest request => rfl
  | register fd request => rfl
  | disconnect fd => rfl
  | connected => rfl
  | disconnected => rfl

omit [PriorityQueue Q User] in
/-- A switch that is not accepted, at least not yet, is no access. -/
theorem access_of_not_accept {env : Env} {s : ResourceManager Q} {kb : KeyboardPtr} {msg : KeyboardMessage}
    (h : (processSwitchMessage env s msg kb).1 ≠ .accept) : s.access ⟨env, .localSwitch kb msg⟩ = none := by
  unfold access occurrence
  simp only [Option.bind_some]
  cases hres : (processSwitchMessage env s msg kb).1 with
  | accept => exact absurd hres h
  | reject => rfl
  | pending => rfl

omit [PriorityQueue Q User] in
/-- An accepted switch of a keyboard writes the register. -/
theorem onSwitch_written {env : Env} {s s' : ResourceManager Q} {kb : KeyboardPtr} {msg : KeyboardMessage}
    {out : List Action} (h : s.onSwitch env kb msg = .ok (s', out)) :
    s'.lastSwitchCid = final s.lastSwitchCid (s.access ⟨env, .localSwitch kb msg⟩).toList := by
  have hdecided := processSwitchMessage_outcome env s msg kb
  obtain ⟨r, s₁, acts, hout, hend⟩ := onSwitch_eq h
  have hsame : s₁.lastSwitchCid = s.lastSwitchCid := by cases hout <;> rfl
  have hiff : (processSwitchMessage env s msg kb).1 = .accept ↔ r = .accept := by
    rw [hout.takesLocally_iff, hdecided.takesLocally_iff]
  rcases hend with ⟨hr, rfl, -⟩ | ⟨hr, rfl, -⟩ | ⟨hr, rfl, -⟩
  · unfold access occurrence
    simp only [Option.bind_some]
    rw [hiff.mpr hr]
    rfl
  · have hnot : (processSwitchMessage env s msg kb).1 ≠ .accept := by simp [hiff, hr]
    rw [access_of_not_accept hnot, hsame]
    rfl
  · have hnot : (processSwitchMessage env s msg kb).1 ≠ .accept := by simp [hiff, hr]
    rw [access_of_not_accept hnot, hsame]
    rfl

omit [PriorityQueue Q User] in
/-- A child's response writes the register where it is a 2xx response to a `SWITCH`. -/
theorem response_written {env : Env} {s s' : ResourceManager Q} {response : AgentResponse} {out : List Action}
    (h : ResponseOutcome s response s' out) :
    s'.lastSwitchCid = final s.lastSwitchCid (s.access ⟨env, .serverResponse response⟩).toList := by
  unfold access occurrence
  simp only
  cases h with
  | unknown hnot => rw [Std.ExtTreeMap.getElem?_eq_none hnot]; rfl
  | @switched context k hcontext hto hmethod hok hk =>
    simp [hcontext, hto, hmethod, hok, hk, Occurrence.access, final]
  | @failed context k hcontext hto hmethod hok hk =>
    simp only [hcontext]
    split
    · simp [hok, Occurrence.access, final, closed]
    · rfl
  | @ptzDone context hcontext hto hmethod hok =>
    simp [hcontext, hmethod, final, closed]
  | @relayed context hcontext hto hmethod =>
    simp [hcontext, hto, final, closed]
  | @dropped context hcontext hwhy =>
    simp only [hcontext]
    split
    · rename_i hcase
      obtain ⟨-, hswitch, hsome⟩ := hcase
      rcases hwhy with ⟨-, hnone⟩ | ⟨hne, -⟩
      · rw [hnone] at hsome
        cases hsome
      · exact absurd hswitch hne
    · rfl

/-- **The variable is a register** that the accesses of all keyboards go to. -/
theorem Step.lastSwitch {s s' : ResourceManager Q} {ev : Event} {out : List Action}
    (h : Step s (ev, out) s') : s'.lastSwitchCid = final s.lastSwitchCid (s.access ev).toList := by
  obtain ⟨env, input⟩ := ev
  cases input with
  | localSwitch kb msg => exact onSwitch_written h
  | serverResponse response => exact response_written (Step.response h)
  | localPtz kb msg =>
    obtain ⟨r, acts, hout, -⟩ := onPtz_eq (show s.onPtz env kb msg = .ok (s', out) from h)
    show s'.lastSwitchCid = s.lastSwitchCid
    cases hout with
    | noCamera => rfl
    | processed => rfl
    | noMatrix => rfl
    | sent => split <;> rfl
  | clientRequest request =>
    show s'.lastSwitchCid = s.lastSwitchCid
    cases Step.clientRequest h with
    | switch _ hout => cases hout <;> rfl
    | ptz _ hout => cases hout <;> rfl
    | ignored => rfl
  | register fd reg =>
    obtain ⟨⟨children, rfl⟩, -⟩ := onRegister_eq (show s.onRegister env fd reg = .ok (s', out) from h)
    rfl
  | disconnect fd =>
    obtain ⟨rfl, -⟩ := onDisconnect_ok h
    rfl
  | connected =>
    obtain ⟨rfl, -⟩ := onClientConnected_ok h
    rfl
  | disconnected =>
    cases h
    rfl

theorem accesses_cons (s : ResourceManager Q) (ev : Event) (evs : List Event) :
    s.accesses (ev :: evs) = (s.access ev).toList ++
      match s.step ev with
      | .ok (s', _) => s'.accesses evs
      | .error _ => [] := by
  unfold accesses
  rw [occurrences, List.filterMap_append]
  congr 1
  · unfold access
    cases s.occurrence ev with
    | none => rfl
    | some o => simp [List.filterMap_cons]; cases o.access <;> rfl
  · cases s.step ev with
    | error f => rfl
    | ok r => rfl

/-- **PTZ messages read the shared register.** -/
theorem ptzTargets_eq (k : Int) {evs : List Event} :
    ∀ {s : ResourceManager Q}, ptzTargets k s evs = sharedReads k s.lastSwitchCid (s.accesses evs) := by
  induction evs with
  | nil => exact rfl
  | cons ev evs ih =>
    intro s
    rw [accesses_cons, sharedReads_append, ptzTargets, ptzCamera_eq]
    congr 1
    cases hstep : s.step ev with
    | error f => rfl
    | ok r =>
      obtain ⟨s', out⟩ := r
      show ptzTargets k s' evs = sharedReads k _ (s'.accesses evs)
      rw [ih, Step.lastSwitch hstep]

/-- A keyboard's own accesses are in what it sees. -/
theorem accesses_view (k : Int) (s : ResourceManager Q) (evs : List Event) :
    (s.accesses evs).filter (fun a => decide (a.who = k)) = (view k s evs).filterMap Occurrence.access := by
  unfold accesses view
  induction s.occurrences evs with
  | nil => rfl
  | cons o os ih =>
    cases ha : o.access with
    | none =>
      rw [List.filterMap_cons_none ha, ih, List.filter_cons]
      split
      · rw [List.filterMap_cons_none ha]
      · rfl
    | some a =>
      have hwho := Occurrence.who_access ha
      rw [List.filterMap_cons_some ha, List.filter_cons, List.filter_cons, hwho]
      split
      · rw [List.filterMap_cons_some ha, ih]
      · exact ih

/-! ## The main result -/

/-- **The camera of a keyboard's PTZ messages.** In a run from the start, keyboard `k`'s PTZ messages go to
    the cameras its own successful switches selected exactly if, at each of them, the last switch that
    succeeded, of any keyboard, selected the same camera as the last one of `k`. And two runs in which that
    is so, and which are the same to `k`, send its PTZ messages to the same cameras. -/
theorem ptz_selection {s₀ : ResourceManager Q} (h0 : Initial s₀) (k : Int) (evs : List Event) :
    (ptzTargets k s₀ evs = ownReads k ⟨0, 1⟩ (s₀.accesses evs) ↔
      ReadsOwn k ⟨0, 1⟩ ⟨0, 1⟩ (s₀.accesses evs)) ∧
    ∀ (s₁ : ResourceManager Q) (evs₁ : List Event), Initial s₁ → view k s₀ evs = view k s₁ evs₁ →
      ReadsOwn k ⟨0, 1⟩ ⟨0, 1⟩ (s₀.accesses evs) → ReadsOwn k ⟨0, 1⟩ ⟨0, 1⟩ (s₁.accesses evs₁) →
      ptzTargets k s₀ evs = ptzTargets k s₁ evs₁ := by
  constructor
  · rw [ptzTargets_eq, h0.lastSwitch]
    exact sharedReads_eq_iff k
  · intro s₁ evs₁ h1 hview hun hun₁
    rw [ptzTargets_eq, ptzTargets_eq, h0.lastSwitch, h1.lastSwitch]
    apply sharedReads_congr k _ hun hun₁
    rw [accesses_view, accesses_view, hview]

/-- A matrix with cameras 4 and 5 and monitors 1 and 2. -/
def twoCameras : ResourceManager (List User) := configured 0 1 1 [4, 5] [1, 2] [(1, 2)]

/-- Keyboard `k` switches camera `c` to monitor `m`. -/
def switchOf (k c m : Int) : Event :=
  ⟨Env.at 100, .localSwitch (some k.toNat)
    { KeyboardMessage.new with type := .switch, keyboardId := k, cameraId := ⟨1, c⟩, monitorId := m }⟩

/-- Keyboard `k` moves a camera. -/
def ptzOf (k : Int) : Event :=
  ⟨Env.at 101, .localPtz (some k.toNat) { KeyboardMessage.new with type := .ptz, keyboardId := k, ptzOptType := 1 }⟩

/-- Keyboard 1 switches before keyboard 0 does, or not at all. -/
theorem ptz_selection_of_earlier :
    ptzTargets 0 twoCameras [switchOf 0 4 1, ptzOf 0] =
      ptzTargets 0 twoCameras [switchOf 1 5 2, switchOf 0 4 1, ptzOf 0] :=
  (ptz_selection (configured_initial (by decide)) 0 _).2 twoCameras _ (configured_initial (by decide)) rfl
    ⟨fun _ => rfl, trivial⟩ ⟨fun _ => rfl, trivial⟩

/-- **Two keyboards cross.** Keyboard 0 sees the same in both runs, but in the second keyboard 1 switches
    camera 5 in between, and keyboard 0 moves that one. -/
theorem ptz_crosses :
    view 0 twoCameras [switchOf 0 4 1, ptzOf 0] =
        view 0 twoCameras [switchOf 0 4 1, switchOf 1 5 2, ptzOf 0] ∧
      ptzTargets 0 twoCameras [switchOf 0 4 1, ptzOf 0] = [⟨1, 4⟩] ∧
      ptzTargets 0 twoCameras [switchOf 0 4 1, switchOf 1 5 2, ptzOf 0] = [⟨1, 5⟩] :=
  ⟨rfl, rfl, rfl⟩

end ResourceManager

end Mcc
