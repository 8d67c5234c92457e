import Mcc.Correctness.Monitor

/-!
# `Correctness.Broadcast` — what the clients are told of

Every client keeps a picture of the wall, and `MCCClientManager::Notify` is how it learns of a switch. Two of
the three handlers that switch say so in the same breath; the third, which connects a trunk once a child has
answered, says nothing. `Step.clientsTold_iff` settles it for one event, `clients_told` for a run.

## Contents
- **Actions.** `notified`, `ClientsTold`.
- **Events.** Which of them keep the clients informed, handler by handler.
-/

namespace Mcc

open Transition

/-! ## Actions -/

/-- The monitors the `Notify`s of a handler name, in order. -/
def notified : List Action → List Int
  | [] => []
  | .notifyClients msg :: out => msg.monitorId :: notified out
  | _ :: out => notified out

/-- **The clients are told**: each `SendSwitch` is followed by exactly one `Notify`, of the monitor switched. -/
def ClientsTold : List Action → Prop
  | [] => True
  | .sendSwitch _ msg :: out => notified out = [msg.monitorId] ∧ ClientsTold out
  | _ :: out => ClientsTold out

/-- Where nothing is switched there is nothing to tell. -/
theorem clientsTold_of_no_switch {out : List Action} (h : ∀ kid msg, .sendSwitch kid msg ∉ out) :
    ClientsTold out := by
  induction out with
  | nil => trivial
  | cons act out ih =>
    have hrest := ih fun kid msg hmem => h kid msg (List.mem_cons_of_mem _ hmem)
    cases act with
    | sendSwitch kid msg => exact absurd List.mem_cons_self (h kid msg)
    | serverSend | clientSend | clientRespond | sendPtz | notifyClients | notifyKeyboard => exact hrest

/-- A switch and its `Notify`, with nothing about monitors behind them. -/
theorem clientsTold_pair {kid : ℕ} {msg msg' : KeyboardMessage} {out : List Action}
    (hname : msg'.monitorId = msg.monitorId) (hquiet : notified out = [])
    (hrest : ∀ kid msg, .sendSwitch kid msg ∉ out) :
    ClientsTold (.sendSwitch kid msg :: .notifyClients msg' :: out) := by
  -- the `Notify` is no switch itself
  refine ⟨?_, (clientsTold_of_no_switch hrest : ClientsTold out)⟩
  show msg'.monitorId :: notified out = _
  rw [hname, hquiet]

/-- A switch with nothing behind it is not told. -/
theorem not_clientsTold_alone {kid : ℕ} {msg : KeyboardMessage} : ¬ ClientsTold [.sendSwitch kid msg] := by
  rintro ⟨hnone, -⟩
  exact List.cons_ne_nil _ _ hnone.symm

/-! ## Events -/

namespace ResourceManager

variable {Q : Type}

/-- `processSwitchMessage` itself switches nothing. -/
theorem SwitchOutcome.no_switch {env : Env} {s s' : ResourceManager Q} {msg : KeyboardMessage}
    {kb : KeyboardPtr} {r : ProcessResult} {out : List Action} (h : SwitchOutcome env s msg kb r s' out) :
    ∀ kid m, .sendSwitch kid m ∉ out := by
  intro kid m hmem
  cases h <;> simp at hmem

theorem PtzMessageOutcome.no_switch {env : Env} {s s' : ResourceManager Q} {msg : KeyboardMessage}
    {kb : KeyboardPtr} {r : ProcessResult} {out : List Action} (h : PtzMessageOutcome env s msg kb r s' out) :
    ∀ kid m, .sendSwitch kid m ∉ out := by
  intro kid m hmem
  cases h <;> simp at hmem

/-- **A local switch is told.** -/
theorem onSwitch_clientsTold {env : Env} {s s' : ResourceManager Q} {kb : KeyboardPtr} {msg : KeyboardMessage}
    {out : List Action} (h : s.onSwitch env kb msg = .ok (s', out)) : ClientsTold out := by
  obtain ⟨r, s₁, acts, hout, hend⟩ := onSwitch_eq h
  rcases hend with ⟨rfl, -, rfl⟩ | ⟨-, -, k, -, rfl⟩ | ⟨-, -, rfl⟩
  · cases hout with
    | taken => exact clientsTold_pair rfl rfl (fun _ _ => List.not_mem_nil)
  · apply clientsTold_of_no_switch
    intro kid m hmem
    rcases List.mem_append.mp hmem with hmem | hmem
    · exact hout.no_switch kid m hmem
    · simp at hmem
  · exact clientsTold_of_no_switch hout.no_switch

/-- A PTZ message switches nothing. -/
theorem onPtz_clientsTold {env : Env} {s s' : ResourceManager Q} {kb : KeyboardPtr} {msg : KeyboardMessage}
    {out : List Action} (h : s.onPtz env kb msg = .ok (s', out)) : ClientsTold out := by
  obtain ⟨r, acts, hout, hend⟩ := onPtz_eq h
  apply clientsTold_of_no_switch
  intro kid m hmem
  rcases hend with ⟨-, rfl⟩ | ⟨-, k, -, rfl⟩ | ⟨-, rfl⟩
  · rcases List.mem_append.mp hmem with hmem | hmem
    · exact hout.no_switch kid m hmem
    · simp at hmem
  · rcases List.mem_append.mp hmem with hmem | hmem
    · exact hout.no_switch kid m hmem
    · simp at hmem
  · exact hout.no_switch kid m hmem

variable [PriorityQueue Q User]

/-- **A switch for the parent is told**, and nothing else a request of the parent leads to switches. -/
theorem ClientRequestOutcome.clientsTold {env : Env} {s s' : ResourceManager Q} {request : AgentRequest}
    {out : List Action} (h : ClientRequestOutcome env s request s' out) : ClientsTold out := by
  cases h with
  | switch _ hout =>
    cases hout with
    | granted => exact clientsTold_pair rfl rfl (fun _ _ => by simp)
    | busy | noCamera | noMatrix | forwarded => exact clientsTold_of_no_switch (fun _ _ => by simp)
  | ptz _ hout =>
    cases hout with
    | noCamera | accepted | refused | noMatrix => exact clientsTold_of_no_switch (fun _ _ => by simp)
  | ignored => trivial

omit [PriorityQueue Q User] in
/-- **A switch for a response is never told**: the clients know of all the others. -/
theorem ResponseOutcome.clientsTold_iff {s s' : ResourceManager Q} {response : AgentResponse}
    {out : List Action} (h : ResponseOutcome s response s' out) :
    ClientsTold out ↔ ∀ context, ¬ SwitchesFor s response context := by
  by_cases hswitch : ∃ context, SwitchesFor s response context
  · obtain ⟨context, hfor⟩ := hswitch
    refine iff_of_false ?_ (fun hno => hno context hfor)
    have hmem := (h.sendSwitch_iff hfor.pending).mpr ⟨hfor, rfl, rfl⟩
    cases h with
    | switched => exact not_clientsTold_alone
    | unknown | failed | ptzDone | relayed | dropped => simp at hmem
  · refine iff_of_true ?_ (fun context hfor => hswitch ⟨context, hfor⟩)
    apply clientsTold_of_no_switch
    intro kid msg hmem
    cases h with
    | @switched context k hctx hto hmeth hok hk =>
      exact hswitch ⟨context, hctx, hto, hmeth, hok, by rw [hk]; simp⟩
    | unknown | failed | ptzDone | relayed | dropped => simp at hmem

/-- Before the event: it is no response that makes a switch. -/
def NoRemoteSwitch (s : ResourceManager Q) (l : Event × List Action) (_ : ResourceManager Q) : Prop :=
  ∀ response context, l.1.input = .serverResponse response → ¬ SwitchesFor s response context

/-- **One event.** -/
theorem Step.clientsTold_iff {s s' : ResourceManager Q} {l : Event × List Action} (h : Step s l s') :
    ClientsTold l.2 ↔ NoRemoteSwitch s l s' := by
  obtain ⟨⟨env, input⟩, out⟩ := l
  cases input with
  | serverResponse response =>
    refine h.response.clientsTold_iff.trans ⟨?_, fun hno context => hno response context rfl⟩
    rintro hno _ context ⟨⟩
    exact hno context
  | localSwitch kb msg => exact iff_of_true (onSwitch_clientsTold h) (fun _ _ hin => by cases hin)
  | localPtz kb msg => exact iff_of_true (onPtz_clientsTold h) (fun _ _ hin => by cases hin)
  | clientRequest request => exact iff_of_true (Step.clientRequest h).clientsTold (fun _ _ hin => by cases hin)
  | register fd request =>
    refine iff_of_true ?_ (fun _ _ hin => by cases hin)
    rcases (onRegister_eq h).2 with rfl | ⟨request, rfl⟩
    · trivial
    · trivial
  | disconnect fd =>
    obtain ⟨-, rfl⟩ := onDisconnect_ok h
    exact iff_of_true trivial (fun _ _ hin => by cases hin)
  | connected =>
    obtain ⟨-, request, rfl⟩ := onClientConnected_ok h
    exact iff_of_true trivial (fun _ _ hin => by cases hin)
  | disconnected =>
    cases h
    exact iff_of_true trivial (fun _ _ hin => by cases hin)

/-- **Clients are told of every switch**, in a run of any events, exactly if no response makes one. -/
theorem clients_told {s₀ s : ResourceManager Q} {ls : List (Event × List Action)} :
    RunOf Step (fun _ l _ => ClientsTold l.2) s₀ ls s ↔ RunOf Step NoRemoteSwitch s₀ ls s :=
  runOf_congr fun _ _ _ hst => hst.clientsTold_iff

/-- Keyboard 0 asks matrix 2 for a camera on monitor 1; the child answers, the trunk is switched to the
    monitor, and no client hears of it. -/
theorem clients_not_told :
    ¬ ∀ (s₀ s : ResourceManager (List User)) (ls : List (Event × List Action)), Initial s₀ →
      Run Step s₀ ls s → RunOf Step (fun _ l _ => ClientsTold l.2) s₀ ls s := by
  intro h
  let start : ResourceManager (List User) := configured 0 1 1 [4] [1] [(1, 2)]
  have htold := h start _ _ (configured_initial (by decide)) (run_of_exec
    [⟨Env.at 100, .register 3 ⟨0, 2, 1, .request, .register, 0, fun i => if i = 0 then 60 else 0⟩⟩,
     ⟨Env.at 100, .localSwitch (some 0)
       { KeyboardMessage.new with keyboardId := 0, cameraId := ⟨2, 7⟩, monitorId := 1 }⟩,
     ⟨Env.at 102, .serverResponse ⟨⟨0, 2, 1, .response, .switch, 0, fun _ => 6⟩, 200, "Ok"⟩⟩] rfl)
  -- the response is the last step
  obtain - | ⟨-, htold⟩ := htold
  obtain - | ⟨-, htold⟩ := htold
  obtain - | ⟨⟨-, hlast⟩, -⟩ := htold
  exact not_clientsTold_alone hlast

end ResourceManager

end Mcc
