import Mcc.Correctness.Picture
import Mcc.Correctness.Ptz
import Mcc.Model.Frontend

/-!
# `Correctness.Dispatch` — the keyboard a client's packet names

A client's packet names the keyboard it speaks for, and the keyboard manager's thread takes the number as an
index. Nothing on the way asks whether it is one: `getKeyboard` reads the array wherever the number points,
and a rejection is told to the keyboard whether or not one is loaded in that slot.

## Contents
- **Rejections.** `SwitchRejected`, `PtzRejected`: what makes a rejection, said of the state before.
- **One event.** `Step.notified`, `Step.keyboards`: only keyboards named by the event or by a context are told.
- **The thread.** `ThreadEvent`, `Safe` and `NamesKeyboard`; `client_packets_safe`.
-/

namespace Mcc

open Transition ResourceManager

namespace ResourceManager

variable {Q : Type}

/-! ## Rejections -/

/-- The switch is neither taken here nor sent to a child. -/
def SwitchRejected (env : Env) (s : ResourceManager Q) (msg : KeyboardMessage) : Prop :=
  ¬ TakesLocally env s msg ∧ ¬ SwitchForwards env s msg

theorem SwitchOutcome.rejected_iff {env : Env} {s s' : ResourceManager Q} {msg : KeyboardMessage}
    {kb : KeyboardPtr} {r : ProcessResult} {out : List Action} (h : SwitchOutcome env s msg kb r s' out) :
    r = .reject ↔ SwitchRejected env s msg := by
  have hpending : r = .pending ↔ SwitchForwards env s msg := by
    rcases h.pending with ⟨hnot, -, hnone⟩ | ⟨hforwards, ⟨fd, hone⟩, -⟩
    · refine iff_of_false ?_ hnot
      rintro rfl
      cases h with
      | sent => cases hnone
    · refine iff_of_true ?_ hforwards
      cases h with
      | sent => rfl
      | noMonitor => cases hone
      | inUse => cases hone
      | noCamera => cases hone
      | taken => cases hone
      | noMatrix => cases hone
  unfold SwitchRejected
  rw [← h.takesLocally_iff, ← hpending]
  cases r with
  | accept => simp
  | reject => simp
  | pending => simp

/-- The last camera switched is one of this matrix, and it is unknown or its occupant is in the way. -/
def PtzRejected (env : Env) (s : ResourceManager Q) (msg : KeyboardMessage) : Prop :=
  s.lastSwitchCid.mid = s.mMatrixId ∧ ∀ cam, s.mCameras.deref s.lastSwitchCid.lid = some cam →
    ¬ Yields env cam ⟨s.lastSwitchCid.mid, msg.keyboardId⟩

/-- Without a lock code a camera rejects the users that do not get past its occupant. -/
theorem processLocalPtz_reject_iff {env : Env} {cam cam' : Camera} {u : GlobalID} {optcode : Int}
    {r : ProcessResult} (h : processLocalPtz env cam u optcode 0 = (r, cam')) :
    r = .reject ↔ ¬ Yields env cam u := by
  have huser : Yields env (unlockIfExpired env cam) u ↔ Yields env cam u := by
    unfold Yields
    rw [unlockIfExpired_user]
  rw [← huser]
  unfold processLocalPtz at h
  generalize unlockIfExpired env cam = head at h ⊢
  have h1 : ¬ (0 : Int) = 1 := by decide
  have h2 : ¬ (0 : Int) = 2 := by decide
  simp only [if_neg h1, if_neg h2] at h
  by_cases hy : head.mPtzUser.mId ≤ u ∨ head.mPtzUser.isExpired env.test = true
  · refine iff_of_false ?_ (not_not.mpr hy)
    rintro rfl
    simp only [if_pos hy] at h
    split at h
    · cases h
    · cases h
  · refine iff_of_true ?_ hy
    simp only [if_neg hy] at h
    split at h
    · cases h
      rfl
    · cases h
      rfl

theorem PtzMessageOutcome.rejected_iff {env : Env} {s s' : ResourceManager Q} {msg : KeyboardMessage}
    {kb : KeyboardPtr} {r : ProcessResult} {out : List Action} (hlock : msg.lockResource = 0)
    (h : PtzMessageOutcome env s (s.ptzTarget msg) kb r s' out) :
    r = .reject ↔ PtzRejected env s msg := by
  cases h with
  | noCamera hmid hnone =>
    refine iff_of_true rfl ⟨hmid, ?_⟩
    intro cam hcam
    rw [show s.mCameras.deref s.lastSwitchCid.lid = none from hnone] at hcam
    cases hcam
  | @processed cam cam' r hmid hcam hprocess =>
    have hprocess' : processLocalPtz env cam ⟨s.lastSwitchCid.mid, msg.keyboardId⟩ msg.ptzOptType 0 =
        (r, cam') := by
      rw [← hlock]
      exact hprocess
    rw [processLocalPtz_reject_iff hprocess']
    constructor
    · intro hnot
      refine ⟨hmid, ?_⟩
      intro cam₂ hcam₂
      rw [show s.mCameras.deref s.lastSwitchCid.lid = some cam from hcam, Option.some.injEq] at hcam₂
      rw [← hcam₂]
      exact hnot
    · rintro ⟨-, hall⟩
      exact hall cam hcam
  | noMatrix hmid => exact iff_of_false (by rintro ⟨⟩) fun h => hmid h.1
  | sent hmid => exact iff_of_false (by rintro ⟨⟩) fun h => hmid h.1

/-! ## One event -/

/-- The keyboards that wait for a response are loaded. -/
def KeyboardsLoaded (loaded : ℕ → Bool) (s : ResourceManager Q) : Prop :=
  ∀ (id : Int) context k, s.mProcessContexts[id]? = some context → context.mKeyboard = some k → loaded k = true

/-- The keyboards that are told something are loaded. -/
def NotifiesLoaded (loaded : ℕ → Bool) (out : List Action) : Prop :=
  ∀ kb msg statuscode reason, Action.notifyKeyboard kb msg statuscode reason ∈ out → loaded kb = true

/-- The keyboard an event comes with is loaded, if it comes with one. -/
def NamesLoaded (loaded : ℕ → Bool) : Input → Prop
  | .localSwitch kb _ => ∀ k, kb = some k → loaded k = true
  | .localPtz kb _ => ∀ k, kb = some k → loaded k = true
  | _ => True

theorem notifiesLoaded_of_none {loaded : ℕ → Bool} {out : List Action}
    (h : ∀ kb msg statuscode reason, .notifyKeyboard kb msg statuscode reason ∉ out) :
    NotifiesLoaded loaded out :=
  fun kb msg statuscode reason hmem => absurd hmem (h kb msg statuscode reason)

/-- A rejection is all a keyboard is told about its own message. -/
theorem notifiesLoaded_append {loaded : ℕ → Bool} {acts : List Action} {k : ℕ} {msg : KeyboardMessage}
    {statuscode : Int} {reason : String}
    (hacts : ∀ kb msg statuscode reason, .notifyKeyboard kb msg statuscode reason ∉ acts)
    (hk : loaded k = true) : NotifiesLoaded loaded (acts ++ [Action.notifyKeyboard k msg statuscode reason]) := by
  intro kb msg' code' reason' hmem
  rcases List.mem_append.mp hmem with hmem | hmem
  · exact absurd hmem (hacts kb msg' code' reason')
  · cases List.mem_singleton.mp hmem
    exact hk

variable [PriorityQueue Q User]

/-- **Who is told.** The keyboard of the event, or the one a response's context names. -/
theorem Step.notified {loaded : ℕ → Bool} {s s' : ResourceManager Q} {ev : Event} {out : List Action}
    (h : Step s (ev, out) s') (hctx : KeyboardsLoaded loaded s) (hev : NamesLoaded loaded ev.input) :
    NotifiesLoaded loaded out := by
  obtain ⟨env, input⟩ := ev
  cases input with
  | localSwitch kb msg =>
    obtain ⟨r, s₁, acts, hout, hend⟩ := onSwitch_eq (show s.onSwitch env kb msg = .ok (s', out) from h)
    have hacts : ∀ kb msg statuscode reason, .notifyKeyboard kb msg statuscode reason ∉ acts := by
      cases hout <;> simp
    rcases hend with ⟨-, -, rfl⟩ | ⟨-, -, k, rfl, rfl⟩ | ⟨-, -, rfl⟩
    · apply notifiesLoaded_of_none
      simpa using hacts
    · exact notifiesLoaded_append hacts (hev k rfl)
    · exact notifiesLoaded_of_none hacts
  | localPtz kb msg =>
    obtain ⟨r, acts, hout, hend⟩ := onPtz_eq (show s.onPtz env kb msg = .ok (s', out) from h)
    have hacts : ∀ kb msg statuscode reason, .notifyKeyboard kb msg statuscode reason ∉ acts := by
      cases hout <;> simp
    rcases hend with ⟨-, rfl⟩ | ⟨-, k, rfl, rfl⟩ | ⟨-, rfl⟩
    · apply notifiesLoaded_of_none
      simpa using hacts
    · exact notifiesLoaded_append hacts (hev k rfl)
    · exact notifiesLoaded_of_none hacts
  | clientRequest request =>
    apply notifiesLoaded_of_none
    cases Step.clientRequest h with
    | switch _ hout => cases hout <;> simp
    | ptz _ hout => cases hout <;> simp
    | ignored => simp
  | serverResponse response =>
    cases Step.response h with
    | @failed context k hcontext _ _ _ hk =>
      have hloaded : loaded k = true := hctx response.mId context k hcontext hk
      rw [← List.nil_append [_]]
      exact notifiesLoaded_append (by simp) hloaded
    | unknown => exact notifiesLoaded_of_none (by simp)
    | switched => exact notifiesLoaded_of_none (by simp)
    | ptzDone => exact notifiesLoaded_of_none (by simp)
    | relayed => exact notifiesLoaded_of_none (by simp)
    | dropped => exact notifiesLoaded_of_none (by simp)
  | register fd reg =>
    obtain ⟨-, rfl | ⟨request, rfl⟩⟩ := onRegister_eq (show s.onRegister env fd reg = .ok (s', out) from h)
    · exact notifiesLoaded_of_none (by simp)
    · exact notifiesLoaded_of_none (by simp)
  | disconnect fd =>
    obtain ⟨-, rfl⟩ := onDisconnect_ok h
    exact notifiesLoaded_of_none (by simp)
  | connected =>
    obtain ⟨-, request, rfl⟩ := onClientConnected_ok h
    exact notifiesLoaded_of_none (by simp)
  | disconnected =>
    cases h
    exact notifiesLoaded_of_none (by simp)

/-- What an event stores names its own keyboard, or none. -/
theorem contextOf_loaded {loaded : ℕ → Bool} {ev : Event} {request : AgentRequest} {k : ℕ}
    (hev : NamesLoaded loaded ev.input) (hk : (contextOf ev request).mKeyboard = some k) : loaded k = true := by
  obtain ⟨env, input⟩ := ev
  cases input with
  | localSwitch kb msg => exact hev k hk
  | localPtz kb msg => exact hev k hk
  | clientRequest request => simp [contextOf] at hk
  | serverResponse response => simp [contextOf] at hk
  | register fd request => simp [contextOf] at hk
  | disconnect fd => simp [contextOf] at hk
  | connected => simp [contextOf] at hk
  | disconnected => simp [contextOf] at hk

/-- **Who waits.** A context names the keyboard of the event that stored it. -/
theorem Step.keyboards {loaded : ℕ → Bool} {s s' : ResourceManager Q} {ev : Event} {out : List Action}
    (h : Step s (ev, out) s') (hctx : KeyboardsLoaded loaded s) (hev : NamesLoaded loaded ev.input) :
    KeyboardsLoaded loaded s' := by
  intro id context k hget hk
  cases h.contexts with
  | same _ hsame =>
    rw [hsame] at hget
    exact hctx id context k hget hk
  | @closed response _ herase =>
    rw [herase, Std.ExtTreeMap.getElem?_erase] at hget
    split at hget
    · cases hget
    · exact hctx id context k hget hk
  | @sent fd request _ _ _ hstored =>
    rcases hstored with hinsert | ⟨-, hsame⟩
    · rw [hinsert, Std.ExtTreeMap.getElem?_insert] at hget
      split at hget
      · cases hget
        exact contextOf_loaded hev hk
      · exact hctx id context k hget hk
    · rw [hsame] at hget
      exact hctx id context k hget hk

/-! ## The thread -/

omit [PriorityQueue Q User] in
/-- A rejection is got through with if there is a keyboard to tell. -/
theorem notifyRejected_ok_iff {kb : KeyboardPtr} {msg : KeyboardMessage} {f : List Action → Outcome Q} :
    (∃ s' out, (notifyRejected kb msg).map f = .ok (s', out)) ↔ kb ≠ none := by
  cases kb with
  | none => exact iff_of_false (by rintro ⟨s', out, h⟩; cases h) (by simp)
  | some k => exact iff_of_true ⟨_, _, rfl⟩ (by simp)

omit [PriorityQueue Q User] in
/-- A switch is got through with unless there is no keyboard to tell of its rejection. -/
theorem onSwitch_ok_iff {env : Env} {s : ResourceManager Q} {kb : KeyboardPtr} {msg : KeyboardMessage} :
    (∃ s' out, s.onSwitch env kb msg = .ok (s', out)) ↔ (SwitchRejected env s msg → kb ≠ none) := by
  have hout := processSwitchMessage_outcome env s msg kb
  unfold onSwitch
  generalize processSwitchMessage env s msg kb = res at hout
  obtain ⟨r, s₁, acts⟩ := res
  rw [← hout.rejected_iff]
  cases r with
  | accept => exact iff_of_true ⟨_, _, rfl⟩ (by rintro ⟨⟩)
  | pending => exact iff_of_true ⟨_, _, rfl⟩ (by rintro ⟨⟩)
  | reject => exact notifyRejected_ok_iff.trans ⟨fun h _ => h, fun h => h rfl⟩

omit [PriorityQueue Q User] in
theorem onPtz_ok_iff {env : Env} {s : ResourceManager Q} {kb : KeyboardPtr} {msg : KeyboardMessage}
    (hlock : msg.lockResource = 0) :
    (∃ s' out, s.onPtz env kb msg = .ok (s', out)) ↔ (PtzRejected env s msg → kb ≠ none) := by
  have hout := processPtzMessage_outcome env s (s.ptzTarget msg) kb
  unfold onPtz
  unfold ptzTarget at hout
  simp only
  generalize hres : processPtzMessage env s { msg with cameraId := s.lastSwitchCid } kb = res at hout
  obtain ⟨r, s₁, acts⟩ := res
  rw [← PtzMessageOutcome.rejected_iff hlock hout]
  cases r with
  | accept => exact iff_of_true ⟨_, _, rfl⟩ (by rintro ⟨⟩)
  | pending => exact iff_of_true ⟨_, _, rfl⟩ (by rintro ⟨⟩)
  | reject => exact notifyRejected_ok_iff.trans ⟨fun h _ => h, fun h => h rfl⟩

/-- What the managers' threads are handed: packets of clients, and the events that name no keyboard. -/
inductive ThreadEvent where
  | packet (env : Env) (packet : ClientPacket)
  | manager (ev : Event)
      (notLocal : ∀ kb msg, ev.input ≠ .localSwitch kb msg ∧ ev.input ≠ .localPtz kb msg)

/-- A packet is decoded and dispatched; the other events go to the resource manager as they are. -/
def handleEvent (loaded : ℕ → Bool) (s : ResourceManager Q) : ThreadEvent → Except Fault (Outcome Q)
  | .packet env packet =>
    match ClientManager.readPacket packet with
    | none => .ok (s, [])
    | some msg => KeyboardManager.handle loaded env s msg
  | .manager ev _ => s.step ev

def ThreadStep (loaded : ℕ → Bool) (s : ResourceManager Q) (e : ThreadEvent) (s' : ResourceManager Q) : Prop :=
  ∃ out, s.handleEvent loaded e = .ok (s', out)

/-- The packet is got through with: no index outside the array, no `Notify` on a null keyboard. Whatever
    happens, only loaded keyboards are told something. -/
def Safe (loaded : ℕ → Bool) (s : ResourceManager Q) (e : ThreadEvent) : Prop :=
  (∀ env packet, e = .packet env packet → ∃ s' out, s.handleEvent loaded e = .ok (s', out)) ∧
    ∀ s' out, s.handleEvent loaded e = .ok (s', out) → NotifiesLoaded loaded out

/-- The message will be rejected. -/
def Rejected (env : Env) (s : ResourceManager Q) (msg : KeyboardMessage) : Prop :=
  if msg.type = .ptz then PtzRejected env s msg else SwitchRejected env s msg

/-- A packet that posts a message names one of the array's slots, and a loaded keyboard if it will be
    rejected. -/
def NamesKeyboard (loaded : ℕ → Bool) (s : ResourceManager Q) : ThreadEvent → Prop
  | .packet env packet => ∀ msg, ClientManager.readPacket packet = some msg →
      (0 ≤ packet.bindKb ∧ packet.bindKb < KeyboardManager.maxKeyboards) ∧
        (Rejected env s msg → loaded packet.bindKb.toNat = true)
  | .manager _ _ => True

/-- What the decoder posts. -/
theorem readPacket_some {packet : ClientPacket} {msg : KeyboardMessage}
    (h : ClientManager.readPacket packet = some msg) :
    msg.keyboardId = packet.bindKb ∧ msg.lockResource = 0 ∧ msg.type ≠ .unknown := by
  have hswitch : KBMsgType.switch ≠ .unknown := by decide
  have hptz : KBMsgType.ptz ≠ .unknown := by decide
  have hpin : KBMsgType.pin ≠ .unknown := by decide
  unfold ClientManager.readPacket at h
  simp only at h
  by_cases h1 : packet.type = 1
  · rw [if_pos h1] at h
    cases h
    exact ⟨rfl, rfl, hswitch⟩
  · by_cases h2 : packet.type = 2
    · rw [if_neg h1, if_pos h2] at h
      cases h
      exact ⟨rfl, rfl, hptz⟩
    · by_cases h3 : packet.type = 3
      · rw [if_neg h1, if_neg h2, if_pos h3] at h
        cases h
        exact ⟨rfl, rfl, hpin⟩
      · rw [if_neg h1, if_neg h2, if_neg h3] at h
        cases h

/-- The pointer the thread gets for a slot. -/
theorem getKeyboard_of_slot {loaded : ℕ → Bool} {id : Int} (h : 0 ≤ id ∧ id < KeyboardManager.maxKeyboards) :
    KeyboardManager.getKeyboard loaded id = .ok (if loaded id.toNat then some id.toNat else none) := by
  unfold KeyboardManager.getKeyboard
  rw [if_pos h]

theorem getKeyboard_error {loaded : ℕ → Bool} {id : Int}
    (h : ¬ (0 ≤ id ∧ id < KeyboardManager.maxKeyboards)) :
    KeyboardManager.getKeyboard loaded id = .error .outOfBounds := by
  unfold KeyboardManager.getKeyboard
  rw [if_neg h]

/-- The slot's keyboard, as the manager is given it. -/
def slot (loaded : ℕ → Bool) (msg : KeyboardMessage) : KeyboardPtr :=
  if loaded msg.keyboardId.toNat then some msg.keyboardId.toNat else none

theorem slot_ne_none {loaded : ℕ → Bool} {msg : KeyboardMessage} :
    slot loaded msg ≠ none ↔ loaded msg.keyboardId.toNat = true := by
  unfold slot
  cases loaded msg.keyboardId.toNat with
  | true => simp
  | false => simp

theorem slot_loaded {loaded : ℕ → Bool} {msg : KeyboardMessage} {k : ℕ} (h : slot loaded msg = some k) :
    loaded k = true := by
  unfold slot at h
  split at h
  · cases h
    assumption
  · cases h

/-- The message as the event the manager sees. -/
def localInput (loaded : ℕ → Bool) (msg : KeyboardMessage) : Input :=
  if msg.type = .ptz then .localPtz (slot loaded msg) msg else .localSwitch (slot loaded msg) msg

theorem namesLoaded_localInput (loaded : ℕ → Bool) (msg : KeyboardMessage) :
    NamesLoaded loaded (localInput loaded msg) := by
  unfold localInput
  split
  · exact fun k hk => slot_loaded hk
  · exact fun k hk => slot_loaded hk

/-- **The dispatch.** A message that names a slot is the manager's event with that slot's keyboard. -/
theorem handle_eq {loaded : ℕ → Bool} {env : Env} {s : ResourceManager Q} {msg : KeyboardMessage}
    (htype : msg.type ≠ .unknown)
    (hslot : 0 ≤ msg.keyboardId ∧ msg.keyboardId < KeyboardManager.maxKeyboards) :
    KeyboardManager.handle loaded env s msg = s.step ⟨env, localInput loaded msg⟩ := by
  unfold KeyboardManager.handle localInput
  rw [getKeyboard_of_slot hslot]
  cases hm : msg.type with
  | unknown => exact absurd hm htype
  | switch => rfl
  | ptz => rfl
  | pin => rfl

omit [PriorityQueue Q User] in
theorem handle_error {loaded : ℕ → Bool} {env : Env} {s : ResourceManager Q} {msg : KeyboardMessage}
    (htype : msg.type ≠ .unknown)
    (hslot : ¬ (0 ≤ msg.keyboardId ∧ msg.keyboardId < KeyboardManager.maxKeyboards)) :
    KeyboardManager.handle loaded env s msg = .error .outOfBounds := by
  unfold KeyboardManager.handle
  rw [getKeyboard_error hslot]
  cases hm : msg.type with
  | unknown => exact absurd hm htype
  | switch => rfl
  | ptz => rfl
  | pin => rfl

/-- **One message.** It is got through with if it names a slot, and a loaded one should it be rejected. -/
theorem handle_ok_iff {loaded : ℕ → Bool} {env : Env} {s : ResourceManager Q} {msg : KeyboardMessage}
    (htype : msg.type ≠ .unknown) (hlock : msg.lockResource = 0) :
    (∃ s' out, KeyboardManager.handle loaded env s msg = .ok (s', out)) ↔
      (0 ≤ msg.keyboardId ∧ msg.keyboardId < KeyboardManager.maxKeyboards) ∧
        (Rejected env s msg → loaded msg.keyboardId.toNat = true) := by
  by_cases hslot : 0 ≤ msg.keyboardId ∧ msg.keyboardId < KeyboardManager.maxKeyboards
  · rw [handle_eq htype hslot, and_iff_right hslot, ← slot_ne_none]
    unfold localInput Rejected
    by_cases hptz : msg.type = .ptz
    · rw [if_pos hptz, if_pos hptz]
      exact onPtz_ok_iff hlock
    · rw [if_neg hptz, if_neg hptz]
      exact onSwitch_ok_iff
  · refine iff_of_false ?_ (fun h => hslot h.1)
    rintro ⟨s', out, h⟩
    rw [handle_error htype hslot] at h
    cases h

/-- What the thread does is nothing, or one event of the manager that names loaded keyboards only. -/
theorem ThreadStep.step {loaded : ℕ → Bool} {s s' : ResourceManager Q} {e : ThreadEvent} {out : List Action}
    (h : s.handleEvent loaded e = .ok (s', out)) :
    (s' = s ∧ out = []) ∨ ∃ ev, Step s (ev, out) s' ∧ NamesLoaded loaded ev.input := by
  cases e with
  | packet env packet =>
    unfold handleEvent at h
    cases hread : ClientManager.readPacket packet with
    | none =>
      simp only [hread] at h
      cases h
      exact Or.inl ⟨rfl, rfl⟩
    | some msg =>
      simp only [hread] at h
      obtain ⟨-, -, htype⟩ := readPacket_some hread
      by_cases hslot : 0 ≤ msg.keyboardId ∧ msg.keyboardId < KeyboardManager.maxKeyboards
      · rw [handle_eq htype hslot] at h
        exact Or.inr ⟨_, h, namesLoaded_localInput loaded msg⟩
      · rw [handle_error htype hslot] at h
        cases h
  | manager ev notLocal =>
    refine Or.inr ⟨ev, h, ?_⟩
    obtain ⟨env, input⟩ := ev
    cases input with
    | localSwitch kb msg => exact absurd rfl (notLocal kb msg).1
    | localPtz kb msg => exact absurd rfl (notLocal kb msg).2
    | clientRequest request => trivial
    | serverResponse response => trivial
    | register fd request => trivial
    | disconnect fd => trivial
    | connected => trivial
    | disconnected => trivial

/-- The keyboards that wait stay loaded ones. -/
theorem ThreadStep.keyboards {loaded : ℕ → Bool} (s : ResourceManager Q) (e : ThreadEvent)
    (s' : ResourceManager Q) (hctx : KeyboardsLoaded loaded s) (h : ThreadStep loaded s e s') :
    KeyboardsLoaded loaded s' := by
  obtain ⟨out, h⟩ := h
  rcases ThreadStep.step h with ⟨rfl, -⟩ | ⟨ev, hstep, hev⟩
  · exact hctx
  · exact Step.keyboards hstep hctx hev

/-- **One event**, where only loaded keyboards wait. -/
theorem safe_iff {loaded : ℕ → Bool} (s : ResourceManager Q) (e : ThreadEvent)
    (hctx : KeyboardsLoaded loaded s) : Safe loaded s e ↔ NamesKeyboard loaded s e := by
  have hnotified : ∀ s' out, s.handleEvent loaded e = .ok (s', out) → NotifiesLoaded loaded out := by
    intro s' out h
    rcases ThreadStep.step h with ⟨-, rfl⟩ | ⟨ev, hstep, hev⟩
    · exact notifiesLoaded_of_none (by simp)
    · exact Step.notified hstep hctx hev
  unfold Safe
  rw [and_iff_left hnotified]
  cases e with
  | manager ev notLocal => exact iff_of_true (by rintro env packet ⟨⟩) trivial
  | packet env packet =>
    have hone : (∀ env' packet', ThreadEvent.packet env packet = .packet env' packet' →
        ∃ s' out, s.handleEvent loaded (.packet env packet) = .ok (s', out)) ↔
        ∃ s' out, s.handleEvent loaded (.packet env packet) = .ok (s', out) :=
      ⟨fun h => h env packet rfl, fun h _ _ _ => h⟩
    rw [hone]
    cases hread : ClientManager.readPacket packet with
    | none =>
      have hnone : s.handleEvent loaded (.packet env packet) = .ok (s, []) := by
        simp only [handleEvent, hread]
      refine iff_of_true ⟨s, [], hnone⟩ ?_
      intro msg hmsg
      rw [hread] at hmsg
      cases hmsg
    | some msg =>
      have hsome : s.handleEvent loaded (.packet env packet) = KeyboardManager.handle loaded env s msg := by
        simp only [handleEvent, hread]
      obtain ⟨hkb, hlock, htype⟩ := readPacket_some hread
      rw [hsome, handle_ok_iff htype hlock, hkb]
      constructor
      · intro h msg' hmsg'
        rw [hread, Option.some.injEq] at hmsg'
        rw [← hmsg']
        exact h
      · intro h
        exact h msg hread

theorem Initial.keyboardsLoaded {s : ResourceManager Q} (h : Initial s) (loaded : ℕ → Bool) :
    KeyboardsLoaded loaded s := by
  intro id context k hget
  rw [h.contexts, Std.ExtTreeMap.getElem?_empty] at hget
  cases hget

/-- **Client packets and the keyboards.** For every set of loaded keyboards and every sequence of client
    packets and other events: each event is safe exactly if each packet that posts a message names a slot,
    and a loaded keyboard where the message will be rejected. -/
theorem client_packets_safe (loaded : ℕ → Bool) {s₀ : ResourceManager Q} (h0 : Initial s₀)
    (events : List ThreadEvent) :
    Along (ThreadStep loaded) (Safe loaded) s₀ events ↔
      Along (ThreadStep loaded) (NamesKeyboard loaded) s₀ events :=
  along_congr ThreadStep.keyboards safe_iff (h0.keyboardsLoaded loaded)

/-- A client switches camera 4 to monitor 1 for keyboard 2, then tries camera 9, and is told so. -/
theorem client_packets_safe_of_two :
    Along (ThreadStep fun k => decide (k = 2)) (Safe fun k => decide (k = 2))
      (configured 0 1 1 [4] [1, 2] [(1, 2)] : ResourceManager (List User))
      [.packet (Env.at 100) ⟨1, 1, 2, 4, 1, 0, 0, 0, 0⟩, .packet (Env.at 101) ⟨1, 1, 2, 9, 1, 0, 0, 0, 0⟩] := by
  apply (client_packets_safe _ (configured_initial (by decide)) _).mpr
  refine ⟨?_, fun s₁ _ => ⟨?_, fun _ _ => trivial⟩⟩
  · intro msg _
    exact ⟨by decide, fun _ => rfl⟩
  · intro msg _
    exact ⟨by decide, fun _ => rfl⟩

/-- **Two packets that bring the thread down.** One names keyboard 7 of an array of four. The other names
    keyboard 0, which is not loaded, and a monitor that does not exist, so that nobody is there to be told. -/
theorem client_packet_not_safe :
    ¬ Safe (fun _ => true) (configured 0 1 1 [4] [1, 2] [(1, 2)] : ResourceManager (List User))
        (.packet (Env.at 100) ⟨1, 1, 7, 4, 1, 0, 0, 0, 0⟩) ∧
    ¬ Safe (fun _ => false) (configured 0 1 1 [4] [1, 2] [(1, 2)] : ResourceManager (List User))
        (.packet (Env.at 100) ⟨1, 1, 0, 4, 9, 0, 0, 0, 0⟩) := by
  constructor
  · rintro ⟨hok, -⟩
    obtain ⟨s', out, h⟩ := hok _ _ rfl
    have hfault : (configured 0 1 1 [4] [1, 2] [(1, 2)] : ResourceManager (List User)).handleEvent
        (fun _ => true) (.packet (Env.at 100) ⟨1, 1, 7, 4, 1, 0, 0, 0, 0⟩) = .error .outOfBounds := rfl
    rw [hfault] at h
    cases h
  · rintro ⟨hok, -⟩
    obtain ⟨s', out, h⟩ := hok _ _ rfl
    have hfault : (configured 0 1 1 [4] [1, 2] [(1, 2)] : ResourceManager (List User)).handleEvent
        (fun _ => false) (.packet (Env.at 100) ⟨1, 1, 0, 4, 9, 0, 0, 0, 0⟩) = .error .nullDeref := rfl
    rw [hfault] at h
    cases h

end ResourceManager

end Mcc
