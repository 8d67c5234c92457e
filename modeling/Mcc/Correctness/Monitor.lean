import Mcc.Lib.Lease
import Mcc.Correctness.Steps

/-!
# `Correctness.Monitor` — who may switch a monitor

A monitor is a lease held by a keyboard: `switch_simulates` matches every `processSwitchMessage` by one event
of the arbiter of `Lib.Lease`, and exclusion on the local path (`monitor_exclusion`) is its law.

The remote path makes no reservation: a switch of a remote camera tests the monitor when the request goes
out and touches it neither then nor when the response comes. `remote_switch_exclusive` says in which states
the switch made for a response nevertheless respects the holder.
-/

namespace Mcc

open Transition Arbitration

/-- A monitor, seen as a lease of a keyboard. -/
def Monitor.lease (m : Monitor) : Lease Int := ⟨m.mUser.mId.lid, m.mUser.mExpireTime⟩

@[simp] theorem Monitor.replace_mExpireTime (m : Monitor) (k now : Int) :
    (m.replace k now).mUser.mExpireTime = now + m.mUser.mExpire := rfl

@[simp] theorem Monitor.replace_mExpire (m : Monitor) (k now : Int) :
    (m.replace k now).mUser.mExpire = m.mUser.mExpire := rfl

namespace ResourceManager

variable {Q : Type}

/-- Every monitor grants `DEFAULT_EXPIRE`. -/
def MonitorsOk (s : ResourceManager Q) : Prop :=
  ∀ k m, s.mMonitors.deref k = some m → m.mUser.mExpire = defaultExpire

/-- **A switch keeps the expiry every monitor grants.** -/
theorem SwitchOutcome.monitorsOk {env : Env} {s s' : ResourceManager Q} {msg : KeyboardMessage}
    {kb : KeyboardPtr} {r : ProcessResult} {out : List Action} (h : SwitchOutcome env s msg kb r s' out)
    (hok : MonitorsOk s) : MonitorsOk s' := by
  intro k m' hm'
  cases h with
  | noMonitor =>
    rw [IntMap.deref_touch] at hm'
    exact hok k m' hm'
  | inUse => exact hok k m' hm'
  | noCamera => exact hok k m' hm'
  | @taken m cam hm =>
    rw [IntMap.deref_insert] at hm'
    by_cases hk : msg.monitorId = k
    · rw [if_pos hk, Option.some.injEq] at hm'
      rw [← hm', Monitor.replace_mExpire]
      exact hok _ m hm
    · rw [if_neg hk] at hm'
      exact hok k m' hm'
  | noMatrix => exact hok k m' hm'
  | sent => exact hok k m' hm'

/-! ## Runs of `processSwitchMessage` -/

/-- One call of `processSwitchMessage`. -/
structure SwitchCall where
  env : Env
  msg : KeyboardMessage
  kb : KeyboardPtr

/-- The steps of `processSwitchMessage`, labelled with the call, its result and its actions. -/
def SwitchStep (s : ResourceManager Q) (l : SwitchCall × ProcessResult × List Action)
    (s' : ResourceManager Q) : Prop :=
  processSwitchMessage l.1.env s l.1.msg l.1.kb = (l.2.1, s', l.2.2)

theorem switchStep_of_eq {s s' : ResourceManager Q} {c : SwitchCall} {r : ProcessResult} {out : List Action}
    (h : processSwitchMessage c.env s c.msg c.kb = (r, s', out)) : SwitchStep s (c, r, out) s' := h

theorem SwitchStep.outcome {s s' : ResourceManager Q} {c : SwitchCall} {r : ProcessResult}
    {out : List Action} (h : SwitchStep s (c, r, out) s') : SwitchOutcome c.env s c.msg c.kb r s' out := by
  have hout := processSwitchMessage_outcome c.env s c.msg c.kb
  unfold SwitchStep at h
  rw [h] at hout
  exact hout

/-- A call, seen as a claim. -/
def SwitchCall.claim (c : SwitchCall) : Claim Int := ⟨c.msg.keyboardId, c.env.test, c.env.update⟩

/-- Monitor `k` and its lease. -/
def LeaseAt (k : Int) (s : ResourceManager Q) (l : Lease Int) : Prop :=
  MonitorsOk s ∧ ∃ m, s.mMonitors.deref k = some m ∧ l = m.lease

/-- A keyboard that does not find the monitor in use claims an open lease. -/
theorem open_of_not_inUse {m : Monitor} {c : SwitchCall} (h : ¬ InUse c.env m c.msg.keyboardId) :
    m.lease.Open c.claim := by
  unfold InUse at h
  by_cases hle : m.mUser.mId.lid ≤ c.msg.keyboardId
  · exact Or.inl hle
  · right
    have hnot : ¬ (m.mUser.isExpired c.env.test = false) := fun hf => h ⟨hf, not_le.mp hle⟩
    rw [User.isExpired_eq_false_iff] at hnot
    exact not_le.mp hnot

/-- **A monitor refines the abstract arbiter**, call by call, whichever monitors the calls are for. -/
theorem switch_simulates {k : Int} (s : ResourceManager Q) (l : SwitchCall × ProcessResult × List Action)
    (s' : ResourceManager Q) (a : Lease Int) (hR : LeaseAt k s a) (hstep : SwitchStep s l s') :
    ∃ a', Arbitration.Step defaultExpire a l.1.claim a' ∧ LeaseAt k s' a' := by
  obtain ⟨c, r, out⟩ := l
  obtain ⟨hok, m, hm, rfl⟩ := hR
  have hout := hstep.outcome
  have hok' := hout.monitorsOk hok
  cases hout with
  | noMonitor => exact ⟨_, .keep, hok', m, by rw [IntMap.deref_touch]; exact hm, rfl⟩
  | inUse => exact ⟨_, .keep, hok', m, hm, rfl⟩
  | noCamera => exact ⟨_, .keep, hok', m, hm, rfl⟩
  | @taken m' cam hm' hfree =>
    by_cases hk : c.msg.monitorId = k
    · rw [hk, hm, Option.some.injEq] at hm'
      have hgrant : (m.replace c.msg.keyboardId c.env.update).lease =
          ⟨c.claim.claimant, c.claim.start + defaultExpire⟩ := by
        unfold Monitor.lease
        rw [Monitor.replace_mExpireTime, hok k m hm]
        rfl
      refine ⟨_, .grant (open_of_not_inUse (hm' ▸ hfree)), hok', m.replace c.msg.keyboardId c.env.update, ?_,
        hgrant.symm⟩
      show IntMap.deref (s.mMonitors.insert c.msg.monitorId _) k = _
      rw [IntMap.deref_insert, if_pos hk, hm']
    · refine ⟨_, .keep, hok', m, ?_, rfl⟩
      show IntMap.deref (s.mMonitors.insert c.msg.monitorId _) k = _
      rw [IntMap.deref_insert, if_neg hk]
      exact hm
  | noMatrix => exact ⟨_, .keep, hok', m, hm, rfl⟩
  | sent => exact ⟨_, .keep, hok', m, hm, rfl⟩

/-- An accepted switch leases the monitor to its keyboard. -/
theorem SwitchStep.leases {s s' : ResourceManager Q} {c : SwitchCall} {out : List Action}
    (h : SwitchStep s (c, .accept, out) s') (hok : MonitorsOk s) :
    LeaseAt c.msg.monitorId s' ⟨c.msg.keyboardId, c.env.update + defaultExpire⟩ := by
  have hout := h.outcome
  have hok' := hout.monitorsOk hok
  cases hout with
  | @taken m cam hm =>
    refine ⟨hok', m.replace c.msg.keyboardId c.env.update, ?_, ?_⟩
    · show IntMap.deref (s.mMonitors.insert c.msg.monitorId _) c.msg.monitorId = _
      rw [IntMap.deref_insert, if_pos rfl]
    · unfold Monitor.lease
      rw [Monitor.replace_mExpireTime, hok _ m hm]
      rfl

/-- A call by a lower keyboard finds a guarded monitor in use, and changes nothing at all. -/
theorem rejected_of_guarded {s : ResourceManager Q} {c : SwitchCall} {u T : Int} {l : Lease Int}
    (hl : LeaseAt c.msg.monitorId s l) (hg : Guarded u T l) (htest : c.env.test ≤ T)
    (hlt : c.msg.keyboardId < u) :
    processSwitchMessage c.env s c.msg c.kb = (.reject, s, []) := by
  obtain ⟨-, m, hm, rfl⟩ := hl
  have huse : InUse c.env m c.msg.keyboardId := by
    by_contra hfree
    exact hg.refuses (c := c.claim) htest hlt (open_of_not_inUse hfree)
  have hout := processSwitchMessage_outcome c.env s c.msg c.kb
  generalize processSwitchMessage c.env s c.msg c.kb = res at hout
  obtain ⟨r, s', out⟩ := res
  cases hout with
  | noMonitor hnone =>
    rw [hnone] at hm
    cases hm
  | inUse => rfl
  | noCamera hm' hfree =>
    rw [hm, Option.some.injEq] at hm'
    exact absurd (hm' ▸ huse) hfree
  | taken hm' hfree =>
    rw [hm, Option.some.injEq] at hm'
    exact absurd (hm' ▸ huse) hfree
  | noMatrix => rfl
  | sent hm' hfree =>
    rw [hm, Option.some.injEq] at hm'
    exact absurd (hm' ▸ huse) hfree

/-! ## The monitors of a reachable state -/

section Reachable

variable [PriorityQueue Q User]

theorem Initial.monitorsOk {s : ResourceManager Q} (h : Initial s) : MonitorsOk s := by
  intro k m hm
  obtain ⟨junk, hnew⟩ := h.monitors k _ (IntMap.getElem?_of_deref hm)
  cases hnew
  rfl

theorem Step.monitorsOk {s s' : ResourceManager Q} {l : Event × List Action} (h : Step s l s')
    (hok : MonitorsOk s) : MonitorsOk s' := by
  rcases h.monitors with hsame | ⟨kb, msg, r, s₁, acts, -, hout, hsame⟩
  · unfold MonitorsOk
    rw [hsame]
    exact hok
  · unfold MonitorsOk
    rw [hsame]
    exact hout.monitorsOk hok

theorem Reachable.monitorsOk {s : ResourceManager Q} (h : Reachable s) : MonitorsOk s :=
  h.induct (fun _ h0 => h0.monitorsOk) (fun _ _ _ hok hst => hst.monitorsOk hok)

/-- **Monitor exclusion on the local path.** From any reachable state, let a switch of keyboard `k` be
    accepted at time `t`. Whatever switches follow, a message of a lower keyboard for the monitor that is
    handled no later than `t + 20` is rejected, and the state stays as it is. -/
theorem monitor_exclusion {s₀ s₁ s₂ s₃ : ResourceManager Q}
    {pre mid : List (SwitchCall × ProcessResult × List Action)} {c late : SwitchCall} {out : List Action}
    (h0 : Reachable s₀) (hpre : Run SwitchStep s₀ pre s₁) (hacc : SwitchStep s₁ (c, .accept, out) s₂)
    (hmid : Run SwitchStep s₂ mid s₃)
    (hclock : Env.Chronological (c.env :: mid.map (fun l => l.1.env) ++ [late.env]))
    (hmon : late.msg.monitorId = c.msg.monitorId) (hlate : late.env.test ≤ c.env.update + 20)
    (hlt : late.msg.keyboardId < c.msg.keyboardId) :
    processSwitchMessage late.env s₃ late.msg late.kb = (.reject, s₃, []) := by
  have hok₁ : MonitorsOk s₁ :=
    hpre.invariant (fun _ _ _ hi hst => SwitchOutcome.monitorsOk (SwitchStep.outcome hst) hi) h0.monitorsOk
  obtain ⟨l, hrun, hlease⟩ := hmid.simulate (fun l => l.1.claim) switch_simulates (hacc.leases hok₁)
  -- every call in between is clocked between the grant and the late call
  have hduring : ∀ a ∈ mid.map (fun l => l.1.claim),
      a.During defaultExpire (c.env.update + defaultExpire) := by
    intro a ha
    obtain ⟨l, hl, rfl⟩ := List.mem_map.mp ha
    exact hclock.meanwhile hlate (List.mem_map_of_mem (f := fun l => l.1.env) hl)
  have hg := (guarded_grant (d := defaultExpire) c.claim).run hrun hduring
  rw [← hmon] at hlease
  exact rejected_of_guarded hlease hg hlate hlt

/-- Keyboard 5 switches monitor 1 at 100 and is refused nobody; at 110 keyboard 4 is, although keyboard 3
    switched monitor 2 in between. -/
theorem monitor_exclusion_at_110 :
    ∃ s : ResourceManager (List User), ∃ msg : KeyboardMessage, msg.keyboardId = 4 ∧
      processSwitchMessage (Env.at 110) s msg none = (.reject, s, []) := by
  let start : ResourceManager (List User) := configured 0 1 1 [4] [1, 2] [(1, 2)]
  let message : Int → Int → KeyboardMessage := fun keyboard monitor =>
    { KeyboardMessage.new with keyboardId := keyboard, cameraId := ⟨1, 4⟩, monitorId := monitor }
  let late : SwitchCall := ⟨Env.at 110, message 4 1, none⟩
  have hnew : Initial start := configured_initial (List.cons_ne_nil _ _)
  have hgrant : SwitchStep start (⟨Env.at 100, message 5 1, none⟩, .accept, _) _ := switchStep_of_eq rfl
  have hclock := Env.chronological_at [100, 105, 110] (by decide)
  exact ⟨_, message 4 1, rfl, @monitor_exclusion (List User) _ _ _ _ _ _ [(⟨Env.at 105, message 3 2, none⟩, _, _)]
    _ late _ hnew.reachable .nil hgrant (.single (switchStep_of_eq rfl)) hclock rfl (by decide) (by decide)⟩

/-! ## The remote path -/

/-- The response makes a switch for the context: asked of this matrix, a success, with a keyboard to serve. -/
structure SwitchesFor (s : ResourceManager Q) (response : AgentResponse) (context : ProcessContext) : Prop where
  pending : s.mProcessContexts[response.mId]? = some context
  here : response.mTo = s.mMatrixId
  method : response.mMethod = .switch
  success : response.mStatusCode.tdiv 100 = 2
  keyboard : context.mKeyboard ≠ none

/-- Monitor `m` is held by keyboard `k` until at least `T`. -/
def Holds (s : ResourceManager Q) (m k T : Int) : Prop :=
  ∃ mon, s.mMonitors.deref m = some mon ∧ mon.mUser.mId.lid = k ∧ T ≤ mon.mUser.mExpireTime

/-- Monitor `m` is held by an unexpired keyboard above `k`. -/
def HeldAbove (s : ResourceManager Q) (m k now : Int) : Prop :=
  ∃ mon, s.mMonitors.deref m = some mon ∧ mon.mUser.isExpired now = false ∧ k < mon.mUser.mId.lid

/-- The switches a response makes respect the monitor's holder and take the monitor over. -/
def RespectsHolder (s : ResourceManager Q) (l : Event × List Action) (s' : ResourceManager Q) : Prop :=
  ∀ response context kid msg, l.1.input = .serverResponse response →
    s.mProcessContexts[response.mId]? = some context → .sendSwitch kid msg ∈ l.2 →
    ¬ HeldAbove s msg.monitorId context.mKeyboardEvent.keyboardId l.1.env.update ∧
      Holds s' msg.monitorId context.mKeyboardEvent.keyboardId (l.1.env.update + 20)

/-- Before the event: where a response makes a switch, the keyboard it serves holds the monitor already, for
    as long as it would if the switch took it. -/
def HeldByRequester (s : ResourceManager Q) (l : Event × List Action) (_ : ResourceManager Q) : Prop :=
  ∀ response context, l.1.input = .serverResponse response → SwitchesFor s response context →
    Holds s context.mKeyboardEvent.monitorId context.mKeyboardEvent.keyboardId (l.1.env.update + 20)

omit [PriorityQueue Q User] in
/-- A response makes a switch exactly where `SwitchesFor` says. -/
theorem ResponseOutcome.sendSwitch_iff {s s' : ResourceManager Q} {response : AgentResponse}
    {context : ProcessContext} {out : List Action} (h : ResponseOutcome s response s' out)
    (hctx : s.mProcessContexts[response.mId]? = some context) {kid : ℕ} {msg : KeyboardMessage} :
    .sendSwitch kid msg ∈ out ↔
      SwitchesFor s response context ∧ kid = 0 ∧ msg = s.responseSwitch context response := by
  cases h with
  | unknown hnone => exact absurd (Std.ExtTreeMap.mem_iff_isSome_getElem?.mpr (by rw [hctx]; rfl)) hnone
  | @switched context' k hctx' hto hmeth hok hk =>
    rw [hctx, Option.some.injEq] at hctx'
    subst hctx'
    rw [List.mem_singleton, Action.sendSwitch.injEq]
    have hfor : SwitchesFor s response context := ⟨hctx, hto, hmeth, hok, by rw [hk]; simp⟩
    exact ⟨fun hm => ⟨hfor, hm⟩, fun hm => hm.2⟩
  | failed _ _ _ hbad =>
    refine ⟨fun hm => by simp at hm, ?_⟩
    rintro ⟨hfor, -⟩
    exact absurd hfor.success hbad
  | ptzDone _ _ hmeth =>
    refine ⟨fun hm => by simp at hm, ?_⟩
    rintro ⟨hfor, -⟩
    rw [hfor.method] at hmeth
    cases hmeth
  | relayed _ hfar =>
    refine ⟨fun hm => by simp at hm, ?_⟩
    rintro ⟨hfor, -⟩
    exact absurd hfor.here hfar
  | @dropped context' hctx' hwhy =>
    refine ⟨fun hm => by simp at hm, ?_⟩
    rintro ⟨hfor, -⟩
    rw [hctx, Option.some.injEq] at hctx'
    subst hctx'
    rcases hwhy with ⟨-, hnone⟩ | ⟨hmeth, -⟩
    · exact absurd hnone hfor.keyboard
    · exact absurd hfor.method hmeth

/-- **One step.** A response leaves the monitors alone, so its switch takes nothing over: it respects the
    holder exactly if the holder is the keyboard it serves. -/
theorem Step.respectsHolder_iff {s s' : ResourceManager Q} {l : Event × List Action} (h : Step s l s') :
    RespectsHolder s l s' ↔ HeldByRequester s l s' := by
  obtain ⟨⟨env, input⟩, out⟩ := l
  by_cases hresponse : ∃ response, input = .serverResponse response
  · obtain ⟨response, rfl⟩ := hresponse
    have hout := h.response
    have hmons : s'.mMonitors = s.mMonitors := (onServerRxResponse_same h).monitors
    constructor
    · rintro hresp _ context hin hfor
      cases hin
      have hsent := (hout.sendSwitch_iff hfor.pending).mpr ⟨hfor, rfl, rfl⟩
      obtain ⟨mon, hmon, hk, hT⟩ := (hresp response context 0 _ rfl hfor.pending hsent).2
      rw [hmons] at hmon
      exact ⟨mon, hmon, hk, hT⟩
    · rintro hheld _ context kid msg hin hctx hsent
      cases hin
      obtain ⟨hfor, -, rfl⟩ := (hout.sendSwitch_iff hctx).mp hsent
      obtain ⟨mon, hmon, hk, hT⟩ := hheld response context rfl hfor
      refine ⟨?_, mon, by rw [hmons]; exact hmon, hk, hT⟩
      rintro ⟨mon', hmon', -, hlt⟩
      have hsame : some mon' = some mon := hmon'.symm.trans hmon
      rw [Option.some.inj hsame, hk] at hlt
      exact absurd hlt (lt_irrefl _)
  · exact ⟨fun _ response context hin => absurd ⟨response, hin⟩ hresponse,
      fun _ response context kid msg hin => absurd ⟨response, hin⟩ hresponse⟩

/-- **Switches made for responses, over any run.** Every switch a run makes for a response respects the
    monitor's holder and takes the monitor over, exactly if before each of them the keyboard it serves holds
    the monitor already. -/
theorem remote_switch_exclusive {s₀ s : ResourceManager Q} {ls : List (Event × List Action)} :
    RunOf Step RespectsHolder s₀ ls s ↔ RunOf Step HeldByRequester s₀ ls s :=
  runOf_congr fun _ _ _ hst => hst.respectsHolder_iff

/-- **A response switches a monitor over its holder.** Keyboard 0 asks matrix 2 for a camera on monitor 1;
    keyboard 1 switches the monitor to a local camera; the response then switches it for keyboard 0. -/
theorem remote_switch_overrides_holder :
    ¬ ∀ (s : ResourceManager (List User)) (l : Event × List Action) (s' : ResourceManager (List User)),
        Reachable s → Step s l s' → RespectsHolder s l s' := by
  intro h
  have hstart : Reachable (configured 0 1 1 [4] [1] [(1, 2)] : ResourceManager (List User)) :=
    (configured_initial (by decide)).reachable
  have hrun := hstart.run (run_of_exec
    [⟨Env.at 100, .register 3 ⟨0, 2, 1, .request, .register, 0, fun i => if i = 0 then 60 else 0⟩⟩,
     ⟨Env.at 100, .localSwitch (some 0)
       { KeyboardMessage.new with keyboardId := 0, cameraId := ⟨2, 7⟩, monitorId := 1 }⟩,
     ⟨Env.at 101, .localSwitch (some 0)
       { KeyboardMessage.new with keyboardId := 1, cameraId := ⟨1, 4⟩, monitorId := 1 }⟩] rfl)
  have hresp := h _ (⟨Env.at 102, .serverResponse ⟨⟨0, 2, 1, .response, .switch, 0, fun _ => 6⟩, 200, "Ok"⟩⟩, _)
    _ hrun (step_of_eq rfl)
  have habove := (hresp _ _ 0 _ rfl rfl List.mem_cons_self).1
  exact habove ⟨⟨1, ⟨⟨0, 1⟩, .keyboard, 20, 121⟩⟩, rfl, by decide, by decide⟩

end Reachable

end ResourceManager

end Mcc
