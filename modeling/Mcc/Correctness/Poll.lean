import Mcc.Correctness.JxjCodec

/-!
# `Correctness.Poll` — who answers the matrix

`Poller` is the protocol one keyboard is meant to follow on its matrix port: the first query is answered with
the registration, every later one with the next queued message, or with the last packet again. It knows of no
other keyboard.

The code keeps the registration and the last packet in `static` variables. So it follows the protocol exactly
as long as, of the keyboards of a class, one at most is ever queried (`poll_protocol`): a second one is never
answered with its registration, since by then the shared counter says that it has registered.

## Contents
- **The protocol.** `Poller`, over the events of one keyboard.
- **Runs.** Who has been queried; what `OnRxMatrixPacket` makes of a query.
- **Tracking.** The statics are the state of the one keyboard that is queried.
- **The exact condition.**
-/

namespace Mcc

open KeyboardJXJ

/-! ## The protocol -/

/-- **One keyboard by itself**: whether it has registered, its last packet, its queued messages. -/
structure Poller where
  registered : Bool
  last : JxjPacket
  queue : List KeyboardMessage

namespace Poller

def start : Poller := ⟨false, startBuf, []⟩

/-- The answer to its own query. -/
def answer (p : Poller) : JxjPacket :=
  if p.registered then
    match p.queue with
    | [] => p.last
    | msg :: _ => buildPacketFromMessage p.last msg
  else reg

/-- The state after the answer. -/
def queried (p : Poller) : Poller :=
  if p.registered then
    match p.queue with
    | [] => p
    | msg :: rest => { p with last := buildPacketFromMessage p.last msg, queue := rest }
  else { p with registered := true }

/-- The state after an event of the keyboard with this `mId`. -/
def next {ι : Type} (mId : Int) (p : Poller) : JxjEvent ι → Poller
  | .enqueue _ msg => { p with queue := p.queue ++ [msg] }
  | .byte _ queries => if IsQuery mId queries then p.queried else p

/-- Once registered, always registered. -/
theorem queried_registered (p : Poller) : p.queried.registered = true := by
  unfold queried
  by_cases h : p.registered = true
  · rw [if_pos h]
    cases p.queue with
    | nil => exact h
    | cons msg rest => exact h
  · rw [if_neg h]

end Poller

variable {ι : Type} [DecidableEq ι]

/-- The keyboard an event is about. -/
def JxjEvent.keyboard : JxjEvent ι → ι
  | .enqueue i _ => i
  | .byte i _ => i

/-- **Keyboard `i` as the protocol has it**: a function of its own events. -/
def poller (setup : JxjSetup ι) (i : ι) (es : List (JxjEvent ι)) : Poller :=
  (es.filter fun e => decide (e.keyboard = i)).foldl (Poller.next (setup.mId i)) .start

/-! ## Runs -/

/-- The keyboards after the events. -/
def afterEvents (setup : JxjSetup ι) (es : List (JxjEvent ι)) : JxjKeyboards ι :=
  es.foldl (JxjKeyboards.next setup) .start

section Next

variable (setup : JxjSetup ι) (ks : JxjKeyboards ι) (i : ι) (queries : Byte)

/-- A byte changes the statics of one class. -/
theorem next_statics (c : JxjClass) : (ks.next setup (.byte i queries)).statics c =
    if c = setup.cls i then (ks.receive setup i queries).2.1 else ks.statics c :=
  Function.update_apply _ _ _ _

/-- A byte changes the queue of one keyboard. -/
theorem next_mFifo (j : ι) : (ks.next setup (.byte i queries)).mFifo j =
    if j = i then (ks.receive setup i queries).2.2 else ks.mFifo j :=
  Function.update_apply _ _ _ _

theorem next_mFifo_enqueue (msg : KeyboardMessage) (j : ι) : (ks.next setup (.enqueue i msg)).mFifo j =
    if j = i then ks.mFifo i ++ [msg] else ks.mFifo j :=
  Function.update_apply _ _ _ _

end Next

/-- Keyboard `i` has received a query of its own. -/
def Polled (setup : JxjSetup ι) (es : List (JxjEvent ι)) (i : ι) : Prop :=
  ∃ queries, .byte i queries ∈ es ∧ IsQuery (setup.mId i) queries

section Snoc

variable (setup : JxjSetup ι) (es : List (JxjEvent ι)) (i j : ι) (msg : KeyboardMessage) (queries : Byte)

theorem afterEvents_snoc (e : JxjEvent ι) :
    afterEvents setup (es ++ [e]) = (afterEvents setup es).next setup e := by
  unfold afterEvents
  rw [List.foldl_append]
  rfl

theorem poller_snoc (e : JxjEvent ι) : poller setup i (es ++ [e]) =
    if e.keyboard = i then (poller setup i es).next (setup.mId i) e else poller setup i es := by
  unfold poller
  rw [List.filter_append, List.foldl_append]
  by_cases h : e.keyboard = i
  · have hown : [e].filter (fun e => decide (e.keyboard = i)) = [e] := by simp [h]
    rw [if_pos h, hown]
    rfl
  · have hother : [e].filter (fun e => decide (e.keyboard = i)) = [] := by simp [h]
    rw [if_neg h, hother]
    rfl

theorem poller_enqueue : poller setup i (es ++ [JxjEvent.enqueue j msg]) =
    if j = i then { poller setup i es with queue := (poller setup i es).queue ++ [msg] }
    else poller setup i es :=
  poller_snoc setup es i (.enqueue j msg)

theorem poller_byte : poller setup i (es ++ [JxjEvent.byte j queries]) =
    if j = i then if IsQuery (setup.mId i) queries then (poller setup i es).queried else poller setup i es
    else poller setup i es :=
  poller_snoc setup es i (.byte j queries)

omit [DecidableEq ι] in
theorem polled_enqueue : Polled setup (es ++ [JxjEvent.enqueue j msg]) i ↔ Polled setup es i := by
  unfold Polled
  simp

omit [DecidableEq ι] in
theorem polled_byte : Polled setup (es ++ [JxjEvent.byte j queries]) i ↔
    Polled setup es i ∨ (i = j ∧ IsQuery (setup.mId i) queries) := by
  unfold Polled
  simp only [List.mem_append, List.mem_singleton, JxjEvent.byte.injEq]
  constructor
  · rintro ⟨q, hmem | ⟨hij, rfl⟩, hq⟩
    · exact Or.inl ⟨q, hmem, hq⟩
    · exact Or.inr ⟨hij, hq⟩
  · rintro (⟨q, hmem, hq⟩ | ⟨hij, hq⟩)
    · exact ⟨q, Or.inl hmem, hq⟩
    · exact ⟨queries, Or.inr ⟨hij, rfl⟩, hq⟩

end Snoc

/-- **A keyboard is registered exactly if it was queried**; until then its last packet is the first one. -/
theorem poller_polled (setup : JxjSetup ι) (i : ι) (es : List (JxjEvent ι)) :
    ((poller setup i es).registered = true ↔ Polled setup es i) ∧
      (¬ Polled setup es i → (poller setup i es).last = startBuf) := by
  induction es using List.reverseRecOn with
  | nil =>
    refine ⟨iff_of_false Bool.false_ne_true ?_, fun _ => rfl⟩
    rintro ⟨queries, hmem, -⟩
    exact absurd hmem List.not_mem_nil
  | append_singleton es e ih =>
    cases e with
    | enqueue j msg =>
      rw [polled_enqueue, poller_enqueue]
      split_ifs
      · exact ih
      · exact ih
    | byte j queries =>
      rw [polled_byte, poller_byte]
      by_cases hown : i = j ∧ IsQuery (setup.mId i) queries
      · rw [if_pos hown.1.symm, if_pos hown.2]
        refine ⟨iff_of_true (Poller.queried_registered _) (Or.inr hown), ?_⟩
        intro hnot
        exact absurd (Or.inr hown) hnot
      · rw [or_iff_left hown]
        split_ifs with hij hq
        · exact absurd ⟨hij.symm, hq⟩ hown
        · exact ih
        · exact ih

/-- The statics are in the state of the protocol. -/
structure Agrees (st : Statics) (p : Poller) : Prop where
  counter : st.rcvCnt = 0 ↔ p.registered = false
  buffer : st.buf = p.last

/-- **`OnRxMatrixPacket` on statics that agree** answers as the protocol does, and they agree afterwards. -/
theorem onRxMatrixPacket_query {mId : Int} {st : Statics} {p : Poller} {queries : Byte} (h : Agrees st p)
    (hq : IsQuery mId queries) :
    (onRxMatrixPacket mId st p.queue queries).1 = some p.answer ∧
    Agrees (onRxMatrixPacket mId st p.queue queries).2.1 p.queried ∧
    (onRxMatrixPacket mId st p.queue queries).2.2 = p.queried.queue := by
  unfold onRxMatrixPacket Poller.answer Poller.queried
  by_cases hreg : p.registered = true
  · have hcnt : st.rcvCnt ≠ 0 := fun h0 => by
      rw [h.counter.mp h0] at hreg
      cases hreg
    rw [if_neg hcnt, if_pos hq, if_pos hreg, if_pos hreg]
    cases hqueue : p.queue with
    | nil => exact ⟨congrArg some h.buffer, h, hqueue.symm⟩
    | cons msg rest => exact ⟨by rw [h.buffer], ⟨h.counter, by rw [h.buffer]⟩, rfl⟩
  · have hcnt : st.rcvCnt = 0 := h.counter.mpr (by simpa using hreg)
    rw [if_pos hcnt, if_pos hq, if_neg hreg, if_neg hreg]
    refine ⟨rfl, ⟨?_, h.buffer⟩, rfl⟩
    exact iff_of_false (Nat.succ_ne_zero _) (by simp)

/-- The second byte of a packet is never that of the registration. -/
theorem buildPacketFromMessage_b2 {buf : JxjPacket} {msg : KeyboardMessage} (h : buf.b2 ≠ reg.b2) :
    (buildPacketFromMessage buf msg).b2 ≠ reg.b2 := by
  unfold buildPacketFromMessage
  cases msg.type with
  | switch =>
    show (0x11 : Byte) ≠ reg.b2
    decide
  | ptz =>
    show (writePtz { buf with b0 := 0xff, b1 := 0x00 } msg).b2 ≠ reg.b2
    rw [writePtz_b2]
    decide
  | unknown => exact h
  | pin => exact h

/-- A byte that is not the keyboard's query changes nothing. -/
theorem onRxMatrixPacket_other {mId : Int} {st : Statics} {mFifo : List KeyboardMessage} {queries : Byte}
    (hq : ¬ IsQuery mId queries) : onRxMatrixPacket mId st mFifo queries = (none, st, mFifo) := by
  unfold onRxMatrixPacket
  rw [if_neg hq, if_neg hq, ite_self]

/-- Nor is that of a buffer. -/
theorem buffer_b2 (setup : JxjSetup ι) (es : List (JxjEvent ι)) (c : JxjClass) :
    ((afterEvents setup es).statics c).buf.b2 ≠ reg.b2 := by
  induction es using List.reverseRecOn with
  | nil =>
    show startBuf.b2 ≠ reg.b2
    decide
  | append_singleton es e ih =>
    rw [afterEvents_snoc]
    cases e with
    | enqueue i msg => exact ih
    | byte i queries =>
      rw [next_statics]
      by_cases hc : c = setup.cls i
      · subst hc
        rw [if_pos rfl]
        unfold JxjKeyboards.receive onRxMatrixPacket
        split_ifs
        · exact ih
        · exact ih
        · cases (afterEvents setup es).mFifo i with
          | nil => exact ih
          | cons msg rest => exact buildPacketFromMessage_b2 ih
        · exact ih
      · rw [if_neg hc]
        exact ih

/-! ## Tracking -/

/-- Of the keyboards of a class, one at most has been queried. -/
def OnePolled (setup : JxjSetup ι) (es : List (JxjEvent ι)) : Prop :=
  ∀ i j, setup.cls i = setup.cls j → Polled setup es i → Polled setup es j → i = j

omit [DecidableEq ι] in
theorem OnePolled.of_snoc {setup : JxjSetup ι} {es : List (JxjEvent ι)} {e : JxjEvent ι}
    (h : OnePolled setup (es ++ [e])) : OnePolled setup es := by
  have hmono : ∀ i, Polled setup es i → Polled setup (es ++ [e]) i := by
    rintro i ⟨queries, hmem, hq⟩
    exact ⟨queries, List.mem_append_left _ hmem, hq⟩
  exact fun i j hc hi hj => h i j hc (hmono i hi) (hmono j hj)

/-- **The statics are the state of the keyboard that is queried**, and every queue is as it should be. -/
structure Tracks (setup : JxjSetup ι) (es : List (JxjEvent ι)) : Prop where
  queues : ∀ i, (afterEvents setup es).mFifo i = (poller setup i es).queue
  polled : ∀ i, Polled setup es i → Agrees ((afterEvents setup es).statics (setup.cls i)) (poller setup i es)
  fresh : ∀ c, (∀ i, setup.cls i = c → ¬ Polled setup es i) →
    Agrees ((afterEvents setup es).statics c) .start

/-- A keyboard that is queried, while no other one of its class ever was, finds statics that agree with it. -/
theorem Tracks.agrees {setup : JxjSetup ι} {es : List (JxjEvent ι)} (h : Tracks setup es) {j : ι}
    (honly : ∀ i, setup.cls i = setup.cls j → Polled setup es i → i = j) :
    Agrees ((afterEvents setup es).statics (setup.cls j)) (poller setup j es) := by
  by_cases hj : Polled setup es j
  · exact h.polled j hj
  · have hfresh := h.fresh (setup.cls j) (fun i hc hi => hj (honly i hc hi ▸ hi))
    obtain ⟨hreg, hlast⟩ := poller_polled setup j es
    constructor
    · rw [hfresh.counter]
      refine iff_of_true rfl ?_
      rw [← Bool.not_eq_true, hreg]
      exact hj
    · rw [hfresh.buffer, hlast hj]
      rfl

/-- What a keyboard that is tracked makes of its query. -/
theorem Tracks.receive {setup : JxjSetup ι} {es : List (JxjEvent ι)} (h : Tracks setup es) {j : ι}
    (honly : ∀ i, setup.cls i = setup.cls j → Polled setup es i → i = j) {queries : Byte}
    (hq : IsQuery (setup.mId j) queries) :
    ((afterEvents setup es).receive setup j queries).1 = some (poller setup j es).answer ∧
    Agrees ((afterEvents setup es).receive setup j queries).2.1 (poller setup j es).queried ∧
    ((afterEvents setup es).receive setup j queries).2.2 = (poller setup j es).queried.queue := by
  unfold JxjKeyboards.receive
  rw [h.queues j]
  exact onRxMatrixPacket_query (h.agrees honly) hq

variable {setup : JxjSetup ι} {es : List (JxjEvent ι)}

/-- **A message that is queued** keeps track. -/
theorem Tracks.enqueue (h : Tracks setup es) (j : ι) (msg : KeyboardMessage) :
    Tracks setup (es ++ [JxjEvent.enqueue j msg]) := by
  have hstatics : (afterEvents setup (es ++ [JxjEvent.enqueue j msg])).statics = (afterEvents setup es).statics := by
    rw [afterEvents_snoc]
    rfl
  constructor
  · intro i
    rw [afterEvents_snoc, next_mFifo_enqueue, poller_enqueue]
    by_cases hij : i = j
    · subst hij
      rw [if_pos rfl, if_pos rfl, h.queues]
    · rw [if_neg hij, if_neg (Ne.symm hij)]
      exact h.queues i
  · intro i hi
    have hagrees := h.polled i ((polled_enqueue setup es i j msg).mp hi)
    rw [hstatics, poller_enqueue]
    split_ifs
    · exact ⟨hagrees.counter, hagrees.buffer⟩
    · exact hagrees
  · intro c hc
    rw [hstatics]
    exact h.fresh c (fun i hi hp => hc i hi ((polled_enqueue setup es i j msg).mpr hp))

/-- **A byte that is nobody's query** keeps track. -/
theorem Tracks.other (h : Tracks setup es) {j : ι} {queries : Byte} (hq : ¬ IsQuery (setup.mId j) queries) :
    Tracks setup (es ++ [JxjEvent.byte j queries]) := by
  have hsame : ∀ i, Polled setup (es ++ [JxjEvent.byte j queries]) i ↔ Polled setup es i := by
    intro i
    rw [polled_byte]
    refine or_iff_left ?_
    rintro ⟨rfl, hq'⟩
    exact hq hq'
  have hpoller : ∀ i, poller setup i (es ++ [JxjEvent.byte j queries]) = poller setup i es := by
    intro i
    rw [poller_byte]
    split_ifs with hij hq'
    · exact absurd (hij ▸ hq') hq
    · rfl
    · rfl
  have hks : afterEvents setup (es ++ [JxjEvent.byte j queries]) = afterEvents setup es := by
    rw [afterEvents_snoc]
    show JxjKeyboards.mk _ _ = _
    unfold JxjKeyboards.receive
    rw [onRxMatrixPacket_other hq, Function.update_eq_self, Function.update_eq_self]
  constructor
  · intro i
    rw [hks, hpoller]
    exact h.queues i
  · intro i hi
    rw [hks, hpoller]
    exact h.polled i ((hsame i).mp hi)
  · intro c hc
    rw [hks]
    exact h.fresh c (fun i hi hp => hc i hi ((hsame i).mpr hp))

/-- **A query** keeps track, where no other keyboard of the class is queried, then or before. -/
theorem Tracks.query (h : Tracks setup es) {j : ι} {queries : Byte} (hq : IsQuery (setup.mId j) queries)
    (hone : OnePolled setup (es ++ [JxjEvent.byte j queries])) : Tracks setup (es ++ [JxjEvent.byte j queries]) := by
  have hpolled : Polled setup (es ++ [JxjEvent.byte j queries]) j := (polled_byte _ _ _ _ _).mpr (Or.inr ⟨rfl, hq⟩)
  have honly : ∀ i, setup.cls i = setup.cls j → Polled setup es i → i = j := fun i hc hi =>
    hone i j hc ((polled_byte _ _ _ _ _).mpr (Or.inl hi)) hpolled
  obtain ⟨-, hagrees, hqueue⟩ := h.receive honly hq
  have hown : poller setup j (es ++ [JxjEvent.byte j queries]) = (poller setup j es).queried := by
    rw [poller_byte, if_pos rfl, if_pos hq]
  have hother : ∀ i, i ≠ j → poller setup i (es ++ [JxjEvent.byte j queries]) = poller setup i es := by
    intro i hij
    rw [poller_byte, if_neg (Ne.symm hij)]
  constructor
  · intro i
    rw [afterEvents_snoc, next_mFifo]
    by_cases hij : i = j
    · subst hij
      rw [if_pos rfl, hown]
      exact hqueue
    · rw [if_neg hij, hother i hij]
      exact h.queues i
  · intro i hi
    rw [afterEvents_snoc, next_statics]
    by_cases hc : setup.cls i = setup.cls j
    · obtain rfl : i = j := hone i j hc hi hpolled
      rw [if_pos rfl, hown]
      exact hagrees
    · have hij : i ≠ j := fun he => hc (congrArg setup.cls he)
      rw [if_neg hc, hother i hij]
      rcases (polled_byte _ _ _ _ _).mp hi with hi | ⟨he, -⟩
      · exact h.polled i hi
      · exact absurd he hij
  · intro c hc
    rw [afterEvents_snoc, next_statics, if_neg (fun he => hc j he.symm hpolled)]
    exact h.fresh c (fun i hi hp => hc i hi ((polled_byte _ _ _ _ _).mpr (Or.inl hp)))

/-- **Every run is tracked** in which no second keyboard of a class is queried. -/
theorem tracks_of_onePolled (hone : OnePolled setup es) : Tracks setup es := by
  induction es using List.reverseRecOn with
  | nil =>
    refine ⟨fun _ => rfl, ?_, fun _ _ => ⟨iff_of_true rfl rfl, rfl⟩⟩
    rintro i ⟨queries, hmem, -⟩
    exact absurd hmem List.not_mem_nil
  | append_singleton es e ih =>
    have htr := ih hone.of_snoc
    cases e with
    | enqueue j msg => exact htr.enqueue j msg
    | byte j queries =>
      by_cases hq : IsQuery (setup.mId j) queries
      · exact htr.query hq hone
      · exact htr.other hq

/-! ## The exact condition -/

/-- The answer the protocol has keyboard `i` give to a byte, after the events. -/
def protocolAnswer (setup : JxjSetup ι) (es : List (JxjEvent ι)) (i : ι) (queries : Byte) : Option JxjPacket :=
  if IsQuery (setup.mId i) queries then some (poller setup i es).answer else none

/-- **Every byte of the run is answered as the protocol has it.** -/
def FollowsProtocol (setup : JxjSetup ι) (es : List (JxjEvent ι)) : Prop :=
  ∀ before i queries after, es = before ++ .byte i queries :: after →
    ((afterEvents setup before).receive setup i queries).1 = protocolAnswer setup before i queries

theorem FollowsProtocol.of_snoc {e : JxjEvent ι} (h : FollowsProtocol setup (es ++ [e])) :
    FollowsProtocol setup es := by
  rintro before i queries after rfl
  exact h before i queries (after ++ [e]) (by rw [List.append_assoc]; rfl)

/-- A second keyboard of a class is not answered with its registration. -/
theorem not_registered {i j : ι} (htr : Tracks setup es) (hc : setup.cls i = setup.cls j)
    (hi : Polled setup es i) (hj : ¬ Polled setup es j) {queries : Byte} (hq : IsQuery (setup.mId j) queries) :
    ((afterEvents setup es).receive setup j queries).1 ≠ protocolAnswer setup es j queries := by
  have hcnt : ((afterEvents setup es).statics (setup.cls j)).rcvCnt ≠ 0 := by
    intro h0
    have hreg := (htr.polled i hi).counter.mp (hc ▸ h0)
    rw [(poller_polled setup i es).1.mpr hi] at hreg
    cases hreg
  have hunreg : ¬ (poller setup j es).registered = true := fun hr => hj ((poller_polled setup j es).1.mp hr)
  have hb2 := buffer_b2 setup es (setup.cls j)
  have hexpected : protocolAnswer setup es j queries = some reg := by
    unfold protocolAnswer Poller.answer
    rw [if_pos hq, if_neg hunreg]
  rw [hexpected]
  unfold JxjKeyboards.receive onRxMatrixPacket
  rw [if_neg hcnt, if_pos hq]
  cases (afterEvents setup es).mFifo j with
  | nil => exact fun he => hb2 (congrArg JxjPacket.b2 (Option.some.inj he))
  | cons msg rest =>
    exact fun he => buildPacketFromMessage_b2 hb2 (congrArg JxjPacket.b2 (Option.some.inj he))

/-- **The poll protocol, exactly.** Over any events of any number of keyboards, every byte is answered as the
    protocol has it — by a function of the keyboard's own events — if and only if, of each class, one keyboard
    at most receives queries of its own. -/
theorem poll_protocol (setup : JxjSetup ι) (es : List (JxjEvent ι)) :
    FollowsProtocol setup es ↔ OnePolled setup es := by
  induction es using List.reverseRecOn with
  | nil =>
    refine iff_of_true ?_ ?_
    · intro before i queries after he
      exact absurd he.symm (List.append_ne_nil_of_right_ne_nil _ (List.cons_ne_nil _ _))
    · rintro i j - ⟨queries, hmem, -⟩
      exact absurd hmem List.not_mem_nil
  | append_singleton es e ih =>
    constructor
    · intro h
      have hone := ih.mp h.of_snoc
      cases e with
      | enqueue j msg =>
        intro i k hc hi hk
        exact hone i k hc ((polled_enqueue _ _ _ _ _).mp hi) ((polled_enqueue _ _ _ _ _).mp hk)
      | byte j queries =>
        -- whoever was queried before in the class is the one that is queried now
        have hnow : ∀ i, setup.cls i = setup.cls j → IsQuery (setup.mId j) queries → Polled setup es i →
            i = j := by
          intro i hc hq hi
          by_contra hij
          have hj : ¬ Polled setup es j := fun hj => hij (hone i j hc hi hj)
          exact not_registered (tracks_of_onePolled hone) hc hi hj hq (h es j queries [] rfl)
        intro i k hc hi hk
        rcases (polled_byte _ _ _ _ _).mp hi with hi₀ | ⟨rfl, hq⟩
        · rcases (polled_byte _ _ _ _ _).mp hk with hk₀ | ⟨rfl, hq⟩
          · exact hone i k hc hi₀ hk₀
          · exact hnow i hc hq hi₀
        · rcases (polled_byte _ _ _ _ _).mp hk with hk₀ | ⟨rfl, -⟩
          · exact (hnow k hc.symm hq hk₀).symm
          · rfl
    · intro h before i queries after he
      have hrun : OnePolled setup (before ++ [JxjEvent.byte i queries]) := by
        have hsub : ∀ k, Polled setup (before ++ [JxjEvent.byte i queries]) k → Polled setup (es ++ [e]) k := by
          rintro k ⟨q, hmem, hq⟩
          refine ⟨q, ?_, hq⟩
          rw [he]
          rcases List.mem_append.mp hmem with hmem | hmem
          · exact List.mem_append_left _ hmem
          · exact List.mem_append_right _ (List.mem_cons.mpr (Or.inl (List.mem_singleton.mp hmem)))
        exact fun k l hc hk hl => h k l hc (hsub k hk) (hsub l hl)
      have htr := tracks_of_onePolled hrun.of_snoc
      unfold protocolAnswer
      by_cases hq : IsQuery (setup.mId i) queries
      · rw [if_pos hq]
        have hpolled : Polled setup (before ++ [JxjEvent.byte i queries]) i :=
          (polled_byte _ _ _ _ _).mpr (Or.inr ⟨rfl, hq⟩)
        exact (htr.receive (fun k hc hk =>
          hrun k i hc ((polled_byte _ _ _ _ _).mpr (Or.inl hk)) hpolled) hq).1
      · rw [if_neg hq]
        unfold JxjKeyboards.receive
        rw [onRxMatrixPacket_other hq]

/-- Two keyboards, and a query for each: the second one is answered with a switch. -/
theorem second_keyboard_not_registered :
    ¬ ∀ (setup : JxjSetup Bool) (es : List (JxjEvent Bool)), Function.Injective setup.mId →
      FollowsProtocol setup es := by
  intro h
  let setup : JxjSetup Bool := ⟨fun _ => .jxj, fun i => if i then 2 else 1⟩
  have hinj : Function.Injective setup.mId := by decide
  have hsecond := h setup [.byte false 0x51, .byte true 0x52] hinj [.byte false 0x51] true 0x52 [] rfl
  exact absurd hsecond (by decide)

end Mcc
