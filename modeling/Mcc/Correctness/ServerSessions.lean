import Mcc.Correctness.TcpServer

/-!
# `Correctness.ServerSessions` — what a server's handler is told

A handler is told of every connection as of one session: it is new, it is readable with the next bytes the client has
sent, and it ends. `told_of_run` says so of every run of a server, and what each way to end leaves behind:

- where `recv` returns 0, everything the client sent has been heard;
- where `recv` fails, the descriptor is closed, but the handler hears of it by `onExcept` alone;
- where `epoll` reports a descriptor that is not readable, it is never closed.

The client manager does nothing in `onExcept`. So its set of descriptors is that of the sessions and those whose read
failed, until a new connection gets the same number (`listed_iff`).
-/

namespace Mcc

open Transition

/-- How a session ends. -/
inductive ConnectionEnd where
  | closed
  | failed (len : Int)
  | hungUp
deriving DecidableEq

namespace ServerEvent

/-- What the calls of a round tell about its connection. -/
def told : List ServerCall → Option (Session.Note (List Byte) ConnectionEnd)
  | [.epollAdd _, .onNewConnection _] => some .began
  | [.onReadable _ bytes] => some (.said bytes)
  | [.epollDel _, .onDisconnect _, .close _] => some (.ended .closed)
  | [.close _, .onExcept _ len] => some (.ended (.failed len))
  | [.epollDel _, .onDisconnect _] => some (.ended .hungUp)
  | _ => none

/-- The connection a round is about. -/
def subject : ServerEvent → Option ℕ
  | .accept _ c _ => some c
  | .recv _ (some (.client c)) _ _ => some c
  | .hup _ (some (.client c)) _ => some c
  | _ => none

/-- What the handler is told about `c`. -/
def note (c : ℕ) (e : ServerEvent) : Option (Session.Note (List Byte) ConnectionEnd) :=
  if e.subject = some c then told e.calls else none

/-- What the handler hears of `c`. -/
def heard (c : ℕ) (e : ServerEvent) : List Byte := (Session.said (e.note c).toList).flatten

end ServerEvent

namespace ServerNet

variable {n n' : ServerNet} {e : ServerEvent} {c : ℕ}

/-- What the handler is told about `c`, in order. -/
def log (c : ℕ) (es : List ServerEvent) : List (Session.Note (List Byte) ConnectionEnd) :=
  es.filterMap (ServerEvent.note c)

/-- What client `c` sends. -/
def sentBy (c : ℕ) (es : List ServerEvent) : List Byte := es.flatMap (ServerEvent.sent c)

/-! ## Sessions -/

/-- A descriptor that another has changes hands. -/
theorem serves_hand_iff {fd : Int} {heir : Option Holder} (hwatched : n.watched fd = false) :
    Serves { n with holder := Function.update n.holder fd heir } c ↔ n.Serves c := by
  refine exists_congr fun fd' => ?_
  by_cases heq : fd' = fd
  · subst heq
    simp [hwatched]
  · simp only [Function.update_of_ne heq]

/-- The connection whose descriptor is no longer watched is no longer served, and the others are. -/
theorem Sound.serves_unwatch_iff (hn : Sound n) {fd : Int} {d : ℕ} (hfd : n.holder fd = some (.client d)) :
    Serves { n with watched := Function.update n.watched fd false } c ↔ n.Serves c ∧ c ≠ d := by
  constructor
  · rintro ⟨fd', hholder, hwatched⟩
    by_cases heq : fd' = fd
    · simp [heq] at hwatched
    · simp only [Function.update_of_ne heq] at hwatched
      refine ⟨⟨fd', hholder, hwatched⟩, ?_⟩
      rintro rfl
      exact heq (hn.unique fd' fd c hholder hfd)
  · rintro ⟨⟨fd', hholder, hwatched⟩, hne⟩
    have heq : fd' ≠ fd := by
      rintro rfl
      rw [hfd] at hholder
      obtain rfl : d = c := by simpa using hholder
      exact hne rfl
    refine ⟨fd', hholder, ?_⟩
    simpa only [Function.update_of_ne heq] using hwatched

/-- The connection whose descriptor is closed is no longer served, and the others are. -/
theorem Sound.serves_close_iff (hn : Sound n) {fd : Int} {d : ℕ} (hfd : n.holder fd = some (.client d)) :
    Serves { n with
      holder := Function.update n.holder fd none, watched := Function.update n.watched fd false } c ↔
      n.Serves c ∧ c ≠ d := by
  rw [← hn.serves_unwatch_iff hfd]
  exact serves_hand_iff (n := { n with watched := Function.update n.watched fd false }) (Function.update_self ..)

/-- The connection that is accepted is served, and the others as before. -/
theorem serves_accept_iff {fd : Int} {d : ℕ} (hfd : n.holder fd = none) :
    Serves { n with
      holder := Function.update n.holder fd (some (.client d)), watched := Function.update n.watched fd true } c ↔
      n.Serves c ∨ c = d := by
  constructor
  · rintro ⟨fd', hholder, hwatched⟩
    by_cases heq : fd' = fd
    · subst heq
      right
      simpa [eq_comm] using hholder
    · simp only [Function.update_of_ne heq] at hholder hwatched
      exact Or.inl ⟨fd', hholder, hwatched⟩
  · rintro (⟨fd', hholder, hwatched⟩ | rfl)
    · have heq : fd' ≠ fd := by
        rintro rfl
        rw [hfd] at hholder
        cases hholder
      refine ⟨fd', ?_, ?_⟩
      · simpa only [Function.update_of_ne heq] using hholder
      · simpa only [Function.update_of_ne heq] using hwatched
    · exact ⟨fd, Function.update_self .., Function.update_self ..⟩

/-- Nothing is told about `c` and whether it is served stays, or what is told is in order. -/
def Tells (n : ServerNet) (e : ServerEvent) (n' : ServerNet) (c : ℕ) : Prop :=
  (e.note c = none ∧ (n'.Serves c ↔ n.Serves c)) ∨
    (e.note c = some .began ∧ ¬ n.Serves c ∧ n'.Serves c) ∨
    (∃ d, e.note c = some (.said d) ∧ n.Serves c ∧ n'.Serves c) ∨
    ∃ how, e.note c = some (.ended how) ∧ n.Serves c ∧ ¬ n'.Serves c

theorem note_of_subject {d : ℕ} (hsubject : e.subject = some d) :
    e.note c = if d = c then ServerEvent.told e.calls else none := by
  unfold ServerEvent.note
  simp [hsubject]

theorem tells_nothing (hsubject : e.subject = none) (hserves : n'.Serves c ↔ n.Serves c) : Tells n e n' c :=
  Or.inl ⟨by simp [ServerEvent.note, hsubject], hserves⟩

/-- A round that ends the session of `d`. -/
theorem tells_ended {d : ℕ} {how : ConnectionEnd} (hsubject : e.subject = some d)
    (htold : ServerEvent.told e.calls = some (.ended how)) (hserved : n.Serves d)
    (hserves : n'.Serves c ↔ n.Serves c ∧ c ≠ d) : Tells n e n' c := by
  have hnote := note_of_subject (c := c) hsubject
  by_cases heq : d = c
  · subst heq
    rw [if_pos rfl, htold] at hnote
    exact Or.inr (Or.inr (Or.inr ⟨how, hnote, hserved, fun h => (hserves.mp h).2 rfl⟩))
  · rw [if_neg heq] at hnote
    refine Or.inl ⟨hnote, hserves.trans ?_⟩
    simp [Ne.symm heq]

/-- **Moves tell what is in order.** -/
theorem Move.tells (h : Move n e n') (hn : Sound n) (c : ℕ) : Tells n e n' c := by
  cases h with
  | @accept e es fd d rest hevents hlisten hbacklog hfree hfd =>
    have hserves := serves_accept_iff (n := n) (c := c) (d := d) hfree
    have hnote := note_of_subject (c := c)
      (e := .accept fd d [.epollAdd fd, .onNewConnection fd]) rfl
    by_cases heq : d = c
    · subst heq
      rw [if_pos rfl] at hnote
      refine Or.inr (Or.inl ⟨hnote, ?_, hserves.mpr (Or.inr rfl)⟩)
      rintro ⟨fd', hholder, -⟩
      exact (hn.accepted fd' d hholder).2 (hbacklog ▸ List.mem_cons_self)
    · rw [if_neg heq] at hnote
      refine Or.inl ⟨hnote, hserves.trans ?_⟩
      simp [Ne.symm heq]
  | @data e es d bytes rest hevents hholder hwatched _ _ _ =>
    have hnote := note_of_subject (c := c)
      (e := .recv e.fd (some (.client d)) (.data bytes) [.onReadable e.fd bytes]) rfl
    by_cases heq : d = c
    · subst heq
      rw [if_pos rfl] at hnote
      exact Or.inr (Or.inr (Or.inl ⟨bytes, hnote, ⟨e.fd, hholder, hwatched⟩, ⟨e.fd, hholder, hwatched⟩⟩))
    · rw [if_neg heq] at hnote
      exact Or.inl ⟨hnote, Iff.rfl⟩
  | closed _ hholder hwatched _ _ => exact tells_ended rfl rfl ⟨_, hholder, hwatched⟩ (hn.serves_close_iff hholder)
  | failed _ hholder hwatched _ => exact tells_ended rfl rfl ⟨_, hholder, hwatched⟩ (hn.serves_close_iff hholder)
  | hungUp _ hholder hwatched => exact tells_ended rfl rfl ⟨_, hholder, hwatched⟩ (hn.serves_unwatch_iff hholder)
  | ignored => exact Or.inl ⟨by simp [ServerEvent.note, ServerEvent.calls, ServerEvent.told], Iff.rfl⟩
  | acquire hfree => exact tells_nothing rfl (serves_hand_iff (hn.not_watched (by simp [hfree])))
  | release hother => exact tells_nothing rfl (serves_hand_iff (hn.not_watched (by simp [hother])))
  | connect => exact tells_nothing rfl Iff.rfl
  | send _ => exact tells_nothing rfl Iff.rfl
  | shut => exact tells_nothing rfl Iff.rfl
  | wait _ _ _ => exact tells_nothing rfl Iff.rfl

open Classical in
/-- What is told of a connection over a run is in order. -/
theorem run_log {es : List ServerEvent} (h : Run Move n es n') (hn : Sound n) (c : ℕ) :
    Run Session.Step (decide (n.Serves c)) (log c es) (decide (n'.Serves c)) := by
  refine @Session.log_run _ _ _ _ Move (ServerEvent.note c) (fun n => decide (n.Serves c)) Sound
    (fun _ _ _ hs hmove => hmove.sound hs) ?_ ?_ n n' es h hn
  · intro s e s' hs hmove hnone
    rcases hmove.tells hs c with ⟨-, hserves⟩ | ⟨hnote, -⟩ | ⟨d, hnote, -⟩ | ⟨how, hnote, -⟩
    · simp [hserves]
    all_goals simp [hnone] at hnote
  · intro s e s' d hs hmove hd
    rcases hmove.tells hs c with ⟨hnote, -⟩ | ⟨hnote, hbefore, hafter⟩ | ⟨_, hnote, hbefore, hafter⟩ |
      ⟨how, hnote, hbefore, hafter⟩
    · simp [hd] at hnote
    all_goals
      obtain rfl := Option.some.inj (hd.symm.trans hnote)
      simp only [hbefore, hafter, decide_true, decide_false]
    · exact .began
    · exact .said _
    · exact .ended how

/-- A session begins where a connection is accepted. -/
theorem Move.begins_le (h : Move n e n') (c : ℕ) :
    Session.begins (e.note c).toList ≤ e.accepted.toList.count c := by
  cases h with
  | @accept e es fd d rest _ _ _ _ _ =>
    rw [note_of_subject (e := .accept fd d [.epollAdd fd, .onNewConnection fd]) rfl]
    by_cases heq : d = c
    · subst heq
      simp [ServerEvent.told, ServerEvent.calls, ServerEvent.accepted, Session.begins]
    · simp [heq, Session.begins]
  | _ =>
    unfold ServerEvent.note
    split <;> simp [ServerEvent.told, ServerEvent.calls, Session.begins]

/-- As many sessions begin as the connection is accepted, at most. -/
theorem begins_log {es : List ServerEvent} (h : Run Move n es n') (c : ℕ) :
    Session.begins (log c es) ≤ (acceptedIn es).count c := by
  induction h with
  | nil => simp [log, Session.begins]
  | @cons n n₁ n' e es hmove _ ih =>
    have hlog : log c (e :: es) = (e.note c).toList ++ log c es := by
      unfold log
      cases hnote : e.note c with
      | none => simp [List.filterMap_cons_none hnote]
      | some d => simp [List.filterMap_cons_some hnote]
    rw [hlog, acceptedIn_cons, Session.begins_append, List.count_append]
    exact Nat.add_le_add (hmove.begins_le c) ih

/-! ## What is heard -/

/-- A move takes what the handler hears from the front of what the client has sent. -/
theorem Move.bytes (h : Move n e n') (c : ℕ) : n.unread c ++ e.sent c = e.heard c ++ n'.unread c := by
  cases h with
  | @send d bytes _ =>
    by_cases heq : d = c
    · subst heq
      simp [ServerEvent.sent, ServerEvent.heard, ServerEvent.note, ServerEvent.subject, Session.said]
    · simp [ServerEvent.sent, ServerEvent.heard, ServerEvent.note, ServerEvent.subject, Session.said, heq,
        Function.update_of_ne (Ne.symm heq)]
  | @data e es d bytes rest _ _ _ _ _ hunread =>
    by_cases heq : d = c
    · subst heq
      simp [ServerEvent.sent, ServerEvent.heard, ServerEvent.note, ServerEvent.subject, ServerEvent.calls,
        ServerEvent.told, Session.said, hunread]
    · simp [ServerEvent.sent, ServerEvent.heard, ServerEvent.note, ServerEvent.subject, Session.said, heq,
        Function.update_of_ne (Ne.symm heq)]
  | _ =>
    unfold ServerEvent.heard ServerEvent.note
    split <;> simp [ServerEvent.sent, ServerEvent.told, ServerEvent.calls, Session.said]

theorem run_bytes {es : List ServerEvent} (h : Run Move n es n') (c : ℕ) :
    n.unread c ++ sentBy c es = (Session.said (log c es)).flatten ++ n'.unread c := by
  induction h with
  | nil => simp [sentBy, log, Session.said]
  | @cons n n₁ n' e es hmove _ ih =>
    have hlog : (Session.said (log c (e :: es))).flatten = e.heard c ++ (Session.said (log c es)).flatten := by
      unfold log ServerEvent.heard
      cases hnote : e.note c with
      | none => simp [List.filterMap_cons_none hnote, Session.said]
      | some d =>
        rw [List.filterMap_cons_some hnote, ← List.flatten_append, ← Session.said_append]
        rfl
    have hsent : sentBy c (e :: es) = e.sent c ++ sentBy c es := List.flatMap_cons ..
    calc n.unread c ++ sentBy c (e :: es) = (n.unread c ++ e.sent c) ++ sentBy c es := by
          rw [hsent, List.append_assoc]
      _ = e.heard c ++ (n₁.unread c ++ sentBy c es) := by rw [hmove.bytes, List.append_assoc]
      _ = (Session.said (log c (e :: es))).flatten ++ n'.unread c := by rw [ih, hlog, List.append_assoc]

/-- The client will send no more, and nothing is left to read. -/
def Drained (n : ServerNet) (c : ℕ) : Prop := n.unread c = [] ∧ n.shut c = true

theorem Move.drained (h : Move n e n') (hdrained : n.Drained c) : n'.Drained c := by
  obtain ⟨hunread, hshut⟩ := hdrained
  cases h with
  | @send d bytes hopen =>
    have hne : c ≠ d := by
      rintro rfl
      rw [hshut] at hopen
      cases hopen
    exact ⟨by simpa only [Function.update_of_ne hne] using hunread, hshut⟩
  | @shut d =>
    refine ⟨hunread, ?_⟩
    by_cases heq : c = d
    · simp [heq]
    · simpa only [Function.update_of_ne heq] using hshut
  | @data e es d bytes rest _ _ _ hbytes _ hmore =>
    have hne : c ≠ d := by
      rintro rfl
      rw [hunread] at hmore
      exact hbytes (List.append_eq_nil_iff.mp hmore.symm).1
    exact ⟨by simpa only [Function.update_of_ne hne] using hunread, hshut⟩
  | _ => exact ⟨hunread, hshut⟩

/-- Where `recv` returns 0 everything has been heard. -/
theorem Move.drained_of_closed (h : Move n e n') (hnote : e.note c = some (.ended .closed)) : n'.Drained c := by
  cases h with
  | @closed e es d hevents hholder hwatched hunread hshut =>
    rw [note_of_subject (d := d) rfl] at hnote
    by_cases heq : d = c
    · subst heq
      exact ⟨hunread, hshut⟩
    · simp [heq] at hnote
  | _ =>
    unfold ServerEvent.note at hnote
    split at hnote <;> simp [ServerEvent.told, ServerEvent.calls] at hnote

/-! ## What is left open -/

/-- `c` still has a descriptor, and nobody watches it. -/
def Leaked (n : ServerNet) (c : ℕ) : Prop := ∃ fd, n.holder fd = some (.client c) ∧ n.watched fd = false

/-- A descriptor changes hands in the rest of the program. -/
theorem leaked_hand_iff {fd : Int} {heir : Option Holder} (hfd : n.holder fd ≠ some (.client c))
    (hheir : heir ≠ some (.client c)) :
    Leaked { n with holder := Function.update n.holder fd heir } c ↔ n.Leaked c := by
  refine exists_congr fun fd' => ?_
  by_cases heq : fd' = fd
  · subst heq
    simp [hfd, hheir]
  · simp only [Function.update_of_ne heq]

/-- A free descriptor is given to a connection, and watched. -/
theorem leaked_accept_iff {fd : Int} {heir : Option Holder} (hfree : n.holder fd = none) :
    Leaked { n with
      holder := Function.update n.holder fd heir, watched := Function.update n.watched fd true } c ↔ n.Leaked c := by
  refine exists_congr fun fd' => ?_
  by_cases heq : fd' = fd
  · subst heq
    simp [hfree]
  · simp only [Function.update_of_ne heq]

/-- A descriptor that was watched is closed. -/
theorem leaked_close_iff {fd : Int} (hwatched : n.watched fd = true) :
    Leaked { n with
      holder := Function.update n.holder fd none, watched := Function.update n.watched fd false } c ↔ n.Leaked c := by
  refine exists_congr fun fd' => ?_
  by_cases heq : fd' = fd
  · subst heq
    simp [hwatched]
  · simp only [Function.update_of_ne heq]

/-- A descriptor that was watched is no longer, and stays open. -/
theorem leaked_unwatch_iff {fd : Int} {d : ℕ} (hholder : n.holder fd = some (.client d)) :
    Leaked { n with watched := Function.update n.watched fd false } c ↔ n.Leaked c ∨ d = c := by
  constructor
  · rintro ⟨fd', hholder', hwatched'⟩
    by_cases heq : fd' = fd
    · rw [heq, hholder] at hholder'
      exact Or.inr (by simpa using hholder')
    · simp only [Function.update_of_ne heq] at hwatched'
      exact Or.inl ⟨fd', hholder', hwatched'⟩
  · rintro (⟨fd', hholder', hwatched'⟩ | rfl)
    · refine ⟨fd', hholder', ?_⟩
      by_cases heq : fd' = fd
      · rw [heq]
        exact Function.update_self ..
      · simpa only [Function.update_of_ne heq] using hwatched'
    · exact ⟨fd, hholder, Function.update_self ..⟩

/-- What a round tells of its connection, where that is no `EPOLLHUP`. -/
theorem note_ne_hungUp (htold : ServerEvent.told e.calls ≠ some (.ended .hungUp)) :
    e.note c ≠ some (.ended .hungUp) := by
  unfold ServerEvent.note
  split
  · exact htold
  · simp

/-- A connection is left unwatched after a move if it was before, or if its descriptor was reported and not
    readable. -/
theorem Move.leaked (h : Move n e n') (c : ℕ) :
    n'.Leaked c ↔ n.Leaked c ∨ e.note c = some (.ended .hungUp) := by
  cases h with
  | accept _ _ _ hfree _ =>
    rw [or_iff_left (note_ne_hungUp (by simp [ServerEvent.told, ServerEvent.calls]))]
    exact leaked_accept_iff hfree
  | closed _ _ hwatched _ _ =>
    rw [or_iff_left (note_ne_hungUp (by simp [ServerEvent.told, ServerEvent.calls]))]
    exact leaked_close_iff hwatched
  | failed _ _ hwatched _ =>
    rw [or_iff_left (note_ne_hungUp (by simp [ServerEvent.told, ServerEvent.calls]))]
    exact leaked_close_iff hwatched
  | @hungUp e es d _ hholder _ =>
    have htold : ServerEvent.told
        (ServerEvent.calls (.hup e.fd (some (.client d)) [.epollDel e.fd, .onDisconnect e.fd])) =
          some (.ended .hungUp) := rfl
    rw [note_of_subject (d := d) rfl, htold]
    exact (leaked_unwatch_iff (n := n) hholder).trans (by simp)
  | acquire hfree =>
    rw [or_iff_left (note_ne_hungUp (by simp [ServerEvent.told, ServerEvent.calls]))]
    exact leaked_hand_iff (by simp [hfree]) (by simp)
  | release hother =>
    rw [or_iff_left (note_ne_hungUp (by simp [ServerEvent.told, ServerEvent.calls]))]
    exact leaked_hand_iff (by simp [hother]) (by simp)
  | _ =>
    rw [or_iff_left (note_ne_hungUp (by simp [ServerEvent.told, ServerEvent.calls]))]
    exact Iff.rfl

theorem run_leaked {es : List ServerEvent} (h : Run Move n es n') (c : ℕ) :
    n'.Leaked c ↔ n.Leaked c ∨ .ended .hungUp ∈ log c es := by
  induction h with
  | nil => simp [log]
  | @cons n n₁ n' e es hmove _ ih =>
    rw [ih, hmove.leaked, or_assoc]
    have hmem : (.ended .hungUp ∈ log c (e :: es)) ↔
        e.note c = some (.ended .hungUp) ∨ .ended .hungUp ∈ log c es := by
      unfold log
      cases hnote : e.note c with
      | none => simp [List.filterMap_cons_none hnote]
      | some d => simp [List.filterMap_cons_some hnote, eq_comm]
    rw [hmem]

/-! ## The sessions of a run -/

/-- What the handler has been told of `c`, and what there is of it. -/
structure Told (n : ServerNet) (es : List ServerEvent) (c : ℕ) : Prop where
  /-- it is one session: `c` is served while it is open -/
  session : (log c es = [] ∧ ¬ n.Serves c) ∨ (∃ ds, log c es = Session.opened ds ∧ n.Serves c) ∨
    ∃ s, log c es = Session.closed s ∧ ¬ n.Serves c
  /-- what was heard and what is not read yet is what `c` has sent -/
  bytes : sentBy c es = (Session.said (log c es)).flatten ++ n.unread c
  /-- a connection that was closed has been heard to its end -/
  complete : ∀ ds, log c es = Session.closed (ds, .closed) → sentBy c es = ds.flatten
  /-- a descriptor nobody watches is left where the session ended by `EPOLLHUP` -/
  leaked : n.Leaked c ↔ ∃ ds, log c es = Session.closed (ds, .hungUp)

theorem mem_closed_iff {how : ConnectionEnd} {s : List (List Byte) × ConnectionEnd} :
    .ended how ∈ (Session.closed s : List (Session.Note (List Byte) ConnectionEnd)) ↔ s.2 = how := by
  simp [Session.closed, Session.opened, eq_comm]

/-- What was heard and what is not read yet is what `c` has sent. -/
theorem bytes_of_run {es : List ServerEvent} (h : Run Step n es n') (hn : Start n) (c : ℕ) :
    sentBy c es = (Session.said (log c es)).flatten ++ n'.unread c := by
  rw [← run_bytes (run_move h hn.sound).1 c, hn.unread, List.nil_append]

/-- A connection that was closed has been heard to its end: nothing is left to read, then and later. -/
theorem complete_of_run {es : List ServerEvent} (h : Run Step n es n') (hn : Start n) {c : ℕ} {ds : List (List Byte)}
    (hlog : log c es = Session.closed (ds, .closed)) : sentBy c es = ds.flatten := by
  have hmem : .ended .closed ∈ log c es := hlog ▸ mem_closed_iff.mpr rfl
  obtain ⟨e, he, hnote⟩ := List.mem_filterMap.mp hmem
  obtain ⟨before, n₁, n₂, after, -, -, hmove, hafter⟩ := (run_move h hn.sound).1.through he
  have hdrained : n'.Drained c := hafter.invariant (I := fun n => Drained n c)
    (fun _ _ _ hd hmove => hmove.drained hd) (hmove.drained_of_closed hnote)
  rw [bytes_of_run h hn c, hlog, Session.said_closed, hdrained.1, List.append_nil]

/-- **One session**: a connection is accepted once, so its log has not begun, is open, or has been closed. -/
theorem session_of_run {es : List ServerEvent} (h : Run Step n es n') (hn : Start n) (c : ℕ) :
    (log c es = [] ∧ ¬ n'.Serves c) ∨ (∃ ds, log c es = Session.opened ds ∧ n'.Serves c) ∨
      ∃ s, log c es = Session.closed s ∧ ¬ n'.Serves c := by
  classical
  obtain ⟨hmoves, -⟩ := run_move h hn.sound
  have hidle : ¬ n.Serves c := fun ⟨fd, hholder, _⟩ => hn.clients fd c hholder
  have hlog := run_log hmoves hn.sound c
  rw [decide_eq_false hidle] at hlog
  have hnodup : (acceptedIn es).Nodup := by
    have hall : (acceptedIn es ++ n'.backlog).Nodup := queue_of_run h hn ▸ List.nodup_range
    exact (List.nodup_append.mp hall).1
  have honce : Session.begins (log c es) ≤ 1 :=
    (begins_log hmoves c).trans (List.nodup_iff_count_le_one.mp hnodup c)
  simpa only [decide_eq_false_iff_not, decide_eq_true_iff] using Session.run_once hlog honce

/-- **What a handler is told**, over every run of its server. -/
theorem told_of_run {es : List ServerEvent} (h : Run Step n es n') (hn : Start n) (c : ℕ) : Told n' es c where
  session := session_of_run h hn c
  bytes := bytes_of_run h hn c
  complete := fun _ => complete_of_run h hn
  leaked := by
    have hnone : ¬ n.Leaked c := fun ⟨fd, hholder, _⟩ => hn.clients fd c hholder
    rw [run_leaked (run_move h hn.sound).1 c, or_iff_right hnone]
    constructor
    · intro hmem
      rcases session_of_run h hn c with ⟨hlog, -⟩ | ⟨ds, hlog, -⟩ | ⟨⟨ds, how⟩, hlog, -⟩
      · simp [hlog] at hmem
      · simp [hlog, Session.opened] at hmem
      · rw [hlog, mem_closed_iff] at hmem
        exact ⟨ds, hmem ▸ hlog⟩
    · rintro ⟨ds, hds⟩
      rw [hds, mem_closed_iff]

/-- A client that sends once, and closes, can be heard to its end. -/
theorem exists_heard {bytes : List Byte} (hne : bytes ≠ []) (hle : bytes.length ≤ recvSize) :
    ∃ es n, Run Step (started 3) es n ∧ sentBy 0 es = bytes ∧ log 0 es = Session.closed ([bytes], .closed) := by
  have hlisten : (7 : Int) ≠ 3 := by decide
  have hrun : ∃ n, Run Step (started 3) [.connect false, .send 0 bytes, .shut 0, .wait [⟨3, true, false⟩],
      .accept 7 0 [.epollAdd 7, .onNewConnection 7], .wait [⟨7, true, false⟩],
      .recv 7 (some (.client 0)) (.data bytes) [.onReadable 7 bytes], .wait [⟨7, true, false⟩],
      .recv 7 (some (.client 0)) .closed [.epollDel 7, .onDisconnect 7, .close 7]] n ∧ n.pending = 0 := by
    refine Run.exists_cons .connect ?_
    refine Run.exists_cons (.send (by simp [started]) rfl) ?_
    refine Run.exists_cons (.shut (by simp [started])) ?_
    refine Run.exists_cons (.wait rfl (by decide) (by decide) (by simp [started])) ?_
    refine Run.exists_cons (.accept (r := .closed) rfl rfl rfl rfl rfl) ?_
    refine Run.exists_cons (.wait rfl (by decide) (by decide) (by simp [call])) ?_
    refine Run.exists_cons (@Step.recv _ ⟨7, true, false⟩ [] (.data bytes) _ 0 _ rfl hlisten rfl
      (@Recv.data _ 7 0 bytes [] rfl hne hle ?_) rfl) ?_
    · simp [started, call]
    refine Run.exists_cons (.wait rfl (by decide) (by decide) (by simp [call])) ?_
    refine Run.exists_cons (@Step.recv _ ⟨7, true, false⟩ [] .closed _ 0 _ rfl hlisten rfl
      (.closed (c := 0) rfl rfl ?_) rfl) ?_
    · rfl
    exact ⟨_, .nil, rfl⟩
  obtain ⟨n, hrun, -⟩ := hrun
  exact ⟨_, n, hrun, by simp [sentBy, ServerEvent.sent], rfl⟩

/-- One byte, heard to its end. -/
theorem told_of_one : ∃ es n, Run Step (started 3) es n ∧ Told n es 0 ∧ sentBy 0 es = [(1 : Byte)] := by
  obtain ⟨es, n, hrun, hsent, -⟩ := @exists_heard [(1 : Byte)] (by decide) (by decide)
  exact ⟨es, n, hrun, told_of_run hrun (started_start 3) 0, hsent⟩

end ServerNet

/-! ## The descriptors of the client manager -/

/-- The descriptors whose read failed: closed, and no new connection has got the number since. -/
def ServerEvent.lose (lost : Set Int) : ServerEvent → Set Int
  | .accept fd _ _ => lost \ {fd}
  | .recv fd _ (.failed _) _ => insert fd lost
  | _ => lost

/-- A notification loses none. -/
def ClientServerEvent.lose (lost : Set Int) : ClientServerEvent → Set Int
  | .net e => e.lose lost
  | .notify .. => lost

namespace ClientServer

open ServerNet

variable {s s' : ClientServer} {e : ClientServerEvent}

/-- The descriptors lost in a run. -/
def lostIn (es : List ClientServerEvent) : Set Int := es.foldl ClientServerEvent.lose ∅

/-- A client server that has just been started. -/
structure Start (s : ClientServer) : Prop where
  net : ServerNet.Start s.net
  manager : s.manager = .start

/-- The manager knows the descriptors that are watched and those that are lost; the latter are no connection's. -/
structure Lists (s : ClientServer) (lost : Set Int) : Prop where
  sound : Sound s.net
  listed : ∀ fd, fd ∈ s.manager.mConnFdList ↔ s.net.watched fd = true ∨ fd ∈ lost
  lost : ∀ fd ∈ lost, ∀ c, s.net.holder fd ≠ some (.client c)

theorem Start.lists (h : Start s) : Lists s ∅ where
  sound := h.net.sound
  listed := by simp [h.manager, h.net.watched, ClientManager.start]
  lost := by simp

/-- A notification that does not fault leaves the descriptors. -/
theorem notify_mConnFdList {m m' : ClientManager} {mem : ClientPacket} {send : ℕ → SendResult}
    {msg : KeyboardMessage} {sent : Option (List Int)} (h : m.notify mem send msg = .ok (m', sent)) :
    m'.mConnFdList = m.mConnFdList := by
  cases hrepeat : isRepeated m.lastPacket (buildNotifyPacket msg.cameraId.mid mem msg) with
  | true =>
    rw [ClientManager.notify_repeated hrepeat] at h
    cases h
    rfl
  | false =>
    obtain ⟨-, rfl, -⟩ := (ClientManager.notify_eq_ok_iff hrepeat).mp h
    rfl

theorem mem_onNewConnection {m : ClientManager} {fd fd' : Int} :
    fd' ∈ (m.onNewConnection fd).mConnFdList ↔ fd' = fd ∨ fd' ∈ m.mConnFdList := by
  unfold ClientManager.onNewConnection
  rw [Std.ExtTreeSet.mem_insert, Std.LawfulEqCmp.compare_eq_iff_eq, eq_comm]

theorem mem_onDisconnect {m : ClientManager} {fd fd' : Int} :
    fd' ∈ (m.onDisconnect fd).mConnFdList ↔ fd' ≠ fd ∧ fd' ∈ m.mConnFdList := by
  have hcompare : compare fd fd' = .eq ↔ fd = fd' := Std.LawfulEqCmp.compare_eq_iff_eq
  unfold ClientManager.onDisconnect
  rw [Std.ExtTreeSet.mem_erase, ne_eq, hcompare, ← ne_eq, ne_comm]

/-- A descriptor that a connection has is not lost. -/
theorem Lists.not_lost {lost : Set Int} (hs : Lists s lost) {fd : Int} {c : ℕ} (hfd : s.net.holder fd = some (.client c)) :
    fd ∉ lost := fun hmem => hs.lost fd hmem c hfd

/-- The manager's descriptors after a move of the server. -/
theorem Lists.move_listed {lost : Set Int} {e : ServerEvent} {net : ServerNet} (hs : Lists s lost)
    (h : Move s.net e net) (fd' : Int) :
    fd' ∈ (e.calls.foldl ClientManager.call s.manager).mConnFdList ↔ net.watched fd' = true ∨ fd' ∈ e.lose lost := by
  cases h with
  | @accept e es fd c rest _ _ _ _ _ =>
    simp only [ServerEvent.calls, List.foldl_cons, List.foldl_nil, ClientManager.call, mem_onNewConnection,
      ServerEvent.lose, Set.mem_sdiff, Set.mem_singleton_iff, hs.listed]
    by_cases heq : fd' = fd
    · simp [heq]
    · simp [heq]
  | @closed e es c _ hholder _ _ _ =>
    simp only [ServerEvent.calls, List.foldl_cons, List.foldl_nil, ClientManager.call, mem_onDisconnect,
      ServerEvent.lose, hs.listed]
    by_cases heq : fd' = e.fd
    · simp [heq, hs.not_lost hholder]
    · simp [heq]
  | @failed e es c len _ hholder hwatched _ =>
    simp only [ServerEvent.calls, List.foldl_cons, List.foldl_nil, ClientManager.call, ServerEvent.lose,
      Set.mem_insert_iff, hs.listed]
    by_cases heq : fd' = e.fd
    · simp [heq, hwatched]
    · simp [heq]
  | @hungUp e es c _ hholder _ =>
    simp only [ServerEvent.calls, List.foldl_cons, List.foldl_nil, ClientManager.call, mem_onDisconnect,
      ServerEvent.lose, hs.listed]
    by_cases heq : fd' = e.fd
    · simp [heq, hs.not_lost hholder]
    · simp [heq]
  | _ => exact hs.listed fd'

/-- No connection gets a descriptor that stays lost. -/
theorem Lists.move_lost {lost : Set Int} {e : ServerEvent} {net : ServerNet} (hs : Lists s lost)
    (h : Move s.net e net) {fd' : Int} (hmem : fd' ∈ e.lose lost) (c' : ℕ) : net.holder fd' ≠ some (.client c') := by
  -- a descriptor that changes hands to nobody that is a connection
  have hhand : ∀ {fd : Int} {heir : Option Holder}, heir ≠ some (.client c') → (fd' ≠ fd → fd' ∈ lost) →
      Function.update s.net.holder fd heir fd' ≠ some (.client c') := by
    intro fd heir hheir hold
    by_cases heq : fd' = fd
    · rwa [heq, Function.update_self]
    · rw [Function.update_of_ne heq]
      exact hs.lost fd' (hold heq) c'
  cases h with
  | accept _ _ _ _ _ =>
    obtain ⟨hmem, hne⟩ := hmem
    simp only [Function.update_of_ne hne]
    exact hs.lost fd' hmem c'
  | closed _ _ _ _ _ => exact hhand (by simp) fun _ => hmem
  | failed _ _ _ _ => exact hhand (by simp) (Set.mem_of_mem_insert_of_ne hmem)
  | acquire _ => exact hhand (by simp) fun _ => hmem
  | release _ => exact hhand (by simp) fun _ => hmem
  | _ => exact hs.lost fd' hmem c'

/-- A move of the server, seen by the manager. -/
theorem Lists.move {lost : Set Int} {e : ServerEvent} {net : ServerNet} (hs : Lists s lost) (h : Move s.net e net) :
    Lists ⟨net, e.calls.foldl ClientManager.call s.manager⟩ (e.lose lost) :=
  ⟨h.sound hs.sound, hs.move_listed h, fun _ hmem => hs.move_lost h hmem⟩

theorem Step.lists (h : Step s e s') {lost : Set Int} (hs : Lists s lost) : Lists s' (e.lose lost) := by
  cases h with
  | net hstep => exact hs.move (hstep.move hs.sound)
  | notify hnotify =>
    exact ⟨hs.sound, fun fd => by rw [notify_mConnFdList hnotify]; exact hs.listed fd, hs.lost⟩

theorem run_lists {es : List ClientServerEvent} (h : Run Step s es s') {lost : Set Int} (hs : Lists s lost) :
    Lists s' (es.foldl ClientServerEvent.lose lost) := by
  induction h generalizing lost with
  | nil => exact hs
  | cons hstep _ ih => exact ih (hstep.lists hs)

/-- **Who is notified.** At every point of every run of the client server, a notification that is sent out goes once
    to each connection that is served, and to each descriptor lost in the run: those are no connection's, whoever has
    them by then. -/
theorem notified_iff {es : List ClientServerEvent} (h : Run Step s es s') (hs : Start s) {mem : ClientPacket}
    {send : ℕ → SendResult} {msg : KeyboardMessage} {fds : List Int} {after : ClientServer}
    (hnotify : Step s' (.notify mem send msg (some fds)) after) :
    fds.Nodup ∧ (∀ fd, fd ∈ fds ↔
        (∃ c, s'.net.holder fd = some (.client c) ∧ s'.net.watched fd = true) ∨ fd ∈ lostIn es) ∧
      ∀ fd ∈ lostIn es, ∀ c, s'.net.holder fd ≠ some (.client c) := by
  have hlists := run_lists h hs.lists
  have hfds : fds = s'.manager.mConnFdList.toList := by
    cases hnotify with
    | notify hok =>
      cases hrepeat : isRepeated s'.manager.lastPacket (buildNotifyPacket msg.cameraId.mid mem msg) with
      | true =>
        rw [ClientManager.notify_repeated hrepeat] at hok
        cases hok
      | false =>
        obtain ⟨-, -, hsent⟩ := (ClientManager.notify_eq_ok_iff hrepeat).mp hok
        exact Option.some.inj hsent
  refine ⟨?_, ?_, hlists.lost⟩
  · rw [hfds]
    refine Std.ExtTreeSet.distinct_toList.imp ?_
    rintro a b hne rfl
    exact hne Std.ReflCmp.compare_self
  · intro fd
    rw [hfds, Std.ExtTreeSet.mem_toList, hlists.listed]
    refine or_congr_left ⟨fun hwatched => ?_, fun ⟨_, _, hwatched⟩ => hwatched⟩
    obtain ⟨c, hc⟩ := hlists.sound.client fd hwatched
    exact ⟨c, hc, hwatched⟩

/-- A read fails at descriptor 7; another part of the program opens it again, and is sent the notification. -/
theorem notified_other : ∃ s es after, Run Step ⟨.started 3, .start⟩ es s ∧
    s.Step (.notify .zero (fun _ => ⟨36, 0⟩) .new (some [7])) after ∧ s.net.holder 7 = some .other ∧
    (7 : Int) ∈ lostIn es := by
  have hrun : ∃ s, Run Step ⟨.started 3, .start⟩ [.net (.connect false), .net (.wait [⟨3, true, false⟩]),
      .net (.accept 7 0 [.epollAdd 7, .onNewConnection 7]), .net (.wait [⟨7, true, false⟩]),
      .net (.recv 7 (some (.client 0)) (.failed (-1)) [.close 7, .onExcept 7 (-1)]), .net (.acquire 7)] s ∧
      s.net.holder 7 = some .other ∧ s.manager = ClientManager.start.onNewConnection 7 := by
    refine Run.exists_cons (.net .connect) ?_
    refine Run.exists_cons (.net (.wait rfl (by decide) (by decide) (by simp [started]))) ?_
    refine Run.exists_cons (.net (.accept (r := .closed) rfl rfl rfl rfl rfl)) ?_
    refine Run.exists_cons (.net (.wait rfl (by decide) (by decide) (by simp [call]))) ?_
    refine Run.exists_cons (.net (@ServerNet.Step.recv _ ⟨7, true, false⟩ [] (.failed (-1)) _ 0 _ rfl ?_ rfl
      (.failed (c := 0) rfl ?_) rfl)) ?_
    · decide
    · decide
    exact Run.exists_cons (.net (.acquire rfl)) ⟨_, .nil, rfl, rfl⟩
  obtain ⟨s, hrun, hholder, hmanager⟩ := hrun
  have hnotify : ∃ after, s.Step (.notify .zero (fun _ => ⟨36, 0⟩) .new (some [7])) after := by
    refine ⟨_, .notify ((ClientManager.notify_eq_ok_iff ?_).mpr ⟨?_, rfl, ?_⟩)⟩
    · rw [hmanager]
      decide
    · intro j _
      decide
    · rw [hmanager]
      decide
  obtain ⟨after, hnotify⟩ := hnotify
  have hstart : Start ⟨.started 3, .start⟩ := ⟨started_start 3, rfl⟩
  refine ⟨s, _, after, hrun, hnotify, hholder, ?_⟩
  rcases ((notified_iff hrun hstart hnotify).2.1 7).mp List.mem_cons_self with ⟨c, hc, -⟩ | hlost
  · rw [hholder] at hc
    cases hc
  · exact hlost

end ClientServer

end Mcc
