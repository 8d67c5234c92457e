import Mcc.Correctness.Notify
import Mcc.Model.TcpServer

/-!
# `Correctness.TcpServer` — what a server makes of its connections

Over every run of a server, whatever its clients send and however the rest of the program opens and closes
descriptors in between:

- a round reads, unregisters and closes a descriptor of one of the server's own connections (`Step.move`: with
  `Sound`, every step is a `Move`);
- connections are accepted in the order they arrive, all but as many of the last ones as arrived before the one ahead
  of them was reported (`accepts_in_order`).
-/

namespace Mcc

open Transition

/-! ## The rounds -/

namespace AsyncTCPServer

variable {mListenFd connfd : Int} {e : EpollEvent} {r : Received} {calls : List ServerCall}

theorem round_listen (h : e.fd = mListenFd) :
    round mListenFd e connfd r = .ok calls ↔ 0 ≤ connfd ∧ calls = [.epollAdd connfd, .onNewConnection connfd] := by
  unfold round
  rw [if_pos h]
  by_cases hfd : 0 ≤ connfd
  · simp [hfd, eq_comm]
  · simp [hfd]

/-- What is called for a result of `recv`. -/
def received (fd : Int) : Received → List ServerCall
  | .closed => [.epollDel fd, .onDisconnect fd, .close fd]
  | .failed len => [.close fd, .onExcept fd len]
  | .data bytes => [.onReadable fd bytes]

theorem round_recv (h : e.fd ≠ mListenFd) (hin : e.epollin = true) (hfd : 0 ≤ e.fd) :
    round mListenFd e connfd r = .ok calls ↔ calls = received e.fd r := by
  unfold round
  rw [if_neg h, if_pos hin, if_neg (by omega)]
  cases r <;> simp [received, eq_comm]

theorem round_hup (h : e.fd ≠ mListenFd) (hin : e.epollin = false) :
    round mListenFd e connfd r = .ok calls ↔
      calls = if e.epollhup then [.epollDel e.fd, .onDisconnect e.fd] else [] := by
  unfold round
  rw [if_neg h, if_neg (by simp [hin])]
  cases e.epollhup <;> simp [eq_comm]

end AsyncTCPServer

open AsyncTCPServer

namespace ServerNet

variable {n n' : ServerNet} {e : ServerEvent}

/-! ## The descriptors of a server -/

/-- What holds between the steps: what `epoll` watches and reports are connections of this server, each under one
    descriptor. -/
structure Sound (n : ServerNet) : Prop where
  listener : n.holder n.mListenFd = some .listener
  client : ∀ fd, n.watched fd = true → ∃ c, n.holder fd = some (.client c)
  nonneg : ∀ fd, n.watched fd = true → 0 ≤ fd
  unique : ∀ fd fd' c, n.holder fd = some (.client c) → n.holder fd' = some (.client c) → fd = fd'
  accepted : ∀ fd c, n.holder fd = some (.client c) → c < n.arrived ∧ c ∉ n.backlog
  backlog : n.backlog.Nodup ∧ ∀ c ∈ n.backlog, c < n.arrived
  events : (n.events.map EpollEvent.fd).Nodup
  reported : ∀ e ∈ n.events, e.fd ≠ n.mListenFd → n.watched e.fd = true

theorem Start.sound (h : Start n) : Sound n where
  listener := h.listener
  client := by simp [h.watched]
  nonneg := by simp [h.watched]
  unique := fun fd _ c hfd _ => absurd hfd (h.clients fd c)
  accepted := fun fd c hfd => absurd hfd (h.clients fd c)
  backlog := by simp [h.backlog]
  events := by simp [h.events]
  reported := by simp [h.events]

/-- A descriptor that is watched is not the listening socket's. -/
theorem Sound.ne_listen (h : Sound n) {fd : Int} (hfd : n.watched fd = true) : fd ≠ n.mListenFd := by
  rintro rfl
  obtain ⟨c, hc⟩ := h.client _ hfd
  rw [h.listener] at hc
  cases hc

/-- What the steps come to: every round but an accepting one is about a connection that is watched. -/
inductive Move : ServerNet → ServerEvent → ServerNet → Prop where
  | connect {n : ServerNet} : Move n (.connect n.edge)
      { n with arrived := n.arrived + 1, backlog := n.backlog ++ [n.arrived], edge := true }
  | send {n : ServerNet} {c : ℕ} {bytes : List Byte} : n.shut c = false → Move n (.send c bytes)
      { n with unread := Function.update n.unread c (n.unread c ++ bytes) }
  | shut {n : ServerNet} {c : ℕ} : Move n (.shut c) { n with shut := Function.update n.shut c true }
  | wait {n : ServerNet} {es : List EpollEvent} : n.events = [] → (es.map EpollEvent.fd).Nodup →
      (∀ e ∈ es, (e.fd = n.mListenFd ∧ n.edge = true) ∨ n.watched e.fd = true) → Move n (.wait es)
      { n with events := es, edge := n.edge && !(es.map EpollEvent.fd).contains n.mListenFd }
  | accept {n : ServerNet} {e : EpollEvent} {es : List EpollEvent} {fd : Int} {c : ℕ} {rest : List ℕ} :
      n.events = e :: es → e.fd = n.mListenFd → n.backlog = c :: rest → n.holder fd = none → 0 ≤ fd →
      Move n (.accept fd c [.epollAdd fd, .onNewConnection fd])
      { n with
        events := es, backlog := rest, holder := Function.update n.holder fd (some (.client c))
        watched := Function.update n.watched fd true }
  | data {n : ServerNet} {e : EpollEvent} {es : List EpollEvent} {c : ℕ} {bytes rest : List Byte} :
      n.events = e :: es → n.holder e.fd = some (.client c) → n.watched e.fd = true →
      bytes ≠ [] → bytes.length ≤ recvSize → n.unread c = bytes ++ rest →
      Move n (.recv e.fd (some (.client c)) (.data bytes) [.onReadable e.fd bytes])
      { n with events := es, unread := Function.update n.unread c rest }
  | closed {n : ServerNet} {e : EpollEvent} {es : List EpollEvent} {c : ℕ} :
      n.events = e :: es → n.holder e.fd = some (.client c) → n.watched e.fd = true → n.unread c = [] →
      n.shut c = true →
      Move n (.recv e.fd (some (.client c)) .closed [.epollDel e.fd, .onDisconnect e.fd, .close e.fd])
      { n with
        events := es, holder := Function.update n.holder e.fd none
        watched := Function.update n.watched e.fd false }
  | failed {n : ServerNet} {e : EpollEvent} {es : List EpollEvent} {c : ℕ} {len : Int} :
      n.events = e :: es → n.holder e.fd = some (.client c) → n.watched e.fd = true → len < 0 →
      Move n (.recv e.fd (some (.client c)) (.failed len) [.close e.fd, .onExcept e.fd len])
      { n with
        events := es, holder := Function.update n.holder e.fd none
        watched := Function.update n.watched e.fd false }
  | hungUp {n : ServerNet} {e : EpollEvent} {es : List EpollEvent} {c : ℕ} :
      n.events = e :: es → n.holder e.fd = some (.client c) → n.watched e.fd = true →
      Move n (.hup e.fd (some (.client c)) [.epollDel e.fd, .onDisconnect e.fd])
      { n with events := es, watched := Function.update n.watched e.fd false }
  | ignored {n : ServerNet} {e : EpollEvent} {es : List EpollEvent} {c : ℕ} :
      n.events = e :: es → n.holder e.fd = some (.client c) → n.watched e.fd = true →
      Move n (.hup e.fd (some (.client c)) []) { n with events := es }
  | acquire {n : ServerNet} {fd : Int} : n.holder fd = none → Move n (.acquire fd)
      { n with holder := Function.update n.holder fd (some .other) }
  | release {n : ServerNet} {fd : Int} : n.holder fd = some .other → Move n (.release fd)
      { n with holder := Function.update n.holder fd none }

/-- **Its own connections**: a step of a sound server is one of these. -/
theorem Step.move (h : Step n e n') (hn : Sound n) : Move n e n' := by
  cases h with
  | connect => exact .connect
  | send _ hshut => exact .send hshut
  | shut _ => exact .shut
  | wait hevents _ hnodup hes => exact .wait hevents hnodup hes
  | acquire hfree => exact .acquire hfree
  | release hother => exact .release hother
  | accept hevents hlisten hbacklog hfree hround =>
    obtain ⟨hfd, rfl⟩ := (round_listen hlisten).mp hround
    exact .accept hevents hlisten hbacklog hfree hfd
  | @recv e es r unread connfd calls hevents hlisten hin hrecv hround =>
    have hmem : e ∈ n.events := hevents ▸ List.mem_cons_self
    have hwatched := hn.reported e hmem hlisten
    obtain ⟨c, hc⟩ := hn.client e.fd hwatched
    obtain rfl := (round_recv hlisten hin (hn.nonneg e.fd hwatched)).mp hround
    cases hrecv with
    | @data c' bytes rest hc' hne hle hunread =>
      rw [hc']
      exact .data hevents hc' hwatched hne hle hunread
    | @closed c' hc' hunread hshut =>
      have hmove := Move.closed hevents hc' hwatched hunread hshut
      rw [hc']
      simpa [received, call] using hmove
    | @failed c' len hc' hlen =>
      rw [hc']
      exact .failed hevents hc' hwatched hlen
    | free hfree _ => simp [hc] at hfree
    | other hother => simp [hc] at hother
  | @hup e es connfd r calls hevents hlisten hin hround =>
    have hmem : e ∈ n.events := hevents ▸ List.mem_cons_self
    have hwatched := hn.reported e hmem hlisten
    obtain ⟨c, hc⟩ := hn.client e.fd hwatched
    obtain rfl := (round_hup hlisten hin).mp hround
    rw [hc]
    cases e.epollhup with
    | true => exact .hungUp hevents hc hwatched
    | false => exact .ignored hevents hc hwatched

/-- The head of the events is done with. -/
theorem Sound.tail {e : EpollEvent} {es : List EpollEvent} (h : Sound n) (hevents : n.events = e :: es) :
    Sound { n with events := es } ∧ ∀ e' ∈ es, e'.fd ≠ e.fd := by
  have hnodup := h.events
  rw [hevents, List.map_cons, List.nodup_cons] at hnodup
  refine ⟨{ h with events := hnodup.2, reported := ?_ }, ?_⟩
  · intro e' he'
    exact h.reported e' (hevents ▸ List.mem_cons_of_mem e he')
  · intro e' he' heq
    exact hnodup.1 (heq ▸ List.mem_map_of_mem he')

/-- A descriptor that no event is about is no longer watched. -/
theorem Sound.unwatch (h : Sound n) {fd : Int} (hfd : ∀ e ∈ n.events, e.fd ≠ fd) :
    Sound { n with watched := Function.update n.watched fd false } := by
  have hold : ∀ fd', Function.update n.watched fd false fd' = true → n.watched fd' = true := by
    intro fd' hfd'
    by_cases heq : fd' = fd
    · simp [heq] at hfd'
    · rwa [Function.update_of_ne heq] at hfd'
  refine { h with client := ?_, nonneg := ?_, reported := ?_ }
  · exact fun fd' hfd' => h.client fd' (hold fd' hfd')
  · exact fun fd' hfd' => h.nonneg fd' (hold fd' hfd')
  · intro e he hlisten
    have hne : e.fd ≠ fd := hfd e he
    simp only [Function.update_of_ne hne]
    exact h.reported e he hlisten

/-- A descriptor that is not watched, nor the listening socket's, changes hands. -/
theorem Sound.hand (h : Sound n) {fd : Int} {heir : Option Holder} (hlisten : fd ≠ n.mListenFd)
    (hfd : n.watched fd = false) (hheir : ∀ c, heir ≠ some (.client c)) :
    Sound { n with holder := Function.update n.holder fd heir } := by
  have hclient : ∀ fd' c, Function.update n.holder fd heir fd' = some (.client c) → n.holder fd' = some (.client c) := by
    intro fd' c hfd'
    by_cases heq : fd' = fd
    · subst heq
      rw [Function.update_self] at hfd'
      exact absurd hfd' (hheir c)
    · rwa [Function.update_of_ne heq] at hfd'
  refine { h with listener := ?_, client := ?_, unique := ?_, accepted := ?_ }
  · simp only [Function.update_of_ne hlisten.symm]
    exact h.listener
  · intro fd' hfd'
    have hne : fd' ≠ fd := by
      rintro rfl
      rw [hfd] at hfd'
      cases hfd'
    simp only [Function.update_of_ne hne]
    exact h.client fd' hfd'
  · exact fun fd₁ fd₂ c h₁ h₂ => h.unique fd₁ fd₂ c (hclient fd₁ c h₁) (hclient fd₂ c h₂)
  · exact fun fd' c hfd' => h.accepted fd' c (hclient fd' c hfd')

/-- A descriptor that another part of the program has, or nobody, is not watched. -/
theorem Sound.not_watched (h : Sound n) {fd : Int} (hfd : ∀ c, n.holder fd ≠ some (.client c)) :
    n.watched fd = false := by
  by_contra hwatched
  obtain ⟨c, hc⟩ := h.client fd (by simpa using hwatched)
  exact hfd c hc

/-- A connection arrives. -/
theorem Sound.connect (h : Sound n) :
    Sound { n with arrived := n.arrived + 1, backlog := n.backlog ++ [n.arrived], edge := true } := by
  refine { h with accepted := ?_, backlog := ?_ }
  · intro fd c hfd
    obtain ⟨hlt, hmem⟩ := h.accepted fd c hfd
    simp only [List.mem_append, List.mem_singleton, not_or]
    exact ⟨by omega, hmem, by omega⟩
  · obtain ⟨hnodup, hlt⟩ := h.backlog
    constructor
    · refine hnodup.append (List.nodup_singleton _) ?_
      intro c hc hnew
      have hc' := hlt c hc
      rw [List.mem_singleton] at hnew
      omega
    · intro c hc
      rcases List.mem_append.mp hc with hc | hc
      · exact Nat.lt_succ_of_lt (hlt c hc)
      · obtain rfl := List.mem_singleton.mp hc
        exact Nat.lt_succ_self _

/-- `epoll_wait` reports the listening socket and descriptors that are watched. -/
theorem Sound.report (h : Sound n) {es : List EpollEvent} {edge : Bool} (hnodup : (es.map EpollEvent.fd).Nodup)
    (hes : ∀ e ∈ es, e.fd = n.mListenFd ∨ n.watched e.fd = true) : Sound { n with events := es, edge := edge } :=
  { h with
    events := hnodup
    reported := fun e he hlisten => (hes e he).resolve_left hlisten }

/-- Who has a descriptor after one was given to `c`. -/
theorem holder_accept_iff {fd fd' : Int} {c c' : ℕ} :
    Function.update n.holder fd (some (.client c)) fd' = some (.client c') ↔
      (fd' = fd ∧ c' = c) ∨ (fd' ≠ fd ∧ n.holder fd' = some (.client c')) := by
  by_cases heq : fd' = fd
  · subst heq
    simp [eq_comm]
  · simp [heq]

/-- The first that waits gets a free descriptor, and is watched. -/
theorem Sound.accept (h : Sound n) {fd : Int} {c : ℕ} {rest : List ℕ} (hbacklog : n.backlog = c :: rest)
    (hfree : n.holder fd = none) (hfd : 0 ≤ fd) :
    Sound { n with
      backlog := rest, holder := Function.update n.holder fd (some (.client c))
      watched := Function.update n.watched fd true } := by
  obtain ⟨hnodup, hlt⟩ := h.backlog
  rw [hbacklog, List.nodup_cons] at hnodup
  have hc : c ∈ n.backlog := hbacklog ▸ List.mem_cons_self
  have hrest : ∀ c' ∈ rest, c' ∈ n.backlog := fun c' hc' => hbacklog ▸ List.mem_cons_of_mem c hc'
  -- the connection that is accepted had no descriptor
  have hfresh : ∀ fd', n.holder fd' ≠ some (.client c) := fun fd' hfd' => (h.accepted fd' c hfd').2 hc
  have hlisten : n.mListenFd ≠ fd := by
    rintro rfl
    rw [h.listener] at hfree
    cases hfree
  refine ⟨?_, ?_, ?_, ?_, ?_, ⟨hnodup.2, fun c' hc' => hlt c' (hrest c' hc')⟩, h.events, ?_⟩
  · simp only [Function.update_of_ne hlisten]
    exact h.listener
  · intro fd' hfd'
    by_cases heq : fd' = fd
    · exact ⟨c, holder_accept_iff.mpr (Or.inl ⟨heq, rfl⟩)⟩
    · simp only [Function.update_of_ne heq] at hfd' ⊢
      exact h.client fd' hfd'
  · intro fd' hfd'
    by_cases heq : fd' = fd
    · exact heq ▸ hfd
    · simp only [Function.update_of_ne heq] at hfd'
      exact h.nonneg fd' hfd'
  · intro fd₁ fd₂ c' h₁ h₂
    rcases holder_accept_iff.mp h₁ with ⟨heq₁, hc₁⟩ | ⟨-, hold₁⟩ <;>
      rcases holder_accept_iff.mp h₂ with ⟨heq₂, hc₂⟩ | ⟨-, hold₂⟩
    · exact heq₁.trans heq₂.symm
    · exact absurd (hc₁ ▸ hold₂) (hfresh fd₂)
    · exact absurd (hc₂ ▸ hold₁) (hfresh fd₁)
    · exact h.unique fd₁ fd₂ c' hold₁ hold₂
  · intro fd' c' h'
    rcases holder_accept_iff.mp h' with ⟨-, rfl⟩ | ⟨-, h'⟩
    · exact ⟨hlt c' hc, hnodup.1⟩
    · obtain ⟨hlt', hmem⟩ := h.accepted fd' c' h'
      exact ⟨hlt', fun hc' => hmem (hrest c' hc')⟩
  · intro e he hne
    by_cases heq : e.fd = fd
    · simp [heq]
    · simp only [Function.update_of_ne heq]
      exact h.reported e he hne

/-- The descriptor of a connection is closed, and no event is left that is about it. -/
theorem Sound.close (h : Sound n) {fd : Int} (hwatched : n.watched fd = true) (hfd : ∀ e ∈ n.events, e.fd ≠ fd) :
    Sound { n with
      holder := Function.update n.holder fd none, watched := Function.update n.watched fd false } :=
  (h.unwatch hfd).hand (h.ne_listen hwatched) (Function.update_self ..) (by simp)

/-- A descriptor that is not a connection's or the listening socket's changes hands in the rest of the program. -/
theorem Sound.trade (h : Sound n) {fd : Int} {heir : Option Holder} (hlisten : n.holder fd ≠ some .listener)
    (hfd : ∀ c, n.holder fd ≠ some (.client c)) (hheir : ∀ c, heir ≠ some (.client c)) :
    Sound { n with holder := Function.update n.holder fd heir } := by
  refine h.hand ?_ (h.not_watched hfd) hheir
  rintro rfl
  exact hlisten h.listener

/-- **Moves keep it.** -/
theorem Move.sound (h : Move n e n') (hn : Sound n) : Sound n' := by
  cases h with
  | connect => exact hn.connect
  | send _ => exact { hn with }
  | shut => exact { hn with }
  | wait _ hnodup hes => exact hn.report hnodup fun e he => (hes e he).imp And.left id
  | accept hevents _ hbacklog hfree hfd => exact (hn.tail hevents).1.accept hbacklog hfree hfd
  | data hevents _ _ _ _ _ => exact { (hn.tail hevents).1 with }
  | closed hevents _ hwatched _ _ =>
    obtain ⟨htail, hother⟩ := hn.tail hevents
    exact htail.close hwatched hother
  | failed hevents _ hwatched _ =>
    obtain ⟨htail, hother⟩ := hn.tail hevents
    exact htail.close hwatched hother
  | hungUp hevents _ _ =>
    obtain ⟨htail, hother⟩ := hn.tail hevents
    exact htail.unwatch hother
  | ignored hevents _ _ => exact (hn.tail hevents).1
  | acquire hfree => exact hn.trade (by simp [hfree]) (by simp [hfree]) (by simp)
  | release hother => exact hn.trade (by simp [hother]) (by simp [hother]) (by simp)

/-- Every run of a sound server is a run of moves, and leaves it sound. -/
theorem run_move {es : List ServerEvent} (h : Run Step n es n') (hn : Sound n) : Run Move n es n' ∧ Sound n' := by
  induction h with
  | nil => exact ⟨.nil, hn⟩
  | cons hstep _ ih =>
    have hmove := hstep.move hn
    obtain ⟨hrest, hn'⟩ := ih (hmove.sound hn)
    exact ⟨.cons hmove hrest, hn'⟩

/-! ## Who is accepted, and who waits -/

/-- The events about the listening socket are one at most. -/
theorem countP_listen_le {es : List EpollEvent} (hnodup : (es.map EpollEvent.fd).Nodup) (fd : Int) :
    es.countP (fun e => decide (e.fd = fd)) = if (es.map EpollEvent.fd).contains fd then 1 else 0 := by
  have hcount : es.countP (fun e => decide (e.fd = fd)) = (es.map EpollEvent.fd).count fd := by
    rw [List.count, List.countP_map]
    rfl
  rw [hcount, hnodup.count]
  simp

/-- A round at another descriptor leaves what is pending. -/
theorem pending_tail {e : EpollEvent} {es : List EpollEvent} (hevents : n.events = e :: es) (hne : e.fd ≠ n.mListenFd) :
    (if n.edge then 1 else 0) + es.countP (fun e => decide (e.fd = n.mListenFd)) = n.pending := by
  unfold pending
  rw [hevents, List.countP_cons_of_neg (by simp [hne])]

/-- What waits is what is still to be looked at, and what was passed over. -/
theorem Move.waiting (h : Move n e n') (hn : Sound n) {late : ℕ} (hlate : n.backlog.length = n.pending + late) :
    n'.backlog.length = n'.pending + (late + if e.coalesced then 1 else 0) := by
  cases h with
  | connect =>
    unfold pending at hlate ⊢
    cases hedge : n.edge <;> simp [hedge, ServerEvent.coalesced] at hlate ⊢ <;> omega
  | send _ => simpa [pending, ServerEvent.coalesced] using hlate
  | shut => simpa [pending, ServerEvent.coalesced] using hlate
  | @wait es hevents hnodup hes =>
    have hunreported : n.edge = false → (es.map EpollEvent.fd).contains n.mListenFd = false := by
      intro hedge
      by_contra hmem
      rw [Bool.not_eq_false, List.contains_iff_mem, List.mem_map] at hmem
      obtain ⟨e, he, hfd⟩ := hmem
      rcases hes e he with ⟨-, hedge'⟩ | hwatched
      · rw [hedge] at hedge'
        cases hedge'
      · exact hn.ne_listen hwatched hfd
    simp only [pending, hevents, List.countP_nil, countP_listen_le hnodup] at hlate ⊢
    cases hedge : n.edge with
    | false =>
      rw [hunreported hedge]
      simpa [hedge, ServerEvent.coalesced] using hlate
    | true =>
      cases hcontains : (es.map EpollEvent.fd).contains n.mListenFd <;>
        simpa [hedge, hcontains, ServerEvent.coalesced] using hlate
  | accept hevents hlisten hbacklog _ _ =>
    simp only [pending, hevents, hlisten, hbacklog, List.countP_cons, List.length_cons, ServerEvent.coalesced] at hlate ⊢
    simp only [decide_true, if_true] at hlate
    simp only [Bool.false_eq_true, if_false]
    omega
  | data hevents _ hwatched _ _ _ =>
    rw [← pending_tail hevents (hn.ne_listen hwatched)] at hlate
    simpa [pending, ServerEvent.coalesced] using hlate
  | closed hevents _ hwatched _ _ =>
    rw [← pending_tail hevents (hn.ne_listen hwatched)] at hlate
    simpa [pending, ServerEvent.coalesced] using hlate
  | failed hevents _ hwatched _ =>
    rw [← pending_tail hevents (hn.ne_listen hwatched)] at hlate
    simpa [pending, ServerEvent.coalesced] using hlate
  | hungUp hevents _ hwatched =>
    rw [← pending_tail hevents (hn.ne_listen hwatched)] at hlate
    simpa [pending, ServerEvent.coalesced] using hlate
  | ignored hevents _ hwatched =>
    rw [← pending_tail hevents (hn.ne_listen hwatched)] at hlate
    simpa [pending, ServerEvent.coalesced] using hlate
  | acquire _ => simpa [pending, ServerEvent.coalesced] using hlate
  | release _ => simpa [pending, ServerEvent.coalesced] using hlate

/-- A move accepts the first that waits, or nobody. -/
theorem Move.queue (h : Move n e n') {done : List ℕ} (hdone : done ++ n.backlog = List.range n.arrived) :
    (done ++ e.accepted.toList) ++ n'.backlog = List.range n'.arrived := by
  cases h with
  | connect => simp [ServerEvent.accepted, List.range_succ, ← hdone]
  | accept _ _ hbacklog _ _ =>
    rw [hbacklog] at hdone
    simpa [ServerEvent.accepted] using hdone
  | _ => simpa [ServerEvent.accepted] using hdone

/-- The connections accepted in a run. -/
def acceptedIn (es : List ServerEvent) : List ℕ := es.filterMap ServerEvent.accepted

theorem acceptedIn_cons (e : ServerEvent) (es : List ServerEvent) :
    acceptedIn (e :: es) = e.accepted.toList ++ acceptedIn es := by
  unfold acceptedIn
  cases haccepted : e.accepted with
  | none => simp [List.filterMap_cons_none haccepted]
  | some c => simp [List.filterMap_cons_some haccepted]

theorem run_queue {es : List ServerEvent} (h : Run Move n es n') {done : List ℕ}
    (hdone : done ++ n.backlog = List.range n.arrived) :
    (done ++ acceptedIn es) ++ n'.backlog = List.range n'.arrived := by
  induction h generalizing done with
  | nil => simpa [acceptedIn] using hdone
  | @cons n n₁ n' e es hmove _ ih =>
    have hrest := ih (hmove.queue hdone)
    rw [acceptedIn_cons, ← List.append_assoc]
    exact hrest

theorem run_waiting {es : List ServerEvent} (h : Run Move n es n') (hn : Sound n) {late : ℕ}
    (hlate : n.backlog.length = n.pending + late) :
    n'.backlog.length = n'.pending + (late + es.countP ServerEvent.coalesced) := by
  induction h generalizing late with
  | nil => simpa using hlate
  | @cons n n₁ n' e es hmove _ ih =>
    have hrest := ih (hmove.sound hn) (hmove.waiting hn hlate)
    rw [hrest, List.countP_cons]
    omega

/-- Who was accepted and who waits, one after the other, are all that arrived. -/
theorem queue_of_run {es : List ServerEvent} (h : Run Step n es n') (hn : Start n) :
    acceptedIn es ++ n'.backlog = List.range n'.arrived := by
  have hnone : [] ++ n.backlog = List.range n.arrived := by simp [hn.backlog, hn.arrived]
  exact run_queue (run_move h hn.sound).1 hnone

/-- As many wait as are still to be looked at, and as were passed over. -/
theorem backlog_of_run {es : List ServerEvent} (h : Run Step n es n') (hn : Start n) :
    n'.backlog.length = n'.pending + es.countP ServerEvent.coalesced := by
  have hempty : n.backlog.length = n.pending + 0 := by simp [pending, hn.backlog, hn.edge, hn.events]
  simpa using run_waiting (run_move h hn.sound).1 hn.sound hempty

/-- **Who is accepted.** In every run of a server, connections are accepted in the order they arrive, each once: all
    but the last ones, as many as looks at the listening socket are still to come and as connections arrived before
    the one ahead of them was reported. The latter wait however long the server goes on. -/
theorem accepts_in_order {es : List ServerEvent} (h : Run Step n es n') (hn : Start n) :
    n'.pending + es.countP ServerEvent.coalesced ≤ n'.arrived ∧
      acceptedIn es = List.range (n'.arrived - (n'.pending + es.countP ServerEvent.coalesced)) := by
  have hqueue := queue_of_run h hn
  have hwaiting := backlog_of_run h hn
  have hlength : (acceptedIn es).length + n'.backlog.length = n'.arrived := by
    rw [← List.length_append, hqueue, List.length_range]
  refine ⟨by omega, ?_⟩
  calc acceptedIn es = (acceptedIn es ++ n'.backlog).take (acceptedIn es).length := List.take_left.symm
    _ = (List.range n'.arrived).take (acceptedIn es).length := by rw [hqueue]
    _ = List.range (n'.arrived - (n'.pending + es.countP ServerEvent.coalesced)) := by
      rw [List.take_range]
      congr 1
      omega

/-- Two clients connect before the server looks, and the second is not accepted. -/
theorem accepts_in_order_of_two : ∃ es n, Run Step (started 3) es n ∧ n.pending = 0 ∧ n.arrived = 2 ∧
    acceptedIn es = List.range (n.arrived - (n.pending + es.countP ServerEvent.coalesced)) ∧ acceptedIn es = [0] := by
  have hrun : ∃ n, Run Step (started 3) [.connect false, .connect true, .wait [⟨3, true, false⟩],
      .accept 7 0 [.epollAdd 7, .onNewConnection 7]] n ∧ n.pending = 0 ∧ n.arrived = 2 :=
    ⟨_, .cons .connect (.cons .connect (.cons (.wait rfl (by decide) (by decide) (by simp [started]))
      (.cons (.accept (r := .closed) rfl rfl rfl rfl rfl) .nil))), rfl, rfl⟩
  obtain ⟨n, hrun, hpending, harrived⟩ := hrun
  exact ⟨_, n, hrun, hpending, harrived, (accepts_in_order hrun (started_start 3)).2, rfl⟩

end ServerNet

end Mcc
