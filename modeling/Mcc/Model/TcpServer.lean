import Mcc.Lib.Session
import Mcc.Model.Notify

/-!
# `Model.TcpServer` — the thread of a server

`AsyncTCPServer::thread` waits for its listening socket and for the connections it has accepted, and calls an
`AsyncTCPServerHandler`: `MCCAgentServer` in one server of the program, `MCCClientManager` in the other. `round`
is one round of its `for` loop, with what `accept` and `recv` return there.

A `ServerNet` is what the kernel knows of the server: who has which descriptor, what `epoll` watches, who waits to
be accepted. The listening socket is registered with `EPOLLET`, so a connection that arrives is reported once, and
two that arrive before the thread looks are reported together. A descriptor that is closed is free again, for this
server and for the rest of the program.

The thread stops where `accept` fails: that is an assertion.
-/

namespace Mcc

open Transition

/-! ## The thread -/

/-- An element of `events[10]`. -/
structure EpollEvent where
  fd : Int
  epollin : Bool
  epollhup : Bool
deriving DecidableEq, Repr

/-- What `recv` returned: bytes, 0, or a negative number. -/
inductive Received where
  | data (bytes : List Byte)
  | closed
  | failed (len : Int)
deriving DecidableEq

/-- What a round does: calls of the kernel and of the handler. -/
inductive ServerCall where
  | epollAdd (fd : Int)
  | epollDel (fd : Int)
  | close (fd : Int)
  | onNewConnection (fd : Int)
  | onReadable (fd : Int) (data : List Byte)
  | onDisconnect (fd : Int)
  | onExcept (fd : Int) (err : Int)
deriving DecidableEq

namespace AsyncTCPServer

/-- One round of the loop over `events`. `connfd` is what `accept` returns and `r` what `recv` does, where they are
    called. -/
def round (mListenFd : Int) (e : EpollEvent) (connfd : Int) (r : Received) : Except Fault (List ServerCall) :=
  if e.fd = mListenFd then
    if 0 ≤ connfd then .ok [.epollAdd connfd, .onNewConnection connfd] else .error .assertion
  else if e.epollin then
    if e.fd < 0 then .ok []
    else match r with
      | .closed => .ok [.epollDel e.fd, .onDisconnect e.fd, .close e.fd]
      | .failed len => .ok [.close e.fd, .onExcept e.fd len]
      | .data bytes => .ok [.onReadable e.fd bytes]
  else if e.epollhup then .ok [.epollDel e.fd, .onDisconnect e.fd]
  else .ok []

end AsyncTCPServer

/-! ## What the kernel knows -/

/-- Who has a descriptor. The connections are numbered as they arrive. -/
inductive Holder where
  | listener
  | client (c : ℕ)
  | other
deriving DecidableEq

structure ServerNet where
  mListenFd : Int
  holder : Int → Option Holder
  /-- the connections `epoll` watches -/
  watched : Int → Bool
  /-- a connection has arrived since the listening socket was last reported -/
  edge : Bool
  /-- the connections to accept, the next one first -/
  backlog : List ℕ
  arrived : ℕ
  /-- what a client has sent and the server has not read -/
  unread : ℕ → List Byte
  /-- the client will send no more -/
  shut : ℕ → Bool
  /-- what is left of the last `epoll_wait` -/
  events : List EpollEvent

/-- What can happen: at the clients, in the thread, and in the rest of the program. -/
inductive ServerEvent where
  /-- a client connects; `again` if the one before it has not been reported yet -/
  | connect (again : Bool)
  | send (c : ℕ) (bytes : List Byte)
  | shut (c : ℕ)
  /-- `epoll_wait` returns -/
  | wait (events : List EpollEvent)
  /-- a round at the listening socket accepts a connection as `fd` -/
  | accept (fd : Int) (c : ℕ) (calls : List ServerCall)
  /-- a round at a descriptor that is readable -/
  | recv (fd : Int) (who : Option Holder) (r : Received) (calls : List ServerCall)
  /-- a round at another descriptor -/
  | hup (fd : Int) (who : Option Holder) (calls : List ServerCall)
  /-- another part of the program opens a descriptor, or closes one of its own -/
  | acquire (fd : Int)
  | release (fd : Int)

namespace ServerNet

/-- What a call does to the kernel: closing a descriptor ends its registration. -/
def call (n : ServerNet) : ServerCall → ServerNet
  | .epollAdd fd => { n with watched := Function.update n.watched fd true }
  | .epollDel fd => { n with watched := Function.update n.watched fd false }
  | .close fd => { n with
      holder := Function.update n.holder fd none, watched := Function.update n.watched fd false }
  | _ => n

/-- What `recv` does at a descriptor, and what it leaves unread. -/
inductive Recv (n : ServerNet) (fd : Int) : Received → (ℕ → List Byte) → Prop where
  | data {c : ℕ} {bytes rest : List Byte} : n.holder fd = some (.client c) → bytes ≠ [] → bytes.length ≤ recvSize →
      n.unread c = bytes ++ rest → n.Recv fd (.data bytes) (Function.update n.unread c rest)
  | closed {c : ℕ} : n.holder fd = some (.client c) → n.unread c = [] → n.shut c = true →
      n.Recv fd .closed n.unread
  | failed {c : ℕ} {len : Int} : n.holder fd = some (.client c) → len < 0 → n.Recv fd (.failed len) n.unread
  /-- `EBADF` -/
  | free {len : Int} : n.holder fd = none → len < 0 → n.Recv fd (.failed len) n.unread
  | other {r : Received} : n.holder fd = some .other → n.Recv fd r n.unread

/-- The steps. -/
inductive Step : ServerNet → ServerEvent → ServerNet → Prop where
  | connect {n : ServerNet} : Step n (.connect n.edge)
      { n with arrived := n.arrived + 1, backlog := n.backlog ++ [n.arrived], edge := true }
  | send {n : ServerNet} {c : ℕ} {bytes : List Byte} : c < n.arrived → n.shut c = false → Step n (.send c bytes)
      { n with unread := Function.update n.unread c (n.unread c ++ bytes) }
  | shut {n : ServerNet} {c : ℕ} : c < n.arrived → Step n (.shut c)
      { n with shut := Function.update n.shut c true }
  | wait {n : ServerNet} {es : List EpollEvent} : n.events = [] → es.length ≤ 10 → (es.map EpollEvent.fd).Nodup →
      (∀ e ∈ es, (e.fd = n.mListenFd ∧ n.edge = true) ∨ n.watched e.fd = true) → Step n (.wait es)
      { n with events := es, edge := n.edge && !(es.map EpollEvent.fd).contains n.mListenFd }
  | accept {n : ServerNet} {e : EpollEvent} {es : List EpollEvent} {fd : Int} {c : ℕ} {rest : List ℕ} {r : Received}
      {calls : List ServerCall} : n.events = e :: es → e.fd = n.mListenFd → n.backlog = c :: rest →
      n.holder fd = none → AsyncTCPServer.round n.mListenFd e fd r = .ok calls → Step n (.accept fd c calls)
      (calls.foldl call { n with
        events := es, backlog := rest, holder := Function.update n.holder fd (some (.client c)) })
  | recv {n : ServerNet} {e : EpollEvent} {es : List EpollEvent} {r : Received} {unread : ℕ → List Byte}
      {connfd : Int} {calls : List ServerCall} : n.events = e :: es → e.fd ≠ n.mListenFd → e.epollin = true →
      n.Recv e.fd r unread → AsyncTCPServer.round n.mListenFd e connfd r = .ok calls →
      Step n (.recv e.fd (n.holder e.fd) r calls) (calls.foldl call { n with events := es, unread := unread })
  | hup {n : ServerNet} {e : EpollEvent} {es : List EpollEvent} {connfd : Int} {r : Received}
      {calls : List ServerCall} : n.events = e :: es → e.fd ≠ n.mListenFd → e.epollin = false →
      AsyncTCPServer.round n.mListenFd e connfd r = .ok calls →
      Step n (.hup e.fd (n.holder e.fd) calls) (calls.foldl call { n with events := es })
  | acquire {n : ServerNet} {fd : Int} : n.holder fd = none → Step n (.acquire fd)
      { n with holder := Function.update n.holder fd (some .other) }
  | release {n : ServerNet} {fd : Int} : n.holder fd = some .other → Step n (.release fd)
      { n with holder := Function.update n.holder fd none }

/-- A server that has just been started: `Start` has bound and registered the listening socket. -/
structure Start (n : ServerNet) : Prop where
  listener : n.holder n.mListenFd = some .listener
  clients : ∀ fd c, n.holder fd ≠ some (.client c)
  watched : ∀ fd, n.watched fd = false
  edge : n.edge = false
  backlog : n.backlog = []
  arrived : n.arrived = 0
  unread : ∀ c, n.unread c = []
  shut : ∀ c, n.shut c = false
  events : n.events = []

/-- Such a server, where nothing else is open. -/
def started (mListenFd : Int) : ServerNet :=
  { mListenFd, holder := Function.update (fun _ => none) mListenFd (some .listener), watched := fun _ => false
    edge := false, backlog := [], arrived := 0, unread := fun _ => [], shut := fun _ => false, events := [] }

theorem started_start (mListenFd : Int) : Start (started mListenFd) where
  listener := by simp [started]
  clients := by
    intro fd c
    unfold started
    by_cases heq : fd = mListenFd
    · simp [heq]
    · simp [heq]
  watched := fun _ => rfl
  edge := rfl
  backlog := rfl
  arrived := rfl
  unread := fun _ => rfl
  shut := fun _ => rfl
  events := rfl

/-- `c` is accepted and its descriptor watched. -/
def Serves (n : ServerNet) (c : ℕ) : Prop := ∃ fd, n.holder fd = some (.client c) ∧ n.watched fd = true

/-- How often the listening socket is still to be looked at. -/
def pending (n : ServerNet) : ℕ :=
  (if n.edge then 1 else 0) + n.events.countP fun e => decide (e.fd = n.mListenFd)

end ServerNet

namespace ServerEvent

/-- The calls of a round. -/
def calls : ServerEvent → List ServerCall
  | .accept _ _ calls => calls
  | .recv _ _ _ calls => calls
  | .hup _ _ calls => calls
  | _ => []

/-- The connection that is accepted. -/
def accepted : ServerEvent → Option ℕ
  | .accept _ c _ => some c
  | _ => none

/-- What a client sends. -/
def sent (c : ℕ) : ServerEvent → List Byte
  | .send c' bytes => if c' = c then bytes else []
  | _ => []

/-- A connection that arrives before the last one has been reported. -/
def coalesced : ServerEvent → Bool
  | .connect again => again
  | _ => false

end ServerEvent

/-! ## The handler of the client server -/

/-- What a call of the handler does to the client manager; `onExcept` is empty. -/
def ClientManager.call (m : ClientManager) : ServerCall → ClientManager
  | .onNewConnection fd => m.onNewConnection fd
  | .onDisconnect fd => m.onDisconnect fd
  | _ => m

/-- The client manager's server, and the manager itself. -/
structure ClientServer where
  net : ServerNet
  manager : ClientManager

/-- What can happen to both. -/
inductive ClientServerEvent where
  | net (e : ServerEvent)
  /-- `Notify`, from the thread of the keyboard manager, and the descriptors it sent to -/
  | notify (mem : ClientPacket) (send : ℕ → SendResult) (msg : KeyboardMessage) (sent : Option (List Int))

/-- The steps. A `Notify` that finds a client gone faults, and closes nothing otherwise. -/
inductive ClientServer.Step : ClientServer → ClientServerEvent → ClientServer → Prop where
  | net {s : ClientServer} {e : ServerEvent} {net : ServerNet} : s.net.Step e net →
      Step s (.net e) ⟨net, e.calls.foldl ClientManager.call s.manager⟩
  | notify {s : ClientServer} {mem : ClientPacket} {send : ℕ → SendResult} {msg : KeyboardMessage}
      {manager : ClientManager} {sent : Option (List Int)} :
      s.manager.notify mem send msg = .ok (manager, sent) → Step s (.notify mem send msg sent) ⟨s.net, manager⟩

end Mcc
