import SysInfo.Effects
/-!
# ProcConnector — the socket and the threads of a connector

A connector opens a netlink socket in `connect`, asks for process events in `subscribe`, and keeps the socket and one
`std::thread*`.  `connect` closes the socket on its own error path; `subscribe`, one step later, does not.  `listen`
stores its new thread over the pointer, and nothing joins a thread.

`Host` records what the object has asked of the system, so that a whole lifetime can be read off it: the constructor,
any calls, the destructor.  `Holds`: between calls the object has its one socket open and `n` threads started, of
which it knows the last.
-/
namespace SysInfo

open Effects

/-- What a system call returns, and the `errno` it leaves when that is `-1`. -/
structure Ret where
  rc    : Int
  errno : Int

/-- The fields of `struct sockaddr_nl` that are set. -/
structure SockaddrNl where
  nlFamily : Nat
  nlGroups : Nat
  nlPid    : Int
  deriving DecidableEq

/-- The fields of the message to `send` that are set; the others are zeroed. -/
structure McastMsg where
  nlmsgLen  : Nat
  nlmsgPid  : Int
  nlmsgType : Nat
  idIdx     : Nat
  idVal     : Nat
  len       : Nat
  cnMcast   : Nat
  deriving DecidableEq

def AF_NETLINK : Nat := 16
def NLMSG_DONE : Nat := 3
def CN_IDX_PROC : Nat := 1
def CN_VAL_PROC : Nat := 1
def PROC_CN_MCAST_LISTEN : Nat := 1
def EINTR : Int := 4

/-- The system a connector is built in: its process, and how each call it makes on the socket ends. -/
structure NetSys where
  getpid   : Int
  socket   : Ret
  bind     : Ret
  send     : Ret
  close    : Ret
  strerror : Int → List Char

/-- What has been asked of the system: sockets opened and closed, what they were bound to and sent, threads started, the
`std::thread`s among them that are joinable, the calls of callbacks. -/
structure Host (κ : Type) where
  errno      : Int := 0
  opened     : List Int := []
  closed     : List Int := []
  bound      : List SockaddrNl := []
  sent       : List McastMsg := []
  started    : List Nat := []
  joinable   : List Nat := []
  terminated : Bool := false
  invoked    : List (κ × List UInt8) := []

/-- A connector; a callback is known by its name in `κ`. -/
structure ProcConnector (κ : Type) where
  mNlSock       : Int
  mThreadListen : Option Nat
  mSubscribers  : List κ

/-- An object and its system. -/
structure Conn (κ : Type) where
  obj  : ProcConnector κ
  host : Host κ

namespace ProcConnector

variable {κ : Type}

/-- Code of the class, which may throw a text. -/
abbrev Code (κ α : Type) := EStateM (List Char) (Conn κ) α

/-! ## System calls -/

/-- A call that returned `r`. -/
def result (r : Ret) : Code κ Int := do
  if r.rc = -1 then modify fun s => { s with host.errno := r.errno }
  return r.rc

def socket (sys : NetSys) : Code κ Int := do
  if sys.socket.rc ≠ -1 then modify fun s => { s with host.opened := s.host.opened ++ [sys.socket.rc] }
  result sys.socket

def bind (sys : NetSys) (sa : SockaddrNl) : Code κ Int := do
  modify fun s => { s with host.bound := s.host.bound ++ [sa] }
  result sys.bind

def send (sys : NetSys) (msg : McastMsg) : Code κ Int := do
  modify fun s => { s with host.sent := s.host.sent ++ [msg] }
  result sys.send

/-- `close` releases the descriptor, whatever it returns. -/
def close (sys : NetSys) (fd : Int) : Code κ Int := do
  modify fun s => { s with host.closed := s.host.closed ++ [fd] }
  result sys.close

/-- `throw std::string(strerror(errno))`. -/
def throwErrno (sys : NetSys) : Code κ Unit := do
  throw (sys.strerror (← get).host.errno)

/-- `new std::thread(..)`: a thread is started, and its `std::thread` is joinable. -/
def newThread : Code κ Nat := do
  let t := (← get).host.started.length
  modify fun s => { s with host.started := s.host.started ++ [t], host.joinable := s.host.joinable ++ [t] }
  return t

/-- `delete` of a `std::thread*`: destroying a joinable `std::thread` terminates the program. -/
def deleteThread (t : Nat) : Code κ Unit :=
  modify fun s => if t ∈ s.host.joinable then { s with host.terminated := true } else s

/-! ## The class -/

def connect (sys : NetSys) : Code κ Unit := do
  let fd ← socket sys
  modify fun s => { s with obj.mNlSock := fd }
  if (← get).obj.mNlSock = -1 then throwErrno sys
  let rc ← bind sys { nlFamily := AF_NETLINK, nlGroups := CN_IDX_PROC, nlPid := sys.getpid }
  if rc = -1 then
    let _ ← close sys (← get).obj.mNlSock
    throwErrno sys

/-- `sizeof(nlcn_msg)`: a header of 16 bytes, a `cn_msg` of 20 and an `enum` of 4. -/
def mcastMsg (sys : NetSys) : McastMsg where
  nlmsgLen  := 40
  nlmsgPid  := sys.getpid
  nlmsgType := NLMSG_DONE
  idIdx     := CN_IDX_PROC
  idVal     := CN_VAL_PROC
  len       := 4
  cnMcast   := PROC_CN_MCAST_LISTEN

def subscribe (sys : NetSys) : Code κ Unit := do
  let rc ← send sys (mcastMsg sys)
  if rc = -1 then throwErrno sys

/-- `ProcConnector::ProcConnector()`; `m_nl_sock` starts out as whatever the memory held. -/
def construct (sys : NetSys) : Code κ Unit := do
  modify fun s => { s with obj := { s.obj with mThreadListen := none, mSubscribers := [] } }
  connect sys
  subscribe sys

/-- `ProcConnector::~ProcConnector()`. -/
def destruct (sys : NetSys) : Code κ Unit := do
  let _ ← close sys (← get).obj.mNlSock
  match (← get).obj.mThreadListen with
  | some t => deleteThread t
  | none   => pure ()

def addCallback (callback : κ) : Code κ Unit :=
  modify fun s => { s with obj.mSubscribers := s.obj.mSubscribers ++ [callback] }

/-! ## Receiving -/

/-- The sizes of the parts of `nlcn_msg` in `processEvent`, as the kernel's headers give them. -/
structure NlcnMsg where
  nlHdr  : Nat
  cnMsg  : Nat
  procEv : Nat
  pad    : Nat

/-- `sizeof(nlcn_msg)`. -/
def NlcnMsg.size (m : NlcnMsg) : Nat := m.nlHdr + m.cnMsg + m.procEv + m.pad

/-- Where `nlcn_msg.proc_ev` starts. -/
def NlcnMsg.offset (m : NlcnMsg) : Nat := m.nlHdr + m.cnMsg

/-- `nlcn_msg.proc_ev` of a buffer. -/
def NlcnMsg.event (m : NlcnMsg) (buf : List UInt8) : List UInt8 := (buf.drop m.offset).take m.procEv

/-- How `recv` ends: with a datagram, of which it stores what fits, or with an error. -/
inductive Recv (m : NlcnMsg) where
  | datagram (bytes : List UInt8) (fits : bytes.length ≤ m.size)
  | failed (errno : Int)

/-- One run of `processEvent`: the bytes its `nlcn_msg` holds before anything is stored there, and how `recv` ends. -/
structure Frame (m : NlcnMsg) where
  stack : List UInt8
  full  : stack.length = m.size
  recv  : Recv m

variable {m : NlcnMsg}

def processEvent (sys : NetSys) (f : Frame m) : Code κ Unit :=
  match f.recv with
  | .failed e => do
    modify fun s => { s with host.errno := e }
    if (← get).host.errno = EINTR then return
    throwErrno sys
  | .datagram bytes _ => do
    let nlcnMsg := bytes ++ f.stack.drop bytes.length
    (← get).obj.mSubscribers.forM fun callback =>
      modify fun s => { s with host.invoked := s.host.invoked ++ [(callback, m.event nlcnMsg)] }

/-- `while (1) processEvent();` through the outcomes of `recv` so far; after the last of them it waits in `recv`. -/
def listenBlock (sys : NetSys) (fs : List (Frame m)) : Code κ Unit := fs.forM (processEvent sys)

/-- `listen(block)`; the thread of `listen(false)` runs `listenBlock` on its own. -/
def listen (sys : NetSys) (block : Bool) (fs : List (Frame m)) : Code κ Unit :=
  if block then listenBlock sys fs
  else do
    let t ← newThread
    modify fun s => { s with obj.mThreadListen := some t }

/-! ## A lifetime -/

/-- The calls on a connector; `listen` is `listen(false)`. -/
inductive Op (κ : Type) where
  | addCallback (callback : κ)
  | listen

def Op.call (sys : NetSys) : Op κ → Code κ Unit
  | .addCallback c => ProcConnector.addCallback c
  | .listen        => ProcConnector.listen (m := ⟨16, 20, 40, 0⟩) sys false []

/-- An object in memory `p`, constructed and called, on a host that has seen nothing of it before. -/
def during (sys : NetSys) (p : ProcConnector κ) (ops : List (Op κ)) : Conn κ :=
  state ((construct sys >>= fun _ => ops.forM (Op.call sys)).run ⟨p, {}⟩)

/-- The same object once its constructor has thrown or its destructor has returned. -/
def ended (sys : NetSys) (p : ProcConnector κ) (ops : List (Op κ)) : Conn κ :=
  state ((construct sys >>= fun _ => ops.forM (Op.call sys) >>= fun _ => destruct sys).run ⟨p, {}⟩)

/-- The object releases what it acquires. -/
structure Releases (sys : NetSys) (p : ProcConnector κ) (ops : List (Op κ)) : Prop where
  closes : ∀ fd ∈ (ended sys p ops).host.opened, (ended sys p ops).host.closed.count fd = 1
  knows  : ∀ before, before <+: ops → ∀ t ∈ (during sys p before).host.started,
    (during sys p before).obj.mThreadListen = some t
  joins  : (ended sys p ops).host.terminated = false

/-- Between calls: the socket open, `n` threads started and none of them joined, the last of them known. -/
structure Holds (fd : Int) (n : Nat) (s : Conn κ) : Prop where
  sock     : s.obj.mNlSock = fd
  opened   : s.host.opened = [fd]
  closed   : s.host.closed = []
  started  : s.host.started = List.range n
  joinable : s.host.joinable = List.range n
  thread   : s.obj.mThreadListen = (List.range n).getLast?
  running  : s.host.terminated = false

/-- Once the constructor has thrown: no thread was ever started, and the sockets are as it left them. -/
structure Dropped (opened closed : List Int) (s : Conn κ) : Prop where
  opened  : s.host.opened = opened
  closed  : s.host.closed = closed
  started : s.host.started = []
  running : s.host.terminated = false

def listens : List (Op κ) → Nat
  | []                    => 0
  | .addCallback _ :: ops => listens ops
  | .listen :: ops        => listens ops + 1

theorem listens_eq_zero_iff : ∀ {ops : List (Op κ)}, listens ops = 0 ↔ Op.listen ∉ ops
  | []                    => by simp [listens]
  | .addCallback c :: ops => by simp [listens, @listens_eq_zero_iff ops]
  | .listen :: ops        => by simp [listens]

/-! ## The constructor -/

section Constructor

variable (sys : NetSys)

/-- The constructor returns. -/
def Constructs : Prop := sys.socket.rc ≠ -1 ∧ sys.bind.rc ≠ -1 ∧ sys.send.rc ≠ -1

section SystemCalls

variable (s : Conn κ)

theorem run_result (r : Ret) : ∃ e, (result r).run s = .ok r.rc { s with host.errno := e } := by
  unfold result
  split
  · exact ⟨r.errno, rfl⟩
  · exact ⟨s.host.errno, rfl⟩

theorem run_socket : ∃ e, (socket sys).run s =
    .ok sys.socket.rc { s with
      host.errno  := e
      host.opened := if sys.socket.rc = -1 then s.host.opened else s.host.opened ++ [sys.socket.rc] } := by
  by_cases h : sys.socket.rc = -1
  · obtain ⟨e, he⟩ := run_result s sys.socket
    refine ⟨e, ?_⟩
    unfold socket
    rw [if_neg (not_not.2 h), if_pos h]
    exact he
  · obtain ⟨e, he⟩ := run_result { s with host.opened := s.host.opened ++ [sys.socket.rc] } sys.socket
    refine ⟨e, ?_⟩
    unfold socket
    rw [if_pos h, if_neg h]
    exact he

theorem run_bind (sa : SockaddrNl) : ∃ e, (bind sys sa).run s =
    .ok sys.bind.rc { s with host.errno := e, host.bound := s.host.bound ++ [sa] } :=
  run_result { s with host.bound := s.host.bound ++ [sa] } sys.bind

theorem run_send (msg : McastMsg) : ∃ e, (send sys msg).run s =
    .ok sys.send.rc { s with host.errno := e, host.sent := s.host.sent ++ [msg] } :=
  run_result { s with host.sent := s.host.sent ++ [msg] } sys.send

theorem run_close (fd : Int) : ∃ e, (close sys fd).run s =
    .ok sys.close.rc { s with host.errno := e, host.closed := s.host.closed ++ [fd] } :=
  run_result { s with host.closed := s.host.closed ++ [fd] } sys.close

end SystemCalls

/-! The constructor, on a host that has seen nothing of the object. -/

variable (p : ProcConnector κ)

theorem connect_no_socket (h : sys.socket.rc = -1) :
    ∃ e t, (connect sys).run ⟨p, {}⟩ = .error e t ∧ Dropped [] [] t := by
  obtain ⟨e, hsocket⟩ := run_socket sys ⟨p, {}⟩
  have hrun : (connect sys).run ⟨p, {}⟩ = .error (sys.strerror e) ⟨{ p with mNlSock := -1 }, { errno := e }⟩ := by
    simp [connect, throwErrno, hsocket, h]
  exact ⟨_, _, hrun, rfl, rfl, rfl, rfl⟩

theorem connect_no_bind (h : sys.socket.rc ≠ -1) (h' : sys.bind.rc = -1) :
    ∃ e t, (connect sys).run ⟨p, {}⟩ = .error e t ∧ Dropped [sys.socket.rc] [sys.socket.rc] t := by
  obtain ⟨e, hsocket⟩ := run_socket sys ⟨p, {}⟩
  obtain ⟨e', hbind⟩ := run_bind sys ⟨{ p with mNlSock := sys.socket.rc }, { errno := e, opened := [sys.socket.rc] }⟩
    ⟨AF_NETLINK, CN_IDX_PROC, sys.getpid⟩
  obtain ⟨e'', hclose⟩ := run_close sys ⟨{ p with mNlSock := sys.socket.rc },
    { errno := e', opened := [sys.socket.rc], bound := [⟨AF_NETLINK, CN_IDX_PROC, sys.getpid⟩] }⟩ sys.socket.rc
  have hrun : (connect sys).run ⟨p, {}⟩ = .error (sys.strerror e'') ⟨{ p with mNlSock := sys.socket.rc },
      { errno := e'', opened := [sys.socket.rc], closed := [sys.socket.rc]
        bound := [⟨AF_NETLINK, CN_IDX_PROC, sys.getpid⟩] }⟩ := by
    simp [connect, throwErrno, hsocket, hbind, hclose, h, h']
  exact ⟨_, _, hrun, rfl, rfl, rfl, rfl⟩

theorem connect_ok (h : sys.socket.rc ≠ -1) (h' : sys.bind.rc ≠ -1) (hp : p.mThreadListen = none) :
    ∃ t, (connect sys).run ⟨p, {}⟩ = .ok () t ∧ Holds sys.socket.rc 0 t := by
  obtain ⟨e, hsocket⟩ := run_socket sys ⟨p, {}⟩
  obtain ⟨e', hbind⟩ := run_bind sys ⟨{ p with mNlSock := sys.socket.rc }, { errno := e, opened := [sys.socket.rc] }⟩
    ⟨AF_NETLINK, CN_IDX_PROC, sys.getpid⟩
  have hrun : (connect sys).run ⟨p, {}⟩ = .ok () ⟨{ p with mNlSock := sys.socket.rc },
      { errno := e', opened := [sys.socket.rc], bound := [⟨AF_NETLINK, CN_IDX_PROC, sys.getpid⟩] }⟩ := by
    simp [connect, throwErrno, hsocket, hbind, h, h']
  exact ⟨_, hrun, rfl, rfl, rfl, rfl, rfl, hp, rfl⟩

variable {s : Conn κ} {fd : Int}

/-- **A `send` that fails leaves the socket open.** -/
theorem subscribe_no_send (hold : Holds fd 0 s) (h : sys.send.rc = -1) :
    ∃ e t, (subscribe sys).run s = .error e t ∧ Dropped [fd] [] t := by
  obtain ⟨e, hsend⟩ := run_send sys s (mcastMsg sys)
  have hrun : (subscribe sys).run s = .error (sys.strerror e)
      { s with host.errno := e, host.sent := s.host.sent ++ [mcastMsg sys] } := by
    simp [subscribe, throwErrno, hsend, h]
  exact ⟨_, _, hrun, hold.opened, hold.closed, hold.started, hold.running⟩

theorem subscribe_ok (hold : Holds fd 0 s) (h : sys.send.rc ≠ -1) :
    ∃ t, (subscribe sys).run s = .ok () t ∧ Holds fd 0 t := by
  obtain ⟨e, hsend⟩ := run_send sys s (mcastMsg sys)
  have hrun : (subscribe sys).run s = .ok () { s with host.errno := e, host.sent := s.host.sent ++ [mcastMsg sys] } := by
    simp [subscribe, throwErrno, hsend, h]
  exact ⟨_, hrun, { hold with }⟩

/-- What the constructor leaves when it throws. -/
theorem construct_error (h : ¬ Constructs sys) : ∃ e t, (construct sys).run ⟨p, {}⟩ = .error e t ∧
    Dropped (if sys.socket.rc = -1 then [] else [sys.socket.rc])
      (if sys.socket.rc ≠ -1 ∧ sys.bind.rc = -1 then [sys.socket.rc] else []) t := by
  have hrun : (construct sys).run ⟨p, {}⟩ = (connect sys >>= fun _ => subscribe sys).run
      ⟨{ p with mThreadListen := none, mSubscribers := [] }, {}⟩ := rfl
  rw [hrun, EStateM.run_bind]
  by_cases hs : sys.socket.rc = -1
  · obtain ⟨e, t, ht, hd⟩ := connect_no_socket sys { p with mThreadListen := none, mSubscribers := [] } hs
    rw [ht, if_pos hs, if_neg (fun h => h.1 hs)]
    exact ⟨e, t, rfl, hd⟩
  · rw [if_neg hs]
    by_cases hb : sys.bind.rc = -1
    · obtain ⟨e, t, ht, hd⟩ := connect_no_bind sys { p with mThreadListen := none, mSubscribers := [] } hs hb
      rw [ht, if_pos ⟨hs, hb⟩]
      exact ⟨e, t, rfl, hd⟩
    · have hsend : sys.send.rc = -1 := by
        by_contra hsend
        exact h ⟨hs, hb, hsend⟩
      obtain ⟨t, ht, hold⟩ := connect_ok sys { p with mThreadListen := none, mSubscribers := [] } hs hb rfl
      rw [ht, if_neg (fun h => hb h.2)]
      exact subscribe_no_send sys hold hsend

theorem construct_ok (h : Constructs sys) :
    ∃ t, (construct sys).run ⟨p, {}⟩ = .ok () t ∧ Holds sys.socket.rc 0 t := by
  obtain ⟨hs, hb, hsend⟩ := h
  obtain ⟨t, ht, hold⟩ := connect_ok sys { p with mThreadListen := none, mSubscribers := [] } hs hb rfl
  have hrun : (construct sys).run ⟨p, {}⟩ = (connect sys >>= fun _ => subscribe sys).run
      ⟨{ p with mThreadListen := none, mSubscribers := [] }, {}⟩ := rfl
  rw [hrun, EStateM.run_bind, ht]
  exact subscribe_ok sys hold hsend

end Constructor

/-! ## Calls and the destructor -/

section Calls

variable (sys : NetSys) {fd : Int}

theorem Holds.call {n : Nat} {s : Conn κ} (h : Holds fd n s) : ∀ op : Op κ,
    ∃ t, (op.call sys).run s = .ok () t ∧ Holds fd (n + listens [op]) t
  | .addCallback c => ⟨_, rfl, { h with }⟩
  | .listen => by
    have hlen : s.host.started.length = n := by rw [h.started, List.length_range]
    have hrange : List.range (n + 1) = List.range n ++ [s.host.started.length] := by rw [List.range_succ, hlen]
    refine ⟨_, rfl, h.sock, h.opened, h.closed, ?_, ?_, ?_, h.running⟩
    · exact (congrArg (· ++ _) h.started).trans hrange.symm
    · exact (congrArg (· ++ _) h.joinable).trans hrange.symm
    · show some s.host.started.length = (List.range (n + 1)).getLast?
      rw [hrange, List.getLast?_concat]

/-- **Between calls the object holds its socket and its last thread**, whatever the calls. -/
theorem Holds.calls : ∀ (ops : List (Op κ)) {n : Nat} {s : Conn κ}, Holds fd n s →
    ∃ t, (ops.forM (Op.call sys)).run s = .ok () t ∧ Holds fd (n + listens ops) t
  | [], n, s, h => ⟨s, rfl, h⟩
  | op :: ops, n, s, h => by
    obtain ⟨t, ht, hold⟩ := h.call sys op
    obtain ⟨u, hu, hold'⟩ := Holds.calls ops hold
    refine ⟨u, ?_, ?_⟩
    · rw [run_forM_cons, EStateM.run_bind, ht]
      exact hu
    · have hcount : listens (op :: ops) = listens [op] + listens ops := by
        cases op <;> simp [listens, Nat.add_comm]
      rw [hcount, ← Nat.add_assoc]
      exact hold'

/-- **The destructor closes the socket**, and terminates the program if a thread was ever started. -/
theorem Holds.destruct {n : Nat} {s : Conn κ} (h : Holds fd n s) : ∃ t, (destruct sys).run s = .ok () t ∧
    t.host.opened = [fd] ∧ t.host.closed = [fd] ∧ (t.host.terminated = false ↔ n = 0) := by
  obtain ⟨e, hclose⟩ := run_close sys s fd
  have hrun : (ProcConnector.destruct sys).run s = (match s.obj.mThreadListen with
      | some t => deleteThread t
      | none   => pure ()).run { s with host.errno := e, host.closed := s.host.closed ++ [fd] } := by
    simp only [ProcConnector.destruct, EStateM.run_bind, EStateM.run_get, h.sock, hclose]
  have hclosed : s.host.closed ++ [fd] = [fd] := by rw [h.closed, List.nil_append]
  rw [hrun, h.thread]
  cases n with
  | zero => exact ⟨_, rfl, h.opened, hclosed, iff_of_true h.running rfl⟩
  | succ n =>
    have hmem : n ∈ s.host.joinable := by rw [h.joinable]; exact List.self_mem_range_succ
    rw [List.range_succ, List.getLast?_concat]
    refine ⟨_, rfl, ?_⟩
    simp only [if_pos hmem]
    exact ⟨h.opened, hclosed, by simp⟩

end Calls

/-! ## What is released -/

section Lifetime

variable {sys : NetSys} (p : ProcConnector κ)

theorem during_holds (h : Constructs sys) (ops : List (Op κ)) :
    Holds sys.socket.rc (listens ops) (during sys p ops) := by
  obtain ⟨s, hs, hold⟩ := construct_ok sys p h
  obtain ⟨t, ht, hold'⟩ := hold.calls sys ops
  rw [during, EStateM.run_bind, hs]
  simp only [ht, state_ok]
  rwa [Nat.zero_add] at hold'

theorem during_dropped (h : ¬ Constructs sys) (ops : List (Op κ)) : (during sys p ops).host.started = [] := by
  obtain ⟨e, t, ht, hd⟩ := construct_error sys p h
  rw [during, EStateM.run_bind, ht]
  exact hd.started

theorem ended_destructed (h : Constructs sys) (ops : List (Op κ)) :
    (ended sys p ops).host.opened = [sys.socket.rc] ∧ (ended sys p ops).host.closed = [sys.socket.rc] ∧
      ((ended sys p ops).host.terminated = false ↔ listens ops = 0) := by
  obtain ⟨s, hs, hold⟩ := construct_ok sys p h
  obtain ⟨t, ht, hold'⟩ := hold.calls sys ops
  obtain ⟨u, hu, hend⟩ := hold'.destruct sys
  rw [ended, EStateM.run_bind, hs]
  simp only [EStateM.run_bind, ht, hu, state_ok]
  rwa [Nat.zero_add] at hend

theorem ended_dropped (h : ¬ Constructs sys) (ops : List (Op κ)) :
    Dropped (if sys.socket.rc = -1 then [] else [sys.socket.rc])
      (if sys.socket.rc ≠ -1 ∧ sys.bind.rc = -1 then [sys.socket.rc] else []) (ended sys p ops) := by
  obtain ⟨e, t, ht, hd⟩ := construct_error sys p h
  rw [ended, EStateM.run_bind, ht]
  exact hd

/-- **The socket is closed on every path but one**: a `send` that fails. -/
theorem closes_iff (ops : List (Op κ)) :
    (∀ fd ∈ (ended sys p ops).host.opened, (ended sys p ops).host.closed.count fd = 1) ↔
      sys.socket.rc = -1 ∨ sys.bind.rc = -1 ∨ sys.send.rc ≠ -1 := by
  by_cases h : Constructs sys
  · obtain ⟨hopened, hclosed, -⟩ := ended_destructed p h ops
    rw [hopened, hclosed]
    exact iff_of_true (by simp) (.inr (.inr h.2.2))
  · have hd := ended_dropped p h ops
    rw [hd.opened, hd.closed]
    by_cases hs : sys.socket.rc = -1
    · rw [if_pos hs]
      exact iff_of_true (by simp) (.inl hs)
    · rw [if_neg hs]
      by_cases hb : sys.bind.rc = -1
      · rw [if_pos ⟨hs, hb⟩]
        exact iff_of_true (by simp) (.inr (.inl hb))
      · rw [if_neg fun h => hb h.2]
        have hsend : ¬ sys.send.rc ≠ -1 := fun hsend => h ⟨hs, hb, hsend⟩
        exact iff_of_false (by simp) (by simp [hs, hb, hsend])

/-- **The object knows its threads while there is at most one of them.** -/
theorem knows_iff (ops : List (Op κ)) :
    (∀ t ∈ (during sys p ops).host.started, (during sys p ops).obj.mThreadListen = some t) ↔
      ¬ Constructs sys ∨ listens ops ≤ 1 := by
  by_cases h : Constructs sys
  · have hold := during_holds p h ops
    rw [hold.started, hold.thread, or_iff_right (not_not.2 h)]
    constructor
    · intro hall
      by_contra hn
      -- the first thread and the last are two
      have hfirst := hall 0 (List.mem_range.2 (by omega))
      have hlast := hall 1 (List.mem_range.2 (by omega))
      rw [hfirst] at hlast
      cases hlast
    · intro hle t ht
      have ht := List.mem_range.1 ht
      obtain ⟨hn, rfl⟩ : listens ops = 1 ∧ t = 0 := by omega
      rw [hn]
      rfl
  · rw [during_dropped p h ops]
    exact iff_of_true (by simp) (.inl h)

/-- **No joinable thread is destroyed exactly when none was started.** -/
theorem joins_iff (ops : List (Op κ)) :
    (ended sys p ops).host.terminated = false ↔ ¬ Constructs sys ∨ Op.listen ∉ ops := by
  by_cases h : Constructs sys
  · rw [or_iff_right (not_not.2 h), (ended_destructed p h ops).2.2, listens_eq_zero_iff]
  · exact iff_of_true (ended_dropped p h ops).running (.inl h)

/-- **A connector releases what it acquires** exactly when its constructor got no further than `bind`, or `send` succeeded
and no thread was started. -/
theorem releases_iff (ops : List (Op κ)) : Releases sys p ops ↔
    sys.socket.rc = -1 ∨ sys.bind.rc = -1 ∨ (sys.send.rc ≠ -1 ∧ Op.listen ∉ ops) := by
  constructor
  · intro h
    by_cases hs : sys.socket.rc = -1
    · exact .inl hs
    by_cases hb : sys.bind.rc = -1
    · exact .inr (.inl hb)
    have hsend : sys.send.rc ≠ -1 := by simpa [hs, hb] using (closes_iff p ops).1 h.closes
    exact .inr (.inr ⟨hsend, ((joins_iff p ops).1 h.joins).resolve_left (not_not.2 ⟨hs, hb, hsend⟩)⟩)
  · intro h
    have hcases : (sys.socket.rc = -1 ∨ sys.bind.rc = -1 ∨ sys.send.rc ≠ -1) ∧
        (¬ Constructs sys ∨ Op.listen ∉ ops) := by
      rcases h with hs | hb | ⟨hsend, hl⟩
      · exact ⟨.inl hs, .inl fun hc => hc.1 hs⟩
      · exact ⟨.inr (.inl hb), .inl fun hc => hc.2.1 hb⟩
      · exact ⟨.inr (.inr hsend), .inr hl⟩
    refine ⟨(closes_iff p ops).2 hcases.1, fun before hpre => (knows_iff p before).2 ?_, (joins_iff p ops).2 hcases.2⟩
    refine hcases.2.imp id fun hl => ?_
    rw [listens_eq_zero_iff.2 fun hmem => hl (hpre.subset hmem)]
    exact Nat.zero_le 1

end Lifetime

/-- A system that grants a socket. -/
def granting (send : Ret) : NetSys where
  getpid   := 4711
  socket   := ⟨3, 0⟩
  bind     := ⟨0, 0⟩
  send     := send
  close    := ⟨0, 0⟩
  strerror := fun _ => "Connection refused".toList

/-- The failing inputs: a `send` that is refused leaves the socket open, a thread that was started is destroyed joinable. -/
theorem not_releases_refused : ¬ Releases (granting ⟨-1, 111⟩) (⟨0, none, []⟩ : ProcConnector Unit) [] ∧
    ¬ Releases (granting ⟨40, 0⟩) (⟨0, none, []⟩ : ProcConnector Unit) [.listen] := by
  constructor
  · intro h
    exact absurd (h.closes 3 (by decide)) (by decide)
  · intro h
    exact absurd h.joins (by decide)

end ProcConnector
end SysInfo
