import SysInfo.ProcEvents
import SysInfo.WorkQueue
/-!
# Listeners — several threads on one connector

Every `listen(false)` starts a thread, and `listen(true)` makes the caller one, that runs `while (1) processEvent();` on
the same object: the same socket, the same subscribers.  Nothing but the socket itself keeps them apart.  Here a thread
is at its `recv` or among the callbacks of an event, and a step is one `recv` or one callback of one thread.

Whatever the interleaving, each datagram is received by one thread, which calls every subscriber once and in order of
registration: `delivered_once`.  Run without interruption the steps of a thread are `processEvent`
(`reach_processEvent`), and a single thread calls in the order of the datagrams, as `listenBlock` does (`invoked_blocking`).
-/
namespace SysInfo
namespace ProcConnector

open Effects WorkQueue

variable {κ : Type} {m : NlcnMsg}

/-- A datagram, as much of it as fits. -/
abbrev Datagram (m : NlcnMsg) := { bytes : List UInt8 // bytes.length ≤ m.size }

/-- What `nlcn_msg` holds before `recv` stores into it. -/
abbrev Junk (m : NlcnMsg) := { stack : List UInt8 // stack.length = m.size }

def frameOf (x : Junk m × Datagram m) : Frame m := ⟨x.1.1, x.1.2, .datagram x.2.1 x.2.2⟩

/-- A thread: one that `listen(false)` started, or the caller of `listen(true)`. -/
abbrev Thread := Option Nat

inductive Pc (κ : Type) where
  | outside
  | receiving
  | calling (event : List UInt8) (left : List κ)

/-- The object and its host, the threads, the datagrams that arrived, those still on the socket and those received. -/
structure Listeners (κ : Type) (m : NlcnMsg) where
  conn     : Conn κ
  pc       : Thread → Pc κ
  arrived  : List (Datagram m)
  socket   : List (Datagram m)
  received : List (Junk m × Datagram m)

namespace Listeners

/-- A connector that nobody listens to yet. -/
def initial (conn : Conn κ) : Listeners κ m := ⟨conn, fun _ => .outside, [], [], []⟩

def goto (s : Listeners κ m) (t : Thread) (pc : Pc κ) : Listeners κ m := { s with pc := Function.update s.pc t pc }

/-- The event of `nlcn_msg`, once a datagram is stored into it. -/
def eventOf (x : Junk m × Datagram m) : List UInt8 := m.event (x.2.1 ++ x.1.1.drop x.2.1.length)

/-- One step of the system, or of one thread; there is none after `std::terminate`. -/
inductive Step (sys : NetSys) : Listeners κ m → Listeners κ m → Prop
  | arrive (s : Listeners κ m) (d : Datagram m) :
      Step sys s { s with arrived := s.arrived ++ [d], socket := s.socket ++ [d] }
  | listen {s : Listeners κ m} (ht : s.conn.host.terminated = false) :
      Step sys s { s with
        conn := state ((ProcConnector.listen (m := m) sys false []).run s.conn),
        pc := Function.update s.pc (some s.conn.host.started.length) .receiving }
  | block {s : Listeners κ m} (ht : s.conn.host.terminated = false) (hpc : s.pc none = .outside) :
      Step sys s (s.goto none .receiving)
  | recv {s : Listeners κ m} (t : Thread) (junk : Junk m) {d : Datagram m} {rest : List (Datagram m)}
      (ht : s.conn.host.terminated = false) (hpc : s.pc t = .receiving) (hsocket : s.socket = d :: rest) :
      Step sys s { s.goto t (.calling (eventOf (junk, d)) s.conn.obj.mSubscribers) with
        socket := rest, received := s.received ++ [(junk, d)] }
  | interrupted {s : Listeners κ m} (t : Thread) (ht : s.conn.host.terminated = false) (hpc : s.pc t = .receiving) :
      Step sys s { s with conn.host.errno := EINTR }
  -- an exception that leaves the function of a `std::thread` terminates the program
  | failed {s : Listeners κ m} (n : Nat) (e : Int) (ht : s.conn.host.terminated = false)
      (hpc : s.pc (some n) = .receiving) (he : e ≠ EINTR) :
      Step sys s { s with conn.host.errno := e, conn.host.terminated := true }
  | thrown {s : Listeners κ m} (e : Int) (ht : s.conn.host.terminated = false) (hpc : s.pc none = .receiving)
      (he : e ≠ EINTR) : Step sys s { s.goto none .outside with conn.host.errno := e }
  | call {s : Listeners κ m} (t : Thread) {ev : List UInt8} {c : κ} {left : List κ}
      (ht : s.conn.host.terminated = false) (hpc : s.pc t = .calling ev (c :: left)) :
      Step sys s { s.goto t (.calling ev left) with conn.host.invoked := s.conn.host.invoked ++ [(c, ev)] }
  | again {s : Listeners κ m} (t : Thread) {ev : List UInt8} (ht : s.conn.host.terminated = false)
      (hpc : s.pc t = .calling ev []) : Step sys s (s.goto t .receiving)

abbrev Reach (sys : NetSys) : Listeners κ m → Listeners κ m → Prop := Relation.ReflTransGen (Step sys)

/-! ## The threads as workers on a queue -/

/-- The calls one datagram is due: one to each subscriber, in order of registration. -/
def work (subs : List κ) (x : Junk m × Datagram m) : List (κ × List UInt8) := made subs (frameOf x)

theorem work_eq (subs : List κ) (x : Junk m × Datagram m) : work subs x = subs.map fun c => (c, eventOf x) := rfl

/-- A thread among its callbacks is a worker with these calls left. -/
inductive Same : Pc κ → Job (κ × List UInt8) → Prop
  | outside : Same .outside .idle
  | receiving : Same .receiving .idle
  | calling (n : Nat) (ev : List UInt8) (left : List κ) : Same (.calling ev left) (.busy n (left.map fun c => (c, ev)))

theorem Same.outside_inv {job : Job (κ × List UInt8)} : Same .outside job → job = .idle
  | .outside => rfl

theorem Same.receiving_inv {job : Job (κ × List UInt8)} : Same .receiving job → job = .idle
  | .receiving => rfl

theorem Same.calling_inv {job : Job (κ × List UInt8)} {ev : List UInt8} {left : List κ} :
    Same (.calling ev left) job → ∃ n, job = .busy n (left.map fun c => (c, ev))
  | .calling n _ _ => ⟨n, rfl⟩

theorem Same.busy_inv {pc : Pc κ} {n : Nat} {left : List (κ × List UInt8)} :
    Same pc (.busy n left) → ∃ ev l, pc = .calling ev l
  | .calling _ ev l => ⟨ev, l, rfl⟩

/-- The threads are a pool of workers: the calls made are those logged, the datagrams its items. -/
structure Follows (conn : Conn κ) (s : Listeners κ m)
    (p : Pool (Junk m) (Datagram m) (κ × List UInt8) Thread) : Prop where
  subs    : s.conn.obj.mSubscribers = conn.obj.mSubscribers
  started : ∀ n, s.conn.host.started.length ≤ n → s.pc (some n) = .outside
  socket  : s.socket = p.queue
  taken   : s.received = p.taken
  arrived : s.arrived = p.arrived
  invoked : s.conn.host.invoked = conn.host.invoked ++ p.log.map Prod.snd
  jobs   : ∀ t, Same (s.pc t) (p.jobs t)

theorem follows_initial (conn : Conn κ) : Follows conn (initial conn : Listeners κ m) (.initial []) :=
  ⟨rfl, fun _ _ => rfl, rfl, rfl, rfl, (List.append_nil _).symm, fun _ => .outside⟩

namespace Follows

variable {sys : NetSys} {conn : Conn κ} {s : Listeners κ m} {p : Pool (Junk m) (Datagram m) (κ × List UInt8) Thread}

theorem idle (h : Follows conn s p) {t : Thread} (hpc : s.pc t = .receiving) : p.jobs t = .idle := by
  have hsame := h.jobs t
  rw [hpc] at hsame
  exact hsame.receiving_inv

theorem idle_outside (h : Follows conn s p) {t : Thread} (hpc : s.pc t = .outside) : p.jobs t = .idle := by
  have hsame := h.jobs t
  rw [hpc] at hsame
  exact hsame.outside_inv

theorem busy (h : Follows conn s p) {t : Thread} {ev : List UInt8} {left : List κ} (hpc : s.pc t = .calling ev left) :
    ∃ n, p.jobs t = .busy n (left.map fun c => (c, ev)) := by
  have hsame := h.jobs t
  rw [hpc] at hsame
  exact hsame.calling_inv

/-- A thread and its worker move alike. -/
theorem update (h : Follows conn s p) (t : Thread) {pc : Pc κ} {job : Job (κ × List UInt8)} (hsame : Same pc job) :
    ∀ t', Same (Function.update s.pc t pc t') (Function.update p.jobs t job t') := by
  intro t'
  by_cases ht : t' = t
  · subst ht
    rwa [Function.update_self, Function.update_self]
  · rw [Function.update_of_ne ht, Function.update_of_ne ht]
    exact h.jobs t'

/-- A thread and its idle worker, when only the thread moves. -/
theorem update_idle (h : Follows conn s p) {t : Thread} (ht : p.jobs t = .idle) {pc : Pc κ} (hsame : Same pc .idle) :
    ∀ t', Same (Function.update s.pc t pc t') (p.jobs t') := by
  have hupd := h.update t hsame
  rwa [show Function.update p.jobs t .idle = p.jobs from Function.update_eq_self_iff.2 ht.symm] at hupd

theorem started_update (h : Follows conn s p) {t : Thread} (ht : s.pc t ≠ .outside) (pc : Pc κ) :
    ∀ n, s.conn.host.started.length ≤ n → Function.update s.pc t pc (some n) = .outside := by
  intro n hn
  have hout := h.started n hn
  rw [Function.update_of_ne fun e => ht (by rw [← e]; exact hout)]
  exact hout

/-- **Each step of the threads is at most one step of the workers.** -/
theorem step (h : Follows conn s p) {s' : Listeners κ m} (hst : Step sys s s') :
    ∃ p', WorkQueue.Reach (work conn.obj.mSubscribers) p p' ∧ Follows conn s' p' := by
  have hone : ∀ {p'}, WorkQueue.Step (work conn.obj.mSubscribers) p p' →
      WorkQueue.Reach (work conn.obj.mSubscribers) p p' := fun hp => .single hp
  cases hst with
  | arrive d =>
    refine ⟨_, hone (.arrive p d), h.subs, h.started, by rw [h.socket], h.taken, ?_, h.invoked, h.jobs⟩
    rw [h.arrived, Pool.arrived, Pool.arrived, List.append_assoc]
  | listen ht =>
    refine ⟨p, .refl, h.subs, fun n hn => ?_, h.socket, h.taken, h.arrived, h.invoked,
      h.update_idle (h.idle_outside (h.started _ (Nat.le_refl _))) .receiving⟩
    have hlen : s.conn.host.started.length + 1 ≤ n := hn.trans' (by
      show _ ≤ (s.conn.host.started ++ [_]).length
      rw [List.length_append, List.length_singleton])
    have hne : (some n : Thread) ≠ some s.conn.host.started.length := fun e => by cases e; omega
    exact (Function.update_of_ne hne ..).trans (h.started n (by omega))
  | block ht hpc =>
    refine ⟨p, .refl, h.subs, fun n hn => ?_, h.socket, h.taken, h.arrived, h.invoked,
      h.update_idle (h.idle_outside hpc) .receiving⟩
    have hother : (s.goto none .receiving).pc (some n) = s.pc (some n) :=
      Function.update_of_ne (Option.some_ne_none n) Pc.receiving s.pc
    exact hother.trans (h.started n hn)
  | @recv t junk d rest ht hpc hsocket =>
    have hq : p.queue = d :: rest := h.socket.symm.trans hsocket
    refine ⟨_, hone (.take t junk hq (h.idle hpc)), h.subs, h.started_update (by rw [hpc]; simp) _, rfl, ?_, ?_,
      h.invoked, h.update t ?_⟩
    · rw [h.taken]
    · show s.arrived = _
      rw [h.arrived, Pool.arrived, Pool.arrived, hq, List.map_append, List.append_assoc]
      rfl
    · rw [work_eq, h.subs]
      exact .calling _ _ _
  | interrupted t ht hpc => exact ⟨p, .refl, h.subs, h.started, h.socket, h.taken, h.arrived, h.invoked, h.jobs⟩
  | failed n e ht hpc he => exact ⟨p, .refl, h.subs, h.started, h.socket, h.taken, h.arrived, h.invoked, h.jobs⟩
  | thrown e ht hpc he =>
    have hstarted := h.started_update (t := none) (by rw [hpc]; simp) .outside
    exact ⟨p, .refl, h.subs, hstarted, h.socket, h.taken, h.arrived, h.invoked, h.update_idle (h.idle hpc) .outside⟩
  | @call t ev c left ht hpc =>
    obtain ⟨n, hn⟩ := h.busy hpc
    refine ⟨_, hone (.put t hn), h.subs, h.started_update (by rw [hpc]; simp) _, h.socket, h.taken, h.arrived, ?_,
      h.update t (.calling n ev left)⟩
    show s.conn.host.invoked ++ [(c, ev)] = _
    rw [h.invoked, List.append_assoc, List.map_append]
    rfl
  | again t ht hpc =>
    obtain ⟨n, hn⟩ := h.busy hpc
    exact ⟨_, hone (.finish t hn), h.subs, h.started_update (by rw [hpc]; simp) _, h.socket, h.taken, h.arrived,
      h.invoked, h.update t .receiving⟩

theorem reach (h : Follows conn s p) {s' : Listeners κ m} (hr : Reach sys s s') :
    ∃ p', WorkQueue.Reach (work conn.obj.mSubscribers) p p' ∧ Follows conn s' p' := by
  induction hr with
  | refl => exact ⟨p, .refl, h⟩
  | tail _ hst ih =>
    obtain ⟨q, hq, hf⟩ := ih
    obtain ⟨p', hp', hf'⟩ := hf.step hst
    exact ⟨p', hq.trans hp', hf'⟩

end Follows

/-- No thread is among the callbacks of an event. -/
def Quiet (s : Listeners κ m) : Prop := ∀ t ev left, s.pc t ≠ .calling ev left

/-- **Each datagram is delivered once**, whatever the interleaving: the datagrams are received in the order of arrival;
every call is made for one of those received, and the calls made for one are the first of those it is due, all of them
when no thread is among its callbacks. -/
theorem delivered_once {sys : NetSys} {conn : Conn κ} {s : Listeners κ m} (hr : Reach sys (initial conn) s) :
    s.arrived = s.received.map Prod.snd ++ s.socket ∧
    ∃ log : List (Nat × κ × List UInt8), s.conn.host.invoked = conn.host.invoked ++ log.map Prod.snd ∧
      (∀ x ∈ log, x.1 < s.received.length) ∧
      ∀ n x, s.received[n]? = some x →
        (log.filter (·.1 = n)).map Prod.snd <+: made conn.obj.mSubscribers (frameOf x) ∧
        (s.Quiet → (log.filter (·.1 = n)).map Prod.snd = made conn.obj.mSubscribers (frameOf x)) := by
  obtain ⟨p, hp, hf⟩ := (follows_initial conn).reach hr
  have hacc := hp.accounts (.initial [])
  refine ⟨by rw [hf.arrived, Pool.arrived, hf.taken, hf.socket], p.log, hf.invoked, ?_, fun n x hx => ?_⟩
  · rw [hf.taken]
    exact hacc.logged
  · rw [hf.taken] at hx
    obtain ⟨hpre, hdone⟩ := hacc.logOf_prefix hx
    refine ⟨hpre, fun hquiet => hdone ?_⟩
    rintro ⟨t, left, ht⟩
    have hsame := hf.jobs t
    rw [ht] at hsame
    obtain ⟨ev, l, hpc⟩ := hsame.busy_inv
    exact hquiet t ev l hpc

def oneByte : NlcnMsg := ⟨0, 0, 1, 0⟩

def byte (b : UInt8) : Datagram oneByte := ⟨[b], Nat.le_refl 1⟩

def clearStack : Junk oneByte := ⟨[0], rfl⟩

/-- Two threads take one datagram each, and the second is done first. -/
theorem reach_crossed : ∃ s : Listeners Unit oneByte,
    Reach (granting ⟨40, 0⟩) (initial ⟨⟨3, none, [()]⟩, {}⟩) s ∧ s.Quiet ∧
      s.received = [(clearStack, byte 1), (clearStack, byte 2)] ∧ s.conn.host.invoked = [((), [2]), ((), [1])] := by
  have h := Relation.ReflTransGen.refl (r := Step (granting ⟨40, 0⟩))
    (a := (initial ⟨⟨3, none, [()]⟩, {}⟩ : Listeners Unit oneByte))
  have hreceived := ((((h.tail (.arrive _ (byte 1))).tail (.arrive _ (byte 2))).tail (.listen rfl)).tail
    (.listen rfl)).tail (.recv (some 0) clearStack rfl rfl rfl) |>.tail (.recv (some 1) clearStack rfl rfl rfl)
  have hcalled := hreceived.tail (.call (some 1) rfl rfl) |>.tail (.call (some 0) rfl rfl)
  refine ⟨_, hcalled.tail (.again (some 1) rfl rfl) |>.tail (.again (some 0) rfl rfl), fun t ev left ht => ?_, rfl, rfl⟩
  simp only [goto, initial, Function.update_apply] at ht
  split_ifs at ht

/-- The calls come in the other order, and each datagram is delivered once all the same. -/
theorem delivered_once_crossed : ∃ (s : Listeners Unit oneByte) (log : List (Nat × Unit × List UInt8)),
    s.conn.host.invoked = [((), [2]), ((), [1])] ∧ s.conn.host.invoked = log.map Prod.snd ∧
      (log.filter (·.1 = 0)).map Prod.snd = [((), [1])] ∧ (log.filter (·.1 = 1)).map Prod.snd = [((), [2])] := by
  obtain ⟨s, hr, hquiet, hreceived, hinvoked⟩ := reach_crossed
  obtain ⟨-, log, hlog, -, hdue⟩ := delivered_once hr
  exact ⟨s, log, hinvoked, hlog, (hdue 0 (clearStack, byte 1) (by rw [hreceived]; rfl)).2 hquiet,
    (hdue 1 (clearStack, byte 2) (by rw [hreceived]; rfl)).2 hquiet⟩

/-! ## Without interruption -/

/-- A thread makes the calls it has left. -/
theorem reach_calls {sys : NetSys} {t : Thread} {ev : List UInt8} : ∀ {left : List κ} {s : Listeners κ m},
    s.conn.host.terminated = false → s.pc t = .calling ev left →
    Reach sys s { s.goto t .receiving with
      conn.host.invoked := s.conn.host.invoked ++ left.map fun c => (c, ev) }
  | [], s, ht, hpc => by
    refine .single ?_
    rw [List.map_nil, List.append_nil]
    exact .again t ht hpc
  | c :: left, s, ht, hpc => by
    refine .head (.call t ht hpc) ?_
    have hrest := @reach_calls sys t ev left
      { s.goto t (.calling ev left) with conn.host.invoked := s.conn.host.invoked ++ [(c, ev)] } ht
      (Function.update_self ..)
    simp only [goto, Function.update_idem, List.append_assoc, List.singleton_append] at hrest
    exact hrest

/-- **Run without interruption, the steps of a thread are `processEvent`.** -/
theorem reach_processEvent {sys : NetSys} {s : Listeners κ m} {t : Thread} (junk : Junk m) {d : Datagram m}
    {rest : List (Datagram m)} (ht : s.conn.host.terminated = false) (hpc : s.pc t = .receiving)
    (hsocket : s.socket = d :: rest) :
    Reach sys s { s with
      conn := state ((processEvent sys (frameOf (junk, d))).run s.conn), socket := rest,
      received := s.received ++ [(junk, d)] } := by
  have hcalls := @reach_calls κ m sys t (eventOf (junk, d)) s.conn.obj.mSubscribers
    { s.goto t (.calling (eventOf (junk, d)) s.conn.obj.mSubscribers) with
      socket := rest, received := s.received ++ [(junk, d)] } ht (Function.update_self ..)
  have hback : Function.update (Function.update s.pc t (.calling (eventOf (junk, d)) s.conn.obj.mSubscribers)) t
      .receiving = s.pc := by
    rw [Function.update_idem, ← hpc, Function.update_eq_self]
  have hrun : state ((processEvent sys (frameOf (junk, d))).run s.conn) = { s.conn with
      host.invoked := s.conn.host.invoked ++ s.conn.obj.mSubscribers.map fun c => (c, eventOf (junk, d)) } :=
    congrArg state (run_callbacks (eventOf (junk, d)) s.conn.obj.mSubscribers s.conn)
  rw [hrun]
  refine .head (.recv t junk ht hpc hsocket) ?_
  simp only [goto] at hcalls
  rw [hback] at hcalls
  exact hcalls

/-! ## A single thread -/

/-- The calls that the caller of `listen(true)` has left. -/
def pending (s : Listeners κ m) : List (κ × List UInt8) :=
  match s.pc none with
  | .calling ev left => left.map fun c => (c, ev)
  | _ => []

theorem pending_of_calling {s : Listeners κ m} {ev : List UInt8} {left : List κ} (h : s.pc none = .calling ev left) :
    s.pending = left.map fun c => (c, ev) := by
  rw [pending, h]

theorem pending_of_outside {s : Listeners κ m} (h : s.pc none = .outside) : s.pending = [] := by
  rw [pending, h]

theorem pending_of_receiving {s : Listeners κ m} (h : s.pc none = .receiving) : s.pending = [] := by
  rw [pending, h]

/-- As long as `listen(false)` has not been called, the calls made and those left are in the order of the datagrams. -/
structure Ordered (conn : Conn κ) (s : Listeners κ m) : Prop where
  subs    : s.conn.obj.mSubscribers = conn.obj.mSubscribers
  le      : conn.host.started.length ≤ s.conn.host.started.length
  outside : s.conn.host.started.length = conn.host.started.length → ∀ n, s.pc (some n) = .outside
  calls   : s.conn.host.started.length = conn.host.started.length →
    s.conn.host.invoked ++ s.pending = conn.host.invoked ++ s.received.flatMap (work conn.obj.mSubscribers)

namespace Ordered

variable {sys : NetSys} {conn : Conn κ} {s : Listeners κ m}

theorem only (h : Ordered conn s) (hs : s.conn.host.started.length = conn.host.started.length) {t : Thread}
    (hpc : s.pc t ≠ .outside) : t = none := by
  cases t with
  | none => rfl
  | some n => exact absurd (h.outside hs n) hpc

/-- A step of the thread that listens, which leaves the started ones alone. -/
theorem goto_none (h : Ordered conn s) (hs : s.conn.host.started.length = conn.host.started.length) (pc : Pc κ) (n : Nat) :
    Function.update s.pc none pc (some n) = .outside :=
  (Function.update_of_ne (Option.some_ne_none n) pc s.pc).trans (h.outside hs n)

theorem step (h : Ordered conn s) {s' : Listeners κ m} (hst : Step sys s s') : Ordered conn s' := by
  cases hst with
  | arrive d => exact ⟨h.subs, h.le, h.outside, h.calls⟩
  | listen ht =>
    have hlen : ∀ k, (s.conn.host.started ++ [k]).length = s.conn.host.started.length + 1 := fun k => List.length_append
    have hle := h.le
    refine ⟨h.subs, hle.trans ((Nat.le_succ _).trans (hlen _).ge), fun hs => ?_, fun hs => ?_⟩ <;>
      exact absurd ((hlen _).symm.trans hs) (by omega)
  | block ht hpc =>
    refine ⟨h.subs, h.le, fun hs => h.goto_none hs .receiving, fun hs => ?_⟩
    have hcalls := h.calls hs
    rwa [pending_of_outside hpc] at hcalls
  | @recv t junk d rest ht hpc hsocket =>
    refine ⟨h.subs, h.le, fun hs => ?_, fun hs => ?_⟩ <;>
      obtain rfl : t = none := h.only hs (by rw [hpc]; simp)
    · exact h.goto_none hs (.calling (eventOf (junk, d)) s.conn.obj.mSubscribers)
    · have hcalls := h.calls hs
      rw [pending_of_receiving hpc, List.append_nil] at hcalls
      show s.conn.host.invoked ++ (s.conn.obj.mSubscribers.map fun c => (c, eventOf (junk, d))) =
        conn.host.invoked ++ (s.received ++ [(junk, d)]).flatMap (work conn.obj.mSubscribers)
      rw [hcalls, h.subs, List.flatMap_append, List.append_assoc, List.flatMap_singleton, work_eq]
  | interrupted t ht hpc => exact ⟨h.subs, h.le, h.outside, h.calls⟩
  | failed n e ht hpc he => exact ⟨h.subs, h.le, h.outside, h.calls⟩
  | thrown e ht hpc he =>
    refine ⟨h.subs, h.le, fun hs => h.goto_none hs .outside, fun hs => ?_⟩
    have hcalls := h.calls hs
    rwa [pending_of_receiving hpc] at hcalls
  | @call t ev c left ht hpc =>
    refine ⟨h.subs, h.le, fun hs => ?_, fun hs => ?_⟩ <;>
      obtain rfl : t = none := h.only hs (by rw [hpc]; simp)
    · exact h.goto_none hs (.calling ev left)
    · have hcalls := h.calls hs
      rw [pending_of_calling hpc] at hcalls
      show s.conn.host.invoked ++ [(c, ev)] ++ (left.map fun c => (c, ev)) =
        conn.host.invoked ++ s.received.flatMap (work conn.obj.mSubscribers)
      rw [← hcalls, List.append_assoc]
      rfl
  | @again t ev ht hpc =>
    refine ⟨h.subs, h.le, fun hs => ?_, fun hs => ?_⟩ <;>
      obtain rfl : t = none := h.only hs (by rw [hpc]; simp)
    · exact h.goto_none hs .receiving
    · have hcalls := h.calls hs
      rwa [pending_of_calling hpc] at hcalls

end Ordered

/-- **A connector that is only listened to by `listen(true)`** makes its calls in the order of the datagrams: those that
`listenBlock` makes of them, as soon as no call is left. -/
theorem invoked_blocking {sys : NetSys} {conn : Conn κ} {s : Listeners κ m} (hr : Reach sys (initial conn) s)
    (hs : s.conn.host.started = conn.host.started) :
    s.conn.host.invoked ++ s.pending =
      (state ((listenBlock sys (s.received.map frameOf)).run conn)).host.invoked := by
  have hinv : Ordered conn s := by
    clear hs
    induction hr with
    | refl => exact ⟨rfl, Nat.le_refl _, fun _ _ => rfl, fun _ => rfl⟩
    | tail _ hst ih => exact ih.step hst
  have hall : (s.received.map frameOf).takeWhile (!·.fatal) = s.received.map frameOf :=
    takeWhile_all fun f hf => by
      obtain ⟨x, -, rfl⟩ := List.mem_map.1 hf
      rfl
  rw [run_listenBlock, hall, List.flatMap_map]
  exact hinv.calls (congrArg List.length hs)

/-- Two datagrams, and one call left of the second. -/
theorem invoked_blocking_twice : ∃ s : Listeners Unit oneByte, s.conn.host.invoked = [((), [1])] ∧ s.pending = [((), [2])] ∧
    s.conn.host.invoked ++ s.pending = (state ((listenBlock (granting ⟨40, 0⟩)
      [frameOf (clearStack, byte 1), frameOf (clearStack, byte 2)]).run ⟨⟨3, none, [()]⟩, {}⟩)).host.invoked := by
  have h := Relation.ReflTransGen.refl (r := Step (granting ⟨40, 0⟩))
    (a := (initial ⟨⟨3, none, [()]⟩, {}⟩ : Listeners Unit oneByte))
  have hfirst := (((h.tail (.block rfl rfl)).tail (.arrive _ (byte 1))).tail (.arrive _ (byte 2))).tail
    (.recv none clearStack rfl rfl rfl) |>.tail (.call none rfl rfl) |>.tail (.again none rfl rfl)
  exact ⟨_, rfl, rfl, invoked_blocking (hfirst.tail (.recv none clearStack rfl rfl rfl)) rfl⟩

end Listeners

end ProcConnector
end SysInfo
