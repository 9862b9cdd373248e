import SysInfo.Monitor
/-!
# Rounds — listing the processes and asking each for its usage, again and again

Every round constructs new objects, as `processList` does, and calls `cpuUsage()` on each.  A new object knows nothing of
the rounds before, but the table does: a call returns the share of the ticks since the last call that recorded the same
pid, in whatever round and by whatever object, and 0 the first time (`rounds_exact`).  A call that finds no number of
cores throws and records nothing; the first number found is everyone's.

Recorded are the pid and the ticks an object has once it has read `stat`, whatever that file holds (`Watch.seen`).  They
are the process's own when the file is there and the name has no white space (`Watch.now_of_line`).
-/
namespace SysInfo

open IStream Effects ProcessInfo Baseline

/-- An object of a round: the memory it is constructed on, and the files when its usage is asked for. -/
structure Watch where
  id   : ObjId
  junk : ProcessInfo
  sys  : Sys

namespace Watch

variable (e : Watch)

def fresh : ProcessInfo := ProcessInfo.construct e.junk e.id.pid

/-- The object once it has read `stat`. -/
def seen : ProcessInfo := parseStat (openFile (e.sys.file (procPath e.id.pid ++ "stat".toList))) e.fresh

/-- The pid its call records. -/
def pid : Int32 := e.seen.mPid

/-- The ticks its call records: the machine's, and those of the object. -/
def now : UInt64 × UInt64 := (cpuTotalTime e.sys, e.seen.ticks)

def construct : Sys × Op := (e.sys, .construct e.id e.junk)

def call : Sys × Op := (e.sys, .call e.id (.usage .cpuUsage))

theorem run_utime : (utime e.sys).run e.fresh = .ok (e.seen.mStat .utime) (e.seen.updated .stat) := by
  have hread : (reader e.sys .stat).run e.fresh = .ok () e.seen := rfl
  exact run_getter_of_due rfl hread

/-- **`cpuUsage()` on a new object** throws when the cores cannot be counted, or returns the share since the baseline and
records what the object has seen. -/
theorem run_call (st : Static) :
    (∃ ex, st.coresFor e.sys = .error ex ∧ (ProcessInfo.cpuUsage e.sys).run ⟨e.fresh, st⟩ = .error ex ⟨e.fresh, st⟩) ∨
    ∃ nb t, st.coresFor e.sys = .ok nb ∧
      (ProcessInfo.cpuUsage e.sys).run ⟨e.fresh, st⟩ = .ok (ticksSince nb e.now (base st.table e.pid .cpu)) t ∧
      t.static.nbCore = some nb ∧
      ∃ held, t.static.table = st.table.record ⟨e.pid, .cpu, held⟩ ∧ held .cpu = e.now := by
  rcases run_cpuUsage_any e.sys ⟨e.fresh, st⟩ with ⟨-, ex, hcores, hrun⟩ | ⟨hd, -⟩ |
    ⟨-, nb, t, hcores, hrun, htable, hnb, q, hq, hpid, hticks⟩
  · exact .inl ⟨ex, hcores, hrun⟩
  · cases hd
  · obtain rfl : e.seen.updated .stat = q := (EStateM.Result.ok.inj (e.run_utime.symm.trans hq)).2
    have hnow : (cpuTotalTime e.sys, t.obj.ticks) = e.now := by rw [now, hticks, ticks_updated]
    have hseen : t.obj.mPid = e.pid := hpid
    rw [hseen, hnow] at hrun
    rw [hseen] at htable
    exact .inr ⟨nb, t, hcores, hrun, hnb, _, htable, hnow⟩

variable {e} {l : StatLine} (hfile : e.sys.file (procPath e.id.pid ++ "stat".toList) = some l.text)

include hfile

/-- With a line of the kernel the pid is the one of the line. -/
theorem pid_of_line : e.pid = l.pid := by
  rw [pid, seen, hfile]
  exact l.mPid_parseStat_line e.fresh

/-- **With a line of the kernel whose name has no white space** the ticks are those of the process. -/
theorem now_of_line (hplain : ∀ c ∈ l.comm, isSpace c = false) :
    e.now = (cpuTotalTime e.sys, let utime : UInt64 := l.num .utime; let stime : UInt64 := l.num .stime; utime + stime) := by
  have hnum : ∀ f, e.seen.mStat f = l.num f := fun f => by
    rw [seen, hfile]
    exact StatLine.num_parseStat_line hplain e.fresh f
  rw [now, ticks, hnum, hnum]

end Watch

/-- The objects of a round are different ones. -/
structure Round where
  listed : List Watch
  nodup  : (listed.map Watch.id).Nodup

/-- The objects are constructed first, and then asked one after the other. -/
def Round.ops (r : Round) : List (Sys × Op) := r.listed.map Watch.construct ++ r.listed.map Watch.call

/-! ## What is answered -/

/-- The number of cores once it is found, and the objects whose calls have returned. -/
structure Asked where
  cores : Option Int32
  past  : List Watch

namespace Asked

def initial : Asked := ⟨none, []⟩

/-- The ticks when the pid was last recorded. -/
def lastSeen (a : Asked) (pid : Int32) : Option (UInt64 × UInt64) :=
  (a.past.filter (·.pid = pid)).getLast?.map Watch.now

/-- One object is asked. -/
def ask (e : Watch) (a : Asked) : Asked × Answer :=
  match a.cores.elim (getNbCores e.sys) .ok with
  | .error ex => (a, some ⟨.usage .cpuUsage, .error ex⟩)
  | .ok nb    =>
    (⟨some nb, a.past ++ [e]⟩, some ⟨.usage .cpuUsage, .ok (ticksSince nb e.now (a.lastSeen e.pid))⟩)

/-- Constructing answers nothing. -/
def answers : Asked → List Round → List Answer
  | _, []      => []
  | a, r :: rs =>
    List.replicate r.listed.length none ++ ((runOps ask a r.listed).2 ++ answers (runOps ask a r.listed).1 rs)

theorem lastSeen_concat (a : Asked) (cores : Option Int32) (e : Watch) (pid : Int32) :
    lastSeen ⟨cores, a.past ++ [e]⟩ pid = if pid = e.pid then some e.now else a.lastSeen pid := by
  rw [lastSeen, List.filter_append]
  by_cases hp : pid = e.pid
  · rw [if_pos hp, List.filter_cons_of_pos (by simp [hp]), List.filter_nil, List.getLast?_concat]
    rfl
  · rw [if_neg hp, List.filter_cons_of_neg (by simpa using Ne.symm hp), List.filter_nil, List.append_nil]
    rfl

end Asked

/-! ## The program -/

/-- The statics hold the number of cores, and the ticks that every pid had when it was last recorded. -/
structure Watched (a : Asked) (w : World) : Prop where
  cores : w.static.nbCore = a.cores
  table : ∀ pid, base w.static.table pid .cpu = a.lastSeen pid

namespace Watched

variable {a : Asked} {w : World}

/-- Constructing objects does not touch the statics; each object is there when no later one takes its place. -/
theorem run_constructs : ∀ (es : List Watch) (w : World), (es.map Watch.id).Nodup →
    (World.run w (es.map Watch.construct)).1.static = w.static ∧
    (World.run w (es.map Watch.construct)).2 = List.replicate es.length none ∧
    (∀ e ∈ es, (World.run w (es.map Watch.construct)).1.objs e.id = some e.fresh) ∧
    ∀ id : ObjId, (∀ e ∈ es, e.id ≠ id) → (World.run w (es.map Watch.construct)).1.objs id = w.objs id
  | [], w, _ => ⟨rfl, rfl, fun _ h => absurd h List.not_mem_nil, fun _ _ => rfl⟩
  | e :: es, w, h => by
    obtain ⟨hnew, hrest⟩ := List.nodup_cons.1 h
    obtain ⟨hstatic, hanswers, hobjs, hframe⟩ := run_constructs es (w.set e.id e.fresh) hrest
    have hne : ∀ d ∈ es, d.id ≠ e.id := fun d hd hid => hnew (List.mem_map.2 ⟨d, hd, hid⟩)
    refine ⟨hstatic, congrArg (none :: ·) hanswers, fun d hd => ?_, fun id hid => ?_⟩
    · rcases List.mem_cons.1 hd with rfl | hd
      · exact (hframe _ hne).trans (World.objs_set_self ..)
      · exact hobjs d hd
    · exact (hframe id fun d hd => hid d (by simp [hd])).trans
        (World.objs_set_of_ne w (fun hc => hid e (by simp) hc.symm) _)

/-- **One call** answers as `ask` does, and leaves the other objects alone. -/
theorem call (h : Watched a w) {e : Watch} (he : w.objs e.id = some e.fresh) :
    (World.step e.call w).2 = (Asked.ask e a).2 ∧ Watched (Asked.ask e a).1 (World.step e.call w).1 ∧
      ∀ id, id ≠ e.id → (World.step e.call w).1.objs id = w.objs id := by
  have hfor : w.static.coresFor e.sys = a.cores.elim (getNbCores e.sys) .ok := by rw [Static.coresFor, h.cores]
  have hstep : World.step (e.sys, .call e.id (.usage .cpuUsage)) w = _ :=
    World.step_call he (.usage .cpuUsage)
  rw [Query.call, Usage.call] at hstep
  rw [Watch.call, hstep, Asked.ask, ← hfor]
  rcases e.run_call w.static with ⟨ex, hcores, hrun⟩ | ⟨nb, t, hcores, hrun, hnb, held, htable, hheld⟩
  · rw [hrun, hcores]
    exact ⟨rfl, ⟨h.cores, h.table⟩, fun id hid => Function.update_of_ne hid ..⟩
  · rw [hrun, hcores, h.table]
    refine ⟨rfl, ⟨hnb, fun pid => ?_⟩, fun id hid => Function.update_of_ne hid ..⟩
    show base t.static.table pid .cpu = _
    rw [htable, Asked.lastSeen_concat]
    by_cases hp : pid = e.pid
    · rw [if_pos hp, hp, ← hheld]
      exact base_record_self w.static.table ⟨e.pid, .cpu, held⟩
    · rw [if_neg hp, base, record_of_ne _ _ hp, ← h.table]
      rfl

theorem run_calls : ∀ (es : List Watch) {a : Asked} {w : World}, (es.map Watch.id).Nodup → Watched a w →
    (∀ e ∈ es, w.objs e.id = some e.fresh) →
      (World.run w (es.map Watch.call)).2 = (runOps Asked.ask a es).2 ∧
        Watched (runOps Asked.ask a es).1 (World.run w (es.map Watch.call)).1
  | [], a, w, _, h, _ => ⟨rfl, h⟩
  | e :: es, a, w, hnodup, h, hobjs => by
    obtain ⟨hnew, hrest⟩ := List.nodup_cons.1 hnodup
    obtain ⟨hanswer, hnext, hframe⟩ := h.call (hobjs e (by simp))
    have hfresh : ∀ d ∈ es, (World.step e.call w).1.objs d.id = some d.fresh := fun d hd => by
      rw [hframe d.id fun hid => hnew (List.mem_map.2 ⟨d, hd, hid⟩)]
      exact hobjs d (by simp [hd])
    obtain ⟨ih, hlast⟩ := run_calls es hrest hnext hfresh
    refine ⟨?_, hlast⟩
    rw [runOps, ← hanswer, ← ih]
    rfl

/-- **One round.** -/
theorem round (h : Watched a w) (r : Round) :
    (World.run w r.ops).2 = List.replicate r.listed.length none ++ (runOps Asked.ask a r.listed).2 ∧
      Watched (runOps Asked.ask a r.listed).1 (World.run w r.ops).1 := by
  obtain ⟨hstatic, hanswers, hobjs, -⟩ := run_constructs r.listed w r.nodup
  have hfresh : Watched a (World.run w (r.listed.map Watch.construct)).1 := by
    refine ⟨?_, fun pid => ?_⟩ <;> rw [hstatic]
    · exact h.cores
    · exact h.table pid
  obtain ⟨hcalls, hlast⟩ := run_calls r.listed r.nodup hfresh hobjs
  rw [Round.ops, World.run, runOps_append]
  exact ⟨by rw [← hanswers, ← hcalls]; rfl, hlast⟩

theorem rounds : ∀ (rs : List Round) {a : Asked} {w : World}, Watched a w →
    (World.run w (rs.flatMap Round.ops)).2 = a.answers rs
  | [], _, _, _ => rfl
  | r :: rs, a, w, h => by
    obtain ⟨hanswers, hnext⟩ := h.round r
    rw [List.flatMap_cons, World.run, runOps_append, Asked.answers, ← rounds rs hnext, ← List.append_assoc, ← hanswers]
    rfl

end Watched

/-- **The usages of a program that lists all processes over and over**: each call is answered with the share of the ticks
since its pid was last recorded, whatever other processes came, went or were asked in between, and whatever the files
held.  Where the kernel printed the file and the name has no white space, pid and ticks are those of the process. -/
theorem rounds_exact (rs : List Round) :
    (World.run World.initial (rs.flatMap Round.ops)).2 = Asked.initial.answers rs ∧
    ∀ r ∈ rs, ∀ e ∈ r.listed, ∀ l : StatLine, e.sys.file (procPath e.id.pid ++ "stat".toList) = some l.text →
      e.pid = l.pid ∧ ((∀ c ∈ l.comm, isSpace c = false) →
        e.now = (cpuTotalTime e.sys, let utime : UInt64 := l.num .utime; let stime : UInt64 := l.num .stime; utime + stime)) :=
  ⟨Watched.rounds rs ⟨rfl, fun _ => rfl⟩, fun _ _ _ _ _ hfile =>
    ⟨Watch.pid_of_line hfile, Watch.now_of_line hfile⟩⟩

/-! ### A machine that runs `init` only -/

/-- An object for a pid there, when `init` has had `utime` of the machine's `user` ticks. -/
def Watch.small (pid : Int32) (utime user : UInt64) : Watch :=
  ⟨⟨pid, 0⟩, zeroed, Sys.small (.init utime 0) (.bytes 0 0) user 0⟩

theorem Watch.cpuTotalTime_small (pid : Int32) (utime user : UInt64) : cpuTotalTime (small pid utime user).sys = user := by
  rw [(CpuLine.userOnly user).cpuTotalTime_eq rfl]
  simp [CpuLine.total, CpuLine.userOnly]

/-- Two rounds, the second one with a process that is gone when its usage is asked for. -/
def twoRounds : List Round :=
  [⟨[.small 1 10 100], List.nodup_singleton _⟩, ⟨[.small 1 60 200, .small 7 60 200], by decide⟩]

/-- `init` is given its 50 ticks of the 100 since the first round, and the other process, never seen before, 0. -/
theorem rounds_exact_two : (World.run World.initial (twoRounds.flatMap Round.ops)).2 =
    [none, some ⟨.usage .cpuUsage, .ok 0⟩, none, none, some ⟨.usage .cpuUsage, .ok 50⟩,
      some ⟨.usage .cpuUsage, .ok 0⟩] := by
  obtain ⟨hanswers, hlines⟩ := rounds_exact twoRounds
  have hinit : ∀ r ∈ twoRounds, ∀ utime user, Watch.small 1 utime user ∈ r.listed →
      (Watch.small 1 utime user).pid = 1 ∧ (Watch.small 1 utime user).now = (user, utime) := by
    intro r hr utime user he
    obtain ⟨hpid, hnow⟩ := hlines r hr _ he (.init utime 0) (Sys.stat_small ..)
    rw [hnow (StatLine.plain_init utime 0), Watch.cpuTotalTime_small]
    exact ⟨hpid, congrArg (Prod.mk user) (UInt64.add_zero utime)⟩
  obtain ⟨hpid, hnow⟩ := hinit _ (List.mem_cons_self ..) 10 100 (List.mem_cons_self ..)
  obtain ⟨hpid', hnow'⟩ := hinit _ (List.mem_cons_of_mem _ (List.mem_cons_self ..)) 60 200 (List.mem_cons_self ..)
  have hgone : (Watch.small 7 60 200).pid = 7 := rfl
  have hcores : ∀ pid utime user, getNbCores (Watch.small pid utime user).sys = .ok 1 := fun _ _ _ => rfl
  rw [hanswers]
  simp only [twoRounds, Asked.answers, Asked.initial, runOps, Asked.ask, hcores, Asked.lastSeen, Option.elim_none,
    Option.elim_some, List.nil_append, List.filter_nil, List.filter_cons, hpid, hpid', hgone, hnow, hnow']
  rfl

end SysInfo
