import SysInfo.Baseline
import SysInfo.Isolation
import Mathlib.Data.UInt
/-!
# Monitor — the table of old states is a table of samples

`map_pid_oldstate` holds whole copies of objects, but all that ever comes out of it is two samples for each pid: the ticks
of machine and process, and the I/O counters with their time.  Every usage call that is due and returns is one record on
such a table, under the pid its object has by then; every other call leaves it alone.  So the table is the replay of the
log of these records, in every run, over any number of objects and whatever the files hold: `table_replays`.

What a call returns is the difference to the baseline in that table (`cpuUsage_answer`, `ioUsage_answer`), and the ticks
that all calls of a pid have counted add up to those between its first and its last sample (`counted_ticks`).
-/
namespace SysInfo

open Effects ProcessInfo Baseline

/-- The two samples of an entry. -/
inductive Component where
  | cpu
  | io
deriving DecidableEq

abbrev Component.Val : Component → Type
  | .cpu => UInt64 × UInt64
  | .io  => IoStat

/-- What an object holds of each component: `m_last_cpu_total_time` and `m_last_process_total_time`, and `m_io`. -/
def ProcessInfo.held (p : ProcessInfo) : (i : Component) → i.Val
  | .cpu => (p.mLastCpuTotalTime, p.mLastProcessTotalTime)
  | .io  => p.mIo

/-- The samples of the entries. -/
def Static.table (st : Static) : Table Int32 Component.Val := fun pid => (st.mapPidOldstate pid).map held

theorem base_table (st : Static) (pid : Int32) (i : Component) :
    base st.table pid i = (st.mapPidOldstate pid).map (held · i) := by
  rw [base, Static.table, Option.map_map]
  rfl

/-- The share of the ticks since a baseline of machine and process ticks. -/
def ticksSince (nbCore : Int32) (now : UInt64 × UInt64) : Option (UInt64 × UInt64) → Int32
  | none      => 0
  | some last => cpuShare nbCore (now.2 - last.2) (now.1 - last.1)

theorem shareSince_eq (nbCore : Int32) (total process : UInt64) (old : Option ProcessInfo) :
    shareSince nbCore total process old = ticksSince nbCore (total, process) (old.map (held · .cpu)) := by
  cases old <;> rfl

/-! ## The records of a call -/

/-- The record of an I/O call: one when it is due and returns. -/
def ioRecord (m : IoMetric) (sys : Sys) (s : This) : List (Record Int32 Component.Val) :=
  match (ioUsage m sys).run s with
  | .ok _ t    => if s.obj.mNeedUpdate m.source then [⟨t.obj.mPid, .io, t.obj.held⟩] else []
  | .error _ _ => []

/-- What the object of a CPU call holds when it records: its new ticks, and `m_io`. -/
def cpuHeld (total : UInt64) (p : ProcessInfo) : (i : Component) → i.Val
  | .cpu => (total, p.ticks)
  | .io  => p.mIo

def cpuRecord (sys : Sys) (s : This) : List (Record Int32 Component.Val) :=
  match (ProcessInfo.cpuUsage sys).run s with
  | .ok _ t    => if s.obj.mNeedUpdate .cpuUsage then [⟨t.obj.mPid, .cpu, cpuHeld (cpuTotalTime sys) t.obj⟩] else []
  | .error _ _ => []

/-- The sum asks for one metric after the other, unless the first throws. -/
def totalRecord (m : IoMetric) (sys : Sys) (s : This) : List (Record Int32 Component.Val) :=
  match (ioUsage m sys).run s with
  | .ok _ t    => ioRecord m sys s ++ ioRecord m.other sys t
  | .error _ _ => []

def Usage.records (sys : Sys) (s : This) : Usage → List (Record Int32 Component.Val)
  | .cpuUsage => cpuRecord sys s
  | .ioReadUsage => ioRecord .read sys s
  | .ioWriteUsage => ioRecord .write sys s
  | .ioTotalUsage readFirst => totalRecord (if readFirst then .read else .write) sys s

/-! ## An I/O call -/

section IoCall

variable {m : IoMetric} {sys : Sys} {s t : This}

theorem table_recordIo (m : IoMetric) (q : ProcessInfo) (st : Static) :
    (recordIo m (q.mIo.counter m.field) ⟨q, st⟩).static.table = st.table.record ⟨q.mPid, .io, q.held⟩ := by
  rw [This.recordIo_eq]
  funext pid
  by_cases hp : pid = q.mPid
  · subst hp
    rw [record_self, Static.table, Static.mapPidOldstate_store_self, Static.table]
    cases st.mapPidOldstate q.mPid with
    | none => exact congrArg some (funext fun i => by cases i <;> rfl)
    | some old => exact congrArg some (funext fun i => by cases i <;> rfl)
  · rw [record_of_ne _ _ hp, Static.table, Static.mapPidOldstate_store_of_ne _ hp]
    rfl

/-- An I/O call that is due, once its read has returned. -/
theorem run_ioUsage_read {bytes : UInt64} {q : ProcessInfo} (hd : s.obj.mNeedUpdate m.source = true)
    (hread : (getter sys .io (·.mIo.counter m.field)).run s.obj = .ok bytes q) :
    (ioUsage m sys).run s = .ok (rateSince m q.mIo (base s.static.table q.mPid .io))
      ⟨(m.setUsage (rateSince m q.mIo (base s.static.table q.mPid .io)) q).updated m.source,
        s.static.store q.mPid (((s.static.mapPidOldstate q.mPid).getD q).withIo q.mIo)⟩ := by
  have hbytes : bytes = q.mIo.counter m.field := by
    obtain ⟨_, q', _, hq⟩ := of_run_bind_ok hread
    simp only [EStateM.run_bind, EStateM.run_get, EStateM.run_pure, EStateM.Result.ok.injEq] at hq
    rw [← hq.1, hq.2]
  subst hbytes
  have hupd : (updateIoUsage m sys).run s = .ok () (recordIo m (q.mIo.counter m.field) ⟨q, s.static⟩) := by
    rw [updateIoUsage, EStateM.run_bind, run_onObj_ok hread]
    rfl
  rw [This.recordIo_eq] at hupd
  rw [ioUsage, EStateM.run_bind, This.run_refreshUsage_of_due hd hupd, base_table]
  cases m <;> rfl

/-- **An I/O call**: it throws and leaves the statics alone, or returns what it returned last time, or records a sample and
returns the rate since the baseline. -/
theorem run_ioUsage_any (m : IoMetric) (sys : Sys) (s : This) :
    (∃ e p, (ioUsage m sys).run s = .error e ⟨p, s.static⟩) ∨
    (s.obj.mNeedUpdate m.source = false ∧ (ioUsage m sys).run s = .ok (m.usage s.obj) s) ∨
    (s.obj.mNeedUpdate m.source = true ∧ ∃ t,
      (ioUsage m sys).run s = .ok (rateSince m t.obj.mIo (base s.static.table t.obj.mPid .io)) t ∧
      t.static.table = s.static.table.record ⟨t.obj.mPid, .io, t.obj.held⟩ ∧ t.static.nbCore = s.static.nbCore) := by
  cases hd : s.obj.mNeedUpdate m.source with
  | false =>
    refine .inr (.inl ⟨rfl, ?_⟩)
    rw [ioUsage, EStateM.run_bind, This.run_refreshUsage_of_not_due hd]
    rfl
  | true =>
    cases hread : (getter sys .io (·.mIo.counter m.field)).run s.obj with
    | error e q =>
      refine .inl ⟨e, q, ?_⟩
      have hupd : (refreshUsage m.source (updateIoUsage m sys)).run s = .error e ⟨q, s.static⟩ := by
        simp only [refreshUsage, EStateM.run_bind, EStateM.run_get, hd, if_true, updateIoUsage, run_onObj_error hread]
      rw [ioUsage, EStateM.run_bind, hupd]
    | ok bytes q =>
      have htable := table_recordIo m q s.static
      have hrun := run_ioUsage_read hd hread
      rw [This.recordIo_eq] at htable
      obtain ⟨r, hr⟩ : ∃ r, r = rateSince m q.mIo (base s.static.table q.mPid .io) := ⟨_, rfl⟩
      rw [← hr] at hrun
      have hpid : ((m.setUsage r q).updated m.source).mPid = q.mPid := by cases m <;> rfl
      have hheld : ((m.setUsage r q).updated m.source).held = q.held := by
        cases m <;> exact funext fun i => by cases i <;> rfl
      refine .inr (.inr ⟨rfl, ⟨(m.setUsage r q).updated m.source,
        s.static.store q.mPid (((s.static.mapPidOldstate q.mPid).getD q).withIo q.mIo)⟩, ?_, ?_, rfl⟩)
      · have hio : ((m.setUsage r q).updated m.source).mIo = q.mIo := congrFun hheld .io
        rw [hrun, hpid, hio, ← hr]
      · rw [hpid, hheld]
        exact htable

end IoCall

/-! ## A CPU call -/

section CpuCall

/-- The number of cores a call counts with: the one found first, or the one of now. -/
def Static.coresFor (st : Static) (sys : Sys) : Except Exn Int32 := st.nbCore.elim (getNbCores sys) .ok

theorem Static.eq_of_coresFor {st : Static} {sys : Sys} {nb : Int32} (h : st.coresFor sys = .ok nb) :
    ∀ k ∈ st.nbCore, k = nb := by
  intro k hk
  rw [Static.coresFor, Option.mem_def.1 hk, Option.elim_some] at h
  exact Except.ok.inj h

theorem run_nbCore_any (sys : Sys) (s : This) :
    (∃ e, s.static.coresFor sys = .error e ∧ (nbCore sys).run s = .error e s) ∨
      ∃ nb, s.static.coresFor sys = .ok nb ∧
        (nbCore sys).run s = .ok nb ⟨s.obj, { s.static with nbCore := some nb }⟩ := by
  obtain ⟨p, cores, table⟩ := s
  simp only [nbCore, EStateM.run_bind, EStateM.run_get, Static.coresFor]
  cases cores with
  | some n => exact .inr ⟨n, rfl, rfl⟩
  | none =>
    cases h : getNbCores sys with
    | error e => exact .inl ⟨e, rfl, rfl⟩
    | ok n => exact .inr ⟨n, rfl, rfl⟩

theorem table_recordCpu (nb : Int32) (total : UInt64) (q : ProcessInfo) (st : Static) :
    (recordCpu nb total q.ticks ⟨q, st⟩).static.table = st.table.record ⟨q.mPid, .cpu, cpuHeld total q⟩ := by
  rw [This.recordCpu_eq]
  funext pid
  by_cases hp : pid = q.mPid
  · subst hp
    rw [record_self, Static.table, Static.mapPidOldstate_store_self, Static.table]
    cases st.mapPidOldstate q.mPid with
    | none => exact congrArg some (funext fun i => by cases i <;> rfl)
    | some old => exact congrArg some (funext fun i => by cases i <;> rfl)
  · rw [record_of_ne _ _ hp, Static.table, Static.mapPidOldstate_store_of_ne _ hp]
    rfl

/-- **What an update subtracts is what its record counts**: the share is that of the two differences to the entry. -/
theorem recordCpu_counts (nb : Int32) (total : UInt64) (q : ProcessInfo) (st : Static) :
    (recordCpu nb total q.ticks ⟨q, st⟩).obj.mCpuUsage =
      cpuShare nb (delta q.mPid .cpu (fun ticks => ticks.2) st.table ⟨q.mPid, .cpu, cpuHeld total q⟩)
        (delta q.mPid .cpu (fun ticks => ticks.1) st.table ⟨q.mPid, .cpu, cpuHeld total q⟩) := by
  rw [delta, delta, if_pos ⟨rfl, rfl⟩, if_pos ⟨rfl, rfl⟩, base_table]
  unfold recordCpu
  cases st.mapPidOldstate q.mPid <;> rfl

/-- **A CPU call**: it throws because the cores cannot be counted and changes nothing, or returns what it returned last
time, or records a sample, the ticks of the object behind `utime()`, and returns the share since the baseline. -/
theorem run_cpuUsage_any (sys : Sys) (s : This) :
    (s.obj.mNeedUpdate .cpuUsage = true ∧
      ∃ e, s.static.coresFor sys = .error e ∧ (ProcessInfo.cpuUsage sys).run s = .error e s) ∨
    (s.obj.mNeedUpdate .cpuUsage = false ∧ (ProcessInfo.cpuUsage sys).run s = .ok s.obj.mCpuUsage s) ∨
    (s.obj.mNeedUpdate .cpuUsage = true ∧ ∃ nb t, s.static.coresFor sys = .ok nb ∧ (ProcessInfo.cpuUsage sys).run s =
        .ok (ticksSince nb (cpuTotalTime sys, t.obj.ticks) (base s.static.table t.obj.mPid .cpu)) t ∧
      t.static.table = s.static.table.record ⟨t.obj.mPid, .cpu, cpuHeld (cpuTotalTime sys) t.obj⟩ ∧
      t.static.nbCore = some nb ∧
      ∃ q, (utime sys).run s.obj = .ok (q.mStat .utime) q ∧ t.obj.mPid = q.mPid ∧ t.obj.ticks = q.ticks) := by
  cases hd : s.obj.mNeedUpdate .cpuUsage with
  | false =>
    refine .inr (.inl ⟨rfl, ?_⟩)
    rw [ProcessInfo.cpuUsage, EStateM.run_bind, This.run_refreshUsage_of_not_due hd]
    rfl
  | true =>
    rcases run_nbCore_any sys s with ⟨e, hfor, hcores⟩ | ⟨nb, hfor, hcores⟩
    · refine .inl ⟨rfl, e, hfor, ?_⟩
      have hupd : (refreshUsage .cpuUsage (updateCPUUsage sys)).run s = .error e s := by
        simp only [refreshUsage, EStateM.run_bind, EStateM.run_get, hd, if_true, updateCPUUsage, hcores]
      rw [ProcessInfo.cpuUsage, EStateM.run_bind, hupd]
    · obtain ⟨q, hutime, hclear⟩ := run_getter_stat_any sys (fun p => p.mStat .utime) s.obj
      have hstime := @run_getter_of_not_due _ sys .stat (fun p => p.mStat .stime) q hclear
      have hupd : (updateCPUUsage sys).run s = .ok () (recordCpu nb (cpuTotalTime sys) q.ticks
          ⟨q, { s.static with nbCore := some nb }⟩) := by
        rw [updateCPUUsage, EStateM.run_bind, hcores]
        simp only [EStateM.run_bind]
        rw [show (onObj (utime sys) : Cpp This UInt64).run ⟨s.obj, { s.static with nbCore := some nb }⟩ = _ from
          run_onObj_ok hutime]
        simp only
        rw [show (onObj (stime sys) : Cpp This UInt64).run ⟨q, { s.static with nbCore := some nb }⟩ = _ from
          run_onObj_ok hstime]
        rfl
      have htable := table_recordCpu nb (cpuTotalTime sys) q { s.static with nbCore := some nb }
      rw [This.recordCpu_eq] at htable hupd
      obtain ⟨v, hv⟩ : ∃ v, v = shareSince nb (cpuTotalTime sys) q.ticks (s.static.mapPidOldstate q.mPid) := ⟨_, rfl⟩
      obtain ⟨p, hp⟩ : ∃ p, p = if (s.static.mapPidOldstate q.mPid).isSome then q
        else q.withTicks (cpuTotalTime sys) q.ticks := ⟨_, rfl⟩
      have hobj : p.mPid = q.mPid ∧ p.ticks = q.ticks ∧ p.mIo = q.mIo := by
        rw [hp]
        split <;> exact ⟨rfl, rfl, rfl⟩
      rw [← hv, ← hp] at htable hupd
      obtain ⟨hpid, hticks, hio⟩ := hobj
      have hheld : cpuHeld (cpuTotalTime sys) ((p.withCpuUsage v).updated .cpuUsage) = cpuHeld (cpuTotalTime sys) q := by
        funext i
        cases i with
        | cpu => exact congrArg (Prod.mk _) hticks
        | io => exact hio
      refine .inr (.inr ⟨rfl, nb, ⟨(p.withCpuUsage v).updated .cpuUsage, Static.store { s.static with nbCore := some nb }
        q.mPid (((s.static.mapPidOldstate q.mPid).getD q).withTicks (cpuTotalTime sys) q.ticks)⟩, hfor, ?_, ?_, rfl,
        q, hutime, hpid, hticks⟩)
      · rw [ProcessInfo.cpuUsage, EStateM.run_bind, This.run_refreshUsage_of_due hd hupd]
        simp only [show ((p.withCpuUsage v).updated .cpuUsage).mPid = q.mPid from hpid,
          show ((p.withCpuUsage v).updated .cpuUsage).ticks = q.ticks from hticks, base_table, ← shareSince_eq, ← hv]
        rfl
      · rw [hheld, show ((p.withCpuUsage v).updated .cpuUsage).mPid = q.mPid from hpid]
        exact htable

end CpuCall

/-! ## Runs -/

/-- What a call does to the table, and to the number of cores once it is known. -/
structure Logs (st st' : Static) (log : List (Record Int32 Component.Val)) : Prop where
  table  : st'.table = replayFrom st.table log
  nbCore : ∀ n ∈ st.nbCore, st'.nbCore = some n

namespace Logs

theorem refl (st : Static) : Logs st st [] := ⟨rfl, fun _ h => h⟩

theorem trans {st st' st'' : Static} {log log' : List (Record Int32 Component.Val)} (h : Logs st st' log)
    (h' : Logs st' st'' log') : Logs st st'' (log ++ log') where
  table := by rw [h'.table, h.table, replayFrom_append]
  nbCore n hn := h'.nbCore n (h.nbCore n hn)

theorem ioUsage (m : IoMetric) (sys : Sys) (s : This) :
    Logs s.static (state ((ProcessInfo.ioUsage m sys).run s)).static (ioRecord m sys s) := by
  unfold ioRecord
  rcases run_ioUsage_any m sys s with ⟨e, p, hrun⟩ | ⟨hd, hrun⟩ | ⟨hd, t, hrun, htable, hcores⟩
  · rw [hrun]
    exact refl s.static
  · simp only [hrun, hd, Bool.false_eq_true, if_false]
    exact refl s.static
  · simp only [hrun, hd, if_true]
    exact ⟨htable, fun n hn => hcores.trans hn⟩

theorem cpuUsage (sys : Sys) (s : This) :
    Logs s.static (state ((ProcessInfo.cpuUsage sys).run s)).static (cpuRecord sys s) := by
  unfold cpuRecord
  rcases run_cpuUsage_any sys s with ⟨-, e, -, hrun⟩ | ⟨hd, hrun⟩ | ⟨hd, nb, t, hfor, hrun, htable, hcores, -⟩
  · rw [hrun]
    exact refl s.static
  · simp only [hrun, hd, Bool.false_eq_true, if_false]
    exact refl s.static
  · simp only [hrun, hd, if_true]
    exact ⟨htable, fun n hn => by rw [Static.eq_of_coresFor hfor n hn]; exact hcores⟩

/-- The sum, in either order. -/
theorem ioTotalUsage (m : IoMetric) (f : Rat → Rat → Rat) (sys : Sys) (s : This) :
    Logs s.static (state ((ProcessInfo.ioUsage m sys >>= fun a => ProcessInfo.ioUsage m.other sys >>= fun b =>
      pure (f a b)).run s)).static (totalRecord m sys s) := by
  have hfirst := ioUsage m sys s
  unfold totalRecord
  rw [EStateM.run_bind]
  cases hrun : (ProcessInfo.ioUsage m sys).run s with
  | error e t =>
    rw [ioRecord, hrun] at hfirst
    exact hfirst
  | ok a t =>
    rw [hrun] at hfirst
    simp only
    rw [state_run_bind fun _ _ => rfl]
    exact hfirst.trans (ioUsage m.other sys t)

theorem call (u : Usage) (sys : Sys) (s : This) :
    Logs s.static (state ((u.call sys).run s)).static (u.records sys s) := by
  cases u with
  | cpuUsage => exact cpuUsage sys s
  | ioReadUsage => exact ioUsage .read sys s
  | ioWriteUsage => exact ioUsage .write sys s
  | ioTotalUsage readFirst =>
    cases readFirst with
    | true => exact ioTotalUsage .read (· + ·) sys s
    | false => exact ioTotalUsage .write (fun w r => r + w) sys s

end Logs

/-- The query of a metric, and what it answers. -/
def ProcessInfo.IoMetric.query : IoMetric → Query
  | .read  => .usage .ioReadUsage
  | .write => .usage .ioWriteUsage

def ProcessInfo.IoMetric.answer : IoMetric → Except Exn Rat → Answer
  | .read,  r => some ⟨.usage .ioReadUsage, r⟩
  | .write, r => some ⟨.usage .ioWriteUsage, r⟩

namespace World

/-- The records of an operation. -/
def opRecords (x : Sys × Op) (w : World) : List (Record Int32 Component.Val) :=
  match x.2 with
  | .call id (.usage u) =>
    match w.objs id with
    | some p => u.records x.1 ⟨p, w.static⟩
    | none   => []
  | _ => []

/-- The log of a run. -/
def logOf : World → List (Sys × Op) → List (Record Int32 Component.Val)
  | _, []      => []
  | w, x :: xs => opRecords x w ++ logOf (step x w).1 xs

theorem logs_step (x : Sys × Op) (w : World) : Logs w.static (step x w).1.static (opRecords x w) := by
  obtain ⟨sys, op⟩ := x
  cases op with
  | construct id junk => exact .refl _
  | copy id n | needUpdate id =>
    cases hp : w.objs id <;> simp only [step, hp] <;> exact .refl _
  | call id q =>
    cases hp : w.objs id with
    | none => cases q <;> simp only [step, opRecords, hp] <;> exact .refl _
    | some p =>
      cases q with
      | get g =>
        rw [step_get hp]
        exact .refl _
      | usage u =>
        simp only [step, opRecords, hp]
        exact Logs.call u sys ⟨p, w.static⟩

theorem logs_run : ∀ (xs : List (Sys × Op)) (w : World), Logs w.static (run w xs).1.static (logOf w xs)
  | [], _ => .refl _
  | x :: xs, w => (logs_step x w).trans (logs_run xs (step x w).1)

/-- **The table is the replay of the log**, in every run from the start of a program, whatever the files hold and whether
calls throw or not: a pid has an entry exactly when a call recorded one, an entry holds the last samples, and what was
never sampled is what the first recorder held. -/
theorem table_replays (ops : List (Sys × Op)) :
    (run initial ops).1.static.table = replay (logOf initial ops) ∧
    ∀ pid, (((run initial ops).1.static.mapPidOldstate pid).isSome = true ↔ ∃ x ∈ logOf initial ops, x.key = pid) ∧
      ∀ i, ((run initial ops).1.static.mapPidOldstate pid).map (held · i) =
        ((samples pid i (logOf initial ops)).getLast?.or (ofKey pid (logOf initial ops)).head?).map (·.held i) := by
  have htable : (run initial ops).1.static.table = replay (logOf initial ops) := (logs_run ops initial).table
  refine ⟨htable, fun pid => ⟨?_, fun i => ?_⟩⟩
  · rw [← isSome_replay_iff, ← htable, Static.table, Option.isSome_map]
  · rw [← base_table, htable, base_replay]

/-- **No tick is lost or counted twice**: what the CPU calls of a pid have subtracted in a run, of the machine's ticks or of
the process's (`recordCpu_counts`), adds up to what the entry holds less what the first recorder of the pid held. -/
theorem counted_ticks (ops : List (Sys × Op)) (pid : Int32) (f : UInt64 × UInt64 → UInt64) :
    match (ofKey pid (logOf initial ops)).head? with
    | none   => (run initial ops).1.static.mapPidOldstate pid = none
    | some x => ∃ old, (run initial ops).1.static.mapPidOldstate pid = some old ∧
        counted pid .cpu f (fun _ => none) (logOf initial ops) = f (old.held .cpu) - f (x.held .cpu) := by
  have htable := (table_replays ops).1
  cases hx : (ofKey pid (logOf initial ops)).head? with
  | none =>
    have hnone : ¬ ((run initial ops).1.static.mapPidOldstate pid).isSome = true := by
      rw [((table_replays ops).2 pid).1]
      rintro ⟨y, hy, hkey⟩
      have hmem : y ∈ ofKey pid (logOf initial ops) := List.mem_filter.2 ⟨hy, by simpa using hkey⟩
      rw [List.head?_eq_none_iff.1 hx] at hmem
      cases hmem
    simpa using hnone
  | some x =>
    obtain ⟨c, hc, hsum⟩ := @counted_eq _ _ _ _ _ _ _ pid .cpu f _ _ hx
    rw [← htable, base_table] at hc
    cases hold : (run initial ops).1.static.mapPidOldstate pid with
    | none => rw [hold] at hc; cases hc
    | some old =>
      rw [hold] at hc
      obtain rfl : old.held .cpu = c := Option.some.inj hc
      exact ⟨old, rfl, hsum⟩

/-! ### Answers -/

section Answers

variable {w : World} {sys : Sys} {id : ObjId} {p : ProcessInfo}

theorem leave_self (h : w.objs id = some p) : w.leave id ⟨p, w.static⟩ = w := by
  rw [leave, ← h, Function.update_eq_self]

theorem opRecords_call (h : w.objs id = some p) (u : Usage) :
    opRecords (sys, .call id (.usage u)) w = u.records sys ⟨p, w.static⟩ := by
  simp only [opRecords, h]

theorem run_concat (w : World) (xs : List (Sys × Op)) (x : Sys × Op) :
    (run w (xs ++ [x])).1 = (step x (run w xs).1).1 := by
  rw [run, runOps_append]
  rfl

theorem logOf_concat (w : World) : ∀ (xs : List (Sys × Op)) (x : Sys × Op),
    logOf w (xs ++ [x]) = logOf w xs ++ opRecords x (run w xs).1
  | [], _ => List.append_nil _
  | y :: xs, x => by
    rw [List.cons_append, logOf, logOf, logOf_concat (step y w).1 xs, List.append_assoc]
    rfl

theorem replay_base {log : List (Record Int32 Component.Val)} (h : w.static.table = replay log) (pid : Int32)
    (i : Component) : Baseline.base w.static.table pid i =
      ((samples pid i log).getLast?.or (ofKey pid log).head?).map (·.held i) := by
  rw [h, base_replay]

/-- **`cpuUsage()` at any point of any run**: it throws and nothing changes, or it is not due and returns what it returned
last, or it returns the share of the ticks since the last sample that any object gave of the pid, on the number of cores
that the first call found; without a CPU sample, since what the object of the first I/O record held. -/
theorem cpuUsage_answer {xs : List (Sys × Op)} (hp : (run initial xs).1.objs id = some p) :
    (∃ e, step (sys, .call id (.usage .cpuUsage)) (run initial xs).1 =
      ((run initial xs).1, some ⟨.usage .cpuUsage, .error e⟩)) ∨
    (p.mNeedUpdate .cpuUsage = false ∧ step (sys, .call id (.usage .cpuUsage)) (run initial xs).1 =
      ((run initial xs).1, some ⟨.usage .cpuUsage, .ok p.mCpuUsage⟩)) ∨
    (p.mNeedUpdate .cpuUsage = true ∧ ∃ nb q,
      (run initial (xs ++ [(sys, .call id (.usage .cpuUsage))])).1.objs id = some q ∧
      (run initial (xs ++ [(sys, .call id (.usage .cpuUsage))])).1.static.nbCore = some nb ∧
      (∀ k ∈ (run initial xs).1.static.nbCore, k = nb) ∧
      logOf initial (xs ++ [(sys, .call id (.usage .cpuUsage))]) =
        logOf initial xs ++ [⟨q.mPid, .cpu, cpuHeld (cpuTotalTime sys) q⟩] ∧
      (step (sys, .call id (.usage .cpuUsage)) (run initial xs).1).2 = some ⟨.usage .cpuUsage,
        .ok (ticksSince nb (cpuTotalTime sys, q.ticks)
          (((samples q.mPid .cpu (logOf initial xs)).getLast?.or (ofKey q.mPid (logOf initial xs)).head?).map
            (·.held .cpu)))⟩) := by
  have htable := (table_replays xs).1
  have hlog := logOf_concat initial xs (sys, .call id (.usage .cpuUsage))
  have hrun := run_concat initial xs (sys, .call id (.usage .cpuUsage))
  rw [opRecords_call hp] at hlog
  rw [hrun, step_call hp, Query.call]
  generalize (run initial xs).1 = w at hp htable hlog ⊢
  rcases run_cpuUsage_any sys ⟨p, w.static⟩ with ⟨-, e, -, h⟩ | ⟨hd, h⟩ | ⟨hd, nb, t, hfor, h, -, hcores, -⟩
  · refine .inl ⟨e, ?_⟩
    rw [Usage.call, h, state_error, leave_self hp]
    rfl
  · refine .inr (.inl ⟨hd, ?_⟩)
    rw [Usage.call, h, state_ok, leave_self hp]
    rfl
  · refine .inr (.inr ⟨hd, nb, t.obj, ?_, ?_, Static.eq_of_coresFor hfor, ?_, ?_⟩)
    · rw [Usage.call, h]
      exact Function.update_self ..
    · rw [Usage.call, h]
      exact hcores
    · rw [hlog]
      simp only [Usage.records, cpuRecord, h, if_pos hd]
    · rw [Usage.call, h, ← replay_base htable]
      rfl

theorem cpuUsage_answer_first :
    let sys := Sys.small (.init 10 0) (.bytes 0 0) 100 0
    ∃ q, logOf initial ([(sys, .construct ⟨1, 0⟩ zeroed)] ++ [(sys, .call ⟨1, 0⟩ (.usage .cpuUsage))]) =
      [⟨q.mPid, .cpu, cpuHeld (cpuTotalTime sys) q⟩] := by
  intro sys
  have hp : (run initial [(sys, .construct ⟨1, 0⟩ zeroed)]).1.objs ⟨1, 0⟩ = some (construct zeroed 1) := rfl
  have hnamed : (run initial [(sys, .construct ⟨1, 0⟩ zeroed)]).1.Named := named_initial.set (.construct zeroed 1)
  have hok := step_usage (u := .cpuUsage) hp hnamed (Shown.small .cpuUsage (.init 10 0) rfl (.bytes 0 0) 100 0)
  rcases @cpuUsage_answer sys _ _ _ hp with ⟨e, h⟩ | ⟨hd, -⟩ | ⟨-, nb, q, -, -, -, hlog, -⟩
  · rw [hok] at h
    cases congrArg Prod.snd h
  · cases hd
  · exact ⟨q, hlog⟩

/-- The rate of a metric at any point of any run, alike: the last I/O sample of the pid may be one of the other metric. -/
theorem ioUsage_answer (m : IoMetric) {xs : List (Sys × Op)} (hp : (run initial xs).1.objs id = some p) :
    (∃ e q, step (sys, .call id m.query) (run initial xs).1 = ((run initial xs).1.set id q, m.answer (.error e))) ∨
    (p.mNeedUpdate m.source = false ∧ step (sys, .call id m.query) (run initial xs).1 =
      ((run initial xs).1, m.answer (.ok (m.usage p)))) ∨
    (p.mNeedUpdate m.source = true ∧ ∃ q, (run initial (xs ++ [(sys, .call id m.query)])).1.objs id = some q ∧
      logOf initial (xs ++ [(sys, .call id m.query)]) = logOf initial xs ++ [⟨q.mPid, .io, q.held⟩] ∧
      (step (sys, .call id m.query) (run initial xs).1).2 = m.answer (.ok (rateSince m q.mIo
        (((samples q.mPid .io (logOf initial xs)).getLast?.or (ofKey q.mPid (logOf initial xs)).head?).map
          (·.held .io))))) := by
  have htable := (table_replays xs).1
  have hlog := logOf_concat initial xs (sys, .call id m.query)
  have hrun := run_concat initial xs (sys, .call id m.query)
  have hrecords : opRecords (sys, .call id m.query) (run initial xs).1 = ioRecord m sys ⟨p, (run initial xs).1.static⟩ := by
    cases m <;> exact opRecords_call hp _
  have hstep : step (sys, .call id m.query) (run initial xs).1 =
      ((run initial xs).1.leave id (state ((ioUsage m sys).run ⟨p, (run initial xs).1.static⟩)),
        m.answer (value ((ioUsage m sys).run ⟨p, (run initial xs).1.static⟩))) := by
    cases m <;> exact step_call hp _
  rw [hrecords] at hlog
  rw [hrun, hstep]
  generalize (run initial xs).1 = w at hp htable hlog ⊢
  rcases run_ioUsage_any m sys ⟨p, w.static⟩ with ⟨e, q, h⟩ | ⟨hd, h⟩ | ⟨hd, t, h, -, -⟩
  · refine .inl ⟨e, q, ?_⟩
    rw [h]
    rfl
  · refine .inr (.inl ⟨hd, ?_⟩)
    rw [h, state_ok, leave_self hp]
    rfl
  · refine .inr (.inr ⟨hd, t.obj, ?_, ?_, ?_⟩)
    · rw [h]
      exact Function.update_self ..
    · rw [hlog]
      simp only [ioRecord, h, if_pos hd]
    · rw [h, ← replay_base htable]
      rfl

theorem ioUsage_answer_first :
    let sys := Sys.small (.init 0 0) (.bytes 7 0) 0 (10 ^ 9)
    ∃ q : ProcessInfo, logOf initial ([(sys, .construct ⟨1, 0⟩ zeroed)] ++ [(sys, .call ⟨1, 0⟩ IoMetric.read.query)]) =
      [⟨q.mPid, .io, q.held⟩] := by
  intro sys
  have hp : (run initial [(sys, .construct ⟨1, 0⟩ zeroed)]).1.objs ⟨1, 0⟩ = some (construct zeroed 1) := rfl
  have hnamed : (run initial [(sys, .construct ⟨1, 0⟩ zeroed)]).1.Named := named_initial.set (.construct zeroed 1)
  have hok := step_usage (u := .ioReadUsage) hp hnamed (Shown.small .ioReadUsage (.init 0 0) rfl (.bytes 7 0) 0 (10 ^ 9))
  rcases @ioUsage_answer sys _ _ .read _ hp with ⟨e, q, h⟩ | ⟨hd, -⟩ | ⟨-, q, -, hlog, -⟩
  · have hanswer := congrArg Prod.snd (hok.symm.trans h)
    cases hanswer
  · cases hd
  · exact ⟨q, hlog⟩

end Answers

end World

end SysInfo
