import SysInfo.Samples
/-!
# Steps — operations on a program whose files are well formed

`Shown` collects the files a usage call reads.  On them a call does what `Usage.after` says (`run_usage`), an object
keeps its pid (`named_step`) and the table changes at that pid only.
-/
namespace SysInfo

open IStream Effects ProcessInfo

/-- Readable, well-formed files behind a usage call of a pid; only the I/O calls read `io`. -/
structure Shown (u : Usage) (sys : Sys) (pid : Int32) where
  line     : StatLine
  line_pid : line.pid = pid
  stat     : sys.file (procPath pid ++ "stat".toList) = some line.text
  io       : IoFile
  ioText   : u ≠ .cpuUsage → sys.file (procPath pid ++ "io".toList) = some io.text
  nbCore   : Int32
  cores    : getNbCores sys = .ok nbCore

/-! ## A usage call -/

namespace Usage

/-- The I/O metrics a call asks for, in the order of the evaluation. -/
def metrics : Usage → List IoMetric
  | .cpuUsage => []
  | .ioReadUsage => [.read]
  | .ioWriteUsage => [.write]
  | .ioTotalUsage true => [.read, .write]
  | .ioTotalUsage false => [.write, .read]

def result : (u : Usage) → ProcessInfo → u.Val
  | .cpuUsage, p => p.mCpuUsage
  | .ioReadUsage, p => p.mIoReadUsage
  | .ioWriteUsage, p => p.mIoWriteUsage
  | .ioTotalUsage _, p => p.mIoReadUsage + p.mIoWriteUsage

end Usage

namespace This

def ioAll (ms : List IoMetric) (io : IoStat) (s : This) : This := ms.foldl (fun s m => s.ioUsed m io) s

@[simp] theorem ioAll_nil (io : IoStat) (s : This) : s.ioAll [] io = s := rfl

@[simp] theorem ioAll_cons (m : IoMetric) (ms : List IoMetric) (io : IoStat) (s : This) :
    s.ioAll (m :: ms) io = (s.ioUsed m io).ioAll ms io := rfl

theorem ioAll_append (ms ms' : List IoMetric) (io : IoStat) (s : This) :
    s.ioAll (ms ++ ms') io = (s.ioAll ms io).ioAll ms' io := List.foldl_append

theorem mProcPath_ioAll (io : IoStat) : ∀ (ms : List IoMetric) (s : This), (s.ioAll ms io).obj.mProcPath = s.obj.mProcPath
  | [], _ => rfl
  | m :: ms, s => by rw [ioAll_cons, mProcPath_ioAll io ms, mProcPath_ioUsed]

theorem mPid_ioAll (io : IoStat) : ∀ (ms : List IoMetric) (s : This), (s.ioAll ms io).obj.mPid = s.obj.mPid
  | [], _ => rfl
  | m :: ms, s => by rw [ioAll_cons, mPid_ioAll io ms, mPid_ioUsed]

/-- **The I/O calls**, the sum included, need the file `io` only. -/
theorem run_ioCall {u : Usage} (hu : u ≠ .cpuUsage) {sys : Sys} {s : This} {io : IoFile}
    (h : sys.file (s.obj.mProcPath ++ "io".toList) = some io.text) :
    (u.call sys).run s =
      .ok (u.result (s.ioAll u.metrics (io.stat sys.now)).obj) (s.ioAll u.metrics (io.stat sys.now)) := by
  have hnext : ∀ m, sys.file ((s.ioUsed m (io.stat sys.now)).obj.mProcPath ++ "io".toList) = some io.text := fun m => by
    rw [mProcPath_ioUsed, h]
  cases u with
  | cpuUsage => exact absurd rfl hu
  | ioReadUsage => exact run_ioUsage .read h
  | ioWriteUsage => exact run_ioUsage .write h
  | ioTotalUsage readFirst =>
    cases readFirst with
    | true =>
      have hkept := usage_ioUsed_other .write (io.stat sys.now) (s.ioUsed .read (io.stat sys.now))
      simp only [Usage.call, ioTotalUsage, if_true, ioReadUsage, ioWriteUsage, EStateM.run_bind, run_ioUsage .read h]
      rw [run_ioUsage .write (hnext .read), ← show _ = IoMetric.usage .read _ from hkept]
      rfl
    | false =>
      have hkept := usage_ioUsed_other .read (io.stat sys.now) (s.ioUsed .write (io.stat sys.now))
      simp only [Usage.call, ioTotalUsage, Bool.false_eq_true, if_false, ioReadUsage, ioWriteUsage, EStateM.run_bind,
        run_ioUsage .write h]
      rw [run_ioUsage .read (hnext .write), ← show _ = IoMetric.usage .write _ from hkept]
      rfl

end This

def Usage.after (u : Usage) {sys : Sys} {pid : Int32} (S : Shown u sys pid) (s : This) : This :=
  match u with
  | .cpuUsage => s.cpuUsed S.nbCore (cpuTotalTime sys) S.line
  | _         => s.ioAll u.metrics (S.io.stat sys.now)

/-- **A usage call on well-formed files** ends well. -/
theorem run_usage (u : Usage) {sys : Sys} {pid : Int32} (S : Shown u sys pid) {s : This}
    (hp : s.obj.mProcPath = procPath pid) : (u.call sys).run s = .ok (u.result (u.after S s).obj) (u.after S s) := by
  cases u with
  | cpuUsage => exact This.run_cpuUsage (by rw [hp]; exact S.stat) S.cores
  | ioReadUsage | ioWriteUsage | ioTotalUsage _ =>
    exact This.run_ioCall (by simp) (by rw [hp]; exact S.ioText (by simp))

/-! ## Objects keep their pid -/

structure Belongs (pid : Int32) (p : ProcessInfo) : Prop where
  path : p.mProcPath = procPath pid
  pid  : p.mPid = pid

namespace Belongs

variable {pid : Int32} {p : ProcessInfo} {s : This}

theorem construct (junk : ProcessInfo) (pid : Int32) : Belongs pid (construct junk pid) := ⟨rfl, rfl⟩

theorem needUpdate (h : Belongs pid p) : Belongs pid p.needUpdate := ⟨h.path, h.pid⟩

theorem sampleStat (h : Belongs pid p) {l : StatLine} (hl : l.pid = pid) : Belongs pid (p.sampleStat l) := by
  unfold ProcessInfo.sampleStat
  split
  · exact ⟨h.path, (StatLine.mPid_parseStat_line l p).trans hl⟩
  · exact h

theorem ioAll (h : Belongs pid s.obj) (io : IoStat) (ms : List IoMetric) : Belongs pid (s.ioAll ms io).obj :=
  ⟨(This.mProcPath_ioAll io ms s).trans h.path, (This.mPid_ioAll io ms s).trans h.pid⟩

theorem cpuUsed (h : Belongs pid s.obj) (nb : Int32) (total : UInt64) {l : StatLine} (hl : l.pid = pid) :
    Belongs pid (s.cpuUsed nb total l).obj := by
  have hs := h.sampleStat hl
  refine ⟨(This.mProcPath_cpuUsed nb total l s).trans h.path, ?_⟩
  unfold This.cpuUsed
  split
  · dsimp only
    split
    · exact hs.pid
    · exact hs.pid
  · exact h.pid

theorem after (u : Usage) {sys : Sys} (S : Shown u sys pid) (h : Belongs pid s.obj) : Belongs pid (u.after S s).obj := by
  cases u with
  | cpuUsage => exact h.cpuUsed _ _ S.line_pid
  | ioReadUsage | ioWriteUsage | ioTotalUsage _ => exact h.ioAll _ _

end Belongs

/-! ## The table changes at the object's pid only -/

namespace This

variable {pid : Int32} {s : This}

theorem oldstate_ioUsed (h : pid ≠ s.obj.mPid) (m : IoMetric) (io : IoStat) :
    (s.ioUsed m io).static.mapPidOldstate pid = s.static.mapPidOldstate pid := by
  unfold ioUsed
  split
  · exact Static.mapPidOldstate_store_of_ne _ (by rwa [mPid_sampleIo]) _
  · rfl

theorem oldstate_ioAll (io : IoStat) : ∀ (ms : List IoMetric) {s : This}, pid ≠ s.obj.mPid →
    (s.ioAll ms io).static.mapPidOldstate pid = s.static.mapPidOldstate pid
  | [], _, _ => rfl
  | m :: ms, s, h => by
    rw [ioAll_cons, oldstate_ioAll io ms (by rwa [mPid_ioUsed]), oldstate_ioUsed h]

theorem oldstate_cpuUsed (h : pid ≠ s.obj.mPid) {l : StatLine} (hl : l.pid = s.obj.mPid) (nb : Int32) (total : UInt64) :
    (s.cpuUsed nb total l).static.mapPidOldstate pid = s.static.mapPidOldstate pid := by
  unfold cpuUsed
  split
  · exact Static.mapPidOldstate_store_of_ne _ (by rwa [mPid_sampleStat hl]) _
  · rfl

theorem oldstate_after (u : Usage) {sys : Sys} {own : Int32} (S : Shown u sys own) (hs : Belongs own s.obj)
    (h : pid ≠ own) : (u.after S s).static.mapPidOldstate pid = s.static.mapPidOldstate pid := by
  rw [← hs.pid] at h
  cases u with
  | cpuUsage => exact oldstate_cpuUsed h (S.line_pid.trans hs.pid.symm) _ _
  | ioReadUsage | ioWriteUsage | ioTotalUsage _ => exact oldstate_ioAll _ _ h

end This

/-! ## The other getters -/

theorem state_getter {α : Type} (sys : Sys) (src : Source) (v : ProcessInfo → α) (p : ProcessInfo) :
    state ((getter sys src v).run p) = state ((refresh src (reader sys src)).run p) :=
  state_run_bind (fun _ _ => rfl) p

theorem state_call (sys : Sys) (g : Getter) (p : ProcessInfo) :
    state ((g.call sys).run p) = state ((refresh g.source (reader sys g.source)).run p) := by
  cases g with
  | ttyNr => exact (state_run_bind (fun _ s => state_run_lift _ s) p).trans (state_getter sys .stat _ p)
  | _ => exact state_getter sys _ _ p

theorem state_call_stat {sys : Sys} {g : Getter} {p : ProcessInfo} {l : StatLine} (hs : g.source = .stat)
    (h : sys.file (p.mProcPath ++ "stat".toList) = some l.text) : state ((g.call sys).run p) = p.sampleStat l := by
  rw [state_call, hs, ← state_getter sys .stat id p, run_getter_stat h]
  rfl

theorem mNeedUpdate_take {src src' : Source} (h : src' ≠ src) (p q : ProcessInfo) :
    (take src p q).mNeedUpdate src' = p.mNeedUpdate src' := by
  cases src <;> exact Function.update_of_ne h _ _

theorem usages_call (sys : Sys) (g : Getter) (p : ProcessInfo) :
    (state ((g.call sys).run p)).mNeedUpdate .cpuUsage = p.mNeedUpdate .cpuUsage ∧
      (∀ m : IoMetric, (state ((g.call sys).run p)).mNeedUpdate m.source = p.mNeedUpdate m.source) ∧
      (state ((g.call sys).run p)).mCpuUsage = p.mCpuUsage := by
  have hm : state ((g.call sys).run p) = take g.source p _ := moves_call sys g p
  rw [hm]
  refine ⟨mNeedUpdate_take (by cases g <;> simp [Getter.source]) _ _,
    fun m => mNeedUpdate_take (by cases g <;> cases m <;> simp [Getter.source, IoMetric.source]) _ _, ?_⟩
  cases g.source <;> rfl

theorem Belongs.call {pid : Int32} {p : ProcessInfo} {sys : Sys} (h : Belongs pid p) {u : Usage} (S : Shown u sys pid)
    (g : Getter) :
    Belongs pid (state ((g.call sys).run p)) := by
  by_cases hs : g.source = .stat
  · rw [state_call_stat hs (by rw [h.path]; exact S.stat)]
    exact h.sampleStat S.line_pid
  · have hm : state ((g.call sys).run p) = take g.source p _ := moves_call sys g p
    rw [hm]
    constructor
    · cases g.source <;> exact h.path
    · cases hsrc : g.source <;> first | exact absurd hsrc hs | exact h.pid

/-! ## Steps of a world -/

theorem run_onObj {α : Type} (x : Cpp ProcessInfo α) (s : This) :
    state ((onObj x).run s) = ⟨state (x.run s.obj), s.static⟩ ∧ value ((onObj x).run s) = value (x.run s.obj) := by
  cases h : x.run s.obj with
  | ok a p => rw [run_onObj_ok h]; exact ⟨rfl, rfl⟩
  | error e p => rw [run_onObj_error h]; exact ⟨rfl, rfl⟩

/-- The call whose files an operation needs; the other operations need no more than a CPU call. -/
def Op.usage : Op → Usage
  | .call _ (.usage u) => u
  | _ => .cpuUsage

namespace World

def Named (w : World) : Prop := ∀ id p, w.objs id = some p → Belongs id.pid p

theorem named_initial : initial.Named := fun _ _ h => by cases h

theorem Named.set {w : World} (h : w.Named) {id : ObjId} {p : ProcessInfo} (hp : Belongs id.pid p) : (w.set id p).Named := by
  intro id' q hq
  by_cases hid : id' = id
  · subst hid
    obtain rfl : p = q := by simpa using hq
    exact hp
  · rw [objs_set_of_ne w hid] at hq
    exact h id' q hq

/-- The world with an object and the statics as a member function left them. -/
def leave (w : World) (id : ObjId) (s : This) : World := ⟨Function.update w.objs id (some s.obj), s.static⟩

variable {w : World} {id : ObjId} {p : ProcessInfo} {sys : Sys}

theorem step_get (h : w.objs id = some p) (g : Getter) : step (sys, .call id (.get g)) w =
    (w.set id (state ((g.call sys).run p)), some ⟨.get g, value ((g.call sys).run p)⟩) := by
  obtain ⟨hs, hv⟩ := run_onObj (g.call sys) ⟨p, w.static⟩
  simp only [step, h, Query.call, hs, hv]
  rfl

/-- **A usage call in a world.** -/
theorem step_usage (h : w.objs id = some p) (hw : w.Named) {u : Usage} (S : Shown u sys id.pid) :
    step (sys, .call id (.usage u)) w = (w.leave id (u.after S ⟨p, w.static⟩),
      some ⟨.usage u, .ok (u.result (u.after S ⟨p, w.static⟩).obj)⟩) := by
  have hrun := run_usage u S (s := ⟨p, w.static⟩) (hw id p h).path
  simp only [step, h, Query.call, hrun]
  rfl

theorem Named.leave (hw : w.Named) {s : This} (hs : Belongs id.pid s.obj) : (w.leave id s).Named :=
  fun id' q hq => (hw.set hs) id' q hq

/-- The files an operation may read for the usage calls are well formed. -/
abbrev Reads (x : Sys × Op) : Prop := Nonempty (Shown x.2.usage x.1 x.2.id.pid)

/-- An operation leads from a property of the objects and one of the statics to others. -/
structure Leads (P P' : ObjId → ProcessInfo → Prop) (Q Q' : Static → Prop) (x : Sys × Op) : Prop where
  objs   : ∀ id p, P id p → P' id p
  static : ∀ st, Q st → Q' st
  op     : match x.2 with
    | .construct id junk => P' id (ProcessInfo.construct junk id.pid)
    | .copy id n => ∀ p, P id p → P' ⟨id.pid, n⟩ p
    | .needUpdate id => ∀ p, P id p → P' id p.needUpdate
    | .call id (.get g) => ∀ p, Belongs id.pid p → P id p → P' id (state ((g.call x.1).run p))
    | .call id (.usage u) => ∀ (S : Shown u x.1 id.pid) (s : This), Belongs id.pid s.obj → P id s.obj → Q s.static →
        P' id (u.after S s).obj ∧ Q' (u.after S s).static

/-- **What an operation leads to holds in the world after it.** -/
theorem Leads.step {P P' : ObjId → ProcessInfo → Prop} {Q Q' : Static → Prop} {x : Sys × Op} (hl : Leads P P' Q Q' x)
    (hx : Reads x) (hw : w.Named) (hP : ∀ id p, w.objs id = some p → P id p) (hQ : Q w.static) :
    (∀ id p, (World.step x w).1.objs id = some p → P' id p) ∧ Q' (World.step x w).1.static := by
  have hP' : ∀ id p, w.objs id = some p → P' id p := fun id p h => hl.objs id p (hP id p h)
  have hset : ∀ {id : ObjId} {p : ProcessInfo}, P' id p → ∀ id' q, (w.set id p).objs id' = some q → P' id' q := by
    intro id p hp id' q hq
    by_cases hid : id' = id
    · subst hid
      obtain rfl : p = q := by simpa using hq
      exact hp
    · rw [objs_set_of_ne w hid] at hq
      exact hP' id' q hq
  have hop := hl.op
  obtain ⟨sys, op⟩ := x
  obtain ⟨S⟩ : Nonempty (Shown op.usage sys op.id.pid) := hx
  cases op with
  | construct id junk => exact ⟨hset hop, hl.static _ hQ⟩
  | copy id n =>
    cases h : w.objs id with
    | none => simpa only [World.step, h] using ⟨hP', hl.static _ hQ⟩
    | some p =>
      simp only [World.step, h]
      exact ⟨hset (hop p (hP id p h)), hl.static _ hQ⟩
  | needUpdate id =>
    cases h : w.objs id with
    | none => simpa only [World.step, h] using ⟨hP', hl.static _ hQ⟩
    | some p =>
      simp only [World.step, h]
      exact ⟨hset (hop p (hP id p h)), hl.static _ hQ⟩
  | call id q =>
    cases h : w.objs id with
    | none => simpa only [World.step, h] using ⟨hP', hl.static _ hQ⟩
    | some p =>
      cases q with
      | get g =>
        rw [step_get h]
        exact ⟨hset (hop p (hw id p h) (hP id p h)), hl.static _ hQ⟩
      | usage u =>
        obtain ⟨ho, hs⟩ := hop S ⟨p, w.static⟩ (hw id p h) (hP id p h) hQ
        rw [step_usage (u := u) h hw S]
        exact ⟨fun id' q hq => hset ho id' q hq, hs⟩

/-- **Objects keep their pid.** -/
theorem Named.step (hw : w.Named) {x : Sys × Op} (hx : Reads x) : (World.step x w).1.Named := by
  have hlead : Leads (fun id p => Belongs id.pid p) (fun id p => Belongs id.pid p) (fun _ => True) (fun _ => True) x := by
    refine ⟨fun _ _ h => h, fun _ h => h, ?_⟩
    obtain ⟨sys, op⟩ := x
    obtain ⟨S⟩ : Nonempty (Shown op.usage sys op.id.pid) := hx
    cases op with
    | construct id junk => exact Belongs.construct junk id.pid
    | copy id n => exact fun p h => h
    | needUpdate id => exact fun p h => h.needUpdate
    | call id q =>
      cases q with
      | get g => exact fun p _ h => h.call S g
      | usage u => exact fun S s _ h _ => ⟨h.after u S, trivial⟩
  exact (hlead.step hx hw hw trivial).1

end World

/-! ## A small machine -/

theorem comm_init : '\n' ∉ "init".toList ∧ '\x00' ∉ "init".toList := by decide

def StatLine.init (utime stime : UInt64) : StatLine where
  pid := 1
  comm := "init".toList
  state := 'S'
  num := Function.update (Function.update (fun f => f.type.ofInt 0) .utime utime) .stime stime
  comm_ne := comm_init
  state_ne := isSpace_running

theorem StatLine.plain_init (utime stime : UInt64) : ∀ c ∈ (StatLine.init utime stime).comm, isSpace c = false :=
  fun c hc => by simpa using List.all_eq_true.1 (by decide : "init".toList.all (!isSpace ·) = true) c hc

instance neZero_counters : NeZero (2 ^ 63 : Nat) := ⟨by decide⟩

def IoFile.bytes (read write : Fin (2 ^ 63)) : IoFile where
  counter
    | .readBytes  => read
    | .writeBytes => write
    | _           => 0
  lt f := by
    cases f with
    | readBytes => exact read.isLt
    | writeBytes => exact write.isLt
    | _ => exact Nat.two_pow_pos 63

/-- A machine with one core that runs `init` only. -/
def Sys.small (line : StatLine) (io : IoFile) (user : UInt64) (now : Int) : Sys :=
  { Sys.ofFiles (fun path =>
      if path = "/proc/cpuinfo".toList then some "processor\t: 0\n\n".toList
      else if path = "/proc/stat".toList then some (CpuLine.userOnly user).text
      else if path = "/proc/1/stat".toList then some line.text
      else if path = "/proc/1/io".toList then some io.text
      else none) with now := now }

theorem Sys.stat_small (line : StatLine) (io : IoFile) (user : UInt64) (now : Int) :
    (Sys.small line io user now).file (procPath 1 ++ "stat".toList) = some line.text := rfl

theorem Sys.io_small (line : StatLine) (io : IoFile) (user : UInt64) (now : Int) :
    (Sys.small line io user now).file (procPath 1 ++ "io".toList) = some io.text := rfl

def Shown.small (u : Usage) (line : StatLine) (h : line.pid = 1) (io : IoFile) (user : UInt64) (now : Int) :
    Shown u (Sys.small line io user now) 1 where
  line := line
  line_pid := h
  stat := Sys.stat_small line io user now
  io := io
  ioText _ := Sys.io_small line io user now
  nbCore := 1
  cores := rfl

end SysInfo
