import SysInfo.CpuInfo
/-!
# Usage — the computed getters and the table behind them

`cpuUsage`, `ioReadUsage` and `ioWriteUsage` are differences between two samples of a process.  The older sample is in
`map_pid_oldstate`, a static table from pids to copies of objects that every object of the program shares; an update
that finds no entry inserts a copy of its own object.  Nothing ever removes one.

A `World` is the program's objects and the statics, `step` one operation on it, `run` a sequence of operations, each at
its own state of the system.
-/
namespace SysInfo

open IStream Effects ProcessInfo

/-! ## The statics -/

/-- `nb_core` of `updateCPUUsage`, once it is initialised, and `map_pid_oldstate`. -/
structure Static where
  nbCore          : Option Int32
  mapPidOldstate  : Int32 → Option ProcessInfo

namespace Static

def initial : Static := ⟨none, fun _ => none⟩

/-- `*map_pid_oldstate[pid] = old`. -/
def store (st : Static) (pid : Int32) (old : ProcessInfo) : Static :=
  { st with mapPidOldstate := Function.update st.mapPidOldstate pid (some old) }

@[simp] theorem mapPidOldstate_store_self (st : Static) (pid : Int32) (old : ProcessInfo) :
    (st.store pid old).mapPidOldstate pid = some old := Function.update_self ..

theorem mapPidOldstate_store_of_ne (st : Static) {pid pid' : Int32} (h : pid' ≠ pid) (old : ProcessInfo) :
    (st.store pid old).mapPidOldstate pid' = st.mapPidOldstate pid' := Function.update_of_ne h ..

end Static

/-- An object and the statics: what a member function can reach. -/
structure This where
  obj    : ProcessInfo
  static : Static

/-- A member function that reaches the object only. -/
def onObj {α : Type} (x : Cpp ProcessInfo α) : Cpp This α := fun s =>
  match x.run s.obj with
  | .ok a p    => .ok a { s with obj := p }
  | .error e p => .error e { s with obj := p }

theorem run_onObj_ok {α : Type} {x : Cpp ProcessInfo α} {s : This} {a : α} {p : ProcessInfo}
    (h : x.run s.obj = .ok a p) : (onObj x).run s = .ok a { s with obj := p } := by
  rw [EStateM.run, onObj, h]

theorem run_onObj_error {α : Type} {x : Cpp ProcessInfo α} {s : This} {e : Exn} {p : ProcessInfo}
    (h : x.run s.obj = .error e p) : (onObj x).run s = .error e { s with obj := p } := by
  rw [EStateM.run, onObj, h]

namespace ProcessInfo

/-- `m_need_update_x = false`. -/
def updated (src : Source) (p : ProcessInfo) : ProcessInfo :=
  { p with mNeedUpdate := Function.update p.mNeedUpdate src false }

/-! ## I/O rates -/

inductive IoMetric where
  | read | write
deriving Repr, DecidableEq

namespace IoMetric

/-- `read_bytes`, `write_bytes`. -/
def field : IoMetric → IoField
  | .read  => .readBytes
  | .write => .writeBytes

/-- `m_need_update_io_read_usage`, `m_need_update_io_write_usage`. -/
def source : IoMetric → Source
  | .read  => .ioReadUsage
  | .write => .ioWriteUsage

/-- `m_io_read_usage`, `m_io_write_usage`. -/
def usage : IoMetric → ProcessInfo → Rat
  | .read  => mIoReadUsage
  | .write => mIoWriteUsage

def setUsage : IoMetric → Rat → ProcessInfo → ProcessInfo
  | .read,  r, p => { p with mIoReadUsage := r }
  | .write, r, p => { p with mIoWriteUsage := r }

def other : IoMetric → IoMetric
  | .read  => .write
  | .write => .read

end IoMetric

/-- `delta / delta_time.count()`, the time in nanoseconds. -/
def ioRate (delta : UInt64) (deltaTime : Int) : Rat :=
  if deltaTime = 0 then 0 else (delta.toNat : Rat) / ((deltaTime : Rat) / 10 ^ 9)

/-- An I/O update behind its read of `bytes`. -/
def recordIo (m : IoMetric) (bytes : UInt64) (s : This) : This :=
  match s.static.mapPidOldstate s.obj.mPid with
  | none => ⟨m.setUsage 0 s.obj, s.static.store s.obj.mPid s.obj⟩
  | some oldstate =>
    ⟨m.setUsage (ioRate (bytes - oldstate.mIo.counter m.field) (s.obj.mIo.lastRead - oldstate.mIo.lastRead)) s.obj,
      s.static.store s.obj.mPid { oldstate with mIo := s.obj.mIo }⟩

/-- The two I/O updates. -/
def updateIoUsage (m : IoMetric) (sys : Sys) : Cpp This Unit := do
  let bytes ← onObj (getter sys .io (·.mIo.counter m.field))
  modify (recordIo m bytes)

def updateIoReadUsage := updateIoUsage .read
def updateIoWriteUsage := updateIoUsage .write

/-- `if (m_need_update_x) { updateX(); m_need_update_x = false; }` -/
def refreshUsage (src : Source) (update : Cpp This Unit) : Cpp This Unit := do
  if (← get).obj.mNeedUpdate src then
    update
    modify fun s => { s with obj := s.obj.updated src }

def ioUsage (m : IoMetric) (sys : Sys) : Cpp This Rat := do
  refreshUsage m.source (updateIoUsage m sys)
  return m.usage (← get).obj

def ioReadUsage := ioUsage .read
def ioWriteUsage := ioUsage .write

/-- The operands of the sum are evaluated in either order. -/
def ioTotalUsage (readFirst : Bool) (sys : Sys) : Cpp This Rat := do
  if readFirst then
    let r ← ioReadUsage sys
    let w ← ioWriteUsage sys
    return r + w
  else
    let w ← ioWriteUsage sys
    let r ← ioReadUsage sys
    return r + w

/-! ## CPU usage -/

/-- `user + nice + system + idle` of `/proc/stat`; only `user` is initialised before its extraction. -/
def cpuTotalTime (sys : Sys) : UInt64 :=
  let s := openFile (sys.file "/proc/stat".toList)
  let (s, _) := s.extractWord []
  let (s, user) := s.extractNum .ulong (0 : UInt64)
  let (s, nice) := s.extractNum .ulong sys.stack.1
  let (s, system) := s.extractNum .ulong sys.stack.2.1
  let (_, idle) := s.extractNum .ulong sys.stack.2.2
  user + nice + system + idle

/-- `static int nb_core = getNbCores()`: an initialisation that throws is tried again by the next call. -/
def nbCore (sys : Sys) : Cpp This Int32 := do
  match (← get).static.nbCore with
  | some n => return n
  | none   => do
    let n ← lift (getNbCores sys)
    modify fun s => { s with static := { s.static with nbCore := some n } }
    return n

/-- `100 * nb_core * delta_process_time / delta_cpu_time`, in 64 bits and then narrowed to an `int`. -/
def cpuShare (nbCore : Int32) (deltaProcess deltaCpu : UInt64) : Int32 :=
  if deltaCpu = 0 then 0 else Int32.ofInt (UInt64.ofInt (100 * nbCore.toInt) * deltaProcess / deltaCpu).toNat

/-- A CPU update behind its reads. -/
def recordCpu (nbCore : Int32) (total process : UInt64) (s : This) : This :=
  match s.static.mapPidOldstate s.obj.mPid with
  | none =>
    let p := { s.obj with mLastCpuTotalTime := total, mLastProcessTotalTime := process }
    ⟨{ p with mCpuUsage := 0 }, s.static.store p.mPid p⟩
  | some oldstate =>
    ⟨{ s.obj with
        mCpuUsage := cpuShare nbCore (process - oldstate.mLastProcessTotalTime) (total - oldstate.mLastCpuTotalTime) },
      s.static.store s.obj.mPid { oldstate with mLastCpuTotalTime := total, mLastProcessTotalTime := process }⟩

def updateCPUUsage (sys : Sys) : Cpp This Unit := do
  let nb ← nbCore sys
  let utime : UInt64 ← onObj (utime sys)
  let stime : UInt64 ← onObj (stime sys)
  modify (recordCpu nb (cpuTotalTime sys) (utime + stime))

def cpuUsage (sys : Sys) : Cpp This Int32 := do
  refreshUsage .cpuUsage (updateCPUUsage sys)
  return (← get).obj.mCpuUsage

end ProcessInfo

/-! ## Operations on a program's objects -/

inductive Usage where
  | cpuUsage
  | ioReadUsage
  | ioWriteUsage
  | ioTotalUsage (readFirst : Bool)
deriving DecidableEq

namespace Usage

abbrev Val : Usage → Type
  | .cpuUsage => Int32
  | .ioReadUsage | .ioWriteUsage | .ioTotalUsage _ => Rat

def call (sys : Sys) : (u : Usage) → Cpp This u.Val
  | .cpuUsage => ProcessInfo.cpuUsage sys
  | .ioReadUsage => ProcessInfo.ioReadUsage sys
  | .ioWriteUsage => ProcessInfo.ioWriteUsage sys
  | .ioTotalUsage readFirst => ProcessInfo.ioTotalUsage readFirst sys

end Usage

/-! ## Frames of the usages

A usage stays within a frame when its reads, its record and its flag do. -/

section Frames

variable {T : This → This → Prop} [IsPreorder This T] {sys : Sys}

theorem moves_refreshUsage {src : Source} {update : Cpp This Unit} (hupdate : Moves T update)
    (hflag : Moves T (modify fun s => { s with obj := s.obj.updated src } : Cpp This Unit)) :
    Moves T (refreshUsage src update) := by
  refine moves_get_bind fun s => ?_
  split
  · exact hupdate.bind fun _ => hflag
  · exact moves_pure _

theorem moves_ioUsage {m : IoMetric} (hread : Moves T (onObj (getter sys .io (·.mIo.counter m.field))))
    (hrecord : ∀ bytes, Moves T (modify (recordIo m bytes) : Cpp This Unit))
    (hflag : Moves T (modify fun s => { s with obj := s.obj.updated m.source } : Cpp This Unit)) :
    Moves T (ioUsage m sys) :=
  (moves_refreshUsage (hread.bind fun bytes => hrecord bytes) hflag).bind fun _ => moves_get_bind fun _ => moves_pure _

theorem moves_cores (hset : ∀ (s : This) (n : Int32), T s { s with static := { s.static with nbCore := some n } }) :
    Moves T (nbCore sys) := by
  refine moves_get_bind fun s => ?_
  cases s.static.nbCore with
  | some n => exact moves_pure n
  | none => exact (moves_lift _).bind fun n => (moves_modify fun s => hset s n).bind fun _ => moves_pure n

theorem moves_cpuUsage (hcores : Moves T (nbCore sys)) (hutime : Moves T (onObj (utime sys)))
    (hstime : Moves T (onObj (stime sys)))
    (hrecord : ∀ nb total process, Moves T (modify (recordCpu nb total process) : Cpp This Unit))
    (hflag : Moves T (modify fun s => { s with obj := s.obj.updated .cpuUsage } : Cpp This Unit)) :
    Moves T (ProcessInfo.cpuUsage sys) := by
  have hupdate : Moves T (updateCPUUsage sys) :=
    hcores.bind fun nb => hutime.bind fun utime => hstime.bind fun stime => hrecord nb _ _
  exact (moves_refreshUsage hupdate hflag).bind fun _ => moves_get_bind fun _ => moves_pure _

theorem moves_usage (hio : ∀ m, Moves T (ioUsage m sys)) :
    ∀ u : Usage, (u = .cpuUsage → Moves T (ProcessInfo.cpuUsage sys)) → Moves T (u.call sys)
  | .cpuUsage, hcpu => hcpu rfl
  | .ioReadUsage, _ => hio .read
  | .ioWriteUsage, _ => hio .write
  | .ioTotalUsage true, _ => (hio .read).bind fun _ => (hio .write).bind fun _ => moves_pure _
  | .ioTotalUsage false, _ => (hio .write).bind fun _ => (hio .read).bind fun _ => moves_pure _

end Frames

inductive Query where
  | get (g : Getter)
  | usage (u : Usage)

namespace Query

abbrev Val : Query → Type
  | .get g   => g.Val
  | .usage u => u.Val

def call (sys : Sys) : (q : Query) → Cpp This q.Val
  | .get g   => onObj (g.call sys)
  | .usage u => u.call sys

end Query

/-- An object of the program: the pid it is constructed with, and a number among the objects of that pid. -/
structure ObjId where
  pid : Int32
  n   : Nat
deriving DecidableEq

/-- What a program does with its objects; the memory of a new one holds `junk`.  `userName()` does to an object what
`uids()` does, `pid()` does nothing, and `operator<<` calls one getter after the other, so they are no operations of their
own. -/
inductive Op where
  | construct (id : ObjId) (junk : ProcessInfo)
  | copy (id : ObjId) (n : Nat)
  | needUpdate (id : ObjId)
  | call (id : ObjId) (q : Query)

def Op.id : Op → ObjId
  | .construct id _ | .copy id _ | .needUpdate id | .call id _ => id

/-- The objects that exist, and the statics. -/
structure World where
  objs   : ObjId → Option ProcessInfo
  static : Static

/-- What a call returned or threw; the other operations return nothing. -/
abbrev Answer := Option (Σ q : Query, Except Exn q.Val)

namespace World

def initial : World := ⟨fun _ => none, .initial⟩

def set (w : World) (id : ObjId) (p : ProcessInfo) : World := { w with objs := Function.update w.objs id (some p) }

@[simp] theorem objs_set_self (w : World) (id : ObjId) (p : ProcessInfo) : (w.set id p).objs id = some p :=
  Function.update_self ..

theorem objs_set_of_ne (w : World) {id id' : ObjId} (h : id' ≠ id) (p : ProcessInfo) :
    (w.set id p).objs id' = w.objs id' := Function.update_of_ne h ..

/-- An operation, at a state of the system; one on an object that does not exist does nothing. -/
def step (x : Sys × Op) (w : World) : World × Answer :=
  match x.2 with
  | .construct id junk => (w.set id (construct junk id.pid), none)
  | .copy id n =>
    match w.objs id with
    | some p => (w.set ⟨id.pid, n⟩ p, none)
    | none   => (w, none)
  | .needUpdate id =>
    match w.objs id with
    | some p => (w.set id p.needUpdate, none)
    | none   => (w, none)
  | .call id q =>
    match w.objs id with
    | some p =>
      let r := (q.call x.1).run ⟨p, w.static⟩
      ({ (w.set id (state r).obj) with static := (state r).static }, some ⟨q, value r⟩)
    | none => (w, none)

def run (w : World) (ops : List (Sys × Op)) : World × List Answer := runOps step w ops

end World

end SysInfo
