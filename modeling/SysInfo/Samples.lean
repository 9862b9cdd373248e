import SysInfo.StatFile
import SysInfo.Usage
/-!
# Samples — what a usage call does on the kernel's files

The renderings of `/proc/<pid>/io` and of the first line of `/proc/stat`, and the calls on them: a call that is due
samples its counters (`sampleIo`, `sampleStat`: only a source that is due is read), compares them with the entry of the
pid and makes them the entry (`run_ioUsage`, `run_cpuUsage`).
-/
namespace SysInfo

open IStream Effects ProcessInfo

namespace ProcessInfo

def withIo (io : IoStat) (p : ProcessInfo) : ProcessInfo := { p with mIo := io }

@[simp] theorem mIo_withIo (io : IoStat) (p : ProcessInfo) : (p.withIo io).mIo = io := rfl
@[simp] theorem mPid_withIo (io : IoStat) (p : ProcessInfo) : (p.withIo io).mPid = p.mPid := rfl
@[simp] theorem mProcPath_withIo (io : IoStat) (p : ProcessInfo) : (p.withIo io).mProcPath = p.mProcPath := rfl
@[simp] theorem mNeedUpdate_withIo (io : IoStat) (p : ProcessInfo) : (p.withIo io).mNeedUpdate = p.mNeedUpdate := rfl
@[simp] theorem withIo_withIo (io io' : IoStat) (p : ProcessInfo) : (p.withIo io).withIo io' = p.withIo io' := rfl

end ProcessInfo

/-! ## The files -/

/-- The counters of `/proc/<pid>/io`, as far as the reader's `long` goes. -/
structure IoFile where
  counter : IoField → Nat
  lt      : ∀ f, counter f < 2 ^ 63

namespace IoFile

/-- The key that proc(5) has for a counter. -/
def label : IoField → List Char
  | .rchar               => "rchar".toList
  | .wchar               => "wchar".toList
  | .syscr               => "syscr".toList
  | .syscw               => "syscw".toList
  | .readBytes           => "read_bytes".toList
  | .writeBytes          => "write_bytes".toList
  | .cancelledWriteBytes => "cancelled_write_bytes".toList

/-- The lines of the file. -/
def lines : List IoField := [.rchar, .wchar, .syscr, .syscw, .readBytes, .writeBytes, .cancelledWriteBytes]

/-- The code compares with the same keys. -/
theorem label_eq (f : IoField) : label f = f.key := by cases f <;> rfl

def line (io : IoFile) (f : IoField) : List Char := label f ++ ':' :: ' ' :: decimal (io.counter f)

/-- `rchar: n`, `wchar: n`, ... -/
def text (io : IoFile) : List Char := unlines '\n' (lines.map io.line)

/-- The counters read at a time. -/
def stat (io : IoFile) (now : Int) : IoStat := ⟨fun f => UInt64.ofNat (io.counter f), now⟩

theorem key_chars (f : IoField) : ':' ∉ f.key ∧ '\n' ∉ f.key := by cases f <;> decide

theorem newline_notMem_line (io : IoFile) (f : IoField) : '\n' ∉ io.line f := by
  simp only [line, label_eq, List.mem_append, List.mem_cons, not_or]
  exact ⟨(key_chars f).2, by decide, by decide, newline_notMem_decimal _⟩

theorem keyValue_line (io : IoFile) (f : IoField) :
    keyValue ':' (io.line f) = (f.key, ' ' :: decimal (io.counter f)) := by
  have hn : '\n' ∉ ' ' :: decimal (io.counter f) := by
    simp only [List.mem_cons, not_or]
    exact ⟨by decide, newline_notMem_decimal _⟩
  simp only [keyValue, line, label_eq, getline_ofText ':' (key_chars f).1, getline_ofText_last '\n' hn]

theorem trim_value (n : Nat) : MMap.trim (' ' :: decimal n) = decimal n := by
  have hsp : ∀ c ∈ decimal n, isSpace c = false := fun c hc => isSpace_of_isDigit (isDigit_of_mem_decimal hc)
  have hdrop : (decimal n).dropWhile isSpace = decimal n := by
    obtain ⟨c, t, h⟩ := List.exists_cons_of_ne_nil (decimal_ne_nil n)
    rw [h, List.dropWhile_cons_of_neg (by rw [hsp c (by simp [h])]; decide)]
  rw [MMap.trim, List.dropWhile_cons_of_pos (by decide), hdrop, List.rdropWhile_eq_self_iff]
  intro h
  rw [hsp _ (List.getLast_mem h)]
  decide

theorem ofInt_natCast {n : Nat} (h : n < 2 ^ 64) : UInt64.ofInt (n : Int) = UInt64.ofNat n := by
  have hn : ((n : Int) % 2 ^ 64).toNat = n := by omega
  rw [UInt64.ofInt, hn]

theorem run_ioLine (io : IoFile) (f : IoField) (p : ProcessInfo) : (ioLine (io.line f)).run p =
    .ok () (p.withIo ⟨Function.update p.mIo.counter f (UInt64.ofNat (io.counter f)), p.mIo.lastRead⟩) := by
  have hlt := io.lt f
  have hof : UInt64.ofInt (io.counter f : Int) = UInt64.ofNat (io.counter f) := ofInt_natCast (by omega)
  simp only [ioLine, io.keyValue_line, IoField.ofKey_key, trim_value, stol_decimal hlt]
  rw [EStateM.run_bind, run_lift_ok]
  simp only [EStateM.run_modify, hof]
  rfl

theorem run_ioLines (io : IoFile) : ∀ (fs : List IoField) (p : ProcessInfo), ((fs.map io.line).forM ioLine).run p =
    .ok () (p.withIo ⟨fun f => if f ∈ fs then UInt64.ofNat (io.counter f) else p.mIo.counter f, p.mIo.lastRead⟩)
  | [], p => rfl
  | f :: fs, p => by
    rw [List.map_cons, run_forM_cons, EStateM.run_bind, io.run_ioLine f p]
    simp only
    rw [run_ioLines io fs, withIo_withIo]
    congr 3
    funext g
    by_cases hg : g = f
    · subst hg; simp
    · simp [hg]

/-- **The reader takes the printed counters and the time.** -/
theorem run_readIo (io : IoFile) {sys : Sys} {p : ProcessInfo}
    (h : sys.file (p.mProcPath ++ "io".toList) = some io.text) :
    (readIo sys).run p = .ok () (p.withIo (io.stat sys.now)) := by
  have hlines : getlines '\n' (openFile (sys.file (p.mProcPath ++ "io".toList))) = lines.map io.line := by
    rw [h, openFile, getlines_ofText, text, splitLines_unlines]
    intro l hl
    obtain ⟨f, -, rfl⟩ := List.mem_map.1 hl
    exact io.newline_notMem_line f
  have hall : ∀ f : IoField, f ∈ lines := fun f => by cases f <;> decide
  have hrun := io.run_ioLines lines (p.withIo ⟨p.mIo.counter, sys.now⟩)
  simp only [hall, if_true] at hrun
  rw [← hlines] at hrun
  exact hrun

end IoFile

/-- The first line of `/proc/stat`, and the rest of the file. -/
structure CpuLine where
  user   : UInt64
  nice   : UInt64
  system : UInt64
  idle   : UInt64
  rest   : List Char
  stop   : ∀ c ∈ rest.head?, c.isDigit = false

namespace CpuLine

def number (x : UInt64) : List Char := decimalInt (CType.ulong.toInt x)

/-- `cpu  user nice system idle ...`. -/
def text (c : CpuLine) : List Char :=
  "cpu".toList ++ ' ' :: ' ' :: (number c.user ++ ' ' :: (number c.nice ++ ' ' :: (number c.system ++
    ' ' :: (number c.idle ++ c.rest))))

def userOnly (user : UInt64) : CpuLine := ⟨user, 0, 0, 0, ['\n'], fun c hc => by cases hc; rfl⟩

def total (c : CpuLine) : UInt64 := c.user + c.nice + c.system + c.idle

theorem extractWord_cpu (t : List Char) :
    (ofText ("cpu".toList ++ ' ' :: t)).extractWord [] = (ofText (' ' :: t), "cpu".toList) :=
  @extractWord_word [] "cpu".toList (' ' :: t) (fun d hd => absurd hd List.not_mem_nil) (by decide)
    (fun d hd => by simpa using List.all_eq_true.1 (by decide : "cpu".toList.all (!isSpace ·) = true) d hd)
    (fun d hd => by cases hd; decide) []

theorem extractNum_blank (v x : UInt64) (pre t : List Char) (hp : pre.all isSpace = true) :
    (ofText (pre ++ (number v ++ ' ' :: t))).extractNum .ulong x = (ofText (' ' :: t), v) :=
  extractNum_printed .ulong v x (List.all_eq_true.1 hp) (fun c hc => by cases hc; decide)

theorem cpuTotalTime_eq (c : CpuLine) {sys : Sys} (h : sys.file "/proc/stat".toList = some c.text) :
    cpuTotalTime sys = c.total := by
  have huser := fun t => extractNum_blank c.user 0 [' ', ' '] t (by decide)
  have hnice := fun t => extractNum_blank c.nice sys.stack.1 [' '] t (by decide)
  have hsystem := fun t => extractNum_blank c.system sys.stack.2.1 [' '] t (by decide)
  have hblank : ∀ d ∈ [' '], isSpace d = true := fun d hd => by rw [List.mem_singleton.1 hd]; decide
  have hidle := extractNum_printed .ulong c.idle sys.stack.2.2 hblank c.stop
  simp only [List.cons_append, List.nil_append] at huser hnice hsystem hidle
  simp only [cpuTotalTime, h, openFile, text, extractWord_cpu, huser, hnice, hsystem]
  rw [number, hidle]
  rfl

end CpuLine

/-! ## Samples of an object -/

namespace ProcessInfo

/-- The object once `io` is up to date. -/
def sampleIo (io : IoStat) (p : ProcessInfo) : ProcessInfo :=
  if p.mNeedUpdate .io then (p.withIo io).updated .io else p

/-- The object once `stat` is up to date. -/
def sampleStat (l : StatLine) (p : ProcessInfo) : ProcessInfo :=
  if p.mNeedUpdate .stat then (parseStat (ofText l.text) p).updated .stat else p

theorem mPid_sampleIo (io : IoStat) (p : ProcessInfo) : (p.sampleIo io).mPid = p.mPid := by
  unfold sampleIo
  split <;> rfl

theorem mPid_sampleStat {l : StatLine} {p : ProcessInfo} (h : l.pid = p.mPid) : (p.sampleStat l).mPid = p.mPid := by
  unfold sampleStat
  split
  · exact (StatLine.mPid_parseStat_line l p).trans h
  · rfl

theorem mNeedUpdate_sampleIo (io : IoStat) (p : ProcessInfo) : (p.sampleIo io).mNeedUpdate .io = false := by
  unfold sampleIo
  cases hd : p.mNeedUpdate .io with
  | false => exact hd
  | true => simp [updated]

theorem mNeedUpdate_sampleIo_of_ne {io : IoStat} {p : ProcessInfo} {src : Source} (h : src ≠ .io) :
    (p.sampleIo io).mNeedUpdate src = p.mNeedUpdate src := by
  unfold sampleIo
  split
  · exact Function.update_of_ne h ..
  · rfl

theorem mNeedUpdate_sampleStat (l : StatLine) (p : ProcessInfo) : (p.sampleStat l).mNeedUpdate .stat = false := by
  unfold sampleStat
  cases hd : p.mNeedUpdate .stat with
  | false => exact hd
  | true => simp [updated]

/-- `utime + stime`. -/
def ticks (p : ProcessInfo) : UInt64 :=
  let utime : UInt64 := p.mStat .utime
  let stime : UInt64 := p.mStat .stime
  utime + stime

@[simp] theorem ticks_updated (src : Source) (p : ProcessInfo) : (p.updated src).ticks = p.ticks := rfl

section Getter

variable {α : Type} {sys : Sys} {src : Source} {v : ProcessInfo → α} {p q : ProcessInfo}

theorem run_getter_of_due (h : p.mNeedUpdate src = true) (hq : (reader sys src).run p = .ok () q) :
    (getter sys src v).run p = .ok (v (q.updated src)) (q.updated src) := by
  simp only [getter, refresh, EStateM.run_bind, EStateM.run_get, h, if_true, hq]
  rfl

theorem run_getter_of_not_due (h : p.mNeedUpdate src = false) : (getter sys src v).run p = .ok (v p) p := by
  simp only [getter, refresh, EStateM.run_bind, EStateM.run_get, h, Bool.false_eq_true, if_false]
  rfl

end Getter

theorem run_readStat_ok (sys : Sys) (p : ProcessInfo) : ∃ q, (readStat sys).run p = .ok () q := ⟨_, rfl⟩

/-- `stat` is up to date behind its getter, which never throws. -/
theorem run_getter_stat_any {α : Type} (sys : Sys) (v : ProcessInfo → α) (p : ProcessInfo) :
    ∃ q, (getter sys .stat v).run p = .ok (v q) q ∧ q.mNeedUpdate .stat = false := by
  cases hd : p.mNeedUpdate .stat with
  | false => exact ⟨p, run_getter_of_not_due hd, hd⟩
  | true =>
    obtain ⟨q, hq⟩ := run_readStat_ok sys p
    exact ⟨q.updated .stat, run_getter_of_due hd hq, by simp [updated]⟩

theorem run_getter_io {α : Type} {sys : Sys} {p : ProcessInfo} {io : IoFile}
    (h : sys.file (p.mProcPath ++ "io".toList) = some io.text) (v : ProcessInfo → α) :
    (getter sys .io v).run p = .ok (v (p.sampleIo (io.stat sys.now))) (p.sampleIo (io.stat sys.now)) := by
  unfold sampleIo
  cases hd : p.mNeedUpdate .io with
  | false => exact run_getter_of_not_due hd
  | true => exact run_getter_of_due hd (io.run_readIo h)

theorem run_getter_stat {α : Type} {sys : Sys} {p : ProcessInfo} {l : StatLine}
    (h : sys.file (p.mProcPath ++ "stat".toList) = some l.text) (v : ProcessInfo → α) :
    (getter sys .stat v).run p = .ok (v (p.sampleStat l)) (p.sampleStat l) := by
  unfold sampleStat
  cases hd : p.mNeedUpdate .stat with
  | false => exact run_getter_of_not_due hd
  | true => exact run_getter_of_due hd (StatLine.run_readStat h)

/-! ## The computed getters -/

/-- The rate of a metric since the sample before. -/
def rateSince (m : IoMetric) (io : IoStat) : Option IoStat → Rat
  | none      => 0
  | some base => ioRate (io.counter m.field - base.counter m.field) (io.lastRead - base.lastRead)

@[simp] theorem rateSince_none (m : IoMetric) (io : IoStat) : rateSince m io none = 0 := rfl

@[simp] theorem rateSince_self (m : IoMetric) (io : IoStat) : rateSince m io (some io) = 0 := by
  rw [rateSince, ioRate, if_pos (Int.sub_self _)]

/-- The share of the ticks since the sample before. -/
def shareSince (nbCore : Int32) (total process : UInt64) : Option ProcessInfo → Int32
  | none      => 0
  | some base => cpuShare nbCore (process - base.mLastProcessTotalTime) (total - base.mLastCpuTotalTime)

def withTicks (total process : UInt64) (p : ProcessInfo) : ProcessInfo :=
  { p with mLastCpuTotalTime := total, mLastProcessTotalTime := process }

def withCpuUsage (n : Int32) (p : ProcessInfo) : ProcessInfo := { p with mCpuUsage := n }

end ProcessInfo

/-- The statics once `nb_core` is initialised, by this number if it was not. -/
def Static.withCores (nbCore : Int32) (st : Static) : Static := { st with nbCore := some (st.nbCore.getD nbCore) }

namespace This

/-- What an I/O getter leaves when `io` holds this sample. -/
def ioUsed (m : IoMetric) (io : IoStat) (s : This) : This :=
  if s.obj.mNeedUpdate m.source then
    let p := s.obj.sampleIo io
    let oldstate := s.static.mapPidOldstate p.mPid
    ⟨(m.setUsage (rateSince m p.mIo (oldstate.map (·.mIo))) p).updated m.source,
      s.static.store p.mPid ((oldstate.getD p).withIo p.mIo)⟩
  else s

/-- What `cpuUsage()` leaves when the machine has these cores and ticks and `stat` holds this line. -/
def cpuUsed (nbCore : Int32) (total : UInt64) (l : StatLine) (s : This) : This :=
  if s.obj.mNeedUpdate .cpuUsage then
    let p := s.obj.sampleStat l
    let nb := s.static.nbCore.getD nbCore
    let oldstate := s.static.mapPidOldstate p.mPid
    ⟨((if oldstate.isSome then p else p.withTicks total p.ticks).withCpuUsage
        (shareSince nb total p.ticks oldstate)).updated .cpuUsage,
      (s.static.withCores nbCore).store p.mPid ((oldstate.getD p).withTicks total p.ticks)⟩
  else s

/-- What a CPU update that is due leaves once `stat` has brought the object to `q`. -/
def cpuRecorded (nbCore : Int32) (total : UInt64) (q : ProcessInfo) (st : Static) : This :=
  let oldstate := st.mapPidOldstate q.mPid
  ⟨((if oldstate.isSome then q else q.withTicks total q.ticks).withCpuUsage
      (shareSince nbCore total q.ticks oldstate)).updated .cpuUsage,
    st.store q.mPid ((oldstate.getD q).withTicks total q.ticks)⟩

theorem recordIo_eq (m : IoMetric) (p : ProcessInfo) (st : Static) : recordIo m (p.mIo.counter m.field) ⟨p, st⟩ =
    ⟨m.setUsage (rateSince m p.mIo ((st.mapPidOldstate p.mPid).map (·.mIo))) p,
      st.store p.mPid (((st.mapPidOldstate p.mPid).getD p).withIo p.mIo)⟩ := by
  unfold recordIo
  cases st.mapPidOldstate p.mPid <;> rfl

theorem recordCpu_eq (nb : Int32) (total : UInt64) (p : ProcessInfo) (st : Static) :
    recordCpu nb total p.ticks ⟨p, st⟩ =
      ⟨(if (st.mapPidOldstate p.mPid).isSome then p else p.withTicks total p.ticks).withCpuUsage
          (shareSince nb total p.ticks (st.mapPidOldstate p.mPid)),
        st.store p.mPid (((st.mapPidOldstate p.mPid).getD p).withTicks total p.ticks)⟩ := by
  unfold recordCpu
  cases st.mapPidOldstate p.mPid <;> rfl

section Refresh

variable {src : Source} {update : Cpp This Unit} {s t : This}

theorem run_refreshUsage_of_due (hd : s.obj.mNeedUpdate src = true) (h : update.run s = .ok () t) :
    (refreshUsage src update).run s = .ok () ⟨t.obj.updated src, t.static⟩ := by
  simp only [refreshUsage, EStateM.run_bind, EStateM.run_get, hd, if_true, h]
  rfl

theorem run_refreshUsage_of_not_due (hd : s.obj.mNeedUpdate src = false) :
    (refreshUsage src update).run s = .ok () s := by
  simp only [refreshUsage, EStateM.run_bind, EStateM.run_get, hd, Bool.false_eq_true, if_false]
  rfl

end Refresh

theorem run_refresh_ioUsage (m : IoMetric) {sys : Sys} {s : This} {io : IoFile}
    (h : sys.file (s.obj.mProcPath ++ "io".toList) = some io.text) :
    (refreshUsage m.source (updateIoUsage m sys)).run s = .ok () (s.ioUsed m (io.stat sys.now)) := by
  unfold ioUsed
  cases hd : s.obj.mNeedUpdate m.source with
  | false => exact run_refreshUsage_of_not_due hd
  | true =>
    have hread := run_onObj_ok (s := s) (run_getter_io h (·.mIo.counter m.field))
    have hupd : (updateIoUsage m sys).run s = .ok () (recordIo m ((s.obj.sampleIo (io.stat sys.now)).mIo.counter m.field)
        ⟨s.obj.sampleIo (io.stat sys.now), s.static⟩) := by
      rw [updateIoUsage, EStateM.run_bind, hread]
      rfl
    rw [run_refreshUsage_of_due hd hupd, recordIo_eq]
    rfl

/-- **An I/O getter on the kernel's file.** -/
theorem run_ioUsage (m : IoMetric) {sys : Sys} {s : This} {io : IoFile}
    (h : sys.file (s.obj.mProcPath ++ "io".toList) = some io.text) :
    (ioUsage m sys).run s =
      .ok (m.usage (s.ioUsed m (io.stat sys.now)).obj) (s.ioUsed m (io.stat sys.now)) := by
  rw [ioUsage, EStateM.run_bind, run_refresh_ioUsage m h]
  rfl

theorem run_nbCore {sys : Sys} {nb : Int32} (s : This) (h : getNbCores sys = .ok nb) :
    (nbCore sys).run s = .ok (s.static.nbCore.getD nb)
      ⟨s.obj, s.static.withCores nb⟩ := by
  obtain ⟨p, cores, table⟩ := s
  simp only [nbCore, EStateM.run_bind, EStateM.run_get]
  cases cores with
  | some n => rfl
  | none =>
    simp only [h, EStateM.run_bind, run_lift_ok]
    rfl

/-- A CPU update that is due, when `stat` brings the object to `q`. -/
theorem run_refresh_cpuUsage_of_due {sys : Sys} {s : This} {q : ProcessInfo} {nb : Int32}
    (hd : s.obj.mNeedUpdate .cpuUsage = true) (hread : (refresh .stat (reader sys .stat)).run s.obj = .ok () q)
    (hclear : q.mNeedUpdate .stat = false) (hn : getNbCores sys = .ok nb) :
    (refreshUsage .cpuUsage (updateCPUUsage sys)).run s =
      .ok () (cpuRecorded (s.static.nbCore.getD nb) (cpuTotalTime sys) q (s.static.withCores nb)) := by
  have hutime : (onObj (utime sys) : Cpp This UInt64).run ⟨s.obj, s.static.withCores nb⟩ =
      .ok (q.mStat .utime) ⟨q, s.static.withCores nb⟩ := by
    refine run_onObj_ok ?_
    show (refresh .stat (reader sys .stat) >>= fun _ => get >>= fun p => pure (p.mStat .utime)).run s.obj = _
    rw [EStateM.run_bind, hread]
    rfl
  have hstime : (onObj (stime sys) : Cpp This UInt64).run ⟨q, s.static.withCores nb⟩ =
      .ok (q.mStat .stime) ⟨q, s.static.withCores nb⟩ := run_onObj_ok (run_getter_of_not_due hclear)
  have hupd : (updateCPUUsage sys).run s =
      .ok () (recordCpu (s.static.nbCore.getD nb) (cpuTotalTime sys) q.ticks ⟨q, s.static.withCores nb⟩) := by
    rw [updateCPUUsage, EStateM.run_bind, run_nbCore s hn]
    simp only [EStateM.run_bind]
    rw [hutime]
    simp only
    rw [hstime]
    rfl
  rw [run_refreshUsage_of_due hd hupd, recordCpu_eq]
  rfl

theorem run_cpuUsage_of_due {sys : Sys} {s : This} {q : ProcessInfo} {nb : Int32}
    (hd : s.obj.mNeedUpdate .cpuUsage = true) (hread : (refresh .stat (reader sys .stat)).run s.obj = .ok () q)
    (hclear : q.mNeedUpdate .stat = false) (hn : getNbCores sys = .ok nb) :
    (ProcessInfo.cpuUsage sys).run s =
      .ok (cpuRecorded (s.static.nbCore.getD nb) (cpuTotalTime sys) q (s.static.withCores nb)).obj.mCpuUsage
        (cpuRecorded (s.static.nbCore.getD nb) (cpuTotalTime sys) q (s.static.withCores nb)) := by
  rw [ProcessInfo.cpuUsage, EStateM.run_bind, run_refresh_cpuUsage_of_due hd hread hclear hn]
  rfl

theorem run_refresh_cpuUsage {sys : Sys} {s : This} {l : StatLine} {nb : Int32}
    (h : sys.file (s.obj.mProcPath ++ "stat".toList) = some l.text) (hn : getNbCores sys = .ok nb) :
    (refreshUsage .cpuUsage (updateCPUUsage sys)).run s = .ok () (s.cpuUsed nb (cpuTotalTime sys) l) := by
  unfold cpuUsed
  cases hd : s.obj.mNeedUpdate .cpuUsage with
  | false => exact run_refreshUsage_of_not_due hd
  | true =>
    obtain ⟨_, q, hread, hvalue⟩ := of_run_bind_ok (run_getter_stat h fun _ => ())
    have hq : q = s.obj.sampleStat l := (EStateM.Result.ok.inj hvalue).2
    subst hq
    rw [run_refresh_cpuUsage_of_due hd hread (mNeedUpdate_sampleStat l s.obj) hn]
    rfl

/-- **`cpuUsage()` on the kernel's files.** -/
theorem run_cpuUsage {sys : Sys} {s : This} {l : StatLine} {nb : Int32}
    (h : sys.file (s.obj.mProcPath ++ "stat".toList) = some l.text) (hn : getNbCores sys = .ok nb) :
    (ProcessInfo.cpuUsage sys).run s =
      .ok (s.cpuUsed nb (cpuTotalTime sys) l).obj.mCpuUsage (s.cpuUsed nb (cpuTotalTime sys) l) := by
  rw [ProcessInfo.cpuUsage, EStateM.run_bind, run_refresh_cpuUsage h hn]
  rfl

/-! ## What a getter changes, and what stays -/

section Frames

variable (m : IoMetric) (io : IoStat) (nb : Int32) (total : UInt64) (l : StatLine) (s : This)

theorem mProcPath_ioUsed : (s.ioUsed m io).obj.mProcPath = s.obj.mProcPath := by
  unfold ioUsed sampleIo
  cases m <;> split <;> (try split) <;> rfl

theorem mPid_ioUsed : (s.ioUsed m io).obj.mPid = s.obj.mPid := by
  unfold ioUsed sampleIo
  cases m <;> split <;> (try split) <;> rfl

theorem usage_ioUsed_other : m.other.usage (s.ioUsed m io).obj = m.other.usage s.obj := by
  unfold ioUsed sampleIo
  cases m <;> split <;> (try split) <;> rfl

theorem mProcPath_cpuUsed : (s.cpuUsed nb total l).obj.mProcPath = s.obj.mProcPath := by
  unfold cpuUsed sampleStat
  split
  · dsimp only
    split <;> split <;> rfl
  · rfl

theorem mNeedUpdate_cpuUsed : (s.cpuUsed nb total l).obj.mNeedUpdate .cpuUsage = false := by
  unfold cpuUsed
  split
  · simp [updated]
  · next h => simpa using h

end Frames

/-- The sample an I/O getter of the object compares with. -/
def ioBase (s : This) : Option IoStat := (s.static.mapPidOldstate s.obj.mPid).map (·.mIo)

section Due

variable {m : IoMetric} {s : This} (h : s.obj.mNeedUpdate m.source = true) (io : IoStat)

include h

theorem ioUsed_of_due : s.ioUsed m io =
    ⟨(m.setUsage (rateSince m (s.obj.sampleIo io).mIo s.ioBase) (s.obj.sampleIo io)).updated m.source,
      s.static.store s.obj.mPid (((s.static.mapPidOldstate s.obj.mPid).getD (s.obj.sampleIo io)).withIo
        (s.obj.sampleIo io).mIo)⟩ := by
  simp only [ioUsed, if_pos h, mPid_sampleIo, ioBase]

theorem usage_ioUsed : m.usage (s.ioUsed m io).obj = rateSince m (s.obj.sampleIo io).mIo s.ioBase := by
  rw [ioUsed_of_due h]
  cases m <;> rfl

theorem mIo_ioUsed : (s.ioUsed m io).obj.mIo = (s.obj.sampleIo io).mIo := by
  rw [ioUsed_of_due h]
  cases m <;> rfl

/-- **The sample becomes the baseline** of both metrics. -/
theorem ioBase_ioUsed : (s.ioUsed m io).ioBase = some (s.obj.sampleIo io).mIo := by
  rw [ioBase, mPid_ioUsed, ioUsed_of_due h]
  simp

theorem mNeedUpdate_ioUsed (src : Source) (hs : src ≠ m.source) :
    (s.ioUsed m io).obj.mNeedUpdate src = if src = .io then false else s.obj.mNeedUpdate src := by
  have hset : ∀ r p, (m.setUsage r p).mNeedUpdate = p.mNeedUpdate := fun r p => by cases m <;> rfl
  rw [ioUsed_of_due h]
  simp only [updated, Function.update_of_ne hs, hset]
  split
  · next hsrc => rw [hsrc, mNeedUpdate_sampleIo]
  · next hsrc => rw [mNeedUpdate_sampleIo_of_ne hsrc]

end Due

def IoDue (s : This) : Prop := ∀ m : IoMetric, s.obj.mNeedUpdate m.source = true

/-- **The second metric asked at one sample** finds that sample as its baseline, whatever was there before. -/
theorem ioUsed_both {s : This} (h : s.IoDue) (m : IoMetric) (io : IoStat) :
    m.usage ((s.ioUsed m io).ioUsed m.other io).obj = rateSince m (s.obj.sampleIo io).mIo s.ioBase ∧
      m.other.usage ((s.ioUsed m io).ioUsed m.other io).obj = 0 ∧
      ((s.ioUsed m io).ioUsed m.other io).ioBase = some (s.obj.sampleIo io).mIo := by
  have hdue : (s.ioUsed m io).obj.mNeedUpdate m.other.source = true := by
    rw [mNeedUpdate_ioUsed (h m) _ _ (by cases m <;> decide), if_neg (by cases m <;> decide)]
    exact h m.other
  have hread : (s.ioUsed m io).obj.mNeedUpdate .io = false := by
    rw [mNeedUpdate_ioUsed (h m) _ _ (by cases m <;> decide), if_pos rfl]
  have hsame : (s.ioUsed m io).obj.sampleIo io = (s.ioUsed m io).obj := if_neg (by rw [hread]; decide)
  have hother : m.other.other = m := by cases m <;> rfl
  have hkept := usage_ioUsed_other m.other io (s.ioUsed m io)
  rw [hother] at hkept
  refine ⟨?_, ?_, ?_⟩
  · rw [hkept, usage_ioUsed (h m)]
  · rw [usage_ioUsed hdue, hsame, ioBase_ioUsed (h m), mIo_ioUsed (h m), rateSince_self]
  · rw [ioBase_ioUsed hdue, hsame, mIo_ioUsed (h m)]

end This

end SysInfo
