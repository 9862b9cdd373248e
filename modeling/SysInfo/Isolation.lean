import SysInfo.Steps
/-!
# Isolation — processes that do not interfere

The objects of a program share `map_pid_oldstate` and the number of cores, and the table's key is a member that every
read of `stat` overwrites.  As long as each `stat` file begins with its own pid, an operation on an object of one pid
changes nothing that the objects of another pid can see (`Stays`), and answers from its own pid's part of the program
alone (`SameFor`).  `isolation`: the operations on the other pids can be deleted from a run.
-/
namespace SysInfo

open IStream Effects ProcessInfo

/-- The file `stat` of a pid, when it can be opened, begins with that pid. -/
def OwnStat (sys : Sys) (pid : Int32) : Prop :=
  ∀ text, sys.file (procPath pid ++ "stat".toList) = some text → ∃ rest, text = decimalInt pid.toInt ++ ' ' :: rest

/-- The number of cores, if it is initialised, is the one the system has. -/
def Static.Sound (cores : Except Exn Int32) (st : Static) : Prop := ∀ n, st.nbCore = some n → cores = .ok n

namespace Belongs

variable {pid : Int32} {p : ProcessInfo} {sys : Sys}

theorem readStat (h : Belongs pid p) (hs : OwnStat sys pid) : Belongs pid (state ((readStat sys).run p)) := by
  refine ⟨h.path, ?_⟩
  show ((openFile (sys.file (p.mProcPath ++ "stat".toList))).extractNum .int p.mPid).2 = pid
  rw [h.path]
  cases hf : sys.file (procPath pid ++ "stat".toList) with
  | none => rw [openFile, extractNum_fail rfl, h.pid]
  | some text =>
    obtain ⟨rest, rfl⟩ := hs text hf
    have hread : (ofText ([] ++ (decimalInt pid.toInt ++ ' ' :: rest))).extractNum .int p.mPid =
        (⟨' ' :: rest, false, false⟩, pid) :=
      extractNum_printed .int pid p.mPid (fun c hc => absurd hc List.not_mem_nil) (fun c hc => by cases hc; decide)
    exact congrArg Prod.snd hread

theorem get (h : Belongs pid p) (hs : OwnStat sys pid) (g : Getter) : Belongs pid (state ((g.call sys).run p)) := by
  by_cases hsrc : g.source = .stat
  · rw [state_call, hsrc, refresh, EStateM.run_bind, EStateM.run_get]
    dsimp only
    cases p.mNeedUpdate .stat with
    | false => exact h
    | true => exact ⟨(h.readStat hs).path, (h.readStat hs).pid⟩
  · have hm : state ((g.call sys).run p) = take g.source p _ := moves_call sys g p
    rw [hm]
    constructor
    · cases g.source <;> exact h.path
    · cases hsrc' : g.source <;> first | exact absurd hsrc' hsrc | exact h.pid

end Belongs

section

variable {pid : Int32} {cores : Except Exn Int32} {sys : Sys} {α : Type}

theorem Static.Sound.store {st : Static} (h : st.Sound cores) (q : Int32) (old : ProcessInfo) :
    (st.store q old).Sound cores := h

/-! ## What an operation on a pid leaves alone -/

/-- From an object of `pid` to one: the table changes at that pid only and the number of cores stays sound. -/
def Stays (pid : Int32) (cores : Except Exn Int32) (s t : This) : Prop :=
  Belongs pid s.obj → Belongs pid t.obj ∧
    (∀ q ≠ pid, t.static.mapPidOldstate q = s.static.mapPidOldstate q) ∧ (s.static.Sound cores → t.static.Sound cores)

instance : IsPreorder This (Stays pid cores) where
  refl _ h := ⟨h, fun _ _ => rfl, id⟩
  trans s t u hst htu h := by
    obtain ⟨ht, htable, hsound⟩ := hst h
    obtain ⟨hu, htable', hsound'⟩ := htu ht
    exact ⟨hu, fun q hq => (htable' q hq).trans (htable q hq), fun hs => hsound' (hsound hs)⟩

theorem moves_onObj {x : Cpp ProcessInfo α} (h : ∀ p, Belongs pid p → Belongs pid (state (x.run p))) :
    Moves (Stays pid cores) (onObj x) := by
  intro s hs
  rw [(run_onObj x s).1]
  exact ⟨h s.obj hs, fun _ _ => rfl, id⟩

theorem moves_nbCore (hc : getNbCores sys = cores) : Moves (Stays pid cores) (nbCore sys) := by
  refine moves_get_bind fun s => ?_
  cases s.static.nbCore with
  | some n => exact moves_pure n
  | none =>
    intro t ht
    rw [EStateM.run_bind]
    cases hn : getNbCores sys with
    | error e => exact ⟨ht, fun _ _ => rfl, id⟩
    | ok n =>
      refine ⟨ht, fun _ _ => rfl, fun _ m hm => ?_⟩
      rw [← hc, hn, show n = m from Option.some.inj hm]

theorem moves_recordIo (m : IoMetric) (bytes : UInt64) :
    Moves (Stays pid cores) (modify (recordIo m bytes) : Cpp This Unit) := by
  refine moves_modify fun s hs => ?_
  have hstore : ∀ old, ∀ q ≠ pid, (s.static.store s.obj.mPid old).mapPidOldstate q = s.static.mapPidOldstate q :=
    fun old q hq => Static.mapPidOldstate_store_of_ne _ (by rwa [hs.pid]) old
  unfold recordIo
  split
  · exact ⟨by cases m <;> exact ⟨hs.path, hs.pid⟩, hstore _, id⟩
  · exact ⟨by cases m <;> exact ⟨hs.path, hs.pid⟩, hstore _, id⟩

theorem moves_recordCpu (nb : Int32) (total process : UInt64) :
    Moves (Stays pid cores) (modify (recordCpu nb total process) : Cpp This Unit) := by
  refine moves_modify fun s hs => ?_
  have hstore : ∀ old, ∀ q ≠ pid, (s.static.store s.obj.mPid old).mapPidOldstate q = s.static.mapPidOldstate q :=
    fun old q hq => Static.mapPidOldstate_store_of_ne _ (by rwa [hs.pid]) old
  unfold recordCpu
  split
  · exact ⟨⟨hs.path, hs.pid⟩, hstore _, id⟩
  · exact ⟨⟨hs.path, hs.pid⟩, hstore _, id⟩

theorem moves_updated (src : Source) :
    Moves (Stays pid cores) (modify fun s => { s with obj := s.obj.updated src } : Cpp This Unit) :=
  moves_modify fun _ hs => ⟨⟨hs.path, hs.pid⟩, fun _ _ => rfl, id⟩

/-- **A call stays within its pid.** -/
theorem moves_query (hs : OwnStat sys pid) (hc : getNbCores sys = cores) (q : Query) :
    Moves (Stays pid cores) (q.call sys) := by
  have hget : ∀ g : Getter, Moves (Stays pid cores) (onObj (g.call sys)) := fun g => moves_onObj fun p hp => hp.get hs g
  cases q with
  | get g => exact hget g
  | usage u =>
    refine moves_usage (fun m => ?_) u fun _ => ?_
    · refine moves_ioUsage ?_ (moves_recordIo m) (moves_updated m.source)
      cases m with
      | read => exact hget .readBytes
      | write => exact hget .writeBytes
    · exact moves_cpuUsage (moves_nbCore hc) (hget (.field .utime)) (hget (.field .stime)) moves_recordCpu
        (moves_updated .cpuUsage)

/-! ## What an operation on a pid depends on -/

/-- The same for `pid`: the object, the entry of the table, and the number of cores as far as it matters. -/
structure SameFor (pid : Int32) (cores : Except Exn Int32) (s t : This) : Prop where
  obj     : s.obj = t.obj
  belongs : Belongs pid s.obj
  entry   : s.static.mapPidOldstate pid = t.static.mapPidOldstate pid
  left    : s.static.Sound cores
  right   : t.static.Sound cores

theorem couples_onObj {x : Cpp ProcessInfo α} (h : ∀ p, Belongs pid p → Belongs pid (state (x.run p))) :
    Couples (SameFor pid cores) (onObj x) (onObj x) := by
  intro s t hst
  obtain ⟨hs, hvs⟩ := run_onObj x s
  obtain ⟨ht, hvt⟩ := run_onObj x t
  rw [hs, ht, hvs, hvt, hst.obj]
  exact ⟨rfl, rfl, h _ (hst.obj ▸ hst.belongs), hst.entry, hst.left, hst.right⟩

theorem couples_nbCore (hc : getNbCores sys = cores) : Couples (SameFor pid cores) (nbCore sys) (nbCore sys) := by
  have hrun : ∀ {s : This}, s.static.Sound cores → ∃ st, (nbCore sys).run s = (match cores with
      | .ok n    => .ok n ⟨s.obj, st⟩
      | .error e => .error e ⟨s.obj, st⟩) ∧ st.mapPidOldstate = s.static.mapPidOldstate ∧ st.Sound cores := by
    intro s hs
    obtain ⟨p, nb, table⟩ := s
    simp only [nbCore, EStateM.run_bind, EStateM.run_get]
    cases nb with
    | some n =>
      refine ⟨⟨some n, table⟩, ?_, rfl, hs⟩
      rw [hs n rfl]
      rfl
    | none =>
      rw [hc]
      cases cores with
      | ok n => exact ⟨⟨some n, table⟩, rfl, rfl, fun m hm => congrArg Except.ok (Option.some.inj hm)⟩
      | error e => exact ⟨⟨none, table⟩, rfl, rfl, fun m hm => by cases hm⟩
  intro s t hst
  obtain ⟨st, hs, hstable, hssound⟩ := hrun hst.left
  obtain ⟨tt, ht, httable, htsound⟩ := hrun hst.right
  have hentry : st.mapPidOldstate pid = tt.mapPidOldstate pid := by
    rw [hstable, httable, hst.entry]
  rw [hs, ht]
  cases cores with
  | ok n => exact ⟨rfl, hst.obj, hst.belongs, hentry, hssound, htsound⟩
  | error e => exact ⟨rfl, hst.obj, hst.belongs, hentry, hssound, htsound⟩

namespace SameFor

variable {p p' : ProcessInfo} {st tt : Static} {s t : This}

theorem store (h : SameFor pid cores ⟨p, st⟩ ⟨p, tt⟩) (hp : Belongs pid p') (old : ProcessInfo) :
    SameFor pid cores ⟨p', st.store p.mPid old⟩ ⟨p', tt.store p.mPid old⟩ := by
  refine ⟨rfl, hp, ?_, h.left, h.right⟩
  rw [h.belongs.pid]
  exact (Static.mapPidOldstate_store_self ..).trans (Static.mapPidOldstate_store_self ..).symm

theorem entry_eq (h : SameFor pid cores ⟨p, st⟩ ⟨p, tt⟩) : st.mapPidOldstate p.mPid = tt.mapPidOldstate p.mPid := by
  rw [h.belongs.pid]
  exact h.entry

theorem recordIo (h : SameFor pid cores s t) (m : IoMetric) (bytes : UInt64) :
    SameFor pid cores (recordIo m bytes s) (recordIo m bytes t) := by
  obtain ⟨p, st⟩ := s
  obtain ⟨q, tt⟩ := t
  obtain rfl : p = q := h.obj
  have hset : ∀ r, Belongs pid (m.setUsage r p) := fun r => by cases m <;> exact ⟨h.belongs.path, h.belongs.pid⟩
  simp only [ProcessInfo.recordIo, h.entry_eq]
  cases tt.mapPidOldstate p.mPid with
  | none => exact h.store (hset 0) p
  | some old => exact h.store (hset _) _

theorem recordCpu (h : SameFor pid cores s t) (nb : Int32) (total process : UInt64) :
    SameFor pid cores (recordCpu nb total process s) (recordCpu nb total process t) := by
  obtain ⟨p, st⟩ := s
  obtain ⟨q, tt⟩ := t
  obtain rfl : p = q := h.obj
  have hset : ∀ q : ProcessInfo, q.mProcPath = p.mProcPath → q.mPid = p.mPid → Belongs pid q := fun q hpath hpid =>
    ⟨hpath.trans h.belongs.path, hpid.trans h.belongs.pid⟩
  simp only [ProcessInfo.recordCpu, h.entry_eq]
  cases tt.mapPidOldstate p.mPid with
  | none => exact h.store (by exact hset _ rfl rfl) _
  | some old => exact h.store (by exact hset _ rfl rfl) _

theorem updated (h : SameFor pid cores s t) (src : Source) :
    SameFor pid cores { s with obj := s.obj.updated src } { t with obj := t.obj.updated src } := by
  refine ⟨?_, ⟨h.belongs.path, h.belongs.pid⟩, h.entry, h.left, h.right⟩
  rw [h.obj]

end SameFor

theorem couples_refreshUsage {x : Cpp This Unit} (hx : Couples (SameFor pid cores) x x) (src : Source) :
    Couples (SameFor pid cores) (refreshUsage src x) (refreshUsage src x) := by
  refine couples_get_bind fun s t h => ?_
  rw [h.obj]
  split
  · exact hx.bind fun _ => couples_modify fun s t h => h.updated src
  · exact couples_pure _

theorem couples_ioUsage (hs : OwnStat sys pid) (m : IoMetric) :
    Couples (SameFor pid cores) (ioUsage m sys) (ioUsage m sys) := by
  have hbytes : Couples (SameFor pid cores) (onObj (getter sys .io (·.mIo.counter m.field)))
      (onObj (getter sys .io (·.mIo.counter m.field))) := by
    cases m with
    | read => exact couples_onObj fun p hp => hp.get hs .readBytes
    | write => exact couples_onObj fun p hp => hp.get hs .writeBytes
  refine (couples_refreshUsage (hbytes.bind fun bytes => ?_) m.source).bind fun _ => couples_get_bind fun s t h => ?_
  · exact couples_modify fun s t h => h.recordIo m bytes
  · rw [h.obj]
    exact couples_pure _

theorem couples_cpuUsage (hs : OwnStat sys pid) (hc : getNbCores sys = cores) :
    Couples (SameFor pid cores) (ProcessInfo.cpuUsage sys) (ProcessInfo.cpuUsage sys) := by
  have hupdate : Couples (SameFor pid cores) (updateCPUUsage sys) (updateCPUUsage sys) :=
    (couples_nbCore hc).bind fun nb =>
      (couples_onObj fun p hp => hp.get hs (.field .utime)).bind fun utime =>
        (couples_onObj fun p hp => hp.get hs (.field .stime)).bind fun stime =>
          couples_modify fun s t h => h.recordCpu _ _ _
  refine (couples_refreshUsage hupdate .cpuUsage).bind fun _ => couples_get_bind fun s t h => ?_
  rw [h.obj]
  exact couples_pure _

/-- **A call sees its own pid only.** -/
theorem couples_query (hs : OwnStat sys pid) (hc : getNbCores sys = cores) (q : Query) :
    Couples (SameFor pid cores) (q.call sys) (q.call sys) := by
  cases q with
  | get g => exact couples_onObj fun p hp => hp.get hs g
  | usage u =>
    cases u with
    | cpuUsage => exact couples_cpuUsage hs hc
    | ioReadUsage => exact couples_ioUsage hs .read
    | ioWriteUsage => exact couples_ioUsage hs .write
    | ioTotalUsage readFirst =>
      cases readFirst with
      | true =>
        exact (couples_ioUsage hs .read).bind fun r => (couples_ioUsage hs .write).bind fun w => couples_pure _
      | false =>
        exact (couples_ioUsage hs .write).bind fun w => (couples_ioUsage hs .read).bind fun r => couples_pure _

end

/-! ## Runs -/

namespace World

/-- Every object is of its name's pid, and the number of cores is sound. -/
structure Tidy (cores : Except Exn Int32) (w : World) : Prop where
  named : w.Named
  sound : w.static.Sound cores

/-- What an operation finds: its own pid in its `stat`, and the number of cores. -/
structure Finds (cores : Except Exn Int32) (x : Sys × Op) : Prop where
  stat  : OwnStat x.1 x.2.id.pid
  cores : getNbCores x.1 = cores

/-- The worlds agree on a pid. -/
structure Agree (pid : Int32) (cores : Except Exn Int32) (w v : World) : Prop where
  objs  : ∀ id : ObjId, id.pid = pid → w.objs id = v.objs id
  entry : w.static.mapPidOldstate pid = v.static.mapPidOldstate pid
  left  : w.Tidy cores
  right : v.Tidy cores

variable {pid : Int32} {cores : Except Exn Int32} {w v : World} {id : ObjId} {p : ProcessInfo} {sys : Sys}

theorem step_call (h : w.objs id = some p) (q : Query) : step (sys, .call id q) w =
    (w.leave id (state ((q.call sys).run ⟨p, w.static⟩)), some ⟨q, value ((q.call sys).run ⟨p, w.static⟩)⟩) := by
  simp only [step, h]
  rfl

theorem Tidy.set (hw : w.Tidy cores) (hp : Belongs id.pid p) : (w.set id p).Tidy cores :=
  ⟨hw.named.set hp, hw.sound⟩

theorem Tidy.call (hw : w.Tidy cores) (h : w.objs id = some p) (hs : OwnStat sys id.pid) (hc : getNbCores sys = cores)
    (q : Query) : (w.leave id (state ((q.call sys).run ⟨p, w.static⟩))).Tidy cores := by
  obtain ⟨hobj, -, hsound⟩ := moves_query hs hc q ⟨p, w.static⟩ (hw.named id p h)
  exact ⟨hw.named.leave hobj, hsound hw.sound⟩

theorem Tidy.step (hw : w.Tidy cores) {x : Sys × Op} (hx : Finds cores x) : (World.step x w).1.Tidy cores := by
  obtain ⟨sys, op⟩ := x
  cases op with
  | construct id junk => exact hw.set (Belongs.construct junk id.pid)
  | copy id n =>
    cases h : w.objs id with
    | none => simpa only [World.step, h] using hw
    | some p =>
      simp only [World.step, h]
      have hp : Belongs (⟨id.pid, n⟩ : ObjId).pid p := hw.named id p h
      exact hw.set hp
  | needUpdate id =>
    cases h : w.objs id with
    | none => simpa only [World.step, h] using hw
    | some p =>
      simp only [World.step, h]
      exact hw.set (hw.named id p h).needUpdate
  | call id q =>
    cases h : w.objs id with
    | none => simpa only [World.step, h] using hw
    | some p =>
      rw [step_call h]
      exact hw.call h hx.stat hx.cores q

theorem step_elsewhere (hw : w.Tidy cores) {x : Sys × Op} (hx : Finds cores x) (hne : x.2.id.pid ≠ pid) :
    (∀ id : ObjId, id.pid = pid → (step x w).1.objs id = w.objs id) ∧
      (step x w).1.static.mapPidOldstate pid = w.static.mapPidOldstate pid := by
  obtain ⟨sys, op⟩ := x
  have hset : ∀ {id : ObjId} (p : ProcessInfo), id.pid ≠ pid → ∀ id' : ObjId, id'.pid = pid →
      (w.set id p).objs id' = w.objs id' := by
    rintro id p hid id' rfl
    exact objs_set_of_ne w (fun h => hid (congrArg ObjId.pid h).symm) p
  cases op with
  | construct id junk => exact ⟨hset _ hne, rfl⟩
  | copy id n =>
    cases h : w.objs id with
    | none => simp only [step, h, implies_true, and_self]
    | some p =>
      simp only [step, h]
      exact ⟨hset p hne, rfl⟩
  | needUpdate id =>
    cases h : w.objs id with
    | none => simp only [step, h, implies_true, and_self]
    | some p =>
      simp only [step, h]
      exact ⟨hset _ hne, rfl⟩
  | call id q =>
    cases h : w.objs id with
    | none => simp only [step, h, implies_true, and_self]
    | some p =>
      obtain ⟨-, htable, -⟩ := moves_query hx.stat hx.cores q ⟨p, w.static⟩ (hw.named id p h)
      rw [step_call h]
      exact ⟨hset _ hne, htable pid (Ne.symm hne)⟩

theorem Agree.dropped (ha : Agree pid cores w v) {x : Sys × Op} (hx : Finds cores x) (hne : x.2.id.pid ≠ pid) :
    Agree pid cores (step x w).1 v := by
  obtain ⟨hobjs, hentry⟩ := step_elsewhere ha.left hx hne
  exact ⟨fun id hid => (hobjs id hid).trans (ha.objs id hid), hentry.trans ha.entry, ha.left.step hx, ha.right⟩

theorem Agree.objs_set (ha : Agree pid cores w v) (id : ObjId) (p : ProcessInfo) {id' : ObjId} (h : id'.pid = pid) :
    (w.set id p).objs id' = (v.set id p).objs id' := by
  by_cases hid : id' = id
  · rw [hid, World.objs_set_self, World.objs_set_self]
  · rw [objs_set_of_ne w hid, objs_set_of_ne v hid, ha.objs id' h]

theorem Agree.kept (ha : Agree pid cores w v) {x : Sys × Op} (hx : Finds cores x) (heq : x.2.id.pid = pid) :
    (step x w).2 = (step x v).2 ∧ Agree pid cores (step x w).1 (step x v).1 := by
  have hleft := ha.left.step hx
  have hright := ha.right.step hx
  obtain ⟨sys, op⟩ := x
  have hobj : w.objs op.id = v.objs op.id := ha.objs op.id heq
  cases op with
  | construct id junk => exact ⟨rfl, fun _ h => ha.objs_set id _ h, ha.entry, hleft, hright⟩
  | copy id n =>
    cases h : w.objs id with
    | none =>
      have h' : v.objs id = none := hobj.symm.trans h
      simp only [step, h, h'] at hleft hright ⊢
      exact ⟨trivial, ha⟩
    | some p =>
      have h' : v.objs id = some p := hobj.symm.trans h
      simp only [step, h, h'] at hleft hright ⊢
      exact ⟨trivial, fun _ h => ha.objs_set _ p h, ha.entry, hleft, hright⟩
  | needUpdate id =>
    cases h : w.objs id with
    | none =>
      have h' : v.objs id = none := hobj.symm.trans h
      simp only [step, h, h'] at hleft hright ⊢
      exact ⟨trivial, ha⟩
    | some p =>
      have h' : v.objs id = some p := hobj.symm.trans h
      simp only [step, h, h'] at hleft hright ⊢
      exact ⟨trivial, fun _ h => ha.objs_set id _ h, ha.entry, hleft, hright⟩
  | call id q =>
    cases h : w.objs id with
    | none =>
      have h' : v.objs id = none := hobj.symm.trans h
      simp only [step, h, h'] at hleft hright ⊢
      exact ⟨trivial, ha⟩
    | some p =>
      have h' : v.objs id = some p := hobj.symm.trans h
      rw [step_call h] at hleft ⊢
      rw [step_call h'] at hright ⊢
      have hsame : SameFor pid cores ⟨p, w.static⟩ ⟨p, v.static⟩ :=
        ⟨rfl, heq ▸ ha.left.named id p h, ha.entry, ha.left.sound, ha.right.sound⟩
      obtain ⟨hv, hs⟩ := couples_query (heq ▸ hx.stat) hx.cores q _ _ hsame
      refine ⟨congrArg (fun r => some (Sigma.mk q r)) hv, fun id' hid' => ?_, hs.entry, hleft, hright⟩
      have hset := ha.objs_set id (state ((q.call sys).run ⟨p, w.static⟩)).obj hid'
      rw [hs.obj] at hset
      rw [World.leave, hs.obj]
      exact hset

theorem tidy_initial (cores : Except Exn Int32) : initial.Tidy cores := ⟨named_initial, fun _ h => by cases h⟩

def ofPid (pid : Int32) (x : Sys × Op) : Bool := x.2.id.pid = pid

theorem getNbCores_congr {sys sys' : Sys} (h : sys.file "/proc/cpuinfo".toList = sys'.file "/proc/cpuinfo".toList) :
    getNbCores sys = getNbCores sys' := by
  rw [getNbCores, getNbCores, readCPUInfo, readCPUInfo, h]

/-- **Processes do not interfere.**  When each `stat` file begins with its own pid and `/proc/cpuinfo` does not change,
the operations on other pids can be deleted from a run: those of `pid` answer as before, and leave the same entry. -/
theorem isolation (pid : Int32) {cpuinfo : Option (List Char)} {ops : List (Sys × Op)}
    (hstat : ∀ x ∈ ops, OwnStat x.1 x.2.id.pid) (hcpu : ∀ x ∈ ops, x.1.file "/proc/cpuinfo".toList = cpuinfo) :
    answersOf (ofPid pid) ops (initial.run ops).2 = (initial.run (ops.filter (ofPid pid))).2 ∧
      (initial.run ops).1.static.mapPidOldstate pid =
        (initial.run (ops.filter (ofPid pid))).1.static.mapPidOldstate pid := by
  let cores := getNbCores (Sys.ofFiles fun _ => cpuinfo)
  have hfinds : ∀ x ∈ ops, Finds cores x := fun x hx => ⟨hstat x hx, getNbCores_congr (hcpu x hx)⟩
  have hinitial : Agree pid cores initial initial := ⟨fun _ _ => rfl, rfl, tidy_initial cores, tidy_initial cores⟩
  have hkept : ∀ x w v, Finds cores x → ofPid pid x = true → Agree pid cores w v →
      (step x w).2 = (step x v).2 ∧ Agree pid cores (step x w).1 (step x v).1 :=
    fun x w v hx hk ha => ha.kept hx (of_decide_eq_true hk)
  have hdropped : ∀ x w v, Finds cores x → ofPid pid x = false → Agree pid cores w v → Agree pid cores (step x w).1 v :=
    fun x w v hx hk ha => ha.dropped hx (of_decide_eq_false hk)
  obtain ⟨hanswers, hagree⟩ := runOps_drop hkept hdropped hfinds hinitial
  exact ⟨hanswers, hagree.entry⟩

/-- Two objects of `init` and one of a process whose `stat` cannot be opened. -/
def twoPids : List (Sys × Op) :=
  let sys := Sys.small (.init 5 2) (.bytes 7 0) 100 0
  [(sys, .construct ⟨1, 0⟩ zeroed), (sys, .construct ⟨2, 0⟩ zeroed), (sys, .call ⟨2, 0⟩ (.usage .cpuUsage)),
    (sys, .call ⟨1, 0⟩ (.usage .cpuUsage)), (sys, .copy ⟨1, 0⟩ 1), (sys, .call ⟨1, 1⟩ (.usage .ioReadUsage))]

theorem isolation_twoPids :
    answersOf (ofPid 1) twoPids (initial.run twoPids).2 = (initial.run (twoPids.filter (ofPid 1))).2 ∧
      (initial.run twoPids).1.static.mapPidOldstate 1 =
        (initial.run (twoPids.filter (ofPid 1))).1.static.mapPidOldstate 1 := by
  have hstat₁ : OwnStat (Sys.small (.init 5 2) (.bytes 7 0) 100 0) 1 := fun text h => by
    rw [Sys.stat_small] at h
    exact ⟨_, (Option.some.inj h).symm⟩
  have hstat₂ : OwnStat (Sys.small (.init 5 2) (.bytes 7 0) 100 0) 2 := fun text h => by
    have hnone : (Sys.small (.init 5 2) (.bytes 7 0) 100 0).file (procPath 2 ++ "stat".toList) = none := rfl
    rw [hnone] at h
    cases h
  have hstat : ∀ x ∈ twoPids, OwnStat x.1 x.2.id.pid := by
    intro x hx
    simp only [twoPids, List.mem_cons, List.not_mem_nil, or_false] at hx
    rcases hx with rfl | rfl | rfl | rfl | rfl | rfl
    · exact hstat₁
    · exact hstat₂
    · exact hstat₂
    · exact hstat₁
    · exact hstat₁
    · exact hstat₁
  have hcpu : ∀ x ∈ twoPids, x.1.file "/proc/cpuinfo".toList = some "processor\t: 0\n\n".toList := by
    intro x hx
    simp only [twoPids, List.mem_cons, List.not_mem_nil, or_false] at hx
    rcases hx with rfl | rfl | rfl | rfl | rfl | rfl <;> rfl
  exact isolation 1 hstat hcpu

end World

end SysInfo
