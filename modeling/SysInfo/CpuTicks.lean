import SysInfo.Steps
/-!
# CpuTicks — the usage of every refresh, over any history

The older sample behind `cpuUsage()` is in the entry of the pid, which the first refresh creates from its own object and
every later one, on whatever object, overwrites; the I/O usages share the entry and leave its ticks alone.  So before a
refresh the entry holds the ticks of the refresh before it (`Between`), and each returns the exact share since then:
`CpuHistory.exact`.
-/
namespace SysInfo

open IStream Effects ProcessInfo

/-! ## The division -/

/-- **The share is exact** where neither the product nor the quotient overflows. -/
theorem toInt_cpuShare {nb : Nat} (hnb : nb ≤ 2 ^ 15) {dp dc : UInt64} (h64 : 100 * nb * dp.toNat < 2 ^ 64)
    (h31 : 100 * nb * dp.toNat / dc.toNat < 2 ^ 31) :
    (cpuShare (Int32.ofNat nb) dp dc).toInt = (100 * nb * dp.toNat / dc.toNat : Nat) := by
  have hcores : (Int32.ofNat nb).toInt = nb := Int32.toInt_ofNat_of_lt (by omega)
  unfold cpuShare
  split
  · next hdc => rw [hdc, UInt64.toNat_zero, Nat.div_zero]; rfl
  · have hscale : (UInt64.ofInt (100 * (Int32.ofNat nb).toInt)).toNat = 100 * nb := by
      rw [hcores, show 100 * (nb : Int) = ((100 * nb : Nat) : Int) by omega, IoFile.ofInt_natCast (by omega),
        UInt64.toNat_ofNat', Nat.mod_eq_of_lt (by omega)]
    rw [UInt64.toNat_div, UInt64.toNat_mul, hscale, Nat.mod_eq_of_lt h64]
    generalize 100 * nb * dp.toNat / dc.toNat = q at h31 ⊢
    exact Int32.toInt_ofInt_of_le (by omega) (by omega)

/-! ## What the I/O usages leave alone -/

/-- Code on an object of a pid that has an entry: the object's flags on `stat` and `cpuUsage`, the number of cores and the
ticks of the entry are what they were. -/
def KeepsTicks (pid : Int32) (s t : This) : Prop :=
  Belongs pid s.obj → Belongs pid t.obj ∧ t.obj.mNeedUpdate .stat = s.obj.mNeedUpdate .stat ∧
    t.obj.mNeedUpdate .cpuUsage = s.obj.mNeedUpdate .cpuUsage ∧ t.static.nbCore = s.static.nbCore ∧
    ∀ old, s.static.mapPidOldstate pid = some old → ∃ old', t.static.mapPidOldstate pid = some old' ∧
      old'.mLastCpuTotalTime = old.mLastCpuTotalTime ∧ old'.mLastProcessTotalTime = old.mLastProcessTotalTime

instance (pid : Int32) : IsPreorder This (KeepsTicks pid) where
  refl _ h := ⟨h, rfl, rfl, rfl, fun old ho => ⟨old, ho, rfl, rfl⟩⟩
  trans s t u hst htu h := by
    obtain ⟨ht, hstat, hcpu, hcores, hentry⟩ := hst h
    obtain ⟨hu, hstat', hcpu', hcores', hentry'⟩ := htu ht
    refine ⟨hu, hstat'.trans hstat, hcpu'.trans hcpu, hcores'.trans hcores, fun old ho => ?_⟩
    obtain ⟨old₁, ho₁, htotal₁, hproc₁⟩ := hentry old ho
    obtain ⟨old₂, ho₂, htotal₂, hproc₂⟩ := hentry' old₁ ho₁
    exact ⟨old₂, ho₂, htotal₂.trans htotal₁, hproc₂.trans hproc₁⟩

section

variable {pid : Int32} {sys : Sys}

theorem keepsTicks_getter_io {α : Type} (v : ProcessInfo → α) : Moves (KeepsTicks pid) (onObj (getter sys .io v)) := by
  intro s hb
  have hmoves : Moves (OnlyChanges .io) (getter sys .io v) :=
    (moves_refresh sys .io).bind fun _ => moves_get_bind fun p => moves_pure _
  have hm : state ((getter sys .io v).run s.obj) = take .io s.obj _ := hmoves s.obj
  rw [(run_onObj (getter sys .io v) s).1, hm]
  exact ⟨⟨hb.path, hb.pid⟩, mNeedUpdate_take (show Source.stat ≠ .io by decide) _ _,
    mNeedUpdate_take (show Source.cpuUsage ≠ .io by decide) _ _, rfl,
    fun old ho => ⟨old, ho, rfl, rfl⟩⟩

theorem keepsTicks_recordIo (m : IoMetric) (bytes : UInt64) :
    Moves (KeepsTicks pid) (modify (recordIo m bytes) : Cpp This Unit) := by
  refine moves_modify fun s hb => ?_
  unfold recordIo
  rw [hb.pid]
  cases hold : s.static.mapPidOldstate pid with
  | none => cases m <;> exact ⟨⟨hb.path, hb.pid⟩, rfl, rfl, rfl, fun old ho => by cases ho⟩
  | some old =>
    have hentry : ∀ old', some old = some old' → ∃ new, (s.static.store pid { old with mIo := s.obj.mIo }).mapPidOldstate pid =
        some new ∧ new.mLastCpuTotalTime = old'.mLastCpuTotalTime ∧ new.mLastProcessTotalTime = old'.mLastProcessTotalTime :=
      fun old' ho => ⟨_, Static.mapPidOldstate_store_self .., by rw [← Option.some.inj ho], by rw [← Option.some.inj ho]⟩
    cases m <;> exact ⟨⟨hb.path, hb.pid⟩, rfl, rfl, rfl, hentry⟩

/-- **An I/O usage keeps the ticks**, whatever `io` holds and whether it throws or not. -/
theorem keepsTicks_usage {u : Usage} (hu : u ≠ .cpuUsage) : Moves (KeepsTicks pid) (u.call sys) := by
  refine moves_usage (fun m => moves_ioUsage (keepsTicks_getter_io _) (keepsTicks_recordIo m) ?_) u fun h => absurd h hu
  exact moves_modify fun s hb => ⟨⟨hb.path, hb.pid⟩, Function.update_of_ne (by cases m <;> decide) _ _,
    Function.update_of_ne (by cases m <;> decide) _ _, rfl, fun old ho => ⟨old, ho, rfl, rfl⟩⟩

end

/-! ## Refreshes -/

/-- An I/O usage of an object of a pid. -/
def IsIo (pid : Int32) (op : Op) : Prop := ∃ id u, op = .call id (.usage u) ∧ id.pid = pid ∧ u ≠ .cpuUsage

/-- A new object of a pid or a copy of one. -/
def IsNew (pid : Int32) (op : Op) : Prop :=
  (∃ id junk, op = .construct id junk ∧ id.pid = pid) ∨ ∃ id n, op = .copy id n ∧ id.pid = pid

/-- `needUpdate()` and then `cpuUsage()` on an object of a pid, what is done before and between, and the ticks there. -/
structure CpuRefresh (pid : Int32) where
  before  : List (Sys × Op)
  between : List (Sys × Op)
  n       : Nat
  sys     : Sys
  proc    : Nat
  total   : Nat

namespace CpuRefresh

variable {pid : Int32}

def id (r : CpuRefresh pid) : ObjId := ⟨pid, r.n⟩

/-- The world in which the object is marked. -/
def found (w : World) (r : CpuRefresh pid) : World := (World.run w r.before).1

/-- The world in which `cpuUsage()` is called. -/
def due (w : World) (r : CpuRefresh pid) : World :=
  (World.run (World.step (r.sys, .needUpdate r.id) (r.found w)).1 r.between).1

def after (w : World) (r : CpuRefresh pid) : World := (World.step (r.sys, .call r.id (.usage .cpuUsage)) (r.due w)).1

def answer (w : World) (r : CpuRefresh pid) : Answer :=
  (World.step (r.sys, .call r.id (.usage .cpuUsage)) (r.due w)).2

/-- The process ticks the refresh counts: those its object has read, less those of the entry; none without an entry. -/
def delta (w : World) (r : CpuRefresh pid) : Nat :=
  match (r.due w).static.mapPidOldstate pid, (r.after w).objs r.id with
  | some old, some p => (p.ticks - old.mLastProcessTotalTime).toNat
  | _, _ => 0

/-- The files of a refresh on a machine with these cores: `stat` gives the process's ticks to whatever object reads it. -/
structure Shows (nb : Nat) (r : CpuRefresh pid) : Prop where
  before  : ∀ x ∈ r.before, IsIo pid x.2 ∨ IsNew pid x.2
  between : ∀ x ∈ r.between, IsIo pid x.2
  cores   : getNbCores r.sys = .ok (Int32.ofNat nb)
  cpu     : ∃ c : CpuLine, r.sys.file "/proc/stat".toList = some c.text ∧
    c.user.toNat + c.nice.toNat + c.system.toNat + c.idle.toNat = r.total
  stat    : ∀ p, Belongs pid p → (state ((readStat r.sys).run p)).mPid = pid ∧
    UInt64.toNat ((state ((readStat r.sys).run p)).mStat .utime) +
      UInt64.toNat ((state ((readStat r.sys).run p)).mStat .stime) = r.proc
  procLt  : r.proc < 2 ^ 63
  totalLt : r.total < 2 ^ 63

/-- The ticks do not decrease from one refresh to the next, and neither the product nor the quotient overflows. -/
structure Follows (nb : Nat) (q r : CpuRefresh pid) : Prop where
  proc     : q.proc ≤ r.proc
  total    : q.total ≤ r.total
  product  : 100 * nb * (r.proc - q.proc) < 2 ^ 64
  quotient : 100 * nb * (r.proc - q.proc) / (r.total - q.total) < 2 ^ 31

/-- `100 * nb_core * (proc - proc') / (total - total')`, and 0 at the first refresh or when no machine tick has passed. -/
def usage (nb : Nat) (last : Option (CpuRefresh pid)) (r : CpuRefresh pid) : Nat :=
  match last with
  | none   => 0
  | some q => 100 * nb * (r.proc - q.proc) / (r.total - q.total)

end CpuRefresh

/-! ## The entry between two refreshes -/

/-- The entry of a pid holds the ticks of the last refresh. -/
structure LastTicks (pid : Int32) (nb : Nat) (last : Option (CpuRefresh pid)) (w : World) : Prop where
  named : ∀ id p, id.pid = pid → w.objs id = some p → Belongs pid p
  cores : ∀ k, w.static.nbCore = some k → k = Int32.ofNat nb
  entry : match last with
    | none   => w.static.mapPidOldstate pid = none
    | some r => ∃ old, w.static.mapPidOldstate pid = some old ∧ old.mLastCpuTotalTime.toNat = r.total ∧
      old.mLastProcessTotalTime.toNat = r.proc

/-- An object whose `stat` and `cpuUsage` are due. -/
def CpuDue (w : World) (id : ObjId) : Prop :=
  ∃ p, w.objs id = some p ∧ p.mNeedUpdate .stat = true ∧ p.mNeedUpdate .cpuUsage = true

namespace LastTicks

variable {pid : Int32} {nb : Nat} {last : Option (CpuRefresh pid)} {w : World}

theorem set (h : LastTicks pid nb last w) {id : ObjId} {p : ProcessInfo} (hp : id.pid = pid → Belongs pid p) :
    LastTicks pid nb last (w.set id p) := by
  refine ⟨fun id' q hid' hq => ?_, h.cores, h.entry⟩
  by_cases hid : id' = id
  · subst hid
    obtain rfl : p = q := by simpa using hq
    exact hp hid'
  · rw [World.objs_set_of_ne w hid] at hq
    exact h.named id' q hid' hq

theorem new (h : LastTicks pid nb last w) {x : Sys × Op} (hx : IsNew pid x.2) : LastTicks pid nb last (World.step x w).1 := by
  obtain ⟨sys, op⟩ := x
  rcases hx with ⟨id, junk, rfl, hid⟩ | ⟨id, n, rfl, hid⟩
  · exact h.set fun _ => by rw [← hid]; exact Belongs.construct junk id.pid
  · cases hp : w.objs id with
    | none => simpa only [World.step, hp] using h
    | some p =>
      simp only [World.step, hp]
      exact h.set fun _ => h.named id p hid hp

/-- **An I/O usage** keeps the ticks of the entry, and an object that is due stays so. -/
theorem io (h : LastTicks pid nb last w) (hlast : last ≠ none) {x : Sys × Op} (hx : IsIo pid x.2) :
    LastTicks pid nb last (World.step x w).1 ∧ ∀ id, CpuDue w id → CpuDue (World.step x w).1 id := by
  obtain ⟨sys, op⟩ := x
  obtain ⟨id, u, rfl, hid, hu⟩ := hx
  cases hp : w.objs id with
  | none => simpa only [World.step, hp] using ⟨h, fun _ hd => hd⟩
  | some p =>
    have hb := h.named id p hid hp
    have hkeeps : Moves (KeepsTicks pid) (u.call sys) := keepsTicks_usage hu
    obtain ⟨hb', hstat, hcpu, hcores, hentry⟩ := hkeeps ⟨p, w.static⟩ hb
    simp only [World.step, hp, Query.call]
    refine ⟨⟨fun id' q hid' hq => ?_, fun k hk => h.cores k (hcores.symm.trans hk), ?_⟩, fun id' hdue => ?_⟩
    · exact (h.set fun _ => hb').named id' q hid' hq
    · have he := h.entry
      cases last with
      | none => exact absurd rfl hlast
      | some r =>
        obtain ⟨old, ho, htotal, hproc⟩ := he
        obtain ⟨old', ho', htotal', hproc'⟩ := hentry old ho
        exact ⟨old', ho', by rw [htotal', htotal], by rw [hproc', hproc]⟩
    · obtain ⟨q, hq, hd⟩ := hdue
      by_cases hsame : id' = id
      · subst hsame
        rw [hp] at hq
        cases hq
        exact ⟨_, World.objs_set_self .., hstat.trans hd.1, hcpu.trans hd.2⟩
      · exact ⟨q, (World.objs_set_of_ne w hsame _).trans hq, hd⟩

/-- `stat` gives the ticks of the process to an object for which it is due. -/
theorem stat_reads {r : CpuRefresh pid} (hs : r.Shows nb) {p : ProcessInfo} (hb : Belongs pid p)
    (hdue : p.mNeedUpdate .stat = true) :
    ∃ q, (refresh .stat (reader r.sys .stat)).run p = .ok () q ∧ Belongs pid q ∧ q.mNeedUpdate .stat = false ∧
      q.ticks.toNat = r.proc := by
  have hread : (refresh .stat (reader r.sys .stat)).run p = .ok () ((state ((readStat r.sys).run p)).updated .stat) := by
    simp only [refresh, EStateM.run_bind, EStateM.run_get, hdue, if_true]
    rfl
  have hpath : (state ((readStat r.sys).run p)).mProcPath = p.mProcPath := rfl
  obtain ⟨hpid, hproc⟩ := hs.stat p hb
  generalize state ((readStat r.sys).run p) = q at hread hpath hpid hproc
  refine ⟨_, hread, ⟨hpath.trans hb.path, hpid⟩, rfl, ?_⟩
  have hlt := hs.procLt
  have hsum : q.ticks.toNat = (UInt64.toNat (q.mStat .utime) + UInt64.toNat (q.mStat .stime)) % 2 ^ 64 :=
    UInt64.toNat_add _ _
  rw [ticks_updated]
  omega

theorem cpu_reads {r : CpuRefresh pid} (hs : r.Shows nb) : (cpuTotalTime r.sys).toNat = r.total := by
  obtain ⟨c, htext, hsum⟩ := hs.cpu
  have hlt := hs.totalLt
  rw [c.cpuTotalTime_eq htext, CpuLine.total, UInt64.toNat_add, UInt64.toNat_add, UInt64.toNat_add]
  omega

/-- **The share since the entry** is the usage since the last refresh, whose ticks the entry holds. -/
theorem toInt_shareSince (h : LastTicks pid nb last w) (hnb : nb ≤ 2 ^ 15) {r : CpuRefresh pid} (hs : r.Shows nb)
    (hlast : ∀ q ∈ last, q.Follows nb r) {ticks cpu : UInt64} (hticks : ticks.toNat = r.proc)
    (htotal : cpu.toNat = r.total) :
    (shareSince (Int32.ofNat nb) cpu ticks (w.static.mapPidOldstate pid)).toInt = r.usage nb last := by
  cases last with
  | none =>
    rw [h.entry]
    rfl
  | some l =>
    obtain ⟨old, ho, hototal, hoproc⟩ := h.entry
    have hf := hlast l rfl
    have hdp : (ticks - old.mLastProcessTotalTime).toNat = r.proc - l.proc := by
      have hlt := hs.procLt
      have hle := hf.proc
      rw [UInt64.toNat_sub, hticks, hoproc]
      omega
    have hdc : (cpu - old.mLastCpuTotalTime).toNat = r.total - l.total := by
      have hlt := hs.totalLt
      have hle := hf.total
      rw [UInt64.toNat_sub, htotal, hototal]
      omega
    rw [ho]
    have hshare : (cpuShare (Int32.ofNat nb) (ticks - old.mLastProcessTotalTime)
        (cpu - old.mLastCpuTotalTime)).toInt = _ :=
      toInt_cpuShare hnb (by rw [hdp]; exact hf.product) (by rw [hdp, hdc]; exact hf.quotient)
    rw [hdp, hdc] at hshare
    exact hshare

/-- **`cpuUsage()` on an object that is due** returns the share since the last refresh, and stores its own ticks. -/
theorem cpuUsage (h : LastTicks pid nb last w) (hnb : nb ≤ 2 ^ 15) {r : CpuRefresh pid} (hd : CpuDue w r.id)
    (hs : r.Shows nb) (hlast : ∀ q ∈ last, q.Follows nb r) :
    LastTicks pid nb (some r) (World.step (r.sys, .call r.id (.usage .cpuUsage)) w).1 ∧
      (∃ v : Int32, (World.step (r.sys, .call r.id (.usage .cpuUsage)) w).2 = some ⟨.usage .cpuUsage, .ok v⟩ ∧
        v.toInt = r.usage nb last) ∧
      ∃ p, (World.step (r.sys, .call r.id (.usage .cpuUsage)) w).1.objs r.id = some p ∧ p.ticks.toNat = r.proc := by
  obtain ⟨p, hp, hstat, hcpu⟩ := hd
  obtain ⟨q, hread, hq, hclear, hticks⟩ := stat_reads hs (h.named r.id p rfl hp) hstat
  have htotal := cpu_reads hs
  have hnbCore : w.static.nbCore.getD (Int32.ofNat nb) = Int32.ofNat nb := by
    cases hk : w.static.nbCore with
    | none => rfl
    | some k => exact h.cores k hk
  let t := This.cpuRecorded (Int32.ofNat nb) (cpuTotalTime r.sys) q (w.static.withCores (Int32.ofNat nb))
  have hrun : (ProcessInfo.cpuUsage r.sys).run ⟨p, w.static⟩ = .ok t.obj.mCpuUsage t := by
    have h := This.run_cpuUsage_of_due (s := ⟨p, w.static⟩) hcpu hread hclear hs.cores
    rwa [hnbCore] at h
  have hstep : World.step (r.sys, .call r.id (.usage .cpuUsage)) w =
      (w.leave r.id t, some ⟨.usage .cpuUsage, .ok t.obj.mCpuUsage⟩) := by
    simp only [World.step, hp, Query.call, Usage.call, hrun]
    rfl
  have htable : (w.static.withCores (Int32.ofNat nb)).mapPidOldstate q.mPid = w.static.mapPidOldstate pid := by
    rw [hq.pid]
    rfl
  have hobj : Belongs pid t.obj ∧ t.obj.ticks = q.ticks := by
    simp only [t, This.cpuRecorded]
    split <;> exact ⟨⟨hq.path, hq.pid⟩, rfl⟩
  rw [hstep]
  refine ⟨⟨(h.set fun _ => hobj.1).named, fun k hk => ?_, ?_⟩, ⟨_, rfl, ?_⟩, t.obj, World.objs_set_self .., by
    rw [hobj.2, hticks]⟩
  · rw [← hnbCore]
    exact (Option.some.inj hk).symm
  · refine ⟨((w.static.mapPidOldstate pid).getD q).withTicks (cpuTotalTime r.sys) q.ticks, ?_, htotal, hticks⟩
    have hstore : t.static.mapPidOldstate q.mPid = _ := Static.mapPidOldstate_store_self ..
    rwa [htable, hq.pid] at hstore
  · have husage : t.obj.mCpuUsage = shareSince (Int32.ofNat nb) (cpuTotalTime r.sys) q.ticks
        (w.static.mapPidOldstate pid) := by
      rw [← htable]
      rfl
    rw [husage]
    exact h.toInt_shareSince hnb hs hlast hticks htotal

/-- The world in which a refresh calls `cpuUsage()`. -/
theorem due (h : LastTicks pid nb last w) {r : CpuRefresh pid} (hs : r.Shows nb) (hlive : (r.found w).objs r.id ≠ none)
    (hfirst : last = none → (∀ x ∈ r.before, ¬ IsIo pid x.2) ∧ r.between = []) :
    LastTicks pid nb last (r.due w) ∧ CpuDue (r.due w) r.id := by
  have hfound : LastTicks pid nb last (r.found w) := by
    refine runOps_keeps (fun x => x ∈ r.before) _ (fun x w hx hw => ?_) r.before w (fun x hx => hx) h
    rcases hs.before x hx with hio | hnew
    · exact (hw.io (fun hl => (hfirst hl).1 x hx hio) hio).1
    · exact hw.new hnew
  obtain ⟨p, hp⟩ := Option.ne_none_iff_exists'.1 hlive
  have hmarked : World.step (r.sys, .needUpdate r.id) (r.found w) = ((r.found w).set r.id p.needUpdate, none) := by
    simp only [World.step, hp]
  rw [CpuRefresh.due, hmarked]
  refine runOps_keeps (fun x => x ∈ r.between) (fun w => LastTicks pid nb last w ∧ CpuDue w r.id)
    (fun x w hx hw => ?_) r.between _ (fun x hx => hx)
    ⟨hfound.set fun _ => (hfound.named r.id p rfl hp).needUpdate, _, World.objs_set_self .., rfl, rfl⟩
  have hlast : last ≠ none := fun hl => by rw [(hfirst hl).2] at hx; cases hx
  obtain ⟨hticks, hdue⟩ := hw.1.io hlast (hs.between x hx)
  exact ⟨hticks, hdue r.id hw.2⟩

/-- **One refresh.** -/
theorem refresh (h : LastTicks pid nb last w) (hnb : nb ≤ 2 ^ 15) {r : CpuRefresh pid} (hs : r.Shows nb)
    (hlive : (r.found w).objs r.id ≠ none)
    (hfirst : last = none → (∀ x ∈ r.before, ¬ IsIo pid x.2) ∧ r.between = [])
    (hlast : ∀ q ∈ last, q.Follows nb r) :
    LastTicks pid nb (some r) (r.after w) ∧
      (∃ v : Int32, r.answer w = some ⟨.usage .cpuUsage, .ok v⟩ ∧ v.toInt = r.usage nb last) ∧
      r.delta w = last.elim 0 fun q => r.proc - q.proc := by
  obtain ⟨hbefore, hdue⟩ := h.due hs hlive hfirst
  obtain ⟨hafter, hanswer, p, hp, hticks⟩ := hbefore.cpuUsage hnb hdue hs hlast
  refine ⟨hafter, hanswer, ?_⟩
  have hobj : (r.after w).objs r.id = some p := hp
  rw [CpuRefresh.delta, hobj]
  cases last with
  | none => rw [hbefore.entry]; rfl
  | some q =>
    obtain ⟨old, hold, -, hproc⟩ := hbefore.entry
    have hlt := hs.procLt
    have hle := (hlast q rfl).proc
    rw [hold]
    show (p.ticks - old.mLastProcessTotalTime).toNat = r.proc - q.proc
    rw [UInt64.toNat_sub, hticks, hproc]
    omega

end LastTicks

/-! ## Histories -/

section

variable {pid : Int32}

def afterRefreshes (w : World) (rs : List (CpuRefresh pid)) : World := rs.foldl CpuRefresh.after w

/-- The process ticks that a list of refreshes counts. -/
def countedTicks : World → List (CpuRefresh pid) → Nat
  | _, []      => 0
  | w, r :: rs => r.delta w + countedTicks (r.after w) rs

theorem countedTicks_append_singleton (r : CpuRefresh pid) : ∀ (rs : List (CpuRefresh pid)) (w : World),
    countedTicks w (rs ++ [r]) = countedTicks w rs + r.delta (afterRefreshes w rs)
  | [], w => by simp [countedTicks, afterRefreshes]
  | q :: rs, w => by
    rw [List.cons_append, countedTicks, countedTicks, countedTicks_append_singleton r rs, Nat.add_assoc]
    rfl

end

/-- Refreshes of a pid that has no entry, on any of its objects, on a machine whose number of cores stays the same. -/
structure CpuHistory where
  pid     : Int32
  world   : World
  nbCore  : Nat
  rounds  : List (CpuRefresh pid)
  noEntry : world.static.mapPidOldstate pid = none
  named   : ∀ id p, id.pid = pid → world.objs id = some p → Belongs pid p
  cores   : ∀ k, world.static.nbCore = some k → k = Int32.ofNat nbCore
  small   : nbCore ≤ 2 ^ 15
  shows   : ∀ r ∈ rounds, r.Shows nbCore
  live    : ∀ rs r rest, rounds = rs ++ r :: rest → (r.found (afterRefreshes world rs)).objs r.id ≠ none
  -- no I/O usage before the first refresh
  first   : ∀ r rest, rounds = r :: rest → (∀ x ∈ r.before, ¬ IsIo pid x.2) ∧ r.between = []
  follows : ∀ rs q r rest, rounds = rs ++ q :: r :: rest → q.Follows nbCore r

namespace CpuHistory

/-- **CPU usage equals its definition**: every refresh returns the share of the ticks since the refresh before it, and the
process ticks counted so far are those since the first refresh. -/
def Exact (h : CpuHistory) : Prop :=
  ∀ rs r rest, h.rounds = rs ++ r :: rest →
    (∃ v : Int32, r.answer (afterRefreshes h.world rs) = some ⟨.usage .cpuUsage, .ok v⟩ ∧
      v.toInt = r.usage h.nbCore rs.getLast?) ∧
    ∀ f ∈ (rs ++ [r]).head?, countedTicks h.world (rs ++ [r]) = r.proc - f.proc

variable (h : CpuHistory)

/-- The refresh behind a run of the first ones. -/
theorem refresh {rs : List (CpuRefresh h.pid)} {r : CpuRefresh h.pid} {rest : List (CpuRefresh h.pid)}
    (hsplit : h.rounds = rs ++ r :: rest) (hbefore : LastTicks h.pid h.nbCore rs.getLast? (afterRefreshes h.world rs)) :
    LastTicks h.pid h.nbCore (some r) (r.after (afterRefreshes h.world rs)) ∧
      (∃ v : Int32, r.answer (afterRefreshes h.world rs) = some ⟨.usage .cpuUsage, .ok v⟩ ∧
        v.toInt = r.usage h.nbCore rs.getLast?) ∧
      r.delta (afterRefreshes h.world rs) = rs.getLast?.elim 0 fun q => r.proc - q.proc := by
  refine hbefore.refresh h.small (h.shows r (by rw [hsplit]; simp)) (h.live rs r rest hsplit) (fun hnone => ?_) fun q hq => ?_
  · obtain rfl := List.getLast?_eq_none_iff.1 hnone
    exact h.first r rest hsplit
  · obtain ⟨qs, rfl⟩ := List.getLast?_eq_some_iff.1 hq
    exact h.follows qs q r rest (by rw [hsplit, List.append_assoc]; rfl)

/-- **Every run of the first refreshes**, by induction: the entry holds the ticks of the last one. -/
theorem lastTicks : ∀ {rs rest : List (CpuRefresh h.pid)}, h.rounds = rs ++ rest →
    LastTicks h.pid h.nbCore rs.getLast? (afterRefreshes h.world rs) := by
  intro rs
  induction rs using List.reverseRecOn with
  | nil => exact fun _ => ⟨h.named, h.cores, h.noEntry⟩
  | append_singleton rs r ih =>
    intro rest hsplit
    rw [List.append_assoc] at hsplit
    rw [List.getLast?_append, List.getLast?_singleton, Option.some_or, afterRefreshes, List.foldl_append]
    exact (h.refresh hsplit (ih hsplit)).1

/-- The ticks counted by the first refreshes. -/
theorem countedTicks_eq : ∀ {rs rest : List (CpuRefresh h.pid)} {f l : CpuRefresh h.pid}, h.rounds = rs ++ rest →
    rs.head? = some f → rs.getLast? = some l → f.proc ≤ l.proc ∧ countedTicks h.world rs = l.proc - f.proc := by
  intro rs
  induction rs using List.reverseRecOn with
  | nil => intro rest f l _ hf; cases hf
  | append_singleton rs r ih =>
    intro rest f l hsplit hf hl
    rw [List.append_assoc] at hsplit
    rw [List.getLast?_append, List.getLast?_singleton, Option.some_or, Option.some.injEq] at hl
    subst hl
    have hdelta := (h.refresh hsplit (h.lastTicks hsplit)).2.2
    rw [countedTicks_append_singleton, hdelta]
    cases hlast : rs.getLast? with
    | none =>
      obtain rfl := List.getLast?_eq_none_iff.1 hlast
      obtain rfl : r = f := by simpa using hf
      exact ⟨Nat.le_refl _, (Nat.sub_self _).symm⟩
    | some q =>
      obtain ⟨qs, rfl⟩ := List.getLast?_eq_some_iff.1 hlast
      have hhead : (qs ++ [q]).head? = some f := by
        rw [List.head?_append] at hf
        cases hq : (qs ++ [q]).head? with
        | none => simp at hq
        | some g => rw [hq] at hf; simpa using hf
      obtain ⟨hle, hcount⟩ := ih hsplit hhead hlast
      have hproc := (h.follows qs q r rest (by rw [hsplit, List.append_assoc]; rfl)).proc
      rw [hcount, Option.elim_some]
      exact ⟨Nat.le_trans hle hproc, by omega⟩

/-- **CPU usage is exact over every history**, whichever objects are refreshed and whatever I/O usages come between. -/
theorem cpuUsage_exact : h.Exact := by
  intro rs r rest hsplit
  refine ⟨(h.refresh hsplit (h.lastTicks hsplit)).2.1, fun f hf => ?_⟩
  have hsplit' : h.rounds = (rs ++ [r]) ++ rest := by rw [hsplit, List.append_assoc]; rfl
  exact (h.countedTicks_eq hsplit' hf (by simp)).2

end CpuHistory

/-! ## Two objects -/

theorem World.objs_step_ne_none (x : Sys × Op) {w : World} {id : ObjId} (h : w.objs id ≠ none) :
    (World.step x w).1.objs id ≠ none := by
  have hset : ∀ (id' : ObjId) (p : ProcessInfo), (w.set id' p).objs id ≠ none := fun id' p => by
    by_cases hid : id = id'
    · rw [hid, objs_set_self]
      exact Option.some_ne_none p
    · rwa [objs_set_of_ne w hid]
  obtain ⟨sys, op⟩ := x
  cases op with
  | construct id' junk => exact hset id' _
  | copy id' n | needUpdate id' | call id' q =>
    cases hp : w.objs id' with
    | none => simpa only [World.step, hp] using h
    | some p =>
      simp only [World.step, hp]
      exact hset _ _

/-- A refresh of an object of `init` that has used `utime` ticks, on a machine that counts `user`. -/
def initRefresh (before between : List (Sys × Op)) (n : Nat) (utime user : UInt64) : CpuRefresh 1 :=
  ⟨before, between, n, Sys.small (.init utime 0) (.bytes 0 0) user 0, utime.toNat, user.toNat⟩

theorem shows_initRefresh {before between : List (Sys × Op)} {n : Nat} {utime user : UInt64}
    (hbefore : ∀ x ∈ before, IsIo 1 x.2 ∨ IsNew 1 x.2) (hbetween : ∀ x ∈ between, IsIo 1 x.2)
    (hutime : utime.toNat < 2 ^ 63) (huser : user.toNat < 2 ^ 63) :
    (initRefresh before between n utime user).Shows 1 where
  before := hbefore
  between := hbetween
  cores := rfl
  cpu := ⟨.userOnly user, rfl, rfl⟩
  stat p hp := by
    have hname := StatLine.plain_init utime 0
    have hfile : (Sys.small (.init utime 0) (.bytes 0 0) user 0).file (p.mProcPath ++ "stat".toList) =
        some (StatLine.init utime 0).text := by rw [hp.path]; rfl
    rw [initRefresh, StatLine.run_readStat hfile]
    refine ⟨StatLine.mPid_parseStat_line _ p, ?_⟩
    rw [state_ok, StatLine.num_parseStat_line hname, StatLine.num_parseStat_line hname]
    rfl
  procLt := hutime
  totalLt := huser

def ioCall (n : Nat) (u : Usage) : Sys × Op := (Sys.small (.init 0 0) (.bytes 0 0) 0 0, .call ⟨1, n⟩ (.usage u))

/-- A second object is refreshed behind the first one, with I/O usages of both before and in the middle of it. -/
def twoObjects : CpuHistory where
  pid := 1
  world := ⟨fun _ => some (construct .zeroed 1), { Static.initial with nbCore := some 1 }⟩
  nbCore := 1
  rounds := [initRefresh [] [] 0 10 100, initRefresh [ioCall 0 .ioReadUsage] [ioCall 1 .ioWriteUsage] 1 60 200]
  noEntry := rfl
  named id p _ hp := by
    obtain rfl : construct .zeroed 1 = p := Option.some.inj hp
    exact Belongs.construct _ _
  cores k hk := by cases hk; rfl
  small := by decide
  shows r hr := by
    have hio : ∀ n u, u ≠ .cpuUsage → ∀ x ∈ [ioCall n u], IsIo 1 x.2 := fun n u hu x hx => by
      rw [List.mem_singleton.1 hx]
      exact ⟨_, u, rfl, rfl, hu⟩
    simp only [List.mem_cons, List.not_mem_nil, or_false] at hr
    rcases hr with rfl | rfl
    · exact shows_initRefresh (fun x hx => by cases hx) (fun x hx => by cases hx) (by decide) (by decide)
    · exact shows_initRefresh (fun x hx => .inl (hio 0 _ (by decide) x hx)) (hio 1 _ (by decide)) (by decide) (by decide)
  live rs r rest hrounds := by
    clear hrounds
    have hruns : ∀ (w : World) (ops : List (Sys × Op)), (∀ id, w.objs id ≠ none) → ∀ id, (World.run w ops).1.objs id ≠ none :=
      fun w ops hw => runOps_keeps (fun _ => True) (fun w => ∀ id, w.objs id ≠ none)
        (fun x w _ hw id => World.objs_step_ne_none x (hw id)) ops w (fun _ _ => trivial) hw
    refine hruns _ r.before ?_ r.id
    induction rs using List.reverseRecOn with
    | nil => exact fun _ => Option.some_ne_none _
    | append_singleton rs q ih =>
      rw [afterRefreshes, List.foldl_append]
      refine fun id => World.objs_step_ne_none _ ?_
      exact hruns _ q.between (fun id => World.objs_step_ne_none _ (hruns _ q.before ih id)) id
  first r rest hrounds := by
    obtain ⟨rfl, -⟩ := List.cons.inj hrounds
    exact ⟨fun x hx => (by cases hx), rfl⟩
  follows rs q r rest hrounds := by
    have hlen := congrArg List.length hrounds
    simp only [List.length_cons, List.length_nil, List.length_append] at hlen
    obtain rfl : rs = [] := List.length_eq_zero_iff.1 (by omega)
    simp only [List.nil_append, List.cons.injEq] at hrounds
    obtain ⟨rfl, rfl, -⟩ := hrounds
    exact ⟨by decide, by decide, by decide, by decide⟩

/-- The second refresh returns the 50 ticks of 100 since the first one. -/
theorem cpuUsage_exact_twoObjects :
    ∃ v : Int32, (initRefresh [ioCall 0 .ioReadUsage] [ioCall 1 .ioWriteUsage] 1 60 200).answer
      (afterRefreshes twoObjects.world [initRefresh [] [] 0 10 100]) = some ⟨.usage .cpuUsage, .ok v⟩ ∧ v.toInt = 50 :=
  (twoObjects.cpuUsage_exact [_] _ [] rfl).1

end SysInfo
