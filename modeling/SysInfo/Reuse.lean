import SysInfo.Unset
/-!
# Reuse — a pid that is given to another process

No code removes an entry of `map_pid_oldstate`.  When the kernel gives a pid to another process, the entry its
predecessor left is the baseline of the first refresh: a rate is taken between the counters of two processes, and where
the new ones are smaller the subtraction wraps.

`Reuse.afresh_iff`: the new process starts afresh exactly in the runs that never refresh a usage of it.
-/
namespace SysInfo

open Effects ProcessInfo

/-! ## Another entry -/

/-- The statics with another entry for a pid, or none. -/
def Static.put (pid : Int32) (old : Option ProcessInfo) (st : Static) : Static :=
  { st with mapPidOldstate := Function.update st.mapPidOldstate pid old }

@[simp] theorem Static.mapPidOldstate_put_self (pid : Int32) (old : Option ProcessInfo) (st : Static) :
    (st.put pid old).mapPidOldstate pid = old := Function.update_self ..

theorem Static.mapPidOldstate_put_of_ne {pid pid' : Int32} (h : pid' ≠ pid) (old : Option ProcessInfo) (st : Static) :
    (st.put pid old).mapPidOldstate pid' = st.mapPidOldstate pid' := Function.update_of_ne h ..

theorem Static.store_put {pid pid' : Int32} (h : pid' ≠ pid) (old : Option ProcessInfo) (st : Static) (p : ProcessInfo) :
    (st.put pid old).store pid' p = (st.store pid' p).put pid old := by
  simp only [Static.put, Static.store]
  rw [Function.update_comm h]

def This.put (pid : Int32) (old : Option ProcessInfo) (s : This) : This := ⟨s.obj, s.static.put pid old⟩

def World.put (pid : Int32) (old : Option ProcessInfo) (w : World) : World := ⟨w.objs, w.static.put pid old⟩

namespace This

variable {pid : Int32} (old : Option ProcessInfo) {s : This}

/-- **A usage call does not touch the entries of other pids.** -/
theorem ioUsed_put (h : s.obj.mPid ≠ pid) (m : IoMetric) (io : IoStat) :
    (s.put pid old).ioUsed m io = (s.ioUsed m io).put pid old := by
  simp only [ioUsed, put, mPid_sampleIo, Static.mapPidOldstate_put_of_ne h]
  split
  · rw [Static.store_put h]
  · rfl

theorem ioAll_put (io : IoStat) : ∀ (ms : List IoMetric) {s : This}, s.obj.mPid ≠ pid →
    (s.put pid old).ioAll ms io = (s.ioAll ms io).put pid old
  | [], _, _ => rfl
  | m :: ms, s, h => by rw [ioAll_cons, ioAll_cons, ioUsed_put old h, ioAll_put io ms (by rwa [mPid_ioUsed])]

theorem cpuUsed_put (h : s.obj.mPid ≠ pid) {l : StatLine} (hl : l.pid = s.obj.mPid) (nb : Int32) (total : UInt64) :
    (s.put pid old).cpuUsed nb total l = (s.cpuUsed nb total l).put pid old := by
  simp only [cpuUsed, put, mPid_sampleStat hl, Static.mapPidOldstate_put_of_ne h]
  split
  · rw [← Static.store_put h]
    rfl
  · rfl

theorem after_put {u : Usage} {sys : Sys} {own : Int32} (S : Shown u sys own) (hb : Belongs own s.obj) (h : own ≠ pid) :
    u.after S (s.put pid old) = (u.after S s).put pid old := by
  rw [← hb.pid] at h
  cases u with
  | cpuUsage => exact cpuUsed_put old h (S.line_pid.trans hb.pid.symm) _ _
  | ioReadUsage | ioWriteUsage | ioTotalUsage _ => exact ioAll_put old _ _ h

end This

/-! ## Refreshes -/

def Usage.Due (u : Usage) (p : ProcessInfo) : Prop :=
  match u with
  | .cpuUsage => p.mNeedUpdate .cpuUsage = true
  | _ => ∃ m ∈ u.metrics, p.mNeedUpdate m.source = true

theorem This.ioAll_of_not_due (io : IoStat) : ∀ (ms : List IoMetric) (s : This),
    (∀ m ∈ ms, ¬ s.obj.mNeedUpdate m.source = true) → s.ioAll ms io = s
  | [], _, _ => rfl
  | m :: ms, s, h => by
    rw [ioAll_cons, ioUsed, if_neg (h m (by simp))]
    exact ioAll_of_not_due io ms s fun m' hm' => h m' (by simp [hm'])

theorem after_of_not_due {u : Usage} {sys : Sys} {pid : Int32} (S : Shown u sys pid) {s : This} (h : ¬ u.Due s.obj) :
    u.after S s = s := by
  have hio : (¬ ∃ m ∈ u.metrics, s.obj.mNeedUpdate m.source = true) → s.ioAll u.metrics (S.io.stat sys.now) = s := fun h =>
    This.ioAll_of_not_due _ _ s fun m hm hd => h ⟨m, hm, hd⟩
  cases u with
  | cpuUsage => exact if_neg h
  | ioReadUsage | ioWriteUsage | ioTotalUsage _ => exact hio h

/-- In this world, the operation refreshes a usage of an object of the pid. -/
def Refreshes (pid : Int32) (u : Usage) (x : Sys × Op) (w : World) : Prop :=
  ∃ id p, x.2 = .call id (.usage u) ∧ id.pid = pid ∧ w.objs id = some p ∧ u.Due p

/-- No operation of a run refreshes a usage of the pid. -/
def NoRefresh (pid : Int32) (w : World) (ops : List (Sys × Op)) : Prop :=
  ∀ xs x ys, ops = xs ++ x :: ys → ∀ u, ¬ Refreshes pid u x (World.run w xs).1

namespace World

variable {pid : Int32} {w : World}

/-- **Without a refresh the entry of the pid is not looked at.** -/
theorem step_put (old : Option ProcessInfo) (hw : w.Named) {x : Sys × Op} (hx : Reads x)
    (h : ∀ u, ¬ Refreshes pid u x w) : step x (w.put pid old) = ((step x w).1.put pid old, (step x w).2) := by
  have hobjs : (w.put pid old).objs = w.objs := rfl
  have hnamed : (w.put pid old).Named := hw
  obtain ⟨sys, op⟩ := x
  cases op with
  | construct id junk => rfl
  | copy id n => simp only [step, hobjs]; split <;> rfl
  | needUpdate id => simp only [step, hobjs]; split <;> rfl
  | call id q =>
    cases hp : w.objs id with
    | none => simp only [step, hobjs, hp]
    | some p =>
      cases q with
      | get g =>
        rw [step_get hp, step_get (w := w.put pid old) hp]
        rfl
      | usage u =>
        obtain ⟨S⟩ : Nonempty (Shown u sys id.pid) := hx
        have hstep := step_usage hp hw S
        have hstep' := step_usage (w := w.put pid old) hp hnamed S
        have hb := hw id p hp
        have hafter : u.after S ⟨p, (w.put pid old).static⟩ = (u.after S ⟨p, w.static⟩).put pid old := by
          by_cases hid : id.pid = pid
          · have hd : ¬ u.Due p := fun hd => h u ⟨id, p, rfl, hid, hp, hd⟩
            rw [after_of_not_due S hd, after_of_not_due S hd]
            rfl
          · exact This.after_put (s := ⟨p, w.static⟩) old S hb hid
        rw [hafter] at hstep'
        rw [hstep, hstep']
        rfl

theorem run_put (old : Option ProcessInfo) : ∀ (ops : List (Sys × Op)) {w : World}, w.Named → (∀ x ∈ ops, Reads x) →
    NoRefresh pid w ops → run (w.put pid old) ops = ((run w ops).1.put pid old, (run w ops).2)
  | [], _, _, _, _ => rfl
  | x :: xs, w, hw, hx, h => by
    have hfirst := step_put old hw (hx x (by simp)) (h [] x xs rfl)
    have hrest := run_put old xs (hw.step (hx x (by simp))) (fun y hy => hx y (by simp [hy]))
      (fun ys y zs hs => h (x :: ys) y zs (by rw [hs]; rfl))
    rw [run] at hrest
    rw [run, runOps, hfirst, hrest]
    rfl

end World

/-! ## A refresh uses the entry -/

theorem rates_differ (io : IoStat) : ∃ old old' : ProcessInfo, ∀ m,
    rateSince m io (some old.mIo) ≠ rateSince m io (some old'.mIo) := by
  refine ⟨ProcessInfo.zeroed.withIo io, ProcessInfo.zeroed.withIo ⟨fun f => io.counter f - 1, io.lastRead - 1⟩, fun m => ?_⟩
  have hsub : io.counter m.field - (io.counter m.field - 1) = 1 := by grind
  have htime : io.lastRead - (io.lastRead - 1) = 1 := by omega
  rw [mIo_withIo, mIo_withIo, rateSince_self, rateSince, ioRate, hsub, htime]
  decide +kernel

/-- A number of cores for which a share does not overflow. -/
def CoreCount (n : Int32) : Prop := 1 ≤ n.toInt ∧ n.toInt ≤ 2 ^ 15

theorem CoreCount.getD {n : Int32} (hn : CoreCount n) : ∀ {c : Option Int32}, (∀ m, c = some m → CoreCount m) →
    CoreCount (c.getD n)
  | none, _   => hn
  | some m, h => h m rfl

theorem cpuShare_one_ne_zero {nb : Int32} (hnb : CoreCount nb) : cpuShare nb 1 1 ≠ 0 := by
  obtain ⟨hpos, hle⟩ := hnb
  obtain ⟨k, hk⟩ : ∃ k : Nat, nb.toInt = k := ⟨nb.toInt.toNat, by omega⟩
  have hone : UInt64.ofInt (100 * nb.toInt) * 1 / 1 = UInt64.ofNat (100 * k) := by
    rw [hk, show (100 * (k : Int)) = ((100 * k : Nat) : Int) by omega, IoFile.ofInt_natCast (by omega)]
    simp
  intro h
  have hval : (cpuShare nb 1 1).toInt = 100 * k := by
    rw [cpuShare, if_neg (by decide), hone, UInt64.toNat_ofNat', Nat.mod_eq_of_lt (by omega),
      Int32.toInt_ofInt_of_le (by omega) (by omega)]
    omega
  rw [h] at hval
  have h0 : (0 : Int32).toInt = 0 := rfl
  omega

theorem shares_differ {nb : Int32} (hnb : CoreCount nb) (total process : UInt64) :
    ∃ old old' : ProcessInfo, shareSince nb total process (some old) ≠ shareSince nb total process (some old') := by
  refine ⟨ProcessInfo.zeroed.withTicks total process, ProcessInfo.zeroed.withTicks (total - 1) (process - 1), fun h => ?_⟩
  have h₁ : process - (process - 1) = 1 := by grind
  have h₂ : total - (total - 1) = 1 := by grind
  have h₃ : total - total = 0 := by grind
  simp only [shareSince, withTicks, h₁, h₂, h₃] at h
  exact cpuShare_one_ne_zero hnb (h.symm.trans (by rw [cpuShare, if_pos rfl]))

section Differ

variable {pid : Int32} {p : ProcessInfo} (hp : p.mPid = pid) (st : Static) (io : IoStat)

include hp

theorem ioBase_put (old : ProcessInfo) : This.ioBase ⟨p, st.put pid (some old)⟩ = some old.mIo := by
  simp only [This.ioBase, hp, Static.mapPidOldstate_put_self, Option.map_some]

theorem sum_ioAll {m : IoMetric} (hd : p.mNeedUpdate m.source = true ∨ p.mNeedUpdate m.other.source = true) :
    ∃ (k : IoMetric) (rest : Rat), ∀ old : ProcessInfo,
      m.usage (This.ioAll [m, m.other] io ⟨p, st.put pid (some old)⟩).obj +
        m.other.usage (This.ioAll [m, m.other] io ⟨p, st.put pid (some old)⟩).obj =
      rest + rateSince k (p.sampleIo io).mIo (some old.mIo) := by
  have hother : m.other.other = m := by cases m <;> rfl
  have hkept : ∀ s : This, m.usage (s.ioUsed m.other io).obj = m.usage s.obj := fun s => by
    have h := This.usage_ioUsed_other m.other io s
    rwa [hother] at h
  by_cases hm : p.mNeedUpdate m.source = true
  · have hfirst : ∀ old, m.usage (This.ioUsed m io ⟨p, st.put pid (some old)⟩).obj =
        rateSince m (p.sampleIo io).mIo (some old.mIo) := fun old => by
      rw [This.usage_ioUsed (s := ⟨p, st.put pid (some old)⟩) hm, ioBase_put hp]
    by_cases hm' : p.mNeedUpdate m.other.source = true
    · refine ⟨m, 0, fun old => ?_⟩
      have hboth : This.IoDue ⟨p, st.put pid (some old)⟩ := fun m' => by
        cases m <;> cases m' <;> first | exact hm | exact hm'
      obtain ⟨h₁, h₂, -⟩ := This.ioUsed_both hboth m io
      rw [This.ioAll_cons, This.ioAll_cons, This.ioAll_nil, h₁, h₂, ioBase_put hp, add_comm]
    · refine ⟨m, m.other.usage p, fun old => ?_⟩
      have hstay : (This.ioUsed m io ⟨p, st.put pid (some old)⟩).ioUsed m.other io =
          This.ioUsed m io ⟨p, st.put pid (some old)⟩ := by
        refine if_neg ?_
        rw [This.mNeedUpdate_ioUsed (s := ⟨p, st.put pid (some old)⟩) hm _ _ (by cases m <;> decide),
          if_neg (by cases m <;> decide)]
        exact hm'
      rw [This.ioAll_cons, This.ioAll_cons, This.ioAll_nil, hstay, hfirst, This.usage_ioUsed_other, add_comm]
  · refine ⟨m.other, m.usage p, fun old => ?_⟩
    have hstay : This.ioUsed m io ⟨p, st.put pid (some old)⟩ = ⟨p, st.put pid (some old)⟩ := if_neg hm
    rw [This.ioAll_cons, This.ioAll_cons, This.ioAll_nil, hstay, hkept,
      This.usage_ioUsed (s := ⟨p, st.put pid (some old)⟩) (hd.resolve_left hm), ioBase_put hp]

end Differ

/-- **A call that refreshes returns different values for some two entries.** -/
theorem results_differ {u : Usage} {sys : Sys} {pid : Int32} (S : Shown u sys pid) {p : ProcessInfo} (hb : Belongs pid p)
    (hd : u.Due p) (st : Static) (hnb : CoreCount (st.nbCore.getD S.nbCore)) :
    ∃ old old' : ProcessInfo, u.result (u.after S ⟨p, st.put pid (some old)⟩).obj ≠
      u.result (u.after S ⟨p, st.put pid (some old')⟩).obj := by
  obtain ⟨old, old', hrates⟩ := rates_differ (p.sampleIo (S.io.stat sys.now)).mIo
  have hone : ∀ m : IoMetric, p.mNeedUpdate m.source = true →
      m.usage (This.ioUsed m (S.io.stat sys.now) ⟨p, st.put pid (some old)⟩).obj ≠
        m.usage (This.ioUsed m (S.io.stat sys.now) ⟨p, st.put pid (some old')⟩).obj := fun m hm => by
    rw [This.usage_ioUsed (s := ⟨p, st.put pid (some old)⟩) hm, This.usage_ioUsed (s := ⟨p, st.put pid (some old')⟩) hm,
      ioBase_put hb.pid, ioBase_put hb.pid]
    exact hrates m
  have hsum : ∀ m : IoMetric, (p.mNeedUpdate m.source = true ∨ p.mNeedUpdate m.other.source = true) →
      ∀ v : ProcessInfo → Rat, (∀ q, v q = m.usage q + m.other.usage q) →
        v (This.ioAll [m, m.other] (S.io.stat sys.now) ⟨p, st.put pid (some old)⟩).obj ≠
          v (This.ioAll [m, m.other] (S.io.stat sys.now) ⟨p, st.put pid (some old')⟩).obj := fun m hm v hv => by
    obtain ⟨k, rest, hk⟩ := sum_ioAll hb.pid st (S.io.stat sys.now) hm
    rw [hv, hv, hk, hk]
    exact fun h => hrates k (add_left_cancel h)
  cases u with
  | cpuUsage =>
    obtain ⟨old, old', hshares⟩ := shares_differ hnb (cpuTotalTime sys) (p.sampleStat S.line).ticks
    refine ⟨old, old', ?_⟩
    have hval : ∀ old, (Usage.cpuUsage.after S ⟨p, st.put pid (some old)⟩).obj.mCpuUsage =
        shareSince (st.nbCore.getD S.nbCore) (cpuTotalTime sys) (p.sampleStat S.line).ticks (some old) := fun old => by
      have hpid : (p.sampleStat S.line).mPid = pid := (mPid_sampleStat (S.line_pid.trans hb.pid.symm)).trans hb.pid
      have hdue : p.mNeedUpdate .cpuUsage = true := hd
      simp only [Usage.after, This.cpuUsed, if_pos hdue, hpid, Static.mapPidOldstate_put_self]
      rfl
    rw [Usage.result, Usage.result, hval, hval]
    exact hshares
  | ioReadUsage => exact ⟨old, old', hone .read (by simpa [Usage.Due, Usage.metrics] using hd)⟩
  | ioWriteUsage => exact ⟨old, old', hone .write (by simpa [Usage.Due, Usage.metrics] using hd)⟩
  | ioTotalUsage readFirst =>
    cases readFirst with
    | true =>
      exact ⟨old, old', hsum .read (by simpa [Usage.Due, Usage.metrics, IoMetric.other] using hd) (fun q => q.mIoReadUsage + q.mIoWriteUsage)
        fun q => rfl⟩
    | false =>
      exact ⟨old, old', hsum .write (by simpa [Usage.Due, Usage.metrics, IoMetric.other] using hd) (fun q => q.mIoReadUsage + q.mIoWriteUsage)
        fun q => add_comm _ _⟩

/-! ## Histories of a pid -/

/-- No subtraction of these refreshes takes a counter below its baseline. -/
def IoNoWrap (io : IoStat) : List IoMetric → This → Prop
  | [], _ => True
  | m :: ms, s =>
    (s.obj.mNeedUpdate m.source = true → ∀ base, s.ioBase = some base →
      base.counter m.field ≤ (s.obj.sampleIo io).mIo.counter m.field) ∧ IoNoWrap io ms (s.ioUsed m io)

/-- No subtraction of a call takes a counter below its baseline. -/
def Usage.NoWrap (u : Usage) {sys : Sys} {pid : Int32} (S : Shown u sys pid) (s : This) : Prop :=
  match u with
  | .cpuUsage => s.obj.mNeedUpdate .cpuUsage = true → ∀ old, s.static.mapPidOldstate s.obj.mPid = some old →
      old.mLastCpuTotalTime ≤ cpuTotalTime sys ∧ old.mLastProcessTotalTime ≤ (s.obj.sampleStat S.line).ticks
  | _ => IoNoWrap (S.io.stat sys.now) u.metrics s

/-- A run in which a pid was sampled before the kernel gave it to another process, and what is done after that. -/
structure Reuse where
  pid     : Int32
  before  : List (Sys × Op)
  after   : List (Sys × Op)
  reads   : ∀ x ∈ before ++ after, World.Reads x
  cores   : ∀ x ∈ before ++ after, ∀ n, getNbCores x.1 = .ok n → CoreCount n
  sampled : ∃ xs sys id u ys, before = xs ++ (sys, .call id (.usage u)) :: ys ∧ id.pid = pid ∧
    ∃ p, (World.run .initial xs).1.objs id = some p

namespace Reuse

def world (r : Reuse) : World := (World.run .initial r.before).1

/-- The new process starts afresh. -/
structure Afresh (r : Reuse) : Prop where
  -- the first refresh of a kind returns 0
  first  : ∀ xs x ys u, r.after = xs ++ x :: ys → Refreshes r.pid u x (World.run r.world xs).1 →
    (∀ xs' x' ys' u', xs = xs' ++ x' :: ys' → Refreshes r.pid u' x' (World.run r.world xs').1 →
      ¬ (u = .cpuUsage ↔ u' = .cpuUsage)) →
        (World.step x (World.run r.world xs).1).2 = some ⟨.usage u, .ok u.zero⟩
  -- no counter is below its baseline
  noWrap : ∀ xs sys id u ys p, r.after = xs ++ (sys, .call id (.usage u)) :: ys → id.pid = r.pid →
    (World.run r.world xs).1.objs id = some p → ∀ S : Shown u sys id.pid, u.NoWrap S ⟨p, (World.run r.world xs).1.static⟩
  -- the values are the same whatever the entry holds that the old process left
  own    : ∀ old, (World.run (r.world.put r.pid (some old)) r.after).2 = (World.run r.world r.after).2

end Reuse

/-! ## The number of cores -/

theorem nbCore_after {u : Usage} {sys : Sys} {pid : Int32} (S : Shown u sys pid) (s : This) :
    (u.after S s).static.nbCore = s.static.nbCore ∨
      (u.after S s).static.nbCore = some (s.static.nbCore.getD S.nbCore) := by
  have hio : ∀ (ms : List IoMetric) (io : IoStat) (s : This), (s.ioAll ms io).static.nbCore = s.static.nbCore := by
    intro ms io
    induction ms with
    | nil => exact fun s => rfl
    | cons m ms ih =>
      intro s
      rw [This.ioAll_cons, ih, This.ioUsed]
      split <;> rfl
  cases u with
  | cpuUsage =>
    simp only [Usage.after, This.cpuUsed]
    split
    · exact .inr rfl
    · exact .inl rfl
  | ioReadUsage | ioWriteUsage | ioTotalUsage _ => exact .inl (hio _ _ s)

/-- What holds in every world of a run on machines that count their cores. -/
structure Counted (w : World) : Prop where
  named : w.Named
  cores : ∀ n, w.static.nbCore = some n → CoreCount n

theorem Counted.step {w : World} (h : Counted w) {x : Sys × Op} (hx : World.Reads x)
    (hcores : ∀ n, getNbCores x.1 = .ok n → CoreCount n) : Counted (World.step x w).1 := by
  refine ⟨h.named.step hx, ?_⟩
  have hlead : World.Leads (fun _ _ => True) (fun _ _ => True) (fun st => ∀ n, st.nbCore = some n → CoreCount n)
      (fun st => ∀ n, st.nbCore = some n → CoreCount n) x := by
    refine ⟨fun _ _ h => h, fun _ h => h, ?_⟩
    obtain ⟨sys, op⟩ := x
    cases op with
    | call id q =>
      cases q with
      | get g => exact fun _ _ _ => trivial
      | usage u =>
        intro S s _ _ hst
        refine ⟨trivial, fun n hn => ?_⟩
        rcases nbCore_after S s with hsame | hinit
        · exact hst n (by rwa [hsame] at hn)
        · rw [hinit, Option.some.injEq] at hn
          rw [← hn]
          exact (hcores _ S.cores).getD hst
    | construct id junk => exact trivial
    | copy id n => exact fun _ _ => trivial
    | needUpdate id => exact fun _ _ => trivial
  exact (hlead.step hx h.named (fun _ _ _ => trivial) h.cores).2

theorem Counted.run {w : World} (h : Counted w) {ops : List (Sys × Op)}
    (hx : ∀ x ∈ ops, World.Reads x ∧ ∀ n, getNbCores x.1 = .ok n → CoreCount n) : Counted (World.run w ops).1 :=
  runOps_keeps (fun x => World.Reads x ∧ ∀ n, getNbCores x.1 = .ok n → CoreCount n) Counted
    (fun _ _ hx h => h.step hx.1 hx.2) ops w hx h

/-! ## The result -/

theorem noWrap_of_not_due {u : Usage} {sys : Sys} {pid : Int32} (S : Shown u sys pid) {s : This} (h : ¬ u.Due s.obj) :
    u.NoWrap S s := by
  have hio : ∀ (ms : List IoMetric) {s : This}, (∀ m ∈ ms, ¬ s.obj.mNeedUpdate m.source = true) →
      IoNoWrap (S.io.stat sys.now) ms s := by
    intro ms
    induction ms with
    | nil => exact fun _ => trivial
    | cons m ms ih =>
      intro s hs
      refine ⟨fun hd => absurd hd (hs m (by simp)), ?_⟩
      rw [This.ioUsed, if_neg (hs m (by simp))]
      exact ih fun m' hm' => hs m' (by simp [hm'])
  cases u with
  | cpuUsage => exact fun hd => absurd hd h
  | ioReadUsage | ioWriteUsage | ioTotalUsage _ => exact hio _ fun m hm hd => h ⟨m, hm, hd⟩

namespace Reuse

variable (r : Reuse)

theorem counted {xs ys : List (Sys × Op)} (h : r.after = xs ++ ys) : Counted (World.run r.world xs).1 := by
  have hops : ∀ x ∈ r.before ++ r.after, World.Reads x ∧ ∀ n, getNbCores x.1 = .ok n → CoreCount n := fun x hx =>
    ⟨r.reads x hx, r.cores x hx⟩
  have hinitial : Counted .initial := ⟨World.named_initial, fun _ h => by cases h⟩
  refine (hinitial.run fun x hx => ?_).run fun x hx => ?_
  · exact hops x (List.mem_append_left _ hx)
  · exact hops x (List.mem_append_right _ (by rw [h]; exact List.mem_append_left _ hx))

theorem named : r.world.Named := (r.counted (List.nil_append r.after).symm).named

theorem noRefresh_of_own (h : ∀ old, (World.run (r.world.put r.pid (some old)) r.after).2 = (World.run r.world r.after).2) :
    NoRefresh r.pid r.world r.after := by
  rcases none_or_first World.step (fun x w => ∃ u, Refreshes r.pid u x w) r.after r.world with hnone | hfirst
  · exact fun xs x ys hsplit u hu => hnone xs x ys hsplit ⟨u, hu⟩
  · obtain ⟨xs, ⟨sys, op⟩, ys, hsplit, ⟨u, id, p, hop, hid, hp, hd⟩, hbefore⟩ := hfirst
    obtain rfl : op = .call id (.usage u) := hop
    have hreads : ∀ x ∈ xs ++ (sys, .call id (.usage u)) :: ys, World.Reads x := fun x hx =>
      r.reads x (List.mem_append_right _ (by rw [hsplit]; exact hx))
    obtain ⟨S⟩ : Nonempty (Shown u sys id.pid) := hreads (sys, .call id (.usage u)) (by simp)
    have hcounted := r.counted hsplit
    have hcores := r.cores (sys, .call id (.usage u)) (List.mem_append_right _ (by rw [hsplit]; simp)) _ S.cores
    -- nothing before the refresh looks at the entry, so the two runs meet it with entries of our choice
    have hput : ∀ old, (World.run (r.world.put r.pid (some old)) xs).1 =
        (World.run r.world xs).1.put r.pid (some old) := fun old => by
      rw [World.run_put (some old) xs r.named (fun x hx => hreads x (by simp [hx]))
        fun xs' x' ys' hs u' hu' => hbefore xs' x' ys' hs ⟨u', hu'⟩]
    have hanswer : ∀ old, (World.step (sys, .call id (.usage u)) ((World.run r.world xs).1.put r.pid (some old))).2 =
        (World.step (sys, .call id (.usage u)) (World.run r.world xs).1).2 := fun old => by
      have hrun := h old
      rw [hsplit] at hrun
      rw [← hput]
      exact answer_eq_of_runOps hrun
    obtain ⟨old, old', hdiffer⟩ := results_differ S (hcounted.named id p hp) hd (World.run r.world xs).1.static
      (CoreCount.getD hcores hcounted.cores)
    have hvalue : ∀ old, (World.step (sys, .call id (.usage u)) ((World.run r.world xs).1.put r.pid (some old))).2 =
        some ⟨.usage u, .ok (u.result (u.after S ⟨p, (World.run r.world xs).1.static.put id.pid (some old)⟩).obj)⟩ := fun old => by
      rw [World.step_usage (w := (World.run r.world xs).1.put r.pid (some old)) hp hcounted.named S, ← hid]
      rfl
    have heq := (hanswer old).trans (hanswer old').symm
    rw [hvalue, hvalue] at heq
    simp only [Option.some.injEq, Sigma.mk.injEq, heq_eq_eq, true_and, Except.ok.injEq] at heq
    exact absurd heq hdiffer

/-- **A recycled pid starts afresh** exactly when no usage of it is refreshed any more. -/
theorem afresh_iff : r.Afresh ↔ NoRefresh r.pid r.world r.after := by
  constructor
  · exact fun h => r.noRefresh_of_own h.own
  · intro h
    have hreads : ∀ x ∈ r.after, World.Reads x := fun x hx => r.reads x (List.mem_append_right _ hx)
    refine ⟨fun xs x ys u hsplit hu _ => absurd hu (h xs x ys hsplit u), ?_, fun old => ?_⟩
    · intro xs sys id u ys p hsplit hid hp S
      exact noWrap_of_not_due S fun hd => h xs _ ys hsplit u ⟨id, p, rfl, hid, hp, hd⟩
    · rw [World.run_put (some old) r.after r.named hreads h]

end Reuse

/-! ## A pid that is recycled -/

/-- The files of the process that owns a pid. -/
structure Owner (pid : Int32) (sys : Sys) where
  line   : StatLine
  stat   : sys.file (procPath pid ++ "stat".toList) = some line.text
  io     : IoFile
  ioText : sys.file (procPath pid ++ "io".toList) = some io.text

namespace Owner

variable {pid : Int32} {sys : Sys}

def starttime (o : Owner pid sys) : Nat := UInt64.toNat (o.line.num .starttime)

def counters (o : Owner pid sys) : List Nat :=
  [UInt64.toNat (o.line.num .utime), UInt64.toNat (o.line.num .stime), o.io.counter .readBytes, o.io.counter .writeBytes]

end Owner

/-- The pid went from one process to another: their start times differ, and the counters of the new one begin below the
last ones of the old one. -/
structure Reuse.Recycled (r : Reuse) : Prop where
  started : ∃ a b, a ≠ b ∧ (∀ x ∈ r.before, ∃ o : Owner r.pid x.1, o.starttime = a) ∧
    ∀ x ∈ r.after, ∃ o : Owner r.pid x.1, o.starttime = b
  below   : ∀ x ∈ r.before.getLast?, ∀ y ∈ r.after.head?, ∃ (o : Owner r.pid x.1) (o' : Owner r.pid y.1),
    List.Forall₂ (· < ·) o'.counters o.counters

def StatLine.started (starttime utime stime : UInt64) : StatLine :=
  { StatLine.init utime stime with num := Function.update (StatLine.init utime stime).num .starttime starttime }

def Owner.small (line : StatLine) (io : IoFile) (user : UInt64) (now : Int) : Owner 1 (Sys.small line io user now) :=
  ⟨line, Sys.stat_small line io user now, io, Sys.io_small line io user now⟩

/-- The machine while the first process, or the second, has the pid. -/
def firstOwner : Sys := Sys.small (.started 5 100 100) (.bytes 1000 1000) 200 (10 ^ 9)
def secondOwner : Sys := Sys.small (.started 7 1 1) (.bytes 10 10) 300 (2 * 10 ^ 9)

/-- `ioReadUsage()` of an object of each of the two processes. -/
def readTwice : Reuse where
  pid := 1
  before := [(firstOwner, .construct ⟨1, 0⟩ .zeroed), (firstOwner, .call ⟨1, 0⟩ (.usage .ioReadUsage))]
  after := [(secondOwner, .construct ⟨1, 1⟩ .zeroed), (secondOwner, .call ⟨1, 1⟩ (.usage .ioReadUsage))]
  reads x hx := by
    simp only [List.mem_append, List.mem_cons, List.not_mem_nil, or_false] at hx
    rcases hx with (rfl | rfl) | rfl | rfl
    · exact ⟨Shown.small _ _ rfl _ _ _⟩
    · exact ⟨Shown.small _ _ rfl _ _ _⟩
    · exact ⟨Shown.small _ _ rfl _ _ _⟩
    · exact ⟨Shown.small _ _ rfl _ _ _⟩
  cores x hx n hn := by
    have hone : getNbCores x.1 = .ok 1 := by
      simp only [List.mem_append, List.mem_cons, List.not_mem_nil, or_false] at hx
      rcases hx with (rfl | rfl) | rfl | rfl <;> rfl
    rw [hone] at hn
    rw [← Except.ok.inj hn]
    exact ⟨by decide, by decide⟩
  sampled := ⟨[(firstOwner, .construct ⟨1, 0⟩ .zeroed)], firstOwner, ⟨1, 0⟩, .ioReadUsage, [], rfl, rfl, _,
    World.objs_set_self ..⟩

theorem recycled_readTwice : readTwice.Recycled := by
  constructor
  · refine ⟨5, 7, by decide, fun x hx => ?_, fun x hx => ?_⟩
    · simp only [readTwice, List.mem_cons, List.not_mem_nil, or_false] at hx
      rcases hx with rfl | rfl <;> exact ⟨Owner.small _ _ _ _, rfl⟩
    · simp only [readTwice, List.mem_cons, List.not_mem_nil, or_false] at hx
      rcases hx with rfl | rfl <;> exact ⟨Owner.small _ _ _ _, rfl⟩
  · intro x hx y hy
    obtain rfl := Option.some.inj hx
    obtain rfl := Option.some.inj hy
    exact ⟨Owner.small _ _ _ _, Owner.small _ _ _ _, by decide⟩

/-- The counter of the second process is 990 below the baseline that the first one left. -/
theorem rate_readTwice : ((World.step (secondOwner, .call ⟨1, 1⟩ (.usage .ioReadUsage))
    (World.run readTwice.world (readTwice.after.take 1)).1).2.bind rateOf) = some (2 ^ 64 - 990) := by decide +kernel

/-- The first refresh for the new process does not return 0. -/
theorem not_afresh_readTwice : readTwice.Recycled ∧ ¬ readTwice.Afresh := by
  refine ⟨recycled_readTwice, fun h => ?_⟩
  have hfirst := h.first (readTwice.after.take 1)
    (secondOwner, .call ⟨1, 1⟩ (.usage .ioReadUsage)) [] .ioReadUsage rfl
    ⟨⟨1, 1⟩, construct .zeroed 1, rfl, rfl, World.objs_set_self .., .read, by decide, rfl⟩ fun xs' x' ys' u' hsplit hu' => ?_
  · have hrate := rate_readTwice
    rw [hfirst] at hrate
    exact absurd (Option.some.inj hrate) (by decide +kernel)
  · obtain ⟨id, p, hop, -⟩ := hu'
    have hx' : x' ∈ readTwice.after.take 1 := by rw [hsplit]; simp
    obtain rfl : x' = (secondOwner, .construct ⟨1, 1⟩ .zeroed) := by simpa [readTwice] using hx'
    cases hop

end SysInfo
