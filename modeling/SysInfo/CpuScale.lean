import SysInfo.Steps
/-!
# CpuScale — CPU usage against its scale

`updateCPUUsage` reads the machine's ticks when it is called but takes the process's ticks from the object's `stat`,
which another getter may have read long before, and stores both as one sample.  The next sample may then find more
process ticks than machine ticks behind it, or fewer process ticks than the stored ones.

`inScale_of_current`: the usage stays between 0 and `100 * nb_core` in every run whose refreshes take the process's ticks
of their own time.
-/
namespace SysInfo

open IStream Effects ProcessInfo

/-! ## The division -/

theorem cpuShare_range {nb : Int32} (hnb : 1 ≤ nb.toInt ∧ nb.toInt ≤ 2 ^ 15) {dp dc : UInt64} (h : dp.toNat ≤ dc.toNat) :
    0 ≤ (cpuShare nb dp dc).toInt ∧ (cpuShare nb dp dc).toInt ≤ 100 * nb.toInt := by
  unfold cpuShare
  split
  · have h0 : (0 : Int32).toInt = 0 := rfl
    omega
  · next hdc =>
    obtain ⟨k, hk⟩ : ∃ k : Nat, nb.toInt = k := ⟨nb.toInt.toNat, by omega⟩
    have hpos : 0 < dc.toNat := Nat.pos_of_ne_zero fun e => hdc (UInt64.toNat_inj.1 e)
    have hscale : (UInt64.ofInt (100 * nb.toInt)).toNat = 100 * k := by
      rw [hk, show (100 * (k : Int)) = ((100 * k : Nat) : Int) by omega, IoFile.ofInt_natCast (by omega),
        UInt64.toNat_ofNat', Nat.mod_eq_of_lt (by omega)]
    have hle : (UInt64.ofInt (100 * nb.toInt) * dp / dc).toNat ≤ 100 * k := by
      rw [UInt64.toNat_div, UInt64.toNat_mul, hscale]
      calc 100 * k * dp.toNat % 2 ^ 64 / dc.toNat ≤ 100 * k * dp.toNat / dc.toNat :=
            Nat.div_le_div_right (Nat.mod_le _ _)
        _ ≤ 100 * k * dc.toNat / dc.toNat := Nat.div_le_div_right (Nat.mul_le_mul_left _ h)
        _ = 100 * k := Nat.mul_div_cancel _ hpos
    rw [Int32.toInt_ofInt_of_le (by omega) (by omega)]
    omega

/-! ## The kernel -/

/-- The ticks of a process that is never replaced and of its machine, at every time, and the number of cores. -/
structure CpuKernel where
  pid      : Int32
  proc     : Int → Nat
  total    : Int → Nat
  proc_le  : ∀ t t', t ≤ t' → proc t ≤ proc t'
  total_le : ∀ t t', t ≤ t' → total t ≤ total t'
  share    : ∀ t t', t ≤ t' → proc t' - proc t ≤ total t' - total t
  proc_lt  : ∀ t, proc t < 2 ^ 48
  total_lt : ∀ t, total t < 2 ^ 48
  nbCore   : Int32
  cores    : 1 ≤ nbCore.toInt ∧ nbCore.toInt ≤ 2 ^ 15

structure Displays (K : CpuKernel) (sys : Sys) where
  line     : StatLine
  line_pid : line.pid = K.pid
  stat     : sys.file (procPath K.pid ++ "stat".toList) = some line.text
  proc     : UInt64.toNat (line.num .utime) + UInt64.toNat (line.num .stime) = K.proc sys.now
  cpu      : CpuLine
  cpuText  : sys.file "/proc/stat".toList = some cpu.text
  total    : cpu.user.toNat + cpu.nice.toNat + cpu.system.toNat + cpu.idle.toNat = K.total sys.now
  cores    : getNbCores sys = .ok K.nbCore

namespace Displays

variable {K : CpuKernel} {sys : Sys} (D : Displays K sys)

include D

theorem toNat_cpuTotalTime : (cpuTotalTime sys).toNat = K.total sys.now := by
  have h := D.total
  have hlt := K.total_lt sys.now
  rw [D.cpu.cpuTotalTime_eq D.cpuText, CpuLine.total, UInt64.toNat_add, UInt64.toNat_add, UInt64.toNat_add]
  omega

/-- A `stat` read now gives the ticks of now, unless the name of the process has white space. -/
theorem toNat_ticks_parseStat (hname : ∀ c ∈ D.line.comm, isSpace c = false) (p : ProcessInfo) :
    (parseStat (ofText D.line.text) p).ticks.toNat = K.proc sys.now := by
  have h := D.proc
  have hlt := K.proc_lt sys.now
  have hticks : (parseStat (ofText D.line.text) p).ticks.toNat =
      (UInt64.toNat (D.line.num .utime) + UInt64.toNat (D.line.num .stime)) % 2 ^ 64 := by
    simp only [ticks, StatLine.num_parseStat_line hname]
    exact UInt64.toNat_add _ _
  omega

end Displays

/-- Operations on objects of the process, no I/O usage among them, at times that do not decrease. -/
structure CpuRun (K : CpuKernel) (ops : List (Sys × Op)) : Prop where
  displays : ∀ x ∈ ops, Nonempty (Displays K x.1)
  own      : ∀ x ∈ ops, x.2.id.pid = K.pid
  noIo     : ∀ x ∈ ops, ∀ id u, x.2 = .call id (.usage u) → u = .cpuUsage
  later    : ops.Pairwise fun x y => x.1.now ≤ y.1.now

/-- Every value `cpuUsage` returns lies between 0 and `100 * nb_core`. -/
def InScale (K : CpuKernel) (ops : List (Sys × Op)) : Prop :=
  ∀ a ∈ (World.run .initial ops).2, ∀ v : Int32, a = some ⟨.usage .cpuUsage, .ok v⟩ →
    0 ≤ v.toInt ∧ v.toInt ≤ 100 * K.nbCore.toInt

/-- A refresh of an object takes the process's ticks of now: `stat` is due, and the name has no white space; or the
ticks it holds have not changed. -/
def Current (K : CpuKernel) (sys : Sys) (p : ProcessInfo) : Prop :=
  if p.mNeedUpdate .stat then ∃ D : Displays K sys, ∀ c ∈ D.line.comm, isSpace c = false
  else p.ticks.toNat = K.proc sys.now

def SamplesNow (K : CpuKernel) (x : Sys × Op) (w : World) : Prop :=
  ∀ id p, x.2 = .call id (.usage .cpuUsage) → w.objs id = some p → p.mNeedUpdate .cpuUsage = true → Current K x.1 p

def AlwaysNow (K : CpuKernel) : World → List (Sys × Op) → Prop
  | _, []      => True
  | w, x :: xs => SamplesNow K x w ∧ AlwaysNow K (World.step x w).1 xs

/-! ## The invariant -/

section Invariant

variable {K : CpuKernel}

def Fits (K : CpuKernel) (p : ProcessInfo) : Prop :=
  p.mNeedUpdate .cpuUsage = false → 0 ≤ p.mCpuUsage.toInt ∧ p.mCpuUsage.toInt ≤ 100 * K.nbCore.toInt

/-- The entry of the process is a sample of one time, at most `t`. -/
structure SampledBy (K : CpuKernel) (t : Int) (st : Static) : Prop where
  cores : ∀ n, st.nbCore = some n → n = K.nbCore
  entry : ∀ old, st.mapPidOldstate K.pid = some old → ∃ t₀ ≤ t, old.mLastCpuTotalTime.toNat = K.total t₀ ∧
    old.mLastProcessTotalTime.toNat = K.proc t₀

theorem SampledBy.mono {t t' : Int} (ht : t ≤ t') {st : Static} (h : SampledBy K t st) : SampledBy K t' st := by
  refine ⟨h.cores, fun old ho => ?_⟩
  obtain ⟨t₀, h₀, hs⟩ := h.entry old ho
  exact ⟨t₀, Int.le_trans h₀ ht, hs⟩

/-- A sample of now and the one in the table give a share in scale. -/
theorem SampledBy.shareSince_range {t : Int} {st : Static} (h : SampledBy K t st) {total process : UInt64}
    (htotal : total.toNat = K.total t) (hprocess : process.toNat = K.proc t) :
    0 ≤ (shareSince K.nbCore total process (st.mapPidOldstate K.pid)).toInt ∧
      (shareSince K.nbCore total process (st.mapPidOldstate K.pid)).toInt ≤ 100 * K.nbCore.toInt := by
  cases hold : st.mapPidOldstate K.pid with
  | none =>
    have h0 : (0 : Int32).toInt = 0 := rfl
    have := K.cores
    simp only [shareSince]
    omega
  | some old =>
    obtain ⟨t₀, ht₀, ho₁, ho₂⟩ := h.entry old hold
    refine cpuShare_range K.cores ?_
    have h₁ := K.proc_le t₀ _ ht₀
    have h₂ := K.total_le t₀ _ ht₀
    have h₃ := K.share t₀ _ ht₀
    have h₄ := K.proc_lt t
    have h₅ := K.total_lt t
    rw [UInt64.toNat_sub, UInt64.toNat_sub, htotal, hprocess, ho₁, ho₂]
    omega

theorem Current.toNat_ticks {sys : Sys} {p : ProcessInfo} (h : Current K sys p) (S : Shown .cpuUsage sys K.pid) :
    (p.sampleStat S.line).ticks.toNat = K.proc sys.now := by
  unfold Current at h
  unfold sampleStat
  split at h
  · next hs =>
    obtain ⟨E, hname⟩ := h
    have htext : S.line.text = E.line.text := Option.some.inj (S.stat.symm.trans E.stat)
    rw [if_pos hs, htext, ticks_updated]
    exact E.toNat_ticks_parseStat hname p
  · next hs =>
    rw [if_neg hs]
    exact h

/-- **A refresh with the ticks of now** returns a value in scale and stores a sample of now. -/
theorem cpuUsed_current {sys : Sys} (D : Displays K sys) {pid : Int32} (hown : pid = K.pid) {s : This}
    (hb : Belongs pid s.obj) (S : Shown .cpuUsage sys pid) (hfits : Fits K s.obj) (hst : SampledBy K sys.now s.static)
    (hcur : s.obj.mNeedUpdate .cpuUsage = true → Current K sys s.obj) :
    Fits K (Usage.cpuUsage.after S s).obj ∧ SampledBy K sys.now (Usage.cpuUsage.after S s).static := by
  subst hown
  by_cases hd : s.obj.mNeedUpdate .cpuUsage = true
  · have hnb : s.static.nbCore.getD S.nbCore = K.nbCore := by
      cases hn : s.static.nbCore with
      | some n => exact hst.cores n hn
      | none =>
        have h := S.cores
        rw [D.cores] at h
        exact (Except.ok.inj h).symm
    have hpid : (s.obj.sampleStat S.line).mPid = K.pid := (mPid_sampleStat (S.line_pid.trans hb.pid.symm)).trans hb.pid
    have hticks := (hcur hd).toNat_ticks S
    have htotal := D.toNat_cpuTotalTime
    simp only [Usage.after, This.cpuUsed, if_pos hd, hpid, hnb]
    refine ⟨fun _ => hst.shareSince_range htotal hticks, ?_, ?_⟩
    · intro n hn
      have : n = s.static.nbCore.getD S.nbCore := (Option.some.inj hn).symm
      rw [this, hnb]
    · intro old ho
      rw [Static.mapPidOldstate_store_self, Option.some.injEq] at ho
      subst ho
      exact ⟨sys.now, Int.le_refl _, htotal, hticks⟩
  · simp only [Usage.after, This.cpuUsed, if_neg hd]
    exact ⟨hfits, hst⟩

theorem fits_call {sys : Sys} {p : ProcessInfo} (h : Fits K p) (g : Getter) : Fits K (state ((g.call sys).run p)) := by
  obtain ⟨hflag, -, husage⟩ := usages_call sys g p
  rw [Fits, hflag, husage]
  exact h

/-- What holds before the steps `xs` of a run. -/
structure CpuInv (K : CpuKernel) (xs : List (Sys × Op)) (w : World) : Prop where
  run     : CpuRun K xs
  now     : AlwaysNow K w xs
  named   : w.Named
  fits    : ∀ id p, w.objs id = some p → Fits K p
  sampled : ∀ x ∈ xs, SampledBy K x.1.now w.static

def Displays.shown {sys : Sys} (D : Displays K sys) : Shown .cpuUsage sys K.pid :=
  ⟨D.line, D.line_pid, D.stat, .bytes 0 0, fun h => absurd rfl h, K.nbCore, D.cores⟩

theorem CpuRun.reads {ops : List (Sys × Op)} (h : CpuRun K ops) {x : Sys × Op} (hx : x ∈ ops) : World.Reads x := by
  obtain ⟨D⟩ := h.displays x hx
  obtain ⟨sys, op⟩ := x
  have hpid : op.id.pid = K.pid := h.own _ hx
  have huse : op.usage = .cpuUsage := by
    cases op with
    | call id q =>
      cases q with
      | get g => rfl
      | usage u => exact h.noIo _ hx id u rfl
    | _ => rfl
  show Nonempty (Shown op.usage sys op.id.pid)
  rw [hpid, huse]
  exact ⟨D.shown⟩

theorem CpuRun.tail {x : Sys × Op} {xs : List (Sys × Op)} (h : CpuRun K (x :: xs)) : CpuRun K xs where
  displays y hy := h.displays y (List.mem_cons_of_mem x hy)
  own y hy := h.own y (List.mem_cons_of_mem x hy)
  noIo y hy := h.noIo y (List.mem_cons_of_mem x hy)
  later := h.later.tail

/-- The value a step returns is in scale. -/
theorem CpuInv.scale {x : Sys × Op} {xs : List (Sys × Op)} {w : World} (h : CpuInv K (x :: xs) w) {v : Int32}
    (hv : (World.step x w).2 = some ⟨.usage .cpuUsage, .ok v⟩) : 0 ≤ v.toInt ∧ v.toInt ≤ 100 * K.nbCore.toInt := by
  have hx : x ∈ x :: xs := List.mem_cons_self
  have hnow := h.now.1
  have hsampled := h.sampled x hx
  have hreads := h.run.reads hx
  have hown := h.run.own x hx
  obtain ⟨D⟩ := h.run.displays x hx
  obtain ⟨sys, op⟩ := x
  cases op with
  | call id q =>
    cases hp : w.objs id with
    | none => simp [World.step, hp] at hv
    | some p =>
      cases q with
      | get g => rw [World.step_get hp] at hv; cases hv
      | usage u =>
        obtain rfl : u = .cpuUsage := h.run.noIo _ hx id u rfl
        obtain ⟨S⟩ : Nonempty (Shown .cpuUsage sys id.pid) := hreads
        have hb := h.named id p hp
        have hfit := (cpuUsed_current (s := ⟨p, w.static⟩) D hown hb S (h.fits id p hp) hsampled (hnow id p rfl hp)).1
        rw [World.step_usage hp h.named S] at hv
        obtain rfl : (Usage.cpuUsage.after S ⟨p, w.static⟩).obj.mCpuUsage = v := by simpa [Usage.result] using hv
        exact hfit (This.mNeedUpdate_cpuUsed _ _ _ _)
  | construct id junk => cases hv
  | copy id n => simp only [World.step] at hv; split at hv <;> cases hv
  | needUpdate id => simp only [World.step] at hv; split at hv <;> cases hv

/-- **One step** keeps the invariant, and the value it returns is in scale. -/
theorem CpuInv.step {x : Sys × Op} {xs : List (Sys × Op)} {w : World} (h : CpuInv K (x :: xs) w) :
    CpuInv K xs (World.step x w).1 ∧ ∀ v : Int32, (World.step x w).2 = some ⟨.usage .cpuUsage, .ok v⟩ →
      0 ≤ v.toInt ∧ v.toInt ≤ 100 * K.nbCore.toInt := by
  obtain ⟨hnow, hrest⟩ := h.now
  obtain ⟨hlater, hpw⟩ := List.pairwise_cons.1 h.run.later
  have hx : x ∈ x :: xs := by simp
  have hreads := h.run.reads hx
  obtain ⟨D⟩ := h.run.displays x hx
  have hown := h.run.own x hx
  have hlead : World.Leads
      (fun id p => Fits K p ∧ (x.2 = .call id (.usage .cpuUsage) → p.mNeedUpdate .cpuUsage = true → Current K x.1 p))
      (fun _ p => Fits K p) (SampledBy K x.1.now) (SampledBy K x.1.now) x := by
    refine ⟨fun _ _ hp => hp.1, fun _ hs => hs, ?_⟩
    obtain ⟨sys, op⟩ := x
    cases op with
    | construct id junk => exact fun hd => by cases hd
    | copy id n => exact fun p hp => hp.1
    | needUpdate id => exact fun p _ hd => by cases hd
    | call id q =>
      cases q with
      | get g => exact fun p _ hp => fits_call hp.1 g
      | usage u =>
        obtain rfl : u = .cpuUsage := h.run.noIo _ hx id u rfl
        exact fun S s hb hp hst => cpuUsed_current D hown hb S hp.1 hst (hp.2 rfl)
  obtain ⟨hfits, hst⟩ := hlead.step hreads h.named (fun id p hp => ⟨h.fits id p hp, fun hop => hnow id p hop hp⟩)
    (h.sampled x hx)
  exact ⟨⟨h.run.tail, hrest, h.named.step hreads, hfits, fun y hy => hst.mono (hlater y hy)⟩, fun v hv => h.scale hv⟩

end Invariant

/-! ## The result -/

/-- **CPU usage stays within its scale** in every run whose refreshes take the process's ticks of their own time. -/
theorem inScale_of_current {K : CpuKernel} {ops : List (Sys × Op)} (hrun : CpuRun K ops)
    (hnow : AlwaysNow K .initial ops) : InScale K ops := by
  have hinit : CpuInv K ops .initial := by
    refine ⟨hrun, hnow, World.named_initial, fun _ _ h => (by cases h), fun x _ => ⟨fun n h => ?_, fun old h => ?_⟩⟩
    · cases h
    · cases h
  exact (runOps_inv (fun x xs w h => CpuInv.step h) ops .initial hinit).2

/-! ## A machine that is busy and then rests -/

/-- A process that takes 100 ticks between the times 0 and 1, on a machine with one core that counts one more at 2. -/
def busyThenIdle : CpuKernel where
  pid := 1
  proc t := if t ≤ 0 then 0 else 100
  total t := if t ≤ 0 then 0 else if t ≤ 1 then 100 else 101
  proc_le t t' h := by split <;> split <;> omega
  total_le t t' h := by split <;> split <;> (try split) <;> (try split) <;> omega
  share t t' h := by split <;> split <;> (try split) <;> (try split) <;> omega
  proc_lt t := by split <;> omega
  total_lt t := by split <;> (try split) <;> omega
  nbCore := 1
  cores := by decide

def busySys (t : Int) : Sys :=
  Sys.small (.init (if t ≤ 0 then 0 else 100) 0) (.bytes 0 0) (if t ≤ 0 then 0 else if t ≤ 1 then 100 else 101) t

def busyDisplays (t : Int) : Displays busyThenIdle (busySys t) where
  line := .init (if t ≤ 0 then 0 else 100) 0
  line_pid := rfl
  stat := rfl
  proc := by
    show UInt64.toNat (if t ≤ 0 then 0 else 100) + 0 = if t ≤ 0 then 0 else 100
    split <;> rfl
  cpu := .userOnly (if t ≤ 0 then 0 else if t ≤ 1 then 100 else 101)
  cpuText := rfl
  total := by
    show UInt64.toNat (if t ≤ 0 then 0 else if t ≤ 1 then 100 else 101) = if t ≤ 0 then 0 else if t ≤ 1 then 100 else 101
    split
    · rfl
    · split <;> rfl
  cores := rfl

theorem cpuRun_busy {ops : List (Int × Op)} (hown : ∀ x ∈ ops, x.2.id.pid = 1)
    (hcpu : ∀ x ∈ ops, ∀ id u, x.2 = .call id (.usage u) → u = .cpuUsage) (hlater : ops.Pairwise fun x y => x.1 ≤ y.1) :
    CpuRun busyThenIdle (ops.map fun x => (busySys x.1, x.2)) where
  displays := List.forall_mem_map.2 fun x _ => ⟨busyDisplays x.1⟩
  own := List.forall_mem_map.2 hown
  noIo := List.forall_mem_map.2 hcpu
  later := List.pairwise_map.2 hlater

/-- A new object for each refresh. -/
theorem inScale_newObjects : InScale busyThenIdle ([(1, .construct ⟨1, 0⟩ .zeroed), (1, .call ⟨1, 0⟩ (.usage .cpuUsage)),
    (2, .construct ⟨1, 1⟩ .zeroed), (2, .call ⟨1, 1⟩ (.usage .cpuUsage))].map fun x : Int × Op => (busySys x.1, x.2)) := by
  have hnow : ∀ t id junk w, SamplesNow busyThenIdle (busySys t, .call id (.usage .cpuUsage))
      (World.step (busySys t, .construct id junk) w).1 := by
    intro t id junk w id' p hop hp _
    cases hop
    rw [show (World.step (busySys t, .construct id junk) w).1 = w.set id (construct junk id.pid) from rfl,
      World.objs_set_self] at hp
    rw [Current, if_pos (by rw [← Option.some.inj hp]; rfl)]
    exact ⟨busyDisplays t, StatLine.plain_init _ _⟩
  refine inScale_of_current (cpuRun_busy (by decide) (fun x hx id u hu => ?_) (by decide)) ⟨?_, ?_, ?_, ?_, trivial⟩
  · simp only [List.mem_cons, List.not_mem_nil, or_false] at hx
    rcases hx with rfl | rfl | rfl | rfl <;> cases hu <;> rfl
  · exact fun id p hop => by cases hop
  · exact hnow 1 ⟨1, 0⟩ _ _
  · exact fun id p hop => by cases hop
  · exact hnow 2 ⟨1, 1⟩ _ _

def cpuValue : Answer → Option Int32
  | some ⟨.usage .cpuUsage, .ok v⟩ => some v
  | _ => none

/-- `utime()` before the work, `cpuUsage()` behind it and again when the machine rests. -/
def staleTicks : List (Int × Op) :=
  [(0, .construct ⟨1, 0⟩ .zeroed), (0, .call ⟨1, 0⟩ (.get (.field .utime))), (1, .call ⟨1, 0⟩ (.usage .cpuUsage)),
    (2, .needUpdate ⟨1, 0⟩), (2, .call ⟨1, 0⟩ (.usage .cpuUsage))]

theorem values_staleTicks : (World.run .initial (staleTicks.map fun x => (busySys x.1, x.2))).2.filterMap cpuValue =
    [0, 10000] := by decide +kernel

theorem cpuRun_staleTicks : CpuRun busyThenIdle (staleTicks.map fun x => (busySys x.1, x.2)) := by
  refine cpuRun_busy (by decide) (fun x hx id u hu => ?_) (by decide)
  simp only [staleTicks, List.mem_cons, List.not_mem_nil, or_false] at hx
  rcases hx with rfl | rfl | rfl | rfl | rfl <;> cases hu <;> rfl

theorem cpuValue_eq {a : Answer} {v : Int32} (h : cpuValue a = some v) : a = some ⟨.usage .cpuUsage, .ok v⟩ := by
  unfold cpuValue at h
  split at h
  · rw [Option.some.inj h]
  · cases h

/-- A usage of 10000 percent on one core. -/
theorem not_inScale_staleTicks : CpuRun busyThenIdle (staleTicks.map fun x => (busySys x.1, x.2)) ∧
    ¬ InScale busyThenIdle (staleTicks.map fun x => (busySys x.1, x.2)) := by
  refine ⟨cpuRun_staleTicks, fun hscale => ?_⟩
  have hmem : (10000 : Int32) ∈ [(0 : Int32), 10000] := by decide
  rw [← values_staleTicks] at hmem
  obtain ⟨a, ha, hv⟩ := List.mem_filterMap.1 hmem
  exact absurd (hscale a ha 10000 (cpuValue_eq hv)).2 (by decide)

end SysInfo
