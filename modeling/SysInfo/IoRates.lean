import SysInfo.Steps
import Mathlib.Tactic.Positivity
/-!
# IoRates — read and write rates share a baseline

`updateIoReadUsage` and `updateIoWriteUsage` keep their last sample in the same `m_io` of the table's entry.  A refresh
of either metric makes its sample the baseline of both, so a rate is not taken since the last refresh of its own metric
but since the last refresh of any, and the second metric asked in one cycle compares its sample with itself.

A run is a list of cycles, `needUpdate()` and then some of the calls.  `IoRun.independent_iff`: the two metrics do not
disturb each other exactly when the two baselines give the same rate at every refresh.
-/
namespace SysInfo

open Effects ProcessInfo

/-! ## Cycles -/

/-- The calls of a cycle, in the order of their evaluation. -/
inductive Calls where
  | idle
  | one (m : IoMetric)
  | both (first : IoMetric)
  | total (readFirst : Bool)
deriving DecidableEq

namespace Calls

def usages : Calls → List Usage
  | .idle => []
  | .one .read => [.ioReadUsage]
  | .one .write => [.ioWriteUsage]
  | .both .read => [.ioReadUsage, .ioWriteUsage]
  | .both .write => [.ioWriteUsage, .ioReadUsage]
  | .total readFirst => [.ioTotalUsage readFirst]

def metrics (c : Calls) : List IoMetric := c.usages.flatMap Usage.metrics

/-- The calls without those of the other metric. -/
def only (m : IoMetric) (c : Calls) : Calls := if m ∈ c.metrics then .one m else .idle

theorem metrics_cases (c : Calls) : c.metrics = [] ∨ (∃ m, c.metrics = [m]) ∨ ∃ m : IoMetric, c.metrics = [m, m.other] := by
  cases c with
  | idle => exact .inl rfl
  | one m => cases m <;> exact .inr (.inl ⟨_, rfl⟩)
  | both m => cases m <;> exact .inr (.inr ⟨_, rfl⟩)
  | total b => cases b <;> exact .inr (.inr ⟨_, rfl⟩)

@[simp] theorem metrics_idle : Calls.idle.metrics = [] := rfl

@[simp] theorem metrics_one (m : IoMetric) : (Calls.one m).metrics = [m] := by cases m <;> rfl

end Calls

/-- A cycle of an object of a pid, at a state of the system. -/
structure Cycle (pid : Int32) where
  n     : Nat
  calls : Calls
  sys   : Sys
  io    : IoFile
  shown : sys.file (procPath pid ++ "io".toList) = some io.text

namespace Cycle

variable {pid : Int32}

def id (c : Cycle pid) : ObjId := ⟨pid, c.n⟩
def now (c : Cycle pid) : Int := c.sys.now
def bytes (m : IoMetric) (c : Cycle pid) : Nat := c.io.counter m.field
def sample (c : Cycle pid) : IoStat := c.io.stat c.sys.now

def ops (c : Cycle pid) : List (Sys × Op) :=
  (c.sys, .needUpdate c.id) :: c.calls.usages.map fun u => (c.sys, .call c.id (.usage u))

def only (m : IoMetric) (c : Cycle pid) : Cycle pid := { c with calls := c.calls.only m }

def after (w : World) (c : Cycle pid) : World := (World.run w c.ops).1

/-- What the call of a metric returns in a cycle, called directly or by `ioTotalUsage`: the member it leaves. -/
def returned (m : IoMetric) (w : World) (c : Cycle pid) : Option Rat :=
  if m ∈ c.calls.metrics then ((c.after w).objs c.id).map m.usage else none

end Cycle

def afterAll {pid : Int32} (w : World) (cs : List (Cycle pid)) : World := cs.foldl Cycle.after w

/-- What the calls of a metric return in a run, cycle after cycle. -/
def returns {pid : Int32} (m : IoMetric) : World → List (Cycle pid) → List (Option Rat)
  | _, []      => []
  | w, c :: cs => c.returned m w :: returns m (c.after w) cs

def Live {pid : Int32} (w : World) (c : Cycle pid) : Prop := ∃ p, w.objs c.id = some p ∧ Belongs pid p

/-- A sample taken earlier. -/
structure Earlier {pid : Int32} (c d : Cycle pid) : Prop where
  now   : c.now < d.now
  bytes : ∀ m, c.bytes m ≤ d.bytes m

/-- A run of refresh cycles on objects of a pid that has no entry. -/
structure IoRun where
  pid     : Int32
  world   : World
  cycles  : List (Cycle pid)
  live    : ∀ c ∈ cycles, Live world c
  noEntry : world.static.mapPidOldstate pid = none
  later   : cycles.Pairwise Earlier

/-! ## A cycle -/

namespace World

variable {w : World} {id : ObjId}

theorem leave_leave (s t : This) : (w.leave id s).leave id t = w.leave id t := by
  simp [leave]

theorem objs_leave (s : This) : (w.leave id s).objs id = some s.obj := Function.update_self ..

theorem objs_leave_of_ne {id' : ObjId} (h : id' ≠ id) (s : This) : (w.leave id s).objs id' = w.objs id' :=
  Function.update_of_ne h ..

theorem step_ioCall {sys : Sys} {s : This} {io : IoFile} (h : sys.file (s.obj.mProcPath ++ "io".toList) = some io.text)
    {u : Usage} (hu : u ≠ .cpuUsage) :
    step (sys, .call id (.usage u)) (w.leave id s) = (w.leave id (s.ioAll u.metrics (io.stat sys.now)),
      some ⟨.usage u, .ok (u.result (s.ioAll u.metrics (io.stat sys.now)).obj)⟩) := by
  have hrun := This.run_ioCall hu h
  simp only [step, objs_leave, Query.call]
  rw [show This.mk s.obj (w.leave id s).static = s from rfl, hrun]
  exact congrArg (·, _) (leave_leave s _)

theorem run_ioCalls {sys : Sys} {io : IoFile} : ∀ (us : List Usage) {s : This}, .cpuUsage ∉ us →
    sys.file (s.obj.mProcPath ++ "io".toList) = some io.text →
      (run (w.leave id s) (us.map fun u => (sys, .call id (.usage u)))).1 =
        w.leave id (s.ioAll (us.flatMap Usage.metrics) (io.stat sys.now))
  | [], _, _, _ => rfl
  | u :: us, s, hu, h => by
    simp only [List.mem_cons, not_or] at hu
    have hpath : (s.ioAll u.metrics (io.stat sys.now)).obj.mProcPath = s.obj.mProcPath := This.mProcPath_ioAll _ _ _
    rw [List.map_cons, run, runOps, step_ioCall h (Ne.symm hu.1), List.flatMap_cons, This.ioAll_append]
    exact run_ioCalls us hu.2 (by rw [hpath]; exact h)

end World

namespace Calls

theorem cpuUsage_notMem_usages (c : Calls) : .cpuUsage ∉ c.usages := by
  cases c with
  | idle => decide
  | one m | both m => cases m <;> decide
  | total b => cases b <;> decide

end Calls

def World.base (pid : Int32) (w : World) : Option IoStat := (w.static.mapPidOldstate pid).map (·.mIo)

namespace Cycle

variable {pid : Int32} {w : World} {c : Cycle pid}

theorem after_eq {p : ProcessInfo} (hp : w.objs c.id = some p) (hb : Belongs pid p) :
    c.after w = w.leave c.id (This.ioAll c.calls.metrics c.sample ⟨p.needUpdate, w.static⟩) := by
  have hfile : c.sys.file (p.needUpdate.mProcPath ++ "io".toList) = some c.io.text := by
    rw [mProcPath_needUpdate, hb.path]
    exact c.shown
  rw [after, ops, World.run, runOps]
  simp only [World.step, hp]
  exact World.run_ioCalls (s := ⟨p.needUpdate, w.static⟩) c.calls.usages c.calls.cpuUsage_notMem_usages hfile

end Cycle

theorem This.ioAll_due {p : ProcessInfo} (st : Static) (c : Calls) (io : IoStat) :
    (∀ m ∈ c.metrics, m.usage (This.ioAll c.metrics io ⟨p.needUpdate, st⟩).obj =
      if c.metrics = [m.other, m] then 0 else rateSince m io (This.ioBase ⟨p, st⟩)) ∧
    (This.ioAll c.metrics io ⟨p.needUpdate, st⟩).ioBase = if c.metrics = [] then This.ioBase ⟨p, st⟩ else some io := by
  have hdue : This.IoDue ⟨p.needUpdate, st⟩ := fun m => by cases m <;> rfl
  have hne : ∀ m : IoMetric, m.other ≠ m := fun m => by cases m <;> decide
  rcases c.metrics_cases with h | ⟨m, h⟩ | ⟨m, h⟩ <;> rw [h]
  · exact ⟨fun m hm => absurd hm List.not_mem_nil, rfl⟩
  · refine ⟨fun m' hm' => ?_, ?_⟩
    · obtain rfl := List.mem_singleton.1 hm'
      rw [if_neg (by simp)]
      exact This.usage_ioUsed (hdue m') io
    · exact This.ioBase_ioUsed (hdue m) io
  · obtain ⟨h₁, h₂, h₃⟩ := This.ioUsed_both hdue m io
    refine ⟨fun m' hm' => ?_, h₃⟩
    rcases List.mem_pair.1 hm' with rfl | rfl
    · rw [if_neg (by simp [hne])]
      exact h₁
    · rw [if_pos (by cases m <;> rfl)]
      exact h₂

namespace Cycle

variable {pid : Int32} {w : World} {c : Cycle pid}

def rate (m : IoMetric) (base : Option IoStat) (c : Cycle pid) : Option Rat :=
  if m ∈ c.calls.metrics then some (if c.calls.metrics = [m.other, m] then 0 else rateSince m c.sample base) else none

def next (base : Option IoStat) (c : Cycle pid) : Option IoStat := if c.calls.metrics = [] then base else some c.sample

theorem rate_only (m : IoMetric) (base : Option IoStat) (c : Cycle pid) :
    (c.only m).rate m base = if m ∈ c.calls.metrics then some (rateSince m c.sample base) else none := by
  unfold only Calls.only
  by_cases hm : m ∈ c.calls.metrics
  · simp [rate, hm, sample]
  · simp [rate, hm]

theorem next_only (m : IoMetric) (base : Option IoStat) (c : Cycle pid) :
    (c.only m).next base = if m ∈ c.calls.metrics then some c.sample else base := by
  unfold only Calls.only
  by_cases hm : m ∈ c.calls.metrics
  · simp [next, hm, sample]
  · simp [next, hm]

theorem objs_after {p : ProcessInfo} (hp : w.objs c.id = some p) (hb : Belongs pid p) :
    (c.after w).objs c.id = some (This.ioAll c.calls.metrics c.sample ⟨p.needUpdate, w.static⟩).obj := by
  rw [after_eq hp hb, World.objs_leave]

/-- **The values of a cycle** depend on the baseline and the sample only. -/
theorem returned_eq (m : IoMetric) (h : Live w c) : c.returned m w = c.rate m (w.base pid) := by
  obtain ⟨p, hp, hb⟩ := h
  unfold returned rate
  split
  · next hm =>
    have hbase : This.ioBase ⟨p, w.static⟩ = w.base pid := by rw [This.ioBase, hb.pid]; rfl
    rw [objs_after hp hb, Option.map_some, (This.ioAll_due w.static c.calls c.sample).1 m hm, hbase]
  · rfl

/-- **The baseline after a cycle** is its sample, if it refreshed anything. -/
theorem base_after (h : Live w c) : (c.after w).base pid = c.next (w.base pid) := by
  obtain ⟨p, hp, hb⟩ := h
  have hbase : This.ioBase ⟨p, w.static⟩ = w.base pid := by rw [This.ioBase, hb.pid]; rfl
  have hpid : (This.ioAll c.calls.metrics c.sample ⟨p.needUpdate, w.static⟩).obj.mPid = pid :=
    (This.mPid_ioAll _ _ _).trans hb.pid
  rw [after_eq hp hb, World.base, World.leave, next, ← hbase, ← (This.ioAll_due w.static c.calls c.sample).2, This.ioBase, hpid]

theorem live_after (h : Live w c) {d : Cycle pid} (hd : Live w d) : Live (c.after w) d := by
  obtain ⟨p, hp, hb⟩ := h
  obtain ⟨q, hq, hbq⟩ := hd
  by_cases hid : d.id = c.id
  · rw [Live, hid, objs_after hp hb]
    exact ⟨_, rfl, Belongs.ioAll (s := ⟨p.needUpdate, w.static⟩) hb.needUpdate _ _⟩
  · refine ⟨q, ?_, hbq⟩
    rw [after_eq hp hb, World.objs_leave_of_ne hid]
    exact hq

end Cycle

def rates {pid : Int32} (m : IoMetric) : Option IoStat → List (Cycle pid) → List (Option Rat)
  | _, []         => []
  | base, c :: cs => c.rate m base :: rates m (c.next base) cs

section Runs

variable {pid : Int32}

theorem returns_eq (m : IoMetric) : ∀ (cs : List (Cycle pid)) (w : World), (∀ c ∈ cs, Live w c) →
    returns m w cs = rates m (w.base pid) cs
  | [], _, _ => rfl
  | c :: cs, w, h => by
    have hc := h c (by simp)
    rw [returns, rates, Cycle.returned_eq m hc,
      returns_eq m cs (c.after w) fun d hd => Cycle.live_after hc (h d (by simp [hd])), Cycle.base_after hc]

theorem base_afterAll : ∀ (cs : List (Cycle pid)) (w : World), (∀ c ∈ cs, Live w c) →
    (afterAll w cs).base pid = cs.foldl Cycle.next (w.base pid) ∧ ∀ d : Cycle pid, Live w d → Live (afterAll w cs) d
  | [], _, _ => ⟨rfl, fun _ h => h⟩
  | c :: cs, w, h => by
    have hc := h c (by simp)
    obtain ⟨ih₁, ih₂⟩ := base_afterAll cs (c.after w) fun d hd => Cycle.live_after hc (h d (by simp [hd]))
    rw [Cycle.base_after hc] at ih₁
    exact ⟨ih₁, fun d hd => ih₂ d (Cycle.live_after hc hd)⟩

theorem rates_append (m : IoMetric) : ∀ (cs ds : List (Cycle pid)) (base : Option IoStat),
    rates m base (cs ++ ds) = rates m base cs ++ rates m (cs.foldl Cycle.next base) ds
  | [], _, _ => rfl
  | c :: cs, ds, base => by rw [List.cons_append, rates, rates, rates_append m cs ds, List.foldl_cons, List.cons_append]

theorem length_rates (m : IoMetric) : ∀ (cs : List (Cycle pid)) (base : Option IoStat), (rates m base cs).length = cs.length
  | [], _ => rfl
  | c :: cs, base => by rw [rates, List.length_cons, length_rates m cs, List.length_cons]

end Runs

/-! ## The two baselines -/

/-- The rate of a metric between two samples. -/
def exactRate {pid : Int32} (m : IoMetric) (c d : Cycle pid) : Rat :=
  ((d.bytes m : Rat) - c.bytes m) / (((d.now : Rat) - c.now) / 10 ^ 9)

/-- At the refresh `c` of a metric, last refreshed at `own`, while any metric was last refreshed at `last`: the counter
grows as fast since `last` as since `own`. -/
def SameRate {pid : Int32} (m : IoMetric) (c : Cycle pid) : Option (Cycle pid) → Option (Cycle pid) → Prop
  | _, none => True
  | none, some j => j.now = c.now ∨ j.bytes m = c.bytes m
  | some i, some j =>
    if j.now = c.now then i.bytes m = c.bytes m
    else ((c.bytes m : Int) - j.bytes m) * (c.now - i.now) = ((c.bytes m : Int) - i.bytes m) * (c.now - j.now)

/-- Every refresh of a metric is one at the same rate since both baselines. -/
def Undisturbed {pid : Int32} (m : IoMetric) : Option (Cycle pid) → Option (Cycle pid) → List (Cycle pid) → Prop
  | _, _, [] => True
  | own, last, c :: cs =>
    (m ∈ c.calls.metrics → SameRate m c own (if c.calls.metrics = [m.other, m] then some c else last)) ∧
      Undisturbed m (if m ∈ c.calls.metrics then some c else own) (if c.calls.metrics = [] then last else some c) cs

instance {pid : Int32} (m : IoMetric) (c : Cycle pid) : (own last : Option (Cycle pid)) → Decidable (SameRate m c own last)
  | none, none | some _, none => isTrue trivial
  | none, some j => inferInstanceAs (Decidable (j.now = c.now ∨ j.bytes m = c.bytes m))
  | some i, some j => inferInstanceAs (Decidable (if j.now = c.now then i.bytes m = c.bytes m
      else ((c.bytes m : Int) - j.bytes m) * (c.now - i.now) = ((c.bytes m : Int) - i.bytes m) * (c.now - j.now)))

instance decidableUndisturbed {pid : Int32} (m : IoMetric) : ∀ (cs : List (Cycle pid)) (own last : Option (Cycle pid)),
    Decidable (Undisturbed m own last cs)
  | [], _, _ => isTrue trivial
  | _ :: cs, _, _ =>
    have := decidableUndisturbed m cs
    inferInstanceAs (Decidable (_ ∧ _))

section Rates

variable {pid : Int32} {c d : Cycle pid} (m : IoMetric)

/-- The rate between two refreshes whose bytes do not decrease, whatever the clock has done. -/
theorem rateSince_of_le (h : c.bytes m ≤ d.bytes m) :
    rateSince m d.sample (some c.sample) = if d.now = c.now then 0 else exactRate m c d := by
  have hlt : c.io.counter m.field < 2 ^ 63 := c.io.lt m.field
  have hlt' : d.io.counter m.field < 2 ^ 63 := d.io.lt m.field
  have hle : c.io.counter m.field ≤ d.io.counter m.field := h
  have hsub : (UInt64.ofNat (d.io.counter m.field) - UInt64.ofNat (c.io.counter m.field)).toNat =
      d.io.counter m.field - c.io.counter m.field := by
    rw [UInt64.toNat_sub, UInt64.toNat_ofNat', UInt64.toNat_ofNat']
    omega
  have hrate : rateSince m d.sample (some c.sample) =
      ioRate (UInt64.ofNat (d.io.counter m.field) - UInt64.ofNat (c.io.counter m.field)) (d.sys.now - c.sys.now) := rfl
  rw [hrate, ioRate, hsub, exactRate, Nat.cast_sub hle, Int.cast_sub]
  exact if_congr Int.sub_eq_zero rfl rfl

theorem rateSince_sample (h : Earlier c d) : rateSince m d.sample (some c.sample) = exactRate m c d := by
  rw [rateSince_of_le m (h.bytes m), if_neg (Int.ne_of_gt h.now)]

theorem exactRate_eq_iff {i j : Cycle pid} (hi : i.now < c.now) (hj : j.now < c.now) :
    exactRate m j c = exactRate m i c ↔
      ((c.bytes m : Int) - j.bytes m) * (c.now - i.now) = ((c.bytes m : Int) - i.bytes m) * (c.now - j.now) := by
  have hi' : (0 : Rat) < (c.now : Rat) - i.now := by exact_mod_cast Int.sub_pos.2 hi
  have hj' : (0 : Rat) < (c.now : Rat) - j.now := by exact_mod_cast Int.sub_pos.2 hj
  rw [exactRate, exactRate, div_eq_div_iff (by positivity) (by positivity), ← mul_div_assoc, ← mul_div_assoc,
    div_left_inj' (by positivity)]
  norm_cast

theorem exactRate_eq_zero_iff {i : Cycle pid} (hi : i.now < c.now) : exactRate m i c = 0 ↔ i.bytes m = c.bytes m := by
  have hi' : (0 : Rat) < (c.now : Rat) - i.now := by exact_mod_cast Int.sub_pos.2 hi
  have hne : ((c.now : Rat) - i.now) / 10 ^ 9 ≠ 0 := by positivity
  rw [exactRate, div_eq_zero_iff, or_iff_left hne, sub_eq_zero, Nat.cast_inj]
  exact eq_comm

/-- **One refresh**: the value with the other metric's calls is the value without them exactly at the same rate. -/
theorem rate_eq_iff {own last : Option (Cycle pid)} (hown : ∀ i ∈ own, Earlier i c) (hlast : ∀ j ∈ last, Earlier j c)
    (hnone : last = none → own = none) :
    c.rate m (last.map Cycle.sample) = (c.only m).rate m (own.map Cycle.sample) ↔
      (m ∈ c.calls.metrics → SameRate m c own (if c.calls.metrics = [m.other, m] then some c else last)) := by
  by_cases hm : m ∈ c.calls.metrics
  · rw [Cycle.rate_only, Cycle.rate, if_pos hm, if_pos hm, Option.some.injEq, forall_prop_of_true hm]
    by_cases hsecond : c.calls.metrics = [m.other, m]
    · rw [if_pos hsecond, if_pos hsecond]
      cases own with
      | none => simp [SameRate]
      | some i =>
        have hi := hown i rfl
        rw [Option.map_some, rateSince_sample m hi, eq_comm, exactRate_eq_zero_iff m hi.now, SameRate, if_pos rfl]
    · rw [if_neg hsecond, if_neg hsecond]
      cases last with
      | none => simp [hnone rfl, SameRate]
      | some j =>
        have hj := hlast j rfl
        cases own with
        | none =>
          rw [Option.map_some, rateSince_sample m hj, Option.map_none, rateSince_none, exactRate_eq_zero_iff m hj.now,
            SameRate, or_iff_right (Int.ne_of_lt hj.now)]
        | some i =>
          have hi := hown i rfl
          rw [Option.map_some, rateSince_sample m hj, Option.map_some, rateSince_sample m hi,
            exactRate_eq_iff m hi.now hj.now, SameRate, if_neg (Int.ne_of_lt hj.now)]
  · rw [Cycle.rate_only, Cycle.rate, if_neg hm, if_neg hm]
    exact ⟨fun _ h => absurd h hm, fun _ => rfl⟩

/-- **A run**, by induction on its cycles: each cycle moves both baselines to itself or leaves them. -/
theorem rates_eq_iff : ∀ (cs : List (Cycle pid)) (own last : Option (Cycle pid)), cs.Pairwise Earlier →
    (∀ i ∈ own, ∀ c ∈ cs, Earlier i c) → (∀ j ∈ last, ∀ c ∈ cs, Earlier j c) → (last = none → own = none) →
      (rates m (last.map Cycle.sample) cs = rates m (own.map Cycle.sample) (cs.map (·.only m)) ↔ Undisturbed m own last cs)
  | [], _, _, _, _, _, _ => by simp [rates, Undisturbed]
  | c :: cs, own, last, hp, hown, hlast, hnone => by
    obtain ⟨hc, hp⟩ := List.pairwise_cons.1 hp
    have hnext : c.next (last.map Cycle.sample) =
        (if c.calls.metrics = [] then last else some c).map Cycle.sample := by
      unfold Cycle.next
      split <;> rfl
    have hnext' : (c.only m).next (own.map Cycle.sample) =
        (if m ∈ c.calls.metrics then some c else own).map Cycle.sample := by
      rw [Cycle.next_only]
      split <;> rfl
    rw [List.map_cons, rates, rates, List.cons.injEq, Undisturbed, hnext, hnext',
      rate_eq_iff m (fun i hi => hown i hi c (by simp)) (fun j hj => hlast j hj c (by simp)) hnone,
      rates_eq_iff cs _ _ hp]
    · intro i hi d hd
      split at hi
      · obtain rfl := Option.mem_some_iff.1 hi
        exact hc d hd
      · exact hown i hi d (by simp [hd])
    · intro j hj d hd
      split at hj
      · exact hlast j hj d (by simp [hd])
      · obtain rfl := Option.mem_some_iff.1 hj
        exact hc d hd
    · split
      · next he => intro h; rw [he, if_neg List.not_mem_nil]; exact hnone h
      · exact fun h => by cases h

end Rates

/-! ## The result -/

namespace Usage

def combine : (u : Usage) → (IoMetric → Rat) → u.Val
  | .cpuUsage, _ => (0 : Int32)
  | .ioReadUsage, r => r .read
  | .ioWriteUsage, r => r .write
  | .ioTotalUsage _, r => r .read + r .write

theorem result_eq {u : Usage} (hu : u ≠ .cpuUsage) (p : ProcessInfo) : u.result p = u.combine fun m => m.usage p := by
  cases u with
  | cpuUsage => exact absurd rfl hu
  | _ => rfl

theorem combine_congr {u : Usage} {r r' : IoMetric → Rat} (h : ∀ m ∈ u.metrics, r m = r' m) : u.combine r = u.combine r' := by
  cases u with
  | cpuUsage => rfl
  | ioReadUsage => exact h .read (by decide)
  | ioWriteUsage => exact h .write (by decide)
  | ioTotalUsage readFirst =>
    have hr := h .read (by cases readFirst <;> decide)
    have hw := h .write (by cases readFirst <;> decide)
    simp only [combine, hr, hw]

end Usage

theorem Calls.usages_cases (c : Calls) : c.usages = [] ∨ (∃ u, u ≠ .cpuUsage ∧ c.usages = [u]) ∨
    ∃ u v, u ≠ .cpuUsage ∧ v ≠ .cpuUsage ∧ c.usages = [u, v] ∧ ∃ m : IoMetric, u.metrics = [m] ∧ v.metrics = [m.other] := by
  cases c with
  | idle => exact .inl rfl
  | one m => cases m <;> exact .inr (.inl ⟨_, by simp, rfl⟩)
  | both m => cases m <;> exact .inr (.inr ⟨_, _, by simp, by simp, rfl, _, rfl, rfl⟩)
  | total b => exact .inr (.inl ⟨_, by simp, rfl⟩)

theorem World.step_needUpdate {w : World} {id : ObjId} {p : ProcessInfo} (hp : w.objs id = some p) (sys : Sys) :
    step (sys, .needUpdate id) w = (w.set id p.needUpdate, none) := by
  simp only [step, hp]

/-- **What the calls of a cycle return**: the rates, and for `ioTotalUsage` their sum in either order. -/
theorem Cycle.answers {pid : Int32} {w : World} {c : Cycle pid} (h : Live w c) :
    (World.run w c.ops).2 = none :: c.calls.usages.map fun u =>
      some ⟨.usage u, .ok (u.combine fun m => (c.rate m (w.base pid)).getD 0)⟩ := by
  obtain ⟨p, hp, hb⟩ := h
  let s : This := ⟨p.needUpdate, w.static⟩
  have hrate : ∀ m ∈ c.calls.metrics, m.usage (s.ioAll c.calls.metrics c.sample).obj = (c.rate m (w.base pid)).getD 0 :=
    fun m hm => by
      rw [← Cycle.returned_eq m ⟨p, hp, hb⟩, Cycle.returned, if_pos hm, Cycle.objs_after hp hb]
      rfl
  have hcall : ∀ (t : This) (u : Usage), t.obj.mProcPath = p.mProcPath → u ≠ .cpuUsage →
      World.step (c.sys, .call c.id (.usage u)) (w.leave c.id t) = (w.leave c.id (t.ioAll u.metrics c.sample),
        some ⟨.usage u, .ok (u.result (t.ioAll u.metrics c.sample).obj)⟩) := fun t u ht hu =>
    World.step_ioCall (by rw [ht, hb.path]; exact c.shown) hu
  rw [Cycle.ops, World.run, runOps, World.step_needUpdate hp, show w.set c.id p.needUpdate = w.leave c.id s from rfl]
  rcases c.calls.usages_cases with hus | ⟨u, hu, hus⟩ | ⟨u, v, hu, hv, hus, m, hum, hvm⟩
  · rw [hus]; rfl
  · have hms : c.calls.metrics = u.metrics := by rw [Calls.metrics, hus, List.flatMap_singleton]
    rw [hms] at hrate
    rw [hus, List.map_singleton, List.map_singleton, runOps, hcall s u rfl hu, Usage.result_eq hu, Usage.combine_congr hrate]
    rfl
  · have hms : c.calls.metrics = [m, m.other] := by simp [Calls.metrics, hus, hum, hvm]
    rw [hms] at hrate
    -- the second call leaves the rate of the first one
    have hkept : m.usage (s.ioAll [m, m.other] c.sample).obj = m.usage (s.ioAll u.metrics c.sample).obj := by
      have hother : m.other.other = m := by cases m <;> rfl
      have h := This.usage_ioUsed_other m.other c.sample (s.ioUsed m c.sample)
      rw [hother] at h
      rw [hum]
      exact h
    have hlast : This.ioAll v.metrics c.sample (s.ioAll u.metrics c.sample) = s.ioAll [m, m.other] c.sample := by
      rw [← This.ioAll_append, hum, hvm]
      rfl
    have hvalue : (u.combine fun m => m.usage (s.ioAll u.metrics c.sample).obj) =
        u.combine fun m => (c.rate m (w.base pid)).getD 0 := Usage.combine_congr fun m' hm' => by
      rw [hum, List.mem_singleton] at hm'
      rw [hm', ← hkept]
      exact hrate m (by simp)
    have hvalue' : (v.combine fun m' => m'.usage (s.ioAll [m, m.other] c.sample).obj) =
        v.combine fun m => (c.rate m (w.base pid)).getD 0 := Usage.combine_congr fun m' hm' => by
      rw [hvm, List.mem_singleton] at hm'
      rw [hm']
      exact hrate m.other (by simp)
    rw [hus, List.map_cons, List.map_singleton, List.map_cons, List.map_singleton, runOps, hcall s u rfl hu, runOps,
      hcall _ v (This.mProcPath_ioAll _ _ s) hv, hlast, Usage.result_eq hu, Usage.result_eq hv, hvalue, hvalue']
    rfl

def Cycle.Full {pid : Int32} (c : Cycle pid) : Prop := ∀ m, m ∈ c.calls.metrics

namespace IoRun

/-- Read and write rates do not disturb each other. -/
structure Independent (r : IoRun) : Prop where
  -- a metric's values are those of the run without the other metric's calls
  alone : ∀ m, returns m r.world r.cycles = returns m r.world (r.cycles.map (·.only m))
  -- where both are asked in two consecutive cycles, the second one returns the rates between the two
  exact : ∀ cs c d ds, r.cycles = cs ++ c :: d :: ds → c.Full → d.Full →
    (World.run (afterAll r.world (cs ++ [c])) d.ops).2 = none :: d.calls.usages.map fun u =>
      some ⟨.usage u, .ok (u.combine fun m => exactRate m c d)⟩

theorem live_only (r : IoRun) (m : IoMetric) : ∀ c ∈ r.cycles.map (·.only m), Live r.world c := by
  intro c hc
  obtain ⟨d, hd, rfl⟩ := List.mem_map.1 hc
  exact r.live d hd

theorem base_world (r : IoRun) : r.world.base r.pid = none := by rw [World.base, r.noEntry]; rfl

theorem alone_iff (r : IoRun) (m : IoMetric) :
    returns m r.world r.cycles = returns m r.world (r.cycles.map (·.only m)) ↔ Undisturbed m none none r.cycles := by
  rw [returns_eq m _ _ r.live, returns_eq m _ _ (r.live_only m), r.base_world]
  exact rates_eq_iff m r.cycles none none r.later (fun _ h => by cases h) (fun _ h => by cases h) fun h => h

/-- A metric asked in two consecutive cycles has the exact rate, if its values are those of the run without the other. -/
theorem exact_of_alone {r : IoRun} {m : IoMetric}
    (h : returns m r.world r.cycles = returns m r.world (r.cycles.map (·.only m))) {cs ds : List (Cycle r.pid)}
    {c d : Cycle r.pid} (hsplit : r.cycles = cs ++ c :: d :: ds) (hc : m ∈ c.calls.metrics) (hd : m ∈ d.calls.metrics) :
    d.rate m (some c.sample) = some (exactRate m c d) := by
  have hearlier : Earlier c d := by
    have hp := r.later
    rw [hsplit] at hp
    exact (List.pairwise_cons.1 (List.pairwise_append.1 hp).2.1).1 d (by simp)
  rw [returns_eq m _ _ r.live, returns_eq m _ _ (r.live_only m), hsplit, List.map_append, rates_append, rates_append] at h
  have htail := (List.append_inj h (by rw [length_rates, length_rates, List.length_map])).2
  simp only [List.map_cons, rates, List.cons.injEq] at htail
  have hvalue := htail.2.1
  have hne : c.calls.metrics ≠ [] := fun he => by rw [he] at hc; cases hc
  rw [Cycle.next, if_neg hne, Cycle.next_only, if_pos hc, Cycle.rate_only, if_pos hd, rateSince_sample m hearlier] at hvalue
  exact hvalue

/-- **The two metrics do not disturb each other exactly when every refresh has the same rate since both baselines**: the
last refresh of its own metric, and the last refresh of any. -/
theorem independent_iff (r : IoRun) : r.Independent ↔ ∀ m, Undisturbed m none none r.cycles := by
  refine ⟨fun h m => (r.alone_iff m).1 (h.alone m), fun h => ?_⟩
  have halone := fun m => (r.alone_iff m).2 (h m)
  refine ⟨halone, fun cs c d ds hsplit hc hd => ?_⟩
  have hlive : ∀ e ∈ cs ++ [c], Live r.world e := fun e he => r.live e (by
    rw [hsplit]
    simp only [List.mem_append, List.mem_singleton] at he
    rcases he with he | rfl <;> simp [*])
  obtain ⟨hbase, hlast⟩ := base_afterAll (cs ++ [c]) r.world hlive
  have hne : c.calls.metrics ≠ [] := fun he => by have := hc .read; rw [he] at this; cases this
  have hsample : (afterAll r.world (cs ++ [c])).base r.pid = some c.sample := by
    rw [hbase, List.foldl_append, List.foldl_cons, List.foldl_nil, Cycle.next, if_neg hne]
  rw [Cycle.answers (hlast d (r.live d (by rw [hsplit]; simp))), hsample]
  refine congrArg (none :: ·) (List.map_congr_left fun u _ => ?_)
  rw [Usage.combine_congr fun m _ => ?_]
  rw [exact_of_alone (halone m) hsplit (hc m) (hd m)]
  rfl

/-! ## Two cycles that ask for both -/

/-- A byte is read and a byte written between two cycles that ask for both rates, reads first. -/
def bothTwice : IoRun where
  pid := 1
  world := ⟨fun _ => some (construct .zeroed 1), .initial⟩
  cycles := [⟨0, .both .read, Sys.small (.init 0 0) (.bytes 0 0) 0 0, .bytes 0 0, rfl⟩,
    ⟨0, .both .read, Sys.small (.init 0 0) (.bytes 1 1) 0 (10 ^ 9), .bytes 1 1, rfl⟩]
  live c _ := ⟨_, rfl, Belongs.construct _ _⟩
  noEntry := rfl
  later := by
    refine List.pairwise_pair.2 ⟨by decide, fun m => ?_⟩
    cases m <;> decide

/-- The write rate of the second cycle is 0 instead of a byte a second. -/
theorem not_independent_bothTwice : ¬ bothTwice.Independent := fun h =>
  absurd ((alone_iff bothTwice .write).1 (h.alone .write)) (by decide +kernel)

end IoRun

end SysInfo
