import SysInfo.CpuBlocks
import Mathlib.Data.Finset.Dedup
import Mathlib.Data.Finset.Card
/-!
# Topology — `getNbCPUs` and the packages of a machine

`getNbCPUs` takes every record with core id 0 for another package, but a core has a record for each of its hardware
threads.  `countsPackages_iff`: it counts packages exactly when every number converts and core 0 of each package has one
thread.
-/
namespace SysInfo

open IStream

theorem CpuField.processor_ne : CpuField.processor ≠ .microcode := by decide
theorem CpuField.physicalId_ne : CpuField.physicalId ≠ .microcode := by decide
theorem CpuField.coreId_ne : CpuField.coreId ≠ .microcode := by decide

/-- A logical CPU: its block prints its package and its core. -/
structure LogicalCpu where
  physicalId : Nat
  coreId     : Nat
  block      : CpuBlock
  physical   : ∃ l ∈ block.lines, l.entry = .num .physicalId physicalId CpuField.physicalId_ne
  core       : ∃ l ∈ block.lines, l.entry = .num .coreId coreId CpuField.coreId_ne

/-- The logical CPUs of a machine, each of whose packages has a core 0. -/
structure Topology where
  cpus  : List LogicalCpu
  core0 : ∀ c ∈ cpus, ∃ d ∈ cpus, d.physicalId = c.physicalId ∧ d.coreId = 0

theorem LogicalCpu.coreId_record (c : LogicalCpu) : c.block.record.num .coreId = c.coreId := by
  obtain ⟨l, hl, he⟩ := c.core
  have h := c.block.stored_record l hl
  rw [he] at h
  exact h

namespace Topology

variable (t : Topology)

def file : List Char := cpuInfoFile (t.cpus.map LogicalCpu.block)

def packages : Nat := (t.cpus.map LogicalCpu.physicalId).dedup.length

/-- Every number printed is in the reach of its conversion. -/
def Converts : Prop := ∀ c ∈ t.cpus, c.block.Converts

/-- The physical ids of the logical CPUs on a core 0. -/
def core0Ids : List Nat := (t.cpus.filter (·.coreId = 0)).map LogicalCpu.physicalId

theorem length_dedup_core0Ids : t.core0Ids.dedup.length = t.packages := by
  have hmem : ∀ n, n ∈ t.core0Ids ↔ n ∈ t.cpus.map LogicalCpu.physicalId := by
    intro n
    constructor
    · intro h
      obtain ⟨c, hc, rfl⟩ := List.mem_map.1 h
      exact List.mem_map.2 ⟨c, (List.mem_filter.1 hc).1, rfl⟩
    · intro h
      obtain ⟨c, hc, rfl⟩ := List.mem_map.1 h
      obtain ⟨d, hd, hphys, hcore⟩ := t.core0 c hc
      exact List.mem_map.2 ⟨d, List.mem_filter.2 ⟨hd, decide_eq_true hcore⟩, hphys⟩
  rw [packages, ← List.card_toFinset, ← List.card_toFinset]
  congr 1
  ext n
  rw [List.mem_toFinset, List.mem_toFinset, hmem]

theorem foldl_core0 : ∀ (cs : List LogicalCpu) (n : Int),
    ((cs.map LogicalCpu.block).map CpuBlock.record).foldl
        (fun nbCPUs core => if core.num .coreId = 0 then nbCPUs + 1 else nbCPUs) n =
      n + (cs.filter (·.coreId = 0)).length
  | [], n => (add_zero n).symm
  | c :: cs, n => by
    rw [List.map_cons, List.map_cons, List.foldl_cons, foldl_core0 cs, c.coreId_record]
    by_cases h : c.coreId = 0
    · rw [List.filter_cons_of_pos (by simpa using h), if_pos (by omega), List.length_cons]
      omega
    · rw [List.filter_cons_of_neg (by simpa using h), if_neg (by omega)]

/-- **`getNbCPUs` counts the threads of the cores 0.** -/
theorem getNbCPUs_file {sys : Sys} (hf : sys.file "/proc/cpuinfo".toList = some t.file) (hc : t.Converts) :
    getNbCPUs sys = .ok (t.core0Ids.length : Int) := by
  have hconv : ∀ b ∈ t.cpus.map LogicalCpu.block, b.Converts := by
    intro b hb
    obtain ⟨c, hcpu, rfl⟩ := List.mem_map.1 hb
    exact hc c hcpu
  rw [getNbCPUs, (readCPUInfo_iff hf).2 ⟨hconv, rfl⟩]
  show Except.ok (List.foldl _ (0 : Int) _) = _
  rw [foldl_core0, zero_add, core0Ids, List.length_map]

def CountsPackages : Prop :=
  ∀ sys : Sys, sys.file "/proc/cpuinfo".toList = some t.file → getNbCPUs sys = .ok (t.packages : Int)

variable {t}

theorem CountsPackages.converts (h : t.CountsPackages) : t.Converts := by
  have hrun := h (Sys.ofFiles fun _ => some t.file) rfl
  intro c hc
  cases hread : readCPUInfo (Sys.ofFiles fun _ => some t.file) with
  | error e =>
    rw [getNbCPUs, hread] at hrun
    cases hrun
  | ok cs => exact ((readCPUInfo_iff rfl).1 hread).1 c.block (List.mem_map.2 ⟨c, hc, rfl⟩)

/-- As many threads of cores 0 as packages: no package has two. -/
theorem CountsPackages.nodup (h : t.CountsPackages) : t.core0Ids.Nodup := by
  have hrun := (t.getNbCPUs_file rfl h.converts).symm.trans (h (Sys.ofFiles fun _ => some t.file) rfl)
  have hlen : t.core0Ids.length = t.packages := Int.ofNat.inj (Except.ok.inj hrun)
  rw [← length_dedup_core0Ids] at hlen
  rw [← (List.dedup_sublist t.core0Ids).eq_of_length hlen.symm]
  exact List.nodup_dedup _

theorem countsPackages_of_nodup (hc : t.Converts) (h : t.core0Ids.Nodup) : t.CountsPackages := by
  intro sys hf
  rw [t.getNbCPUs_file hf hc, ← length_dedup_core0Ids, h.dedup]

/-- **The count is that of the packages exactly when** every number converts, and no two logical CPUs with core id 0
share a package. -/
theorem countsPackages_iff : t.CountsPackages ↔ t.Converts ∧ t.core0Ids.Nodup :=
  ⟨fun h => ⟨h.converts, h.nodup⟩, fun h => countsPackages_of_nodup h.1 h.2⟩

end Topology

/-! ## Two threads of one core -/

theorem CpuField.colon_newline_notMem (f : CpuField) :
    ':' ∉ (CpuKey.field f).printed ∧ '\n' ∉ (CpuKey.field f).printed := by
  cases f <;> decide

def CpuInfoLine.decimal (f : CpuField) (ne : f ≠ .microcode) (n : Nat) : CpuInfoLine where
  entry := .num f n ne
  tabs := 1
  noColon := f.colon_newline_notMem.1
  oneLine := ⟨f.colon_newline_notMem.2, newline_notMem_decimal n⟩

theorem nodup_plain : [CpuKey.field .processor, .field .physicalId, .field .coreId].Nodup := by decide

def CpuBlock.plain (n physicalId coreId : Nat) : CpuBlock where
  lines := [.decimal .processor CpuField.processor_ne n, .decimal .physicalId CpuField.physicalId_ne physicalId,
    .decimal .coreId CpuField.coreId_ne coreId]
  once := nodup_plain

/-- The threads of the only core of the only package. -/
def LogicalCpu.thread (n : Fin 2) : LogicalCpu where
  physicalId := 0
  coreId := 0
  block := .plain n 0 0
  physical := ⟨_, List.mem_cons_of_mem _ List.mem_cons_self, rfl⟩
  core := ⟨_, List.mem_cons_of_mem _ (List.mem_cons_of_mem _ List.mem_cons_self), rfl⟩

namespace Topology

theorem core0_hyperThreads : ∀ c ∈ [LogicalCpu.thread 0, .thread 1], ∃ d ∈ [LogicalCpu.thread 0, .thread 1],
    d.physicalId = c.physicalId ∧ d.coreId = 0 := by
  intro c hc
  refine ⟨c, hc, rfl, ?_⟩
  simp only [List.mem_cons, List.not_mem_nil, or_false] at hc
  rcases hc with rfl | rfl <;> rfl

def hyperThreads : Topology := ⟨[.thread 0, .thread 1], core0_hyperThreads⟩

/-- One package, one core, two threads: the count is 2. -/
theorem not_countsPackages_hyperThreads : ¬ hyperThreads.CountsPackages := fun h => absurd h.nodup (by decide)

end Topology

end SysInfo
