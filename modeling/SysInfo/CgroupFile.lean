import SysInfo.ProcessInfo
/-!
# CgroupFile — `readCgroup` and the lines it splits

A line of `/proc/<pid>/cgroup` is an id, the names of controllers and a path, with colons between them.  `readCgroup`
splits it at every colon and keeps the third string, so a path is cut at its own first colon
(`CgroupRow.cgroupOf_line`): the hierarchies are read back exactly when no path has one (`decodesCgroup_iff`).
-/
namespace SysInfo

open IStream Effects ProcessInfo

/-! ## The reader -/

/-- `cgroup_hierarchy_t`. -/
structure CgroupHierarchy where
  hierarchyId : Int
  subsystems  : List (List Char)
  cgroup      : List Char
deriving DecidableEq

/-- What a line is read as.  The strings it is split into are indexed unchecked: `beyond i` is what memory holds at
index `i` when there are fewer of them. -/
def cgroupOf (beyond : Nat → List Char) (line : List Char) : Except Exn CgroupHierarchy := do
  let splitted := line.splitOn ':'
  let hierarchyId ← stoi 10 (splitted.getD 0 (beyond 0))
  let subsystems := (splitted.getD 1 (beyond 1)).splitOn ','
  let cgroup := splitted.getD 2 (beyond 2)
  return ⟨hierarchyId, subsystems, cgroup⟩

def cgroupLine (beyond : Nat → List Char) (line : List Char) : Cpp (List CgroupHierarchy) Unit := do
  let cgroup ← lift (cgroupOf beyond line)
  modify fun mCgroups => mCgroups ++ [cgroup]

/-- `ProcessInfo::readCgroup`, on the member it fills. -/
def readCgroup (sys : Sys) (beyond : Nat → List Char) (mProcPath : List Char) : Cpp (List CgroupHierarchy) Unit :=
  match sys.file (mProcPath ++ "/cgroup".toList) with
  | some text => (getlines '\n' (ofText text)).forM (cgroupLine beyond)
  | none      => pure ()

/-- `m_cgroups` of an object just constructed. -/
def freshCgroups : List CgroupHierarchy := []

/-! ## A line of the kernel -/

/-- A hierarchy: its id, the names of its controllers, and the path of the process in it. -/
structure CgroupRow where
  id      : Nat
  names   : List (List Char)
  path    : List Char
  idLt    : id < 2 ^ 31
  namesNe : names ≠ []
  named   : ∀ w ∈ names, w ≠ [] ∧ ':' ∉ w ∧ ',' ∉ w ∧ '\n' ∉ w
  rooted  : path.head? = some '/'
  oneLine : '\n' ∉ path

namespace CgroupRow

variable (r : CgroupRow)

def line : List Char := decimal r.id ++ ':' :: ([','].intercalate r.names ++ ':' :: r.path)

/-- The record the line stands for. -/
def hierarchy : CgroupHierarchy := ⟨r.id, r.names, r.path⟩

/-- The record the line is read as. -/
def stored : CgroupHierarchy := ⟨r.id, r.names, r.path.takeWhile (· ≠ ':')⟩

theorem splitOn_line : r.line.splitOn ':' = decimal r.id :: [','].intercalate r.names :: r.path.splitOn ':' := by
  have hid : ':' ∉ decimal r.id := fun h => absurd (isDigit_of_mem_decimal h) (by decide)
  have hnames : ':' ∉ [','].intercalate r.names := notMem_intercalate (by decide) fun w hw => (r.named w hw).2.1
  rw [line, List.splitOn_append_cons_self_of_not_mem hid, List.splitOn_append_cons_self_of_not_mem hnames]

/-- **A line is read back but for its path**, which is cut at its first colon. -/
theorem cgroupOf_line (beyond : Nat → List Char) : cgroupOf beyond r.line = .ok r.stored := by
  have hsubsystems : ([','].intercalate r.names).splitOn ',' = r.names :=
    List.splitOn_intercalate ',' (fun w hw => (r.named w hw).2.2.1) r.namesNe
  have hcgroup := getD_splitOn ':' (beyond 2) r.path
  unfold cgroupOf
  simp only [r.splitOn_line, List.getD_cons_zero, List.getD_cons_succ, stoi_decimal r.idLt, hsubsystems, hcgroup]
  rfl

theorem stored_eq_hierarchy_iff : r.stored = r.hierarchy ↔ ':' ∉ r.path := by
  rw [← takeWhile_ne_eq_self_iff, stored, hierarchy, CgroupHierarchy.mk.injEq]
  exact ⟨fun h => h.2.2, fun h => ⟨rfl, rfl, h⟩⟩

theorem newline_notMem_line : '\n' ∉ r.line := by
  have hnames : '\n' ∉ [','].intercalate r.names := notMem_intercalate (by decide) fun w hw => (r.named w hw).2.2.2
  simp only [line, List.mem_append, List.mem_cons, not_or]
  exact ⟨newline_notMem_decimal r.id, by decide, hnames, by decide, r.oneLine⟩

end CgroupRow

/-! ## The file -/

def cgroupText (rows : List CgroupRow) : List Char := unlines '\n' (rows.map CgroupRow.line)

/-- **The file is decoded exactly**: into a new object come the hierarchies, in the order of the file. -/
def DecodesCgroup (rows : List CgroupRow) : Prop :=
  ∀ (sys : Sys) (beyond : Nat → List Char) (mProcPath : List Char),
    sys.file (mProcPath ++ "/cgroup".toList) = some (cgroupText rows) →
      (readCgroup sys beyond mProcPath).run freshCgroups = .ok () (rows.map CgroupRow.hierarchy)

/-- **The loop ends well exactly when every line can be read**, and then it has appended one record for each. -/
theorem run_cgroupLines_ok_iff (beyond : Nat → List Char) : ∀ (lines : List (List Char)) (cs cs' : List CgroupHierarchy),
    (lines.forM (cgroupLine beyond)).run cs = .ok () cs' ↔
      ∃ recs, List.Forall₂ (fun l c => cgroupOf beyond l = .ok c) lines recs ∧ cs' = cs ++ recs
  | [], cs, cs' => by
    have hrun : (List.forM [] (cgroupLine beyond)).run cs = .ok () cs := rfl
    rw [hrun, EStateM.Result.ok.injEq]
    simp [eq_comm]
  | l :: lines, cs, cs' => by
    rw [run_forM_cons, EStateM.run_bind]
    simp only [List.forall₂_cons_left_iff]
    cases hl : cgroupOf beyond l with
    | error e =>
      have hline : (cgroupLine beyond l).run cs = .error e cs := by rw [cgroupLine, hl]; rfl
      rw [hline]
      refine iff_of_false (fun h => by cases h) ?_
      rintro ⟨-, ⟨c, recs, hc, -, -⟩, -⟩
      cases hc
    | ok c =>
      have hline : (cgroupLine beyond l).run cs = .ok () (cs ++ [c]) := by rw [cgroupLine, hl]; rfl
      rw [hline]
      refine (run_cgroupLines_ok_iff beyond lines (cs ++ [c]) cs').trans ?_
      constructor
      · rintro ⟨recs, hrecs, rfl⟩
        exact ⟨c :: recs, ⟨c, recs, rfl, hrecs, rfl⟩, by rw [List.append_assoc, List.singleton_append]⟩
      · rintro ⟨-, ⟨d, recs, hd, hrecs, rfl⟩, rfl⟩
        cases hd
        exact ⟨recs, hrecs, by rw [List.append_assoc, List.singleton_append]⟩

section

variable {sys : Sys} {mProcPath : List Char}

/-- **The reader returns on a file exactly when every line of it can be read**; what the object held stays in front. -/
theorem run_readCgroup_ok_iff {text : List Char} (hfile : sys.file (mProcPath ++ "/cgroup".toList) = some text)
    (beyond : Nat → List Char) (cs cs' : List CgroupHierarchy) :
    (readCgroup sys beyond mProcPath).run cs = .ok () cs' ↔
      ∃ recs, List.Forall₂ (fun l c => cgroupOf beyond l = .ok c) (splitLines '\n' text) recs ∧ cs' = cs ++ recs := by
  unfold readCgroup
  rw [hfile]
  exact run_cgroupLines_ok_iff beyond (splitLines '\n' text) cs cs'

variable {rows : List CgroupRow}

theorem splitLines_cgroupText (rows : List CgroupRow) : splitLines '\n' (cgroupText rows) = rows.map CgroupRow.line :=
  splitLines_unlines '\n' _ (List.forall_mem_map.2 fun r _ => r.newline_notMem_line)

/-- **On the kernel's file the reader returns**, with the record of each line. -/
theorem run_readCgroup (hfile : sys.file (mProcPath ++ "/cgroup".toList) = some (cgroupText rows))
    (beyond : Nat → List Char) (cs : List CgroupHierarchy) :
    (readCgroup sys beyond mProcPath).run cs = .ok () (cs ++ rows.map CgroupRow.stored) := by
  refine (run_readCgroup_ok_iff hfile beyond cs _).2 ⟨_, ?_, rfl⟩
  rw [splitLines_cgroupText, List.forall₂_map_left_iff, List.forall₂_map_right_iff, List.forall₂_same]
  exact fun r _ => r.cgroupOf_line beyond

theorem DecodesCgroup.colon_notMem (h : DecodesCgroup rows) : ∀ r ∈ rows, ':' ∉ r.path := by
  intro r hr
  have hrun := h (.ofFiles fun _ => some (cgroupText rows)) (fun _ => []) [] rfl
  rw [run_readCgroup rfl, freshCgroups, List.nil_append, EStateM.Result.ok.injEq] at hrun
  exact r.stored_eq_hierarchy_iff.1 (List.map_inj_left.1 hrun.2 r hr)

end

/-- **The file is decoded exactly when no path has a colon.** -/
theorem decodesCgroup_iff (rows : List CgroupRow) : DecodesCgroup rows ↔ ∀ r ∈ rows, ':' ∉ r.path := by
  constructor
  · exact DecodesCgroup.colon_notMem
  · intro h sys beyond mProcPath hfile
    have hrows : rows.map CgroupRow.stored = rows.map CgroupRow.hierarchy :=
      List.map_congr_left fun r hr => r.stored_eq_hierarchy_iff.2 (h r hr)
    rw [run_readCgroup hfile, hrows]
    rfl

/-- A container started through a runtime interface. -/
def containerRow : CgroupRow where
  id      := 4
  names   := ["cpu".toList, "cpuacct".toList]
  path    := "/kubepods.slice:cri-containerd:3f2a".toList
  idLt    := by decide
  namesNe := by decide
  named   := by decide
  rooted  := rfl
  oneLine := by decide

/-- The failing input: the path ends at `/kubepods.slice`. -/
theorem not_decodesCgroup_container : ¬ DecodesCgroup [containerRow] := fun h =>
  absurd (h.colon_notMem containerRow List.mem_cons_self) (by decide)

end SysInfo
