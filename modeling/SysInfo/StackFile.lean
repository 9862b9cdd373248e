import SysInfo.ProcessInfo
import SysInfo.Rows
/-!
# StackFile — `readStack` and the frames it keeps

`readStack` pushes one `stack_func_t` for every line of `/proc/<pid>/stack` that has an address in brackets, a blank
and a function; nothing clears `m_stack` first, so each read appends (`run_readStack_rows`).  A stack as the kernel
prints it is read back whole (`run_readStack_file`).
-/
namespace SysInfo

open IStream Re Effects

/-- `stack_func_t`. -/
structure StackFunc where
  address  : List Char
  function : List Char
deriving DecidableEq

/-- `^\[<([[:xdigit:]]+)>\]\s(.*)$` -/
def regexStack : Re Char :=
  cat [chr '[', chr '<', grp xdigits, chr '>', chr ']', blank, grp anyStar]

def stackLine (line : List Char) : Cpp (List StackFunc) Unit :=
  match regexStack.fullMatch line with
  | some [m1, m2] => modify fun mStack => mStack ++ [⟨m1, m2⟩]
  | _ => pure ()

/-- `ProcessInfo::readStack`, on the member it fills. -/
def readStack (sys : Sys) (mProcPath : List Char) : Cpp (List StackFunc) Unit :=
  match sys.file (mProcPath ++ "/stack".toList) with
  | some text => (getlines '\n' (ofText text)).forM stackLine
  | none      => pure ()

/-! ## Rows -/

/-- A line with an address in brackets, a blank and a function. -/
structure StackRow where
  func  : StackFunc
  gap   : Char
  hex   : IsRun isXdigit func.address
  blank : isSpace gap = true

def StackRow.line (r : StackRow) : List Char :=
  '[' :: '<' :: (r.func.address ++ '>' :: ']' :: r.gap :: r.func.function)

theorem fullMatch_regexStack_iff {s : List Char} {caps : List (List Char)} : regexStack.fullMatch s = some caps ↔
    ∃ r : StackRow, s = r.line ∧ caps = [r.func.address, r.func.function] := by
  have hstop : ∀ r : Re Char, Rejects (seq (chr '>') r) isXdigit := fun r => (rejects_chr (by decide)).seq r
  simp only [regexStack, cat, xdigits, fullMatch_chr_iff, fullMatch_grp_plus_iff (hstop _), fullMatch_blank_iff,
    fullMatch_grp_anyStar]
  constructor
  · rintro ⟨_, rfl, _, rfl, address, _, _, rfl, rfl, haddr, _, rfl, _, rfl, gap, function, rfl, hgap, hfun⟩
    obtain rfl := Option.some.inj hfun
    exact ⟨⟨⟨address, function⟩, gap, haddr, hgap⟩, rfl, rfl⟩
  · rintro ⟨r, rfl, rfl⟩
    exact ⟨_, rfl, _, rfl, r.func.address, _, _, rfl, rfl, r.hex, _, rfl, _, rfl, r.gap, _, rfl, r.blank, rfl⟩

theorem StackRow.run_stackLine (r : StackRow) (mStack : List StackFunc) :
    (stackLine r.line).run mStack = .ok () (mStack ++ [r.func]) := by
  have hm : regexStack.fullMatch r.line = some [r.func.address, r.func.function] :=
    fullMatch_regexStack_iff.2 ⟨r, rfl, rfl⟩
  simp only [stackLine, hm]
  rfl

theorem stackLine_other {l : List Char} (h : ∀ r : StackRow, r.line ≠ l) : stackLine l = pure () := by
  have hm : regexStack.fullMatch l = none := by
    rw [Option.eq_none_iff_forall_ne_some]
    intro caps hcaps
    obtain ⟨r, rfl, -⟩ := fullMatch_regexStack_iff.1 hcaps
    exact h r rfl
  simp only [stackLine, hm]

/-- The loop, on the rows of its lines. -/
theorem run_stackLines {ls : List (List Char)} {rows : List StackRow} (h : Rows StackRow.line ls rows) :
    ∀ mStack, (ls.forM stackLine).run mStack = .ok () (mStack ++ rows.map StackRow.func) := by
  induction h with
  | nil => exact fun mStack => by simp
  | row r h ih =>
    intro mStack
    rw [run_forM_cons, EStateM.run_bind, r.run_stackLine mStack]
    simp only [ih, List.map_cons, List.append_assoc, List.singleton_append]
  | other hl h ih =>
    intro mStack
    rw [run_forM_cons, stackLine_other hl]
    exact ih mStack

/-- **`readStack` on any text** appends the functions of its rows, in order, and never throws. -/
theorem run_readStack_rows (sys : Sys) (mProcPath : List Char) (mStack : List StackFunc) :
    ∃ rows, Rows StackRow.line (getlines '\n' (openFile (sys.file (mProcPath ++ "/stack".toList)))) rows ∧
      (readStack sys mProcPath).run mStack = .ok () (mStack ++ rows.map StackRow.func) := by
  unfold readStack
  cases sys.file (mProcPath ++ "/stack".toList) with
  | none => exact ⟨[], .nil, by simp⟩
  | some text =>
    obtain ⟨rows, hrows⟩ := Rows.exists StackRow.line (getlines '\n' (ofText text))
    exact ⟨rows, hrows, run_stackLines hrows mStack⟩

/-- A stack of rows is read back whole. -/
theorem run_readStack_file {sys : Sys} {mProcPath : List Char} {rows : List StackRow} (hline : ∀ r ∈ rows, '\n' ∉ r.line)
    (hfile : sys.file (mProcPath ++ "/stack".toList) = some (unlines '\n' (rows.map StackRow.line)))
    (mStack : List StackFunc) :
    (readStack sys mProcPath).run mStack = .ok () (mStack ++ rows.map StackRow.func) := by
  have hlines : splitLines '\n' (unlines '\n' (rows.map StackRow.line)) = rows.map StackRow.line :=
    splitLines_unlines '\n' _ (List.forall_mem_map.2 hline)
  unfold readStack
  rw [hfile]
  exact run_stackLines (by rw [getlines_ofText, hlines]; exact Rows.of_map StackRow.line rows) mStack

end SysInfo
