import SysInfo.ProcessInfo
/-!
# EnvironFile — the files of strings closed by NUL

The kernel shows the arguments of a process and the strings `key=value` of its environment, each closed by a NUL.
`readCmdline` keeps the strings as they are (`cmdline_readsBack`).  `readEnviron` reads a value with `getline`, which
stops at a newline: the environment is read back exactly when no value has one (`environ_readsBack_iff`).
-/
namespace SysInfo

open IStream Effects ProcessInfo

/-! ## `cmdline` -/

/-- What `/proc/<pid>/cmdline` holds for a list of arguments: each closed by a NUL, except perhaps the last one of a process
that overwrote its title. -/
inductive CmdlineText : List (List Char) → List Char → Prop
  | closed (args : List (List Char)) : CmdlineText args (unlines '\x00' args)
  | unclosed (args : List (List Char)) {last : List Char} (ne : last ≠ []) :
    CmdlineText (args ++ [last]) (unlines '\x00' args ++ last)

theorem CmdlineText.getlines {args : List (List Char)} {text : List Char} (h : CmdlineText args text)
    (hnul : ∀ a ∈ args, '\x00' ∉ a) : IStream.getlines '\x00' (ofText text) = args := by
  rw [getlines_ofText]
  cases h with
  | closed => exact splitLines_unlines '\x00' args hnul
  | unclosed args ne =>
    have hlast := hnul _ (List.mem_append_right args List.mem_cons_self)
    exact splitLines_unlines_last '\x00' ne hlast args fun a ha => hnul a (List.mem_append_left _ ha)

/-- **The command line is read back**, whatever the object held. -/
theorem cmdline_readsBack {args : List (List Char)} {text : List Char} (hnul : ∀ a ∈ args, '\x00' ∉ a)
    (htext : CmdlineText args text) {sys : Sys} {p : ProcessInfo}
    (hfile : sys.file (p.mProcPath ++ "cmdline".toList) = some text) :
    (readCmdline sys).run p = .ok () { p with mCmdline := args } := by
  have hread := htext.getlines hnul
  rw [readCmdline, EStateM.run_modify, hfile, openFile, hread]

/-- A shell with an empty argument and one of two lines, whose last argument is not closed. -/
theorem cmdline_readsBack_shell : (readCmdline (Sys.ofFiles fun _ => some "sh\x00\x00-c\x00ls\nps".toList)).run
    { zeroed with mCmdline := ["init".toList] } =
      .ok () { zeroed with mCmdline := ["sh".toList, [], "-c".toList, "ls\nps".toList] } :=
  cmdline_readsBack (p := { zeroed with mCmdline := ["init".toList] })
    (show ∀ a ∈ ["sh".toList, [], "-c".toList, "ls\nps".toList], '\x00' ∉ a by decide)
    (.unclosed ["sh".toList, [], "-c".toList] (by decide)) rfl

/-! ## `environ` -/

/-- The variables of a process, in the order of the file. -/
structure EnvironFile where
  vars   : List (List Char × List Char)
  once   : (vars.map Prod.fst).Nodup
  keys   : ∀ x ∈ vars, x.1 ≠ [] ∧ '=' ∉ x.1 ∧ '\x00' ∉ x.1
  values : ∀ x ∈ vars, '\x00' ∉ x.2

namespace EnvironFile

def entry (x : List Char × List Char) : List Char := x.1 ++ '=' :: x.2

def text (f : EnvironFile) : List Char := unlines '\x00' (f.vars.map entry)

/-- The environment of a new object is that of the file. -/
def ReadsBack (f : EnvironFile) : Prop :=
  ∀ (sys : Sys) (junk : ProcessInfo) (pid : Int32), sys.file (procPath pid ++ "environ".toList) = some f.text →
    ∃ m, value ((environ sys).run (construct junk pid)) = .ok m ∧ ∀ k, m k = f.vars.lookup k

def firstLine (v : List Char) : List Char := v.takeWhile (· ≠ '\n')

theorem firstLine_eq_self_iff {v : List Char} : firstLine v = v ↔ '\n' ∉ v := takeWhile_ne_eq_self_iff

/-- **A variable is stored with the first line of its value.** -/
theorem environEntry_entry {x : List Char × List Char} (h : '=' ∉ x.1) (m : List Char → Option (List Char)) :
    environEntry m (entry x) = Function.update m x.1 (some (firstLine x.2)) := by
  rw [environEntry, entry, keyValue_append h]
  rfl

theorem foldl_environEntry : ∀ {xs : List (List Char × List Char)}, (∀ x ∈ xs, '=' ∉ x.1) → (xs.map Prod.fst).Nodup →
    ∀ (m : List Char → Option (List Char)) (k : List Char),
      (xs.map entry).foldl environEntry m k = ((xs.lookup k).map firstLine).or (m k)
  | [], _, _, m, k => rfl
  | (key, v) :: xs, h, hnd, m, k => by
    obtain ⟨hkey, hnd⟩ := List.nodup_cons.1 hnd
    rw [List.map_cons, List.foldl_cons, environEntry_entry (h (key, v) (by simp)),
      foldl_environEntry (fun x hx => h x (by simp [hx])) hnd]
    by_cases hk : k = key
    · subst hk
      have hnone : xs.lookup k = none := List.lookup_eq_none_iff.2 fun x hx => by
        simpa using fun e : k = x.1 => hkey (List.mem_map.2 ⟨x, hx, e.symm⟩)
      rw [hnone, List.lookup_cons_self, Function.update_self]
      rfl
    · rw [Function.update_of_ne hk, List.lookup_cons, beq_false_of_ne hk]

variable {f : EnvironFile}

theorem getlines_text (f : EnvironFile) : getlines '\x00' (ofText f.text) = f.vars.map entry := by
  refine splitLines_unlines '\x00' _ fun l hl => ?_
  obtain ⟨x, hx, rfl⟩ := List.mem_map.1 hl
  simp only [entry, List.mem_append, List.mem_cons, not_or]
  exact ⟨(f.keys x hx).2.2, by decide, f.values x hx⟩

theorem value_environ {sys : Sys} {junk : ProcessInfo} {pid : Int32}
    (hf : sys.file (procPath pid ++ "environ".toList) = some f.text) :
    value ((environ sys).run (construct junk pid)) = .ok fun k => (f.vars.lookup k).map firstLine := by
  have hrun : value ((environ sys).run (construct junk pid)) =
      .ok ((getlines '\x00' (openFile (sys.file (procPath pid ++ "environ".toList)))).foldl environEntry fun _ => none) :=
    rfl
  rw [hrun, hf, openFile, getlines_text]
  congr 1
  funext k
  rw [foldl_environEntry (fun x hx => (f.keys x hx).2.1) f.once, Option.or_none]

theorem lookup_of_mem {k v : List Char} : ∀ {xs : List (List Char × List Char)}, (xs.map Prod.fst).Nodup → (k, v) ∈ xs →
    xs.lookup k = some v
  | (key, w) :: xs, hnd, h => by
    obtain ⟨hkey, hnd⟩ := List.nodup_cons.1 hnd
    rcases List.mem_cons.1 h with h | h
    · cases h
      exact List.lookup_cons_self
    · have hne : k ≠ key := fun e => hkey (List.mem_map.2 ⟨(k, v), h, e⟩)
      rw [List.lookup_cons, beq_false_of_ne hne]
      exact lookup_of_mem hnd h

theorem mem_of_lookup {k v : List Char} : ∀ {xs : List (List Char × List Char)}, xs.lookup k = some v → (k, v) ∈ xs
  | (key, w) :: xs, h => by
    by_cases hk : k = key
    · subst hk
      rw [List.lookup_cons_self] at h
      cases h
      exact List.mem_cons_self
    · rw [List.lookup_cons, beq_false_of_ne hk] at h
      exact List.mem_cons_of_mem _ (mem_of_lookup h)

theorem ReadsBack.newline_notMem (h : f.ReadsBack) : ∀ x ∈ f.vars, '\n' ∉ x.2 := by
  rintro ⟨k, v⟩ hx
  obtain ⟨m, hm, hlookup⟩ := h (Sys.ofFiles fun _ => some f.text) zeroed 1 rfl
  rw [value_environ rfl] at hm
  cases hm
  have hk := hlookup k
  simp only [lookup_of_mem f.once hx, Option.map_some, Option.some.injEq] at hk
  exact firstLine_eq_self_iff.1 hk

theorem readsBack_of_newline_notMem (h : ∀ x ∈ f.vars, '\n' ∉ x.2) : f.ReadsBack := by
  intro sys junk pid hf
  refine ⟨_, value_environ hf, fun k => ?_⟩
  cases hk : f.vars.lookup k with
  | none => rfl
  | some v => exact congrArg some (firstLine_eq_self_iff.2 (h (k, v) (mem_of_lookup hk)))

/-- **The environment is read back exactly when** no value has a newline. -/
theorem environ_readsBack_iff (f : EnvironFile) : f.ReadsBack ↔ ∀ x ∈ f.vars, '\n' ∉ x.2 :=
  ⟨ReadsBack.newline_notMem, readsBack_of_newline_notMem⟩

/-- An exported shell function of two lines. -/
theorem not_readsBack_function : ¬ (⟨[("BASH_FUNC_f%%".toList, "() \x7b  :\n\x7d".toList)],
    List.pairwise_singleton _ _, by simp, by simp⟩ : EnvironFile).ReadsBack := fun h =>
  absurd (h.newline_notMem _ List.mem_cons_self) (by simp)

end EnvironFile

end SysInfo
