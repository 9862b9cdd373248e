import SysInfo.Limits
/-!
# LimitsFile — `readLimits` against the kernel's `/proc/<pid>/limits`

Values go through `std::stoi` on their way into members of type `long`, and a unit may be taken for a value.
`decodesLimits_iff`: the members get the values printed exactly when every value converted is below 2^31 and no unit
that begins with `unlimited` hides a limit.
-/
namespace SysInfo

open IStream Re Effects ProcessInfo

/-- A file: the header, and one line for each limit, in any order. -/
structure LimitsFile where
  header          : List Char
  newline_notMem  : '\n' ∉ header
  rows            : List LimitRow
  perm            : (rows.map LimitRow.name).Perm LimitName.all

def LimitsFile.text (f : LimitsFile) : List Char := f.header ++ '\n' :: unlines '\n' (f.rows.map LimitRow.text)

/-- **The file is decoded exactly**, into members that held `l`: the reader returns, every member has its value, and no
line changes the members of another limit. -/
structure DecodesLimits (f : LimitsFile) (l : Limits) : Prop where
  decodes : ∀ (sys : Sys) (mProcPath : List Char), sys.file (mProcPath ++ "/limits".toList) = some f.text →
    ∃ l', (readLimits sys mProcPath).run l = .ok () l' ∧ ∀ r ∈ f.rows, l' r.name = r.limit
  apart : ∀ r ∈ f.rows, ∀ (l : Limits) (n : LimitName), n ≠ r.name → state ((limitLine r.text).run l) n = l n

/-! ## Values -/

namespace LimitValue

/-- The value survives `std::stoi`. -/
def Fits : LimitValue → Prop
  | .unlimited  => True
  | .number n _ => n < 2 ^ 31

instance : ∀ v : LimitValue, Decidable v.Fits
  | .unlimited  => .isTrue trivial
  | .number n _ => inferInstanceAs (Decidable (n < 2 ^ 31))

theorem limitOf_text : ∀ v : LimitValue, limitOf v.text = if v.Fits then .ok v.toLong else .error .outOfRange
  | .unlimited  => rfl
  | .number n _ => by
    have hne : decimal n ≠ "unlimited".toList := fun h => by
      have hu : 'u' ∈ decimal n := by rw [h]; decide
      exact absurd (isDigit_of_mem_decimal hu) (by decide)
    have hn := stoi_decimal_append n (t := []) fun c hc => by cases hc
    rw [List.append_nil] at hn
    exact (if_neg hne).trans hn

/-- A value ends in a digit, or in the `d` of `unlimited`. -/
theorem getLast_text : ∀ v : LimitValue, ∃ w c, v.text = w ++ [c] ∧ (c = 'd' ∨ c.isDigit = true)
  | .unlimited  => ⟨"unlimite".toList, 'd', rfl, .inl rfl⟩
  | .number n _ => by
    refine ⟨(decimal n).dropLast, (decimal n).getLast (decimal_ne_nil n), ?_, .inr ?_⟩
    · exact (List.dropLast_append_getLast _).symm
    · exact isDigit_of_mem_decimal (List.getLast_mem _)

end LimitValue

/-! ## Names -/

namespace LimitName

theorem trim_key (n : LimitName) : MMap.trim n.key = n.key := by cases n <;> decide

theorem ofKey_trim_blanks (n : LimitName) (k : Nat) : ofKey (MMap.trim (n.key ++ blanks k)) = some n := by
  rw [MMap.trim_append_spaces isSpace_of_mem_blanks, trim_key, ofKey_key]

/-- A name does not end as a value does. -/
theorem getLast_key (n : LimitName) : ∀ c ∈ n.key.getLast?, c ≠ 'd' ∧ c.isDigit = false := by
  have h : n.key.getLast?.all (fun c => c ≠ 'd' && !c.isDigit) = true := by cases n <;> decide
  intro c hc
  rw [hc] at h
  simpa using h

theorem head_key (n : LimitName) (t : List Char) : (n.key ++ t).dropWhile isSpace = n.key ++ t := by cases n <;> rfl

/-- A name with a value behind it is no name. -/
theorem ofKey_trim_value (n : LimitName) (k m : Nat) (v : LimitValue) :
    ofKey (MMap.trim (n.key ++ (blanks k ++ (v.text ++ blanks m)))) = none := by
  obtain ⟨w, c, hw, hc⟩ := v.getLast_text
  have hspace : ¬ isSpace c = true := by
    rw [v.isValue.word.2 c (by simp [hw])]
    exact Bool.false_ne_true
  have htrim : MMap.trim (n.key ++ (blanks k ++ (v.text ++ blanks m))) = n.key ++ (blanks k ++ w) ++ [c] := by
    have hsplit : n.key ++ (blanks k ++ (v.text ++ blanks m)) = n.key ++ (blanks k ++ w ++ [c]) ++ blanks m := by
      simp [hw]
    rw [hsplit, MMap.trim_append_spaces isSpace_of_mem_blanks, MMap.trim, head_key, ← List.append_assoc,
      List.rdropWhile_concat_neg _ _ _ hspace]
  rw [htrim]
  cases h : ofKey (n.key ++ (blanks k ++ w) ++ [c]) with
  | none => rfl
  | some n' =>
    have hlast := n'.getLast_key c (by rw [key_of_ofKey h, List.getLast?_concat]; rfl)
    rcases hc with hd | hdig
    · exact absurd hd hlast.1
    · rw [hdig] at hlast
      cases hlast.2

end LimitName

/-! ## One line -/

namespace LimitRow

variable (r : LimitRow)

/-- The values the line is read for convert. -/
def Converts : Prop := if r.UnitMisread then r.hard.Fits else r.soft.Fits ∧ r.hard.Fits

instance : Decidable r.Converts := inferInstanceAs (Decidable (if r.UnitMisread then _ else _))

/-- The members after the line. -/
def stored (l : Limits) : Limits := if r.UnitMisread then l else Function.update l r.name r.limit

/-- **What a line does**: it stores its limit unless its unit is misread, or throws and stores nothing. -/
theorem run_limitLine (l : Limits) : (limitLine r.text).run l =
    if r.Converts then .ok () (r.stored l) else .error .outOfRange l := by
  unfold limitLine Converts stored
  rw [fullMatch_regexLimits]
  by_cases hu : r.UnitMisread
  · simp only [if_pos hu, LimitName.ofKey_trim_value, LimitValue.limitOf_text]
    by_cases hh : r.hard.Fits
    · simp only [if_pos hh]
      rfl
    · simp only [if_neg hh]
      rfl
  · simp only [if_neg hu, LimitName.ofKey_trim_blanks, LimitValue.limitOf_text]
    by_cases hs : r.soft.Fits
    · by_cases hh : r.hard.Fits
      · simp only [if_pos hs, if_pos hh, if_pos (And.intro hs hh)]
        rfl
      · have hnot : ¬ (r.soft.Fits ∧ r.hard.Fits) := fun h => hh h.2
        simp only [if_pos hs, if_neg hh, if_neg hnot]
        rfl
    · have hnot : ¬ (r.soft.Fits ∧ r.hard.Fits) := fun h => hs h.1
      simp only [if_neg hs, if_neg hnot]
      rfl

theorem stored_of_ne {l : Limits} {n : LimitName} (h : n ≠ r.name) : r.stored l n = l n := by
  rw [stored]
  split
  · rfl
  · exact Function.update_of_ne h _ _

theorem state_limitLine {l : Limits} {n : LimitName} (h : n ≠ r.name) : state ((limitLine r.text).run l) n = l n := by
  rw [run_limitLine]
  split
  · exact r.stored_of_ne h
  · rfl

theorem newline_notMem : '\n' ∉ r.text := by
  have hblanks : ∀ n, '\n' ∉ blanks n := fun n h => absurd (List.eq_of_mem_replicate h) (by decide)
  have hkey : '\n' ∉ r.name.label := by cases r.name <;> decide
  have hcolumn : ∀ v : LimitValue, '\n' ∉ v.column := fun v h => by
    rw [← List.append_nil v.column, v.column_append, List.append_nil, List.mem_append] at h
    rcases h with h | h
    · exact absurd (v.isValue.word.2 _ h) (by decide)
    · exact hblanks _ h
  have hunit : '\n' ∉ r.unit := fun h => absurd (r.letters _ h) (by decide)
  simp only [text, List.mem_append, not_or]
  exact ⟨by decide, hkey, hblanks _, hcolumn _, hcolumn _, hunit, hblanks _⟩

end LimitRow

/-! ## The whole file -/

/-- **The lines of a file** end well exactly when each of them converts, and then each has stored what it stores. -/
theorem run_limitLines : ∀ (rows : List LimitRow) (l l' : Limits),
    ((rows.map LimitRow.text).forM limitLine).run l = .ok () l' ↔
      (∀ r ∈ rows, r.Converts) ∧ l' = rows.foldl (fun l r => r.stored l) l
  | [], l, l' => by
    have hrun : (([].map LimitRow.text).forM limitLine).run l = .ok () l := rfl
    rw [hrun, EStateM.Result.ok.injEq]
    simp [eq_comm]
  | r :: rows, l, l' => by
    rw [List.map_cons, run_forM_cons, EStateM.run_bind, r.run_limitLine, List.forall_mem_cons, List.foldl_cons]
    by_cases h : r.Converts
    · rw [if_pos h]
      exact (run_limitLines rows (r.stored l) l').trans (and_congr_left' (and_iff_right h).symm)
    · rw [if_neg h]
      exact iff_of_false (fun he => by cases he) fun he => h he.1.1

theorem foldl_stored_of_notMem {n : LimitName} : ∀ {rows : List LimitRow} {l : Limits}, n ∉ rows.map LimitRow.name →
    rows.foldl (fun l r => r.stored l) l n = l n
  | [], _, _ => rfl
  | r :: rows, l, h => by
    rw [List.map_cons, List.mem_cons, not_or] at h
    rw [List.foldl_cons, foldl_stored_of_notMem h.2, r.stored_of_ne h.1]

/-- **Each limit ends with what its own line stored.** -/
theorem foldl_stored : ∀ {rows : List LimitRow} {l : Limits}, (rows.map LimitRow.name).Nodup → ∀ r ∈ rows,
    rows.foldl (fun l r => r.stored l) l r.name = if r.UnitMisread then l r.name else r.limit
  | [], _, _, r, hr => absurd hr List.not_mem_nil
  | k :: rows, l, hnd, r, hr => by
    rw [List.map_cons, List.nodup_cons] at hnd
    rw [List.foldl_cons]
    rcases List.mem_cons.1 hr with rfl | hr
    · rw [foldl_stored_of_notMem hnd.1, LimitRow.stored]
      split
      · rfl
      · exact Function.update_self _ _ _
    · have hne : r.name ≠ k.name := fun h => hnd.1 (h ▸ List.mem_map_of_mem hr)
      rw [foldl_stored hnd.2 r hr, k.stored_of_ne hne]

namespace LimitsFile

variable (f : LimitsFile)

theorem nodup_names : (f.rows.map LimitRow.name).Nodup := f.perm.nodup_iff.2 (by decide)

/-- **The reader goes through the lines after the header.** -/
theorem run_readLimits {sys : Sys} {mProcPath : List Char}
    (hf : sys.file (mProcPath ++ "/limits".toList) = some f.text) (l l' : Limits) :
    (readLimits sys mProcPath).run l = .ok () l' ↔
      (∀ r ∈ f.rows, r.Converts) ∧ l' = f.rows.foldl (fun l r => r.stored l) l := by
  have hlines : splitLines '\n' (unlines '\n' (f.rows.map LimitRow.text)) = f.rows.map LimitRow.text :=
    splitLines_unlines '\n' _ (List.forall_mem_map.2 fun r _ => r.newline_notMem)
  rw [← run_limitLines, readLimits, hf, openFile, text, getline_ofText '\n' f.newline_notMem]
  simp only [getlines_ofText, hlines]

/-- **A file is decoded exactly** into given members exactly when every line converts and each limit with a misread unit is
there already. -/
theorem decodesLimits_iff (l : Limits) : DecodesLimits f l ↔
    ∀ r ∈ f.rows, r.Converts ∧ (r.UnitMisread → l r.name = r.limit) := by
  have hfile : (Sys.ofFiles fun _ => some f.text).file ([] ++ "/limits".toList) = some f.text := rfl
  constructor
  · intro h r hr
    obtain ⟨l', hrun, hall⟩ := h.decodes _ [] hfile
    obtain ⟨hconv, rfl⟩ := (f.run_readLimits hfile l l').1 hrun
    refine ⟨hconv r hr, fun hu => ?_⟩
    rw [← hall r hr, foldl_stored f.nodup_names r hr, if_pos hu]
  · intro h
    refine ⟨fun sys path hsys => ⟨_, (f.run_readLimits hsys l _).2 ⟨fun r hr => (h r hr).1, rfl⟩, fun r hr => ?_⟩,
      fun r _ l n hn => r.state_limitLine hn⟩
    rw [foldl_stored f.nodup_names r hr]
    split
    · exact (h r hr).2 ‹_›
    · rfl

end LimitsFile

/-! ## A file that is not decoded -/

/-- Every limit is `unlimited` but the address space, which is limited to 8 GiB. -/
def addressLimited : LimitsFile where
  header := "Limit                     Soft Limit           Hard Limit           Units     ".toList
  newline_notMem := by decide
  rows := LimitName.all.map fun n =>
    { name    := n
      pad     := 0
      soft    := if n = .addressSpace then .number (8 * 2 ^ 30) (by decide) else .unlimited
      hard    := .unlimited
      unit    := "bytes".toList
      letters := List.all_eq_true.1 (by decide : "bytes".toList.all Char.isAlpha = true)
      atEnd   := 5 }
  perm := by decide

/-- The failing input: the limit throws `std::out_of_range`. -/
theorem not_decodesLimits_addressLimited : ¬ DecodesLimits addressLimited (fun _ => ⟨0, 0⟩) := by
  intro h
  obtain ⟨l', hrun, -⟩ := h.decodes (Sys.ofFiles fun _ => some addressLimited.text) [] rfl
  have hconv := ((addressLimited.run_readLimits rfl _ l').1 hrun).1
  exact absurd hconv (by decide)

end SysInfo
