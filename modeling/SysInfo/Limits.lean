import SysInfo.ProcessInfo
/-!
# Limits — `readLimits` and the lines it reads

A line of `/proc/<pid>/limits` is a name, a soft and a hard value, and perhaps a unit.  The expression for it takes as
much as it can for the name, so the name ends where the last two columns that look like values start: a unit that
begins with `unlimited` makes them the hard value and the unit (`fullMatch_regexLimits`).

`Dead`: no rest of a text starts with two columns of values.  It is kept by putting a word before the text, and by
putting blanks before it when no value and column of values follow.
-/
namespace SysInfo

open IStream Re Effects ProcessInfo

/-! ## The members -/

/-- The limits of `limits_t`, in the order in which `readLimits` tests their names. -/
inductive LimitName where
  | cpuTime | fileSize | dataSize | stackSize | coreFileSize | residentSet | processes | openFiles | lockedMemory
  | addressSpace | fileLocks | pendingSignals | msgqueueSize | nicePriority | realtimePriority | realtimeTimeout
deriving Repr, DecidableEq

namespace LimitName

def key : LimitName → List Char
  | .cpuTime          => "cpu time".toList
  | .fileSize         => "file size".toList
  | .dataSize         => "data size".toList
  | .stackSize        => "stack size".toList
  | .coreFileSize     => "core file size".toList
  | .residentSet      => "resident set".toList
  | .processes        => "processes".toList
  | .openFiles        => "open files".toList
  | .lockedMemory     => "locked memory".toList
  | .addressSpace     => "address space".toList
  | .fileLocks        => "file locks".toList
  | .pendingSignals   => "pending signals".toList
  | .msgqueueSize     => "msgqueue size".toList
  | .nicePriority     => "nice priority".toList
  | .realtimePriority => "realtime priority".toList
  | .realtimeTimeout  => "realtime timeout".toList

def all : List LimitName :=
  [.cpuTime, .fileSize, .dataSize, .stackSize, .coreFileSize, .residentSet, .processes, .openFiles, .lockedMemory,
    .addressSpace, .fileLocks, .pendingSignals, .msgqueueSize, .nicePriority, .realtimePriority, .realtimeTimeout]

def ofKey (k : List Char) : Option LimitName := all.find? (fun n => n.key = k)

theorem ofKey_key (n : LimitName) : ofKey n.key = some n := by cases n <;> rfl

theorem key_of_ofKey {k : List Char} {n : LimitName} (h : ofKey k = some n) : n.key = k := by
  simpa using List.find?_some h

end LimitName

/-- `<name>_soft_lmt` and `<name>_hard_lmt`. -/
structure Limit where
  softLmt : Int
  hardLmt : Int
deriving DecidableEq

/-- `limits_t`. -/
abbrev Limits := LimitName → Limit

/-! ## The reader -/

/-- `(unlimited|[[:digit:]]+)`. -/
def limitValue : Re Char := .alt (lit "unlimited".toList) digits

/-- What follows the name. -/
def limitColumns : Re Char := cat [plus isSpace, grp limitValue, plus isSpace, grp limitValue, anyStar]

/-- `^Max\s(.*)\s+(unlimited|[[:digit:]]+)\s+(unlimited|[[:digit:]]+).*$`. -/
def regexLimits : Re Char := cat [chr 'M', chr 'a', chr 'x', blank, grp anyStar, limitColumns]

/-- One limit, an `int`; `-1` for `unlimited`. -/
def limitOf (m : List Char) : Except Exn Int := if m = "unlimited".toList then .ok (-1) else stoi 10 m

def limitLine (line : List Char) : Cpp Limits Unit :=
  match regexLimits.fullMatch line with
  | some [m1, m2, m3] => do
    let softLmt ← lift (limitOf m2)
    let hardLmt ← lift (limitOf m3)
    match LimitName.ofKey (MMap.trim m1) with
    | some n => modify fun l => Function.update l n ⟨softLmt, hardLmt⟩
    | none   => pure ()
  | _ => pure ()

/-- `ProcessInfo::readLimits`, on the members it sets. -/
def readLimits (sys : Sys) (mProcPath : List Char) : Cpp Limits Unit := do
  let ifLimits := openFile (sys.file (mProcPath ++ "/limits".toList))
  -- skip first line
  let (ifLimits, _) := ifLimits.getline '\n' []
  (getlines '\n' ifLimits).forM limitLine

/-! ## Values -/

/-- What the expression takes for a value. -/
def IsValue (v : List Char) : Prop := v = "unlimited".toList ∨ (v ≠ [] ∧ ∀ c ∈ v, c.isDigit = true)

def blanks (n : Nat) : List Char := List.replicate n ' '

theorem isSpace_of_mem_blanks {n : Nat} : ∀ c ∈ blanks n, isSpace c = true := fun c hc => by
  rw [List.eq_of_mem_replicate hc]
  rfl

/-- A text that starts where no word is going on. -/
def Ends (t : List Char) : Prop := ∀ c ∈ t.head?, isSpace c = true

theorem ends_blanks (n : Nat) {t : List Char} (h : Ends t) : Ends (blanks n ++ t) := by
  cases n with
  | zero => exact h
  | succ n => rintro c ⟨⟩; rfl

theorem isSpace_of_mem_unlimited : ∀ c ∈ "unlimited".toList, isSpace c = false := by
  have h : "unlimited".toList.all (!isSpace ·) = true := by decide
  simpa using h

theorem IsValue.word {v : List Char} (h : IsValue v) : v ≠ [] ∧ ∀ c ∈ v, isSpace c = false := by
  rcases h with rfl | ⟨hne, hdig⟩
  · exact ⟨by decide, isSpace_of_mem_unlimited⟩
  · exact ⟨hne, fun c hc => isSpace_of_isDigit (hdig c hc)⟩

/-- A word stands at the head of a text only if it stands at the head of the text's first word. -/
theorem prefix_of_prefix_append {p w t : List Char} (hp : ∀ c ∈ p, isSpace c = false) (ht : Ends t) (h : p <+: w ++ t) :
    p <+: w := by
  rcases List.prefix_or_prefix_of_prefix h (List.prefix_append w t) with h' | ⟨q, rfl⟩
  · exact h'
  · cases q with
    | nil => rw [List.append_nil]
    | cons c q =>
      have hc : t.head? = some c := by
        obtain ⟨r, hr⟩ := List.prefix_append_right_inj w |>.1 h
        rw [← hr]
        rfl
      have hspace := ht c hc
      rw [hp c (by simp)] at hspace
      cases hspace

/-! ## The expression -/

section Columns

variable {r : Re Char} {v w t : List Char}

theorem fullMatch_limitValue_seq (r : Re Char) (s : List Char) : (seq (grp limitValue) r).fullMatch s =
    (if "unlimited".toList <+: s then (r.fullMatch (s.drop 9)).map ("unlimited".toList :: ·) else none).or
      ((seq (grp digits) r).fullMatch s) := by
  rw [limitValue, fullMatch_grp_alt_seq, fullMatch_grp_lit_seq]
  rfl

/-- A value before blanks is taken whole. -/
theorem fullMatch_value_word (hr : Rejects r Char.isDigit ∨ (r.fullMatch t).isSome = true) (hv : IsValue v) (ht : Ends t) :
    (seq (grp limitValue) r).fullMatch (v ++ t) = (r.fullMatch t).map (v :: ·) := by
  have hstop : ∀ c ∈ t.head?, c.isDigit = false := fun c hc => isDigit_of_isSpace (ht c hc)
  rw [fullMatch_limitValue_seq]
  rcases hv with rfl | ⟨hne, hdig⟩
  · rw [if_pos (List.prefix_append _ _), digits, fullMatch_grp_plus_none r fun c hc => by cases hc; rfl, Option.or_none]
    rfl
  · have hnot : ¬ "unlimited".toList <+: v ++ t := by
      obtain ⟨c, v, rfl⟩ := List.exists_cons_of_ne_nil hne
      intro h
      have hc : 'u' = c := (List.cons_prefix_cons.1 h).1
      rw [← hc] at hdig
      exact absurd (hdig 'u' (by simp)) (by decide)
    rw [if_neg hnot, Option.none_or]
    rcases hr with hr | hr
    · exact fullMatch_grp_plus_word hr hne hdig hstop
    · exact fullMatch_grp_plus_word_first hne hdig hstop hr

/-- A word of letters that does not begin with `unlimited` is no value. -/
theorem fullMatch_value_none (r : Re Char) (hw : ∀ c ∈ w, c.isAlpha = true) (ht : Ends t) (h : ¬ "unlimited".toList <+: w) :
    (seq (grp limitValue) r).fullMatch (w ++ t) = none := by
  have hnot : ¬ "unlimited".toList <+: w ++ t := fun hp => h (prefix_of_prefix_append isSpace_of_mem_unlimited ht hp)
  rw [fullMatch_limitValue_seq, if_neg hnot, Option.none_or, digits]
  refine fullMatch_grp_plus_none r fun c hc => ?_
  cases w with
  | nil => exact isDigit_of_isSpace (ht c hc)
  | cons d w =>
    cases hc
    exact isDigit_of_isAlpha (hw c (by simp))

end Columns

/-! ## Two columns -/

/-- What follows the soft value. -/
def hardColumn : Re Char := cat [plus isSpace, grp limitValue, anyStar]

theorem rejects_limitValue (r : Re Char) : Rejects (seq (grp limitValue) r) isSpace := by
  refine Rejects.seq (Rejects.grp fun k c t hc => ?_) r
  have hu : ¬ "unlimited".toList <+: c :: t := fun h => by
    rw [← (List.cons_prefix_cons.1 h).1] at hc
    exact absurd hc (by decide)
  have hd : digits.exec k (c :: t) = none := rejects_plus (fun _ => isDigit_of_isSpace) k c t hc
  rw [limitValue, exec, exec_lit, if_neg hu, hd]
  rfl

theorem rejects_hardColumn : Rejects hardColumn Char.isDigit := (rejects_plus fun _ => isSpace_of_isDigit).seq _

section Blanks

variable (r : Re Char)

/-- A column is read from the first word after at least one blank. -/
theorem fullMatch_blanks_value (s : List Char) :
    (seq (plus isSpace) (seq (grp limitValue) r)).fullMatch s =
      if s.takeWhile isSpace = [] then none else (seq (grp limitValue) r).fullMatch (s.dropWhile isSpace) :=
  fullMatch_plus (rejects_limitValue r) s

theorem fullMatch_blanks_word (n : Nat) {s : List Char} (hs : ∀ c ∈ s.head?, isSpace c = false) :
    (seq (plus isSpace) (seq (grp limitValue) r)).fullMatch (blanks (n + 1) ++ s) =
      (seq (grp limitValue) r).fullMatch s := by
  rw [fullMatch_blanks_value, takeWhile_append_stop isSpace_of_mem_blanks hs,
    dropWhile_append_stop isSpace_of_mem_blanks hs, if_neg (by simp [blanks])]

end Blanks

section Unit

variable {w : List Char} (hw : ∀ c ∈ w, c.isAlpha = true) (n : Nat)

include hw

/-- No column of values starts at a last word of letters. -/
theorem fullMatch_hardColumn_letters : hardColumn.fullMatch (w ++ blanks n) = none := by
  refine (fullMatch_blanks_value _ _).trans ?_
  cases w with
  | nil =>
    have hdrop : (blanks n).dropWhile isSpace = [] := List.dropWhile_eq_nil_iff.2 isSpace_of_mem_blanks
    rw [List.nil_append, hdrop]
    exact ite_eq_left_iff.2 fun _ => rfl
  | cons c w =>
    have hc : ¬ isSpace c = true := by rw [isSpace_of_isAlpha (hw c (by simp))]; exact Bool.false_ne_true
    exact if_pos (List.takeWhile_cons_of_neg hc)

/-- No two columns do. -/
theorem fullMatch_value_letters : (seq (grp limitValue) hardColumn).fullMatch (w ++ blanks n) = none := by
  by_cases h : "unlimited".toList <+: w
  · obtain ⟨u, rfl⟩ := h
    have hrest : hardColumn.fullMatch (u ++ blanks n) = none :=
      fullMatch_hardColumn_letters (fun c hc => hw c (List.mem_append_right _ hc)) n
    rw [List.append_assoc, fullMatch_limitValue_seq, if_pos (List.prefix_append _ _), digits,
      fullMatch_grp_plus_none hardColumn fun c hc => by cases hc; rfl, Option.or_none]
    show (hardColumn.fullMatch (u ++ blanks n)).map _ = none
    rw [hrest]
    rfl
  · exact fullMatch_value_none hardColumn hw (by simpa using ends_blanks n (t := []) (by simp [Ends])) h

end Unit

/-! ## Rests of a line -/

/-- No rest of the text starts with two columns of values. -/
def Dead (t : List Char) : Prop := ∀ u, u <:+ t → limitColumns.fullMatch u = none

namespace Dead

theorem nil : Dead [] := fun u hu => by rw [List.suffix_nil.1 hu]; rfl

theorem cons {c : Char} {t : List Char} (h : Dead t) (hc : limitColumns.fullMatch (c :: t) = none) : Dead (c :: t) :=
  fun u hu => (List.suffix_cons_iff.1 hu).elim (fun e => e ▸ hc) (h u)

/-- A word before the text. -/
theorem word {t : List Char} (h : Dead t) : ∀ {w : List Char}, (∀ c ∈ w, isSpace c = false) → Dead (w ++ t)
  | [], _ => h
  | c :: w, hw => by
    refine cons (h.word fun d hd => hw d (by simp [hd])) ?_
    have hc : ¬ isSpace c = true := by rw [hw c (by simp)]; exact Bool.false_ne_true
    exact (fullMatch_blanks_value _ _).trans (if_pos (List.takeWhile_cons_of_neg hc))

/-- Blanks before it. -/
theorem pad {t : List Char} (h : Dead t)
    (ht : (seq (grp limitValue) hardColumn).fullMatch (t.dropWhile isSpace) = none) :
    ∀ n : Nat, Dead (blanks n ++ t)
  | 0 => h
  | n + 1 => by
    refine cons (pad h ht n) ((fullMatch_blanks_value _ _).trans (ite_eq_left_iff.2 fun _ => ?_))
    have hdrop : (blanks (n + 1) ++ t).dropWhile isSpace = t.dropWhile isSpace :=
      List.dropWhile_append_of_pos isSpace_of_mem_blanks
    exact (congrArg _ hdrop).trans ht

end Dead

/-! ## A line -/

/-- The kernel's text of a value. -/
inductive LimitValue where
  | unlimited
  | number (n : Nat) (lt : n < 2 ^ 63)

namespace LimitValue

def text : LimitValue → List Char
  | .unlimited  => "unlimited".toList
  | .number n _ => decimal n

/-- What the member should hold. -/
def toLong : LimitValue → Int
  | .unlimited  => -1
  | .number n _ => n

/-- `%-20lu `, or the same of a text. -/
def column (v : LimitValue) : List Char := v.text.rightpad 20 ' ' ++ [' ']

theorem isValue : ∀ v : LimitValue, IsValue v.text
  | .unlimited  => .inl rfl
  | .number n _ => .inr ⟨decimal_ne_nil n, fun _ => isDigit_of_mem_decimal⟩

/-- The blanks after a value, besides the one that is always there. -/
def gap (v : LimitValue) : Nat := 20 - v.text.length

theorem column_append (v : LimitValue) (t : List Char) : v.column ++ t = v.text ++ (blanks (v.gap + 1) ++ t) := by
  simp only [column, List.rightpad, gap, blanks, List.replicate_succ', List.append_assoc]

theorem head_column (v : LimitValue) (t : List Char) : ∀ c ∈ (v.column ++ t).head?, isSpace c = false := by
  obtain ⟨hne, hword⟩ := v.isValue.word
  obtain ⟨c, w, hw⟩ := List.exists_cons_of_ne_nil hne
  rw [column_append, hw]
  rintro d ⟨⟩
  exact hword c (by simp [hw])

/-- A column is taken for its value, when what is expected next is a column or nothing. -/
theorem fullMatch_column {r : Re Char} {v : LimitValue} {t : List Char}
    (hr : Rejects r Char.isDigit ∨ (r.fullMatch (blanks (v.gap + 1) ++ t)).isSome = true) :
    (seq (grp limitValue) r).fullMatch (v.column ++ t) = (r.fullMatch (blanks (v.gap + 1) ++ t)).map (v.text :: ·) := by
  rw [column_append]
  exact fullMatch_value_word hr v.isValue fun c hc => by cases hc; rfl

theorem fullMatch_hardColumn (m : Nat) (v : LimitValue) (t : List Char) :
    hardColumn.fullMatch (blanks (m + 1) ++ (v.column ++ t)) = some [v.text] := by
  refine (fullMatch_blanks_word anyStar m (v.head_column t)).trans ?_
  rw [fullMatch_column (.inr (by simp)), fullMatch_anyStar]
  rfl

end LimitValue

/-- The name that proc(5) has for a limit, after `Max`. -/
def LimitName.label : LimitName → List Char
  | .cpuTime          => "cpu time".toList
  | .fileSize         => "file size".toList
  | .dataSize         => "data size".toList
  | .stackSize        => "stack size".toList
  | .coreFileSize     => "core file size".toList
  | .residentSet      => "resident set".toList
  | .processes        => "processes".toList
  | .openFiles        => "open files".toList
  | .lockedMemory     => "locked memory".toList
  | .addressSpace     => "address space".toList
  | .fileLocks        => "file locks".toList
  | .pendingSignals   => "pending signals".toList
  | .msgqueueSize     => "msgqueue size".toList
  | .nicePriority     => "nice priority".toList
  | .realtimePriority => "realtime priority".toList
  | .realtimeTimeout  => "realtime timeout".toList

/-- The code compares with the same names. -/
theorem LimitName.label_eq (n : LimitName) : n.label = n.key := by cases n <;> rfl

/-- A line of the file: the blanks after the name, besides the one that is always there, and at the end. -/
structure LimitRow where
  name    : LimitName
  pad     : Nat
  soft    : LimitValue
  hard    : LimitValue
  unit    : List Char
  letters : ∀ c ∈ unit, c.isAlpha = true
  atEnd   : Nat

namespace LimitRow

def text (r : LimitRow) : List Char :=
  "Max ".toList ++ (r.name.label ++ (blanks (r.pad + 1) ++ (r.soft.column ++ (r.hard.column ++ (r.unit ++ blanks r.atEnd)))))

/-- What the members should hold. -/
def limit (r : LimitRow) : Limit := ⟨r.soft.toLong, r.hard.toLong⟩

/-- The unit is read as a value. -/
def UnitMisread (r : LimitRow) : Prop := "unlimited".toList <+: r.unit

instance (r : LimitRow) : Decidable r.UnitMisread := inferInstanceAs (Decidable ("unlimited".toList <+: r.unit))

variable (r : LimitRow)

theorem dead_unit : Dead (r.unit ++ blanks r.atEnd) := by
  have hend : Dead (blanks r.atEnd) := by
    have h := Dead.nil.pad rfl r.atEnd
    rwa [List.append_nil] at h
  exact hend.word fun c hc => isSpace_of_isAlpha (r.letters c hc)

/-- What is left at the first word is the unit, if there is one. -/
theorem dropWhile_unit : (r.unit ++ blanks r.atEnd).dropWhile isSpace = if r.unit = [] then [] else r.unit ++ blanks r.atEnd := by
  cases hu : r.unit with
  | nil => exact List.dropWhile_eq_nil_iff.2 isSpace_of_mem_blanks
  | cons c w =>
    have hc : ¬ isSpace c = true := by
      rw [isSpace_of_isAlpha (r.letters c (by simp [hu]))]
      exact Bool.false_ne_true
    rw [if_neg (List.cons_ne_nil c w)]
    exact List.dropWhile_cons_of_neg hc

theorem dead_afterHard (n : Nat) : Dead (blanks n ++ (r.unit ++ blanks r.atEnd)) := by
  refine r.dead_unit.pad ?_ n
  rw [dropWhile_unit]
  split
  · rfl
  · exact fullMatch_value_letters r.letters r.atEnd

theorem fullMatch_unit (m : Nat) : hardColumn.fullMatch (blanks (m + 1) ++ (r.unit ++ blanks r.atEnd)) =
    if r.UnitMisread then some ["unlimited".toList] else none := by
  by_cases hu : r.UnitMisread
  · obtain ⟨w, hw⟩ := hu
    have hblanks := fullMatch_blanks_word anyStar m (s := "unlimited".toList ++ (w ++ blanks r.atEnd))
      fun c hc => by cases hc; rfl
    rw [if_pos ⟨w, hw⟩, ← hw, List.append_assoc]
    refine hblanks.trans ?_
    rw [fullMatch_limitValue_seq, if_pos (List.prefix_append _ _), fullMatch_anyStar]
    rfl
  · rw [if_neg hu]
    refine (fullMatch_blanks_value _ _).trans (ite_eq_left_iff.2 fun _ => ?_)
    rw [List.dropWhile_append_of_pos isSpace_of_mem_blanks, dropWhile_unit]
    split
    · rfl
    · exact fullMatch_value_none anyStar r.letters (by simpa using ends_blanks r.atEnd (t := []) (by simp [Ends])) hu

/-- The hard value and the unit are two columns of values when the unit is misread, and otherwise are not. -/
theorem fullMatch_hard : (seq (grp limitValue) hardColumn).fullMatch (r.hard.column ++ (r.unit ++ blanks r.atEnd)) =
    if r.UnitMisread then some [r.hard.text, "unlimited".toList] else none := by
  rw [LimitValue.fullMatch_column (.inl rejects_hardColumn), fullMatch_unit]
  split <;> rfl

theorem dead_hard : Dead (r.hard.column ++ (r.unit ++ blanks r.atEnd)) := by
  rw [LimitValue.column_append]
  exact (r.dead_afterHard _).word r.hard.isValue.word.2

theorem dead_soft (hu : ¬ r.UnitMisread) : Dead (r.soft.column ++ (r.hard.column ++ (r.unit ++ blanks r.atEnd))) := by
  have hdrop : (r.hard.column ++ (r.unit ++ blanks r.atEnd)).dropWhile isSpace =
      r.hard.column ++ (r.unit ++ blanks r.atEnd) :=
    dropWhile_append_stop (w := []) (fun c hc => absurd hc List.not_mem_nil) (r.hard.head_column _)
  rw [LimitValue.column_append]
  refine (r.dead_hard.pad ?_ _).word r.soft.isValue.word.2
  rw [hdrop, fullMatch_hard, if_neg hu]

theorem fullMatch_name {w t : List Char} {caps : List (List Char)} (ht : limitColumns.fullMatch (' ' :: t) = some caps)
    (hdead : Dead t) : regexLimits.fullMatch ("Max ".toList ++ (w ++ ' ' :: t)) = some (w :: caps) := by
  have hname : (seq (grp anyStar) limitColumns).fullMatch (w ++ ' ' :: t) = some (w :: caps) :=
    fullMatch_grp_star_last (fun _ _ => rfl) ht fun u hu hne => hdead u ((List.suffix_cons_iff.1 hu).resolve_left hne)
  simpa [regexLimits, cat, isSpace] using hname

/-- **What the expression takes a line for**: the name, the soft and the hard value, but when the unit is misread the name
and the soft value, the hard value, and the unit. -/
theorem fullMatch_regexLimits : regexLimits.fullMatch r.text =
    if r.UnitMisread then
      some [r.name.key ++ (blanks (r.pad + 1) ++ (r.soft.text ++ blanks r.soft.gap)), r.hard.text, "unlimited".toList]
    else some [r.name.key ++ blanks r.pad, r.soft.text, r.hard.text] := by
  have hsplit : ∀ (n : Nat) (t : List Char), blanks (n + 1) ++ t = blanks n ++ ' ' :: t := fun n t => by
    simp [blanks, List.replicate_succ']
  by_cases hu : r.UnitMisread
  · have hcols : limitColumns.fullMatch (' ' :: (r.hard.column ++ (r.unit ++ blanks r.atEnd))) =
        some [r.hard.text, "unlimited".toList] := by
      refine (fullMatch_blanks_word hardColumn 0 (r.hard.head_column _)).trans ?_
      rw [fullMatch_hard, if_pos hu]
    rw [if_pos hu, ← fullMatch_name hcols r.dead_hard, text, r.name.label_eq,
      LimitValue.column_append r.soft, hsplit r.soft.gap]
    simp only [List.append_assoc]
  · have hcols : limitColumns.fullMatch (' ' :: (r.soft.column ++ (r.hard.column ++ (r.unit ++ blanks r.atEnd)))) =
        some [r.soft.text, r.hard.text] := by
      refine (fullMatch_blanks_word hardColumn 0 (r.soft.head_column _)).trans ?_
      rw [LimitValue.fullMatch_column (.inl rejects_hardColumn), LimitValue.fullMatch_hardColumn]
      rfl
    rw [if_neg hu, ← fullMatch_name hcols (r.dead_soft hu), text, r.name.label_eq, hsplit r.pad,
      List.append_assoc]

end LimitRow

end SysInfo
