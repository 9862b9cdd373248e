import SysInfo.LimitsFile
import SysInfo.Rows
/-!
# LimitsRows — `readLimits` on any text

The expression for a line has more than one way to match: the text it takes for the name goes as far as two columns of
values can still follow.  `LimitsRow` is a line split at that place, and the only split there is
(`fullMatch_regexLimits_iff`).  `readLimits_rows`: whatever the text, the members get the values of its rows, up to the
first one that has a number too large for an `int`, which is where the reader throws.
-/
namespace SysInfo

open IStream Re Effects ProcessInfo

/-! ## Rows -/

/-- A line in the shape of the expression, split where it ends the name. -/
structure LimitsRow where
  first      : Char
  name       : List Char
  sep        : Char
  soft       : List Char
  gap        : List Char
  hard       : List Char
  rest       : List Char
  blanks     : isSpace first = true ∧ isSpace sep = true
  run        : IsRun isSpace gap
  values     : IsValue soft ∧ IsValue hard
  whole      : hard = "unlimited".toList ∨ ∀ c ∈ rest.head?, c.isDigit = false
  last       : Dead (soft ++ (gap ++ (hard ++ rest)))

/-- The value fits into the `int` it is read through. -/
def FitsInt (v : List Char) : Prop := v = "unlimited".toList ∨ readDigits 10 v < 2 ^ 31

instance (v : List Char) : Decidable (FitsInt v) := inferInstanceAs (Decidable (_ ∨ _))

def limitNumber (v : List Char) : Int := if v = "unlimited".toList then -1 else readDigits 10 v

/-- Both columns fit. -/
def BothFit (x : List Char × List Char) : Prop := FitsInt x.1 ∧ FitsInt x.2

instance : DecidablePred BothFit := fun _ => inferInstanceAs (Decidable (_ ∧ _))

def limitNumbers (x : List Char × List Char) : Limit := ⟨limitNumber x.1, limitNumber x.2⟩

namespace LimitsRow

variable (r : LimitsRow)

def line : List Char := 'M' :: 'a' :: 'x' :: r.first :: (r.name ++ r.sep :: (r.soft ++ (r.gap ++ (r.hard ++ r.rest))))

/-- The limit the row is about, if it is one of the sixteen. -/
def limitName : Option LimitName := LimitName.ofKey (MMap.trim r.name)

def InRange : Prop := BothFit (r.soft, r.hard)

instance : DecidablePred InRange := fun _ => inferInstanceAs (Decidable (BothFit _))

def limit : Limit := limitNumbers (r.soft, r.hard)

end LimitsRow

/-! ## The expression -/

section Expression

variable {s : List Char} {caps : List (List Char)}

theorem not_unlimited_of_digits {v : List Char} (h : IsRun Char.isDigit v) (t : List Char) :
    ¬ "unlimited".toList <+: v ++ t := by
  obtain ⟨c, w, rfl⟩ := List.exists_cons_of_ne_nil h.1
  intro hp
  have hc : 'u' = c := (List.cons_prefix_cons.1 hp).1
  exact absurd (h.2 c List.mem_cons_self) (by rw [← hc]; decide)

/-- The last value is `unlimited` or the longest run of digits. -/
theorem fullMatch_value_anyStar_iff : (seq (grp limitValue) anyStar).fullMatch s = some caps ↔
    ∃ v t, s = v ++ t ∧ caps = [v] ∧ IsValue v ∧ (v = "unlimited".toList ∨ ∀ c ∈ t.head?, c.isDigit = false) := by
  rw [fullMatch_limitValue_seq]
  constructor
  · intro h
    split at h
    · next hu =>
      obtain ⟨t, rfl⟩ := hu
      rw [fullMatch_anyStar] at h
      exact ⟨_, t, rfl, (Option.some.inj h).symm, .inl rfl, .inl rfl⟩
    · obtain ⟨v, t, rfl, rfl, hv, ht⟩ := fullMatch_grp_plus_anyStar_iff.1 h
      exact ⟨v, t, rfl, rfl, .inr hv, .inr ht⟩
  · rintro ⟨v, t, rfl, rfl, rfl | hv, ht⟩
    · rw [if_pos (List.prefix_append _ _), fullMatch_anyStar]
      rfl
    · have hnot := not_unlimited_of_digits hv
      have hstop := ht.resolve_left fun hu => hnot [] (by rw [hu]; exact List.prefix_append _ _)
      rw [if_neg (hnot t)]
      exact fullMatch_grp_plus_anyStar_iff.2 ⟨v, t, rfl, rfl, hv, hstop⟩

theorem fullMatch_value_hard_iff : (seq (grp limitValue) hardColumn).fullMatch s = some caps ↔
    ∃ v t caps', s = v ++ t ∧ caps = v :: caps' ∧ IsValue v ∧ hardColumn.fullMatch t = some caps' := by
  constructor
  · intro h
    rw [fullMatch_limitValue_seq] at h
    split at h
    · next hu =>
      obtain ⟨t, rfl⟩ := hu
      have hnone : (seq (grp digits) hardColumn).fullMatch ("unlimited".toList ++ t) = none :=
        fullMatch_grp_plus_none hardColumn fun c hc => by cases hc; rfl
      rw [hnone, Option.or_none] at h
      obtain ⟨caps', ht, rfl⟩ := Option.map_eq_some_iff.1 h
      exact ⟨_, t, caps', rfl, rfl, .inl rfl, ht⟩
    · obtain ⟨v, t, caps', rfl, rfl, hv, ht⟩ := (fullMatch_grp_plus_iff rejects_hardColumn).1 h
      exact ⟨v, t, caps', rfl, rfl, .inr hv, ht⟩
  · rintro ⟨v, t, caps', rfl, rfl, hv, ht⟩
    have hends : Ends t := by
      obtain ⟨g, u, rfl, hg, -⟩ := (fullMatch_plus_iff (rejects_limitValue anyStar)).1 ht
      obtain ⟨c, g, rfl⟩ := List.exists_cons_of_ne_nil hg.1
      rintro d ⟨⟩
      exact hg.2 _ List.mem_cons_self
    rw [fullMatch_value_word (.inl rejects_hardColumn) hv hends, ht]
    rfl

/-- Two columns: blanks, a value, blanks, a value. -/
theorem fullMatch_limitColumns_iff : limitColumns.fullMatch s = some caps ↔
    ∃ sep soft gap hard rest, s = sep ++ (soft ++ (gap ++ (hard ++ rest))) ∧ caps = [soft, hard] ∧ IsRun isSpace sep ∧
      IsRun isSpace gap ∧ IsValue soft ∧ IsValue hard ∧
      (hard = "unlimited".toList ∨ ∀ c ∈ rest.head?, c.isDigit = false) := by
  refine (fullMatch_plus_iff (rejects_limitValue hardColumn)).trans ?_
  constructor
  · rintro ⟨sep, _, rfl, hsep, hmatch⟩
    obtain ⟨soft, _, _, rfl, rfl, hsoft, hmatch⟩ := fullMatch_value_hard_iff.1 hmatch
    obtain ⟨gap, _, rfl, hgap, hmatch⟩ := (fullMatch_plus_iff (rejects_limitValue anyStar)).1 hmatch
    obtain ⟨hard, rest, rfl, rfl, hhard, hwhole⟩ := fullMatch_value_anyStar_iff.1 hmatch
    exact ⟨sep, soft, gap, hard, rest, rfl, rfl, hsep, hgap, hsoft, hhard, hwhole⟩
  · rintro ⟨sep, soft, gap, hard, rest, rfl, rfl, hsep, hgap, hsoft, hhard, hwhole⟩
    have hmatch := fullMatch_value_anyStar_iff.2 ⟨hard, rest, rfl, rfl, hhard, hwhole⟩
    have hcolumn := (fullMatch_plus_iff (rejects_limitValue anyStar)).2 ⟨gap, _, rfl, hgap, hmatch⟩
    exact ⟨sep, _, rfl, hsep, fullMatch_value_hard_iff.2 ⟨soft, _, _, rfl, rfl, hsoft, hcolumn⟩⟩

/-- **The expression splits a line in one way.** -/
theorem fullMatch_regexLimits_iff :
    regexLimits.fullMatch s = some caps ↔ ∃ r : LimitsRow, s = r.line ∧ caps = [r.name, r.soft, r.hard] := by
  simp only [regexLimits, cat, fullMatch_chr_iff, fullMatch_blank_iff, fullMatch_grp_anyStar_seq_iff]
  constructor
  · rintro ⟨_, rfl, _, rfl, _, rfl, first, _, rfl, hfirst, name, _, _, rfl, rfl, hcolumns, hlast⟩
    obtain ⟨sep, soft, gap, hard, rest, rfl, rfl, hsep, hgap, hsoft, hhard, hwhole⟩ := fullMatch_limitColumns_iff.1 hcolumns
    obtain ⟨c, sep, rfl⟩ := List.exists_cons_of_ne_nil hsep.1
    have hproper : ∀ u, u <:+ sep ++ (soft ++ (gap ++ (hard ++ rest))) → limitColumns.fullMatch u = none := by
      intro u hu
      refine hlast u (hu.trans (List.suffix_cons c _)) fun he => ?_
      have hlen := hu.length_le
      rw [he, List.cons_append, List.length_cons] at hlen
      omega
    -- a second blank would leave two columns behind a longer name
    obtain rfl : sep = [] := by
      by_contra hne
      have hrun : IsRun isSpace sep := ⟨hne, fun d hd => hsep.2 d (List.mem_cons_of_mem c hd)⟩
      have hsome := fullMatch_limitColumns_iff.2 ⟨sep, soft, gap, hard, rest, rfl, rfl, hrun, hgap, hsoft, hhard, hwhole⟩
      rw [hproper _ List.suffix_rfl] at hsome
      cases hsome
    exact ⟨⟨first, name, c, soft, gap, hard, rest, ⟨hfirst, hsep.2 c List.mem_cons_self⟩, hgap, ⟨hsoft, hhard⟩, hwhole,
      hproper⟩, rfl, rfl⟩
  · rintro ⟨r, rfl, rfl⟩
    have hcolumns := fullMatch_limitColumns_iff.2 ⟨[r.sep], r.soft, r.gap, r.hard, r.rest, rfl, rfl,
      ⟨List.cons_ne_nil _ _, fun d hd => List.mem_singleton.1 hd ▸ r.blanks.2⟩, r.run, r.values.1, r.values.2, r.whole⟩
    refine ⟨_, rfl, _, rfl, _, rfl, r.first, _, rfl, r.blanks.1, r.name, _, _, rfl, rfl, hcolumns, fun u hu hne => ?_⟩
    exact r.last u ((List.suffix_cons_iff.1 hu).resolve_left hne)

end Expression

/-! ## The reader -/

theorem limitOf_value {v : List Char} (h : IsValue v) :
    limitOf v = if FitsInt v then .ok (limitNumber v) else .error .outOfRange := by
  unfold limitOf limitNumber
  by_cases hu : v = "unlimited".toList
  · have hfits : FitsInt v := .inl hu
    rw [if_pos hu, if_pos hu, if_pos hfits]
  · have hfits : readDigits 10 v < 2 ^ 31 ↔ FitsInt v := (or_iff_right hu).symm
    rw [if_neg hu, if_neg hu, stoi_of_run 10 (isRun_isBaseDigit 10 (h.resolve_left hu))]
    exact if_congr hfits rfl rfl

/-- The two values of a line, converted. -/
def limitPair (x : List Char × List Char) : Except Exn Limit := do
  let softLmt ← limitOf x.1
  let hardLmt ← limitOf x.2
  return ⟨softLmt, hardLmt⟩

def storeLimit (n : Option LimitName) (x : Limit) (l : Limits) : Limits :=
  match n with
  | some n => Function.update l n x
  | none   => l

def limitEntries (line : List Char) : List (Option LimitName × List Char × List Char) :=
  match regexLimits.fullMatch line with
  | some [m1, m2, m3] => [(LimitName.ofKey (MMap.trim m1), m2, m3)]
  | _ => []

/-- A line stores its limit once both values have converted. -/
theorem limitLine_eq (line : List Char) : limitLine line = storeAll limitPair storeLimit (limitEntries line) := by
  unfold limitLine limitEntries
  rcases regexLimits.fullMatch line with _ | _ | ⟨m1, _ | ⟨m2, _ | ⟨m3, _ | _⟩⟩⟩
  · rfl
  · rfl
  · rfl
  · rfl
  · rw [storeAll_singleton]
    unfold limitPair storeLimit
    dsimp only
    cases limitOf m2 with
    | error e => rfl
    | ok softLmt =>
      cases limitOf m3 with
      | error e => rfl
      | ok hardLmt => cases LimitName.ofKey (MMap.trim m1) <;> rfl
  · rfl

theorem LimitsRow.limitEntries_line (r : LimitsRow) : limitEntries r.line = [(r.limitName, r.soft, r.hard)] := by
  rw [limitEntries, fullMatch_regexLimits_iff.2 ⟨r, rfl, rfl⟩]
  rfl

theorem limitEntries_other {l : List Char} (h : ∀ r : LimitsRow, r.line ≠ l) : limitEntries l = [] := by
  have hnone : regexLimits.fullMatch l = none := by
    rw [Option.eq_none_iff_forall_ne_some]
    intro caps hcaps
    obtain ⟨r, rfl, -⟩ := fullMatch_regexLimits_iff.1 hcaps
    exact h r rfl
  rw [limitEntries, hnone]

theorem LimitsRow.limitPair_values (r : LimitsRow) :
    limitPair (r.soft, r.hard) = if r.InRange then .ok r.limit else .error .outOfRange := by
  rw [limitPair, limitOf_value r.values.1, limitOf_value r.values.2]
  by_cases hs : FitsInt r.soft
  · by_cases hh : FitsInt r.hard
    · have hin : r.InRange := ⟨hs, hh⟩
      rw [if_pos hs, if_pos hh, if_pos hin]
      rfl
    · have hin : ¬ r.InRange := fun h => hh h.2
      rw [if_pos hs, if_neg hh, if_neg hin]
      rfl
  · have hin : ¬ r.InRange := fun h => hs h.1
    rw [if_neg hs, if_neg hin]
    rfl

theorem flatMap_limitEntries_rows {ls : List (List Char)} {rows : List LimitsRow} (h : Rows LimitsRow.line ls rows) :
    ls.flatMap limitEntries = rows.map fun r => (r.limitName, r.soft, r.hard) := by
  induction h with
  | nil => rfl
  | row r h ih => rw [List.flatMap_cons, r.limitEntries_line, ih, List.map_cons, List.singleton_append]
  | other hl h ih => rw [List.flatMap_cons, limitEntries_other hl, ih, List.nil_append]

theorem foldl_storeLimit (n : LimitName) : ∀ (xs : List (Option LimitName × Limit)) (l : Limits),
    xs.foldl (fun l x => storeLimit x.1 x.2 l) l n = (lastFor (some n) xs).getD (l n)
  | [], _ => rfl
  | (k, x) :: xs, l => by
    rw [List.foldl_cons, foldl_storeLimit n xs, lastFor]
    cases lastFor (some n) xs with
    | some y => rfl
    | none =>
      cases k with
      | none => rfl
      | some m =>
        by_cases h : m = n
        · subst h
          simp [storeLimit]
        · simp [storeLimit, h, Function.update_of_ne (Ne.symm h)]

/-- **`readLimits` on any text** sets the members of its rows, in order, up to the first one with a number that is no `int`. -/
theorem readLimits_rows (sys : Sys) (mProcPath : List Char) (l : Limits) :
    ∃ rows, Rows LimitsRow.line
        (getlines '\n' ((openFile (sys.file (mProcPath ++ "/limits".toList))).getline '\n' []).1) rows ∧
      value ((readLimits sys mProcPath).run l) = (if ∀ r ∈ rows, r.InRange then .ok () else .error .outOfRange) ∧
      ∀ n, state ((readLimits sys mProcPath).run l) n =
        (lastFor (some n) ((rows.takeWhile LimitsRow.InRange).map fun r => (r.limitName, r.limit))).getD (l n) := by
  obtain ⟨rows, hrows⟩ := Rows.exists LimitsRow.line
    (getlines '\n' ((openFile (sys.file (mProcPath ++ "/limits".toList))).getline '\n' []).1)
  have hread : (readLimits sys mProcPath).run l =
      (storeAll limitPair storeLimit (rows.map fun r => (r.limitName, r.soft, r.hard))).run l := by
    rw [← flatMap_limitEntries_rows hrows, storeAll, forM_flatMap]
    show ((List.forM _ limitLine).run l) = _
    rw [funext limitLine_eq]
    rfl
  have hpair : ∀ x ∈ rows.map fun r => (r.limitName, r.soft, r.hard), limitPair x.2 =
      if BothFit x.2 then .ok (limitNumbers x.2) else .error .outOfRange := by
    intro x hx
    obtain ⟨r, -, rfl⟩ := List.mem_map.1 hx
    exact r.limitPair_values
  have hall : (∀ x ∈ rows.map fun r => (r.limitName, r.soft, r.hard), BothFit x.2) ↔ ∀ r ∈ rows, r.InRange :=
    List.forall_mem_map
  refine ⟨rows, hrows, ?_, fun n => ?_⟩
  · rw [hread, value_storeAll, firstFault_of_ite BothFit limitNumbers hpair, if_congr hall rfl rfl]
    split <;> rfl
  · rw [hread, state_storeAll, converted_of_ite BothFit limitNumbers hpair, foldl_storeLimit, List.takeWhile_map,
      List.map_map]
    rfl

end SysInfo
