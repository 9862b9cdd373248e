import SysInfo.Rows
import SysInfo.StatusFile
/-!
# StatusRows — `readStatus` on every text

A row is a line that stores numbers: four ids under `Uid` or `Gid`, or a size in kB under one of its keys.  Whatever the
file holds, its rows decide what a read does (`readStatus_rows`): their numbers are stored in order, ids behind the ids
that are there and sizes over each other, up to the first one that is no `int`; that one is thrown, and everything before
it stays.
-/
namespace SysInfo

open IStream Effects ProcessInfo Re

/-! ## Rows -/

/-- `Uid` or `Gid` with four numbers, each behind blanks. -/
structure IdRow where
  kind    : IdKind
  columns : List (List Char × List Char)
  trail   : List Char
  four    : columns.length = 4
  gaps    : ∀ x ∈ columns, IsRun isSpace x.1 ∧ '\n' ∉ x.1
  digits  : ∀ x ∈ columns, IsRun Char.isDigit x.2
  blanks  : (∀ c ∈ trail, isSpace c = true) ∧ '\n' ∉ trail

namespace IdRow

variable (r : IdRow)

def value : List Char := r.columns.foldr (fun x s => x.1 ++ (x.2 ++ s)) r.trail

def line : List Char := r.kind.key ++ ':' :: r.value

def ids : List (List Char) := r.columns.map Prod.snd

end IdRow

/-- A size with its unit. -/
structure VmRow where
  field  : VmField
  gap    : List Char
  size   : List Char
  blank  : Char
  trail  : List Char
  gaps   : IsRun isSpace gap ∧ '\n' ∉ gap
  digits : IsRun Char.isDigit size
  unit   : isSpace blank = true ∧ blank ≠ '\n'
  blanks : (∀ c ∈ trail, isSpace c = true) ∧ '\n' ∉ trail

namespace VmRow

variable (r : VmRow)

def value : List Char := r.gap ++ (r.size ++ r.blank :: 'k' :: 'B' :: r.trail)

def line : List Char := r.field.key ++ ':' :: r.value

end VmRow

inductive StatusRow where
  | ids (r : IdRow)
  | vm (r : VmRow)

namespace StatusRow

def line : StatusRow → List Char
  | .ids r => r.line
  | .vm r  => r.line

/-- The numbers of a row, as they are written. -/
def columns : StatusRow → List (StatusMember × List Char)
  | .ids r => r.ids.map (r.kind.member, ·)
  | .vm r  => [(.vm r.field, r.size)]

end StatusRow

/-- What columns of digits are read as. -/
def readColumns (xs : List (StatusMember × List Char)) : List (StatusMember × Nat) :=
  xs.map fun x => (x.1, readDigits 10 x.2)

def StatusRow.numbers (r : StatusRow) : List (StatusMember × Nat) := readColumns r.columns

theorem newline_notMem_digits {w : List Char} (h : IsRun Char.isDigit w) : '\n' ∉ w := fun hn => by
  have hd := h.2 _ hn
  revert hd
  decide

/-! ## The expressions -/

/-- A run of blanks and the number behind it. -/
theorem fullMatch_gap_digits_iff {r : Re Char} (hr : Rejects r Char.isDigit) {s : List Char} {caps : List (List Char)} :
    (seq (plus isSpace) (seq (grp digits) r)).fullMatch s = some caps ↔
      ∃ g w t caps', s = g ++ (w ++ t) ∧ caps = w :: caps' ∧ IsRun isSpace g ∧ IsRun Char.isDigit w ∧
        r.fullMatch t = some caps' := by
  rw [fullMatch_plus_iff (rejects_digits_isSpace.seq r)]
  simp only [digits, fullMatch_grp_plus_iff hr]
  constructor
  · rintro ⟨g, _, rfl, hg, w, t, caps', rfl, rfl, hw, ht⟩
    exact ⟨g, w, t, caps', rfl, rfl, hg, hw, ht⟩
  · rintro ⟨g, w, t, caps', rfl, rfl, hg, hw, ht⟩
    exact ⟨g, _, rfl, hg, w, t, caps', rfl, rfl, hw, ht⟩

theorem fullMatch_gap_digits_blanks_iff {s : List Char} {caps : List (List Char)} :
    (seq (plus isSpace) (seq (grp digits) (.star isSpace))).fullMatch s = some caps ↔
      ∃ g w t, s = g ++ (w ++ t) ∧ caps = [w] ∧ IsRun isSpace g ∧ IsRun Char.isDigit w ∧ ∀ c ∈ t, isSpace c = true := by
  have hspace : ∀ c, c.isDigit = true → isSpace c = false := fun c => isSpace_of_isDigit
  rw [fullMatch_plus_iff (rejects_digits_isSpace.seq _)]
  simp only [digits, fullMatch_grp_plus_star_iff hspace]
  constructor
  · rintro ⟨g, _, rfl, hg, w, t, rfl, rfl, hw, ht⟩
    exact ⟨g, w, t, rfl, rfl, hg, hw, ht⟩
  · rintro ⟨g, w, t, rfl, rfl, hg, hw, ht⟩
    exact ⟨g, _, rfl, hg, w, t, rfl, rfl, hw, ht⟩

theorem fullMatch_regexUids_iff (kind : IdKind) {s : List Char} (hs : '\n' ∉ s) {caps : List (List Char)} :
    regexUids.fullMatch s = some caps ↔ ∃ r : IdRow, r.kind = kind ∧ s = r.value ∧ caps = r.ids := by
  have hrej : ∀ r : Re Char, Rejects (seq (plus isSpace) r) Char.isDigit := fun r =>
    (rejects_plus fun c hc => isSpace_of_isDigit hc).seq r
  simp only [regexUids, cat, fullMatch_gap_digits_iff (hrej _), fullMatch_gap_digits_blanks_iff]
  constructor
  · rintro ⟨g0, w0, _, _, rfl, rfl, hg0, hw0, g1, w1, _, _, rfl, rfl, hg1, hw1, g2, w2, _, _, rfl, rfl, hg2, hw2,
      g3, w3, t, rfl, rfl, hg3, hw3, ht⟩
    simp only [List.mem_append, not_or] at hs
    obtain ⟨n0, -, n1, -, n2, -, n3, -, nt⟩ := hs
    refine ⟨⟨kind, [(g0, w0), (g1, w1), (g2, w2), (g3, w3)], t, rfl, ?_, ?_, ht, nt⟩, rfl, rfl, rfl⟩
    · simp only [List.forall_mem_cons]
      exact ⟨⟨hg0, n0⟩, ⟨hg1, n1⟩, ⟨hg2, n2⟩, ⟨hg3, n3⟩, fun x hx => absurd hx List.not_mem_nil⟩
    · simp only [List.forall_mem_cons]
      exact ⟨hw0, hw1, hw2, hw3, fun x hx => absurd hx List.not_mem_nil⟩
  · rintro ⟨⟨k, columns, t, four, gaps, digits, blanks⟩, -, rfl, rfl⟩
    obtain ⟨c0, c1, c2, c3, rfl⟩ := List.length_eq_four.1 four
    simp only [List.forall_mem_cons] at gaps digits
    obtain ⟨⟨hg0, -⟩, ⟨hg1, -⟩, ⟨hg2, -⟩, ⟨hg3, -⟩, -⟩ := gaps
    obtain ⟨hw0, hw1, hw2, hw3, -⟩ := digits
    exact ⟨c0.1, c0.2, _, _, rfl, rfl, hg0, hw0, c1.1, c1.2, _, _, rfl, rfl, hg1, hw1, c2.1, c2.2, _, _, rfl, rfl, hg2,
      hw2, c3.1, c3.2, t, rfl, rfl, hg3, hw3, blanks.1⟩

theorem fullMatch_regexVm_iff {f : VmField} {s : List Char} (hs : '\n' ∉ s) {caps : List (List Char)} :
    regexVm.fullMatch s = some caps ↔ ∃ r : VmRow, r.field = f ∧ s = r.value ∧ caps = [r.size] := by
  simp only [regexVm, cat, fullMatch_gap_digits_iff (rejects_blank_isDigit.seq _), fullMatch_blank_iff, fullMatch_chr_iff,
    fullMatch_star_iff]
  constructor
  · rintro ⟨g, w, _, _, rfl, rfl, hg, hw, c, _, rfl, hc, _, rfl, t, rfl, rfl, ht⟩
    simp only [List.mem_append, List.mem_cons, not_or] at hs
    obtain ⟨ng, -, nc, -, -, nt⟩ := hs
    exact ⟨⟨f, g, w, c, t, ⟨hg, ng⟩, hw, ⟨hc, Ne.symm nc⟩, ht, nt⟩, rfl, rfl, rfl⟩
  · rintro ⟨r, -, rfl, rfl⟩
    exact ⟨r.gap, r.size, _, _, rfl, rfl, r.gaps.1, r.digits, r.blank, _, rfl, r.unit.1, _, rfl, r.trail, rfl, rfl,
      r.blanks.1⟩

/-! ## Lines -/

/-- A line has a key and a value when it has a colon, and no value otherwise. -/
theorem keyValue_cases {l : List Char} (h : '\n' ∉ l) :
    (∃ key v, l = key ++ ':' :: v ∧ '\n' ∉ v ∧ keyValue ':' l = (key, v)) ∨ (keyValue ':' l).2 = [] := by
  by_cases hc : ':' ∈ l
  · obtain ⟨key, v, rfl, hkey⟩ := List.eq_append_cons_of_mem hc
    simp only [List.mem_append, List.mem_cons, not_or] at h
    have hv : v.takeWhile (· ≠ '\n') = v := takeWhile_all fun c hcv => decide_eq_true fun e => h.2.2 (e ▸ hcv)
    exact .inl ⟨key, v, rfl, h.2.2, by rw [keyValue_append hkey, hv]⟩
  · have hd : l.dropWhile (· ≠ ':') = [] :=
      List.dropWhile_eq_nil_iff.2 fun c hcl => decide_eq_true fun e => hc (e ▸ hcl)
    refine .inr ?_
    simp only [keyValue, getline, good_ofText, if_true, rest_ofText, hd]
    rfl

theorem keyValue_append_line {key v : List Char} (hk : ':' ∉ key) (hv : '\n' ∉ v) :
    keyValue ':' (key ++ ':' :: v) = (key, v) := by
  have htake : v.takeWhile (· ≠ '\n') = v := takeWhile_all fun c hc => decide_eq_true fun e => hv (e ▸ hc)
  rw [keyValue_append hk, htake]

theorem IdRow.newline_notMem_value (r : IdRow) : '\n' ∉ r.value := by
  have hcolumns : ∀ xs : List (List Char × List Char), (∀ x ∈ xs, x ∈ r.columns) →
      '\n' ∉ xs.foldr (fun x s => x.1 ++ (x.2 ++ s)) r.trail := by
    intro xs
    induction xs with
    | nil => exact fun _ => r.blanks.2
    | cons x xs ih =>
      intro h
      obtain ⟨hx, hxs⟩ := List.forall_mem_cons.1 h
      simp only [List.foldr_cons, List.mem_append, (r.gaps x hx).2, newline_notMem_digits (r.digits x hx), ih hxs,
        or_self, not_false_eq_true]
  exact hcolumns r.columns fun x hx => hx

theorem VmRow.newline_notMem_value (r : VmRow) : '\n' ∉ r.value := by
  simp only [value, List.mem_append, List.mem_cons, r.gaps.2, newline_notMem_digits r.digits, r.unit.2.symm, r.blanks.2,
    or_false, false_or]
  decide

namespace StatusRow

/-- **A row gives its columns.** -/
theorem statusNumbers_line (r : StatusRow) : statusNumbers r.line = r.columns := by
  cases r with
  | ids r =>
    have hm := (fullMatch_regexUids_iff r.kind r.newline_notMem_value).2 ⟨r, rfl, rfl, rfl⟩
    rw [statusNumbers, line, IdRow.line, keyValue_append_line r.kind.key_chars.1 r.newline_notMem_value]
    simp only [hm, Option.getD_some]
    cases hk : r.kind with
    | uid => simp only [columns, hk]; exact if_pos rfl
    | gid => simp only [columns, hk]; exact (if_neg (by decide)).trans (if_pos rfl)
  | vm r =>
    have hm := (fullMatch_regexVm_iff r.newline_notMem_value).2 ⟨r, rfl, rfl, rfl⟩
    rw [statusNumbers, line, VmRow.line, keyValue_append_line r.field.key_chars.1 r.newline_notMem_value]
    simp only [hm, StatusLine.ofKey_key, if_neg (StatusLine.vm_key_ne r.field).1, if_neg (StatusLine.vm_key_ne r.field).2]
    rfl

theorem ids_of_fullMatch (kind : IdKind) {v : List Char} {caps : List (List Char)} (hv : '\n' ∉ v)
    (h : regexUids.fullMatch v = some caps) : ∃ r : StatusRow, r.line = kind.key ++ ':' :: v := by
  obtain ⟨r, rfl, hr, -⟩ := (fullMatch_regexUids_iff kind hv).1 h
  subst hr
  exact ⟨.ids r, rfl⟩

/-- Any other line of a text gives none. -/
theorem statusNumbers_other {l : List Char} (hl : '\n' ∉ l) (h : ∀ r : StatusRow, r.line ≠ l) : statusNumbers l = [] := by
  have hids : regexUids.fullMatch [] = none := rfl
  have hvm : regexVm.fullMatch [] = none := rfl
  rw [statusNumbers]
  rcases keyValue_cases hl with ⟨key, v, rfl, hv, hkv⟩ | hnone
  · simp only [hkv]
    have hnoIds : ∀ kind : IdKind, key = kind.key → regexUids.fullMatch v = none := fun kind hk => by
      rw [Option.eq_none_iff_forall_ne_some]
      intro caps hcaps
      obtain ⟨r, hr⟩ := ids_of_fullMatch kind hv hcaps
      exact h r (by rw [hr, hk])
    split
    · next hk => rw [hnoIds .uid hk]; rfl
    split
    · next hk => rw [hnoIds .gid hk]; rfl
    split
    · next f hf =>
      have hkey : f.key = key := by
        have hfind := List.find?_some hf
        simpa using hfind
      have hnoVm : regexVm.fullMatch v = none := by
        rw [Option.eq_none_iff_forall_ne_some]
        intro caps hcaps
        obtain ⟨r, hr, rfl, -⟩ := (fullMatch_regexVm_iff (f := f) hv).1 hcaps
        exact h (.vm r) (by rw [line, VmRow.line, hr, hkey])
      rw [hnoVm]
    · rfl
  · obtain ⟨key, v, hkv⟩ : ∃ key v, keyValue ':' l = (key, v) := ⟨_, _, rfl⟩
    rw [hkv] at hnone
    obtain rfl : v = [] := hnone
    simp only [hkv, hids, hvm, Option.getD_none, List.map_nil]
    cases VmField.ofKey key <;> simp

end StatusRow

/-! ## The file -/

theorem flatMap_statusNumbers_rows {ls : List (List Char)} {rows : List StatusRow} (hls : ∀ l ∈ ls, '\n' ∉ l)
    (h : Rows StatusRow.line ls rows) : ls.flatMap statusNumbers = rows.flatMap StatusRow.columns := by
  induction h with
  | nil => rfl
  | row r h ih =>
    rw [List.flatMap_cons, List.flatMap_cons, r.statusNumbers_line, ih fun l hl => hls l (by simp [hl])]
  | @other l ls rs hl h ih =>
    rw [List.flatMap_cons, StatusRow.statusNumbers_other (hls l (by simp)) hl, ih fun l hl => hls l (by simp [hl])]
    rfl

theorem isRun_of_mem_columns {r : StatusRow} : ∀ x ∈ r.columns, IsRun Char.isDigit x.2 := by
  cases r with
  | ids r =>
    intro x hx
    simp only [StatusRow.columns, IdRow.ids, List.map_map, List.mem_map] at hx
    obtain ⟨y, hy, rfl⟩ := hx
    exact r.digits y hy
  | vm r =>
    intro x hx
    obtain rfl := List.mem_singleton.1 hx
    exact r.digits

/-- Columns convert up to the first one that is no `int`. -/
theorem converted_columns {xs : List (StatusMember × List Char)} (h : ∀ x ∈ xs, IsRun Char.isDigit x.2) :
    converted (stoi 10) xs = ((readColumns xs).takeWhile (·.2 < 2 ^ 31)).map fun x => (x.1, (x.2 : Int)) := by
  have hconv := converted_of_ite (readDigits 10 · < 2 ^ 31) (fun w => (readDigits 10 w : Int)) fun x hx =>
    stoi_of_run 10 (isRun_isBaseDigit 10 (h x hx))
  rw [hconv, readColumns, List.takeWhile_map, List.map_map]
  rfl

theorem firstFault_columns {xs : List (StatusMember × List Char)} (h : ∀ x ∈ xs, IsRun Char.isDigit x.2) :
    firstFault (stoi 10) xs = if ∀ x ∈ readColumns xs, x.2 < 2 ^ 31 then none else some .outOfRange := by
  have hfault := firstFault_of_ite (readDigits 10 · < 2 ^ 31) (fun w => (readDigits 10 w : Int)) fun x hx =>
    stoi_of_run 10 (isRun_isBaseDigit 10 (h x hx))
  rw [hfault]
  exact if_congr (by rw [readColumns, List.forall_mem_map]) rfl rfl

/-- Numbers put into the object one after the other. -/
def ProcessInfo.storeNumbers (p : ProcessInfo) (xs : List (StatusMember × Nat)) : ProcessInfo :=
  { p with
    mUids := p.mUids ++ (xs.filter (·.1 = .uid)).map fun x => (x.2 : Int)
    mGids := p.mGids ++ (xs.filter (·.1 = .gid)).map fun x => (x.2 : Int)
    mVm := fun f => ((lastFor (.vm f) xs).map UInt64.ofNat).getD (p.mVm f) }

theorem lastFor_map {κ β γ : Type} [DecidableEq κ] (g : β → γ) (k : κ) : ∀ xs : List (κ × β),
    lastFor k (xs.map fun x => (x.1, g x.2)) = (lastFor k xs).map g
  | [] => rfl
  | (k', b) :: xs => by
    rw [List.map_cons, lastFor, lastFor, lastFor_map g k xs]
    cases lastFor k xs with
    | some c => rfl
    | none => by_cases h : k' = k <;> simp [h]

theorem foldl_storeNumbers (p : ProcessInfo) (xs : List (StatusMember × Nat)) :
    (xs.map fun x => (x.1, (x.2 : Int))).foldl (fun p x => x.1.store x.2 p) p = p.storeNumbers xs := by
  have hcast : UInt64.ofInt ∘ (Nat.cast : Nat → Int) = UInt64.ofNat := funext fun n => by
    rw [Function.comp_apply, ← UInt64.toNat_inj]
    simp only [UInt64.ofInt, UInt64.toNat_ofNat']
    omega
  rw [foldl_statusStore, storeNumbers]
  simp only [List.filter_map, List.map_map, lastFor_map, Option.map_map]
  rw [hcast]
  rfl

/-- **`readStatus` on any text** stores the numbers of its rows, in order, up to the first one that is no `int`. -/
theorem readStatus_rows (sys : Sys) (p : ProcessInfo) :
    ∃ rows, Rows StatusRow.line (getlines '\n' (openFile (sys.file (p.mProcPath ++ "status".toList)))) rows ∧
      value ((readStatus sys).run p) =
        (if ∀ x ∈ rows.flatMap StatusRow.numbers, x.2 < 2 ^ 31 then .ok () else .error .outOfRange) ∧
      state ((readStatus sys).run p) =
        p.storeNumbers ((rows.flatMap StatusRow.numbers).takeWhile (·.2 < 2 ^ 31)) := by
  obtain ⟨rows, hrows⟩ := Rows.exists StatusRow.line (getlines '\n' (openFile (sys.file (p.mProcPath ++ "status".toList))))
  have hline : ∀ l ∈ getlines '\n' (openFile (sys.file (p.mProcPath ++ "status".toList))), '\n' ∉ l := by
    intro l hl
    cases hf : sys.file (p.mProcPath ++ "status".toList) with
    | none => rw [hf] at hl; cases hl
    | some text => rw [hf] at hl; exact notMem_of_mem_splitLines '\n' hl
  have hcols := flatMap_statusNumbers_rows hline hrows
  have hrun : ∀ x ∈ rows.flatMap StatusRow.columns, IsRun Char.isDigit x.2 := fun x hx => by
    obtain ⟨r, -, hx⟩ := List.mem_flatMap.1 hx
    exact isRun_of_mem_columns x hx
  have hnumbers : readColumns (rows.flatMap StatusRow.columns) = rows.flatMap StatusRow.numbers := List.map_flatMap
  have hread : (readStatus sys).run p = (storeAll (stoi 10) StatusMember.store (rows.flatMap StatusRow.columns)).run p := by
    rw [← hcols, storeAll, forM_flatMap]
    show ((List.forM _ statusLine).run p) = _
    rw [funext statusLine_eq]
    rfl
  refine ⟨rows, hrows, ?_, ?_⟩
  · rw [hread, value_storeAll, firstFault_columns hrun, hnumbers]
    split <;> rfl
  · rw [hread, state_storeAll, converted_columns hrun, hnumbers, foldl_storeNumbers]

end SysInfo
