import SysInfo.Declaration
import SysInfo.Rows
import SysInfo.Smaps
/-!
# MapRows — mappings of any text

What the constructor of `MMap` does with a first line nobody promises anything about: a line with the eleven columns of
a declaration sets all of its members, or throws because a number does not convert (`MapRow.fault`); any other line sets
none of them, and they keep what the memory held (`construct_total`).  The lines after it never throw.

`readSmaps` cuts any text into chunks that start at a dash, loses no line of it, and builds one mapping from each chunk
until a constructor throws (`readSmaps_chunks`).
-/
namespace SysInfo

open IStream Re

/-! ## A declaration -/

/-- A line with the columns of a declaration. -/
structure MapRow where
  addressFrom : List Char
  addressTo   : List Char
  read        : Bool
  write       : Bool
  execute     : Bool
  type        : MappingType
  offset      : List Char
  devMajor    : List Char
  devMinor    : List Char
  inode       : List Char
  pad         : List Char
  path        : List Char
  gap0        : Char
  gap1        : Char
  gap2        : Char
  gap3        : Char
  hex         : ∀ w ∈ [addressFrom, addressTo, offset, devMajor, devMinor], IsRun isXdigit w
  decimal     : IsRun Char.isDigit inode
  padded      : IsRun isSpace pad
  pathHead    : ∀ c ∈ path.head?, isSpace c = false
  blanks      : ∀ c ∈ [gap0, gap1, gap2, gap3], isSpace c = true

namespace MapRow

variable (r : MapRow)

def letters : List Char :=
  [permLetter r.read 'r', permLetter r.write 'w', permLetter r.execute 'x', r.type.letter]

def line : List Char :=
  r.addressFrom ++ '-' :: (r.addressTo ++ r.gap0 :: permLetter r.read 'r' :: permLetter r.write 'w' ::
    permLetter r.execute 'x' :: r.type.letter :: r.gap1 :: (r.offset ++ r.gap2 :: (r.devMajor ++ ':' ::
      (r.devMinor ++ r.gap3 :: (r.inode ++ (r.pad ++ r.path))))))

def groups : List (List Char) :=
  [r.addressFrom, r.addressTo, [permLetter r.read 'r'], [permLetter r.write 'w'], [permLetter r.execute 'x'],
    [r.type.letter], r.offset, r.devMajor, r.devMinor, r.inode, r.path]

/-- The decimal digits that the offset starts with: all that `std::stol` sees of it. -/
def offsetDigits : List Char := r.offset.takeWhile Char.isDigit

/-- Why the declaration does not convert. -/
def fault : Option Exn :=
  if r.offsetDigits = [] then some .invalidArgument
  else if readDigits 10 r.offsetDigits < 2 ^ 63 ∧ readDigits 16 r.devMajor < 2 ^ 31 ∧ readDigits 16 r.devMinor < 2 ^ 31 ∧
      readDigits 10 r.inode < 2 ^ 63 then none
  else some .outOfRange

def declared (m : MMap) : MMap :=
  { m with
    addressFrom := r.addressFrom
    addressTo := r.addressTo
    permRead := r.read
    permWrite := r.write
    permExecute := r.execute
    type := r.type
    offset := MMap.narrow (readDigits 10 r.offsetDigits)
    devMajor := readDigits 16 r.devMajor
    devMinor := readDigits 16 r.devMinor
    inode := readDigits 10 r.inode
    pathname := r.path }

end MapRow

theorem permLetter_of_mem {c d : Char} (h : (decide (c = d) || decide (c = '-')) = true) (hd : d ≠ '-') :
    permLetter (decide (c = d)) d = c := by
  unfold permLetter
  by_cases hc : c = d
  · simp [hc]
  · simp only [hc, decide_false, Bool.false_or, decide_eq_true_eq] at h
    simp [h, hd.symm]

/-- **The expression accepts the rows**, and nothing else. -/
theorem fullMatch_regexDeclareMapping_iff {s : List Char} {caps : List (List Char)} :
    MMap.regexDeclareMapping.fullMatch s = some caps ↔ ∃ r : MapRow, s = r.line ∧ caps = r.groups := by
  have hcolon : isXdigit ':' = false := by decide
  have hdash : ∀ r : Re Char, Rejects (seq (chr '-') r) isXdigit := fun r => (rejects_chr (by decide)).seq r
  have hpad : Rejects (seq (plus isSpace) (grp anyStar)) Char.isDigit := (rejects_plus fun _ => isSpace_of_isDigit).seq _
  simp only [MMap.regexDeclareMapping, cat, xdigits, digits, fullMatch_grp_plus_iff (hdash _), fullMatch_chr_iff,
    fullMatch_column_blank_iff rejects_blank_isXdigit, fullMatch_grp_cls_iff, fullMatch_blank_iff,
    fullMatch_column_colon_iff hcolon, fullMatch_grp_plus_iff hpad, fullMatch_plus_grp_anyStar_iff]
  constructor
  · rintro ⟨lo, _, _, rfl, rfl, hlo, _, rfl, hi, c0, _, _, rfl, rfl, hhi, h0, r, _, _, rfl, rfl, hr, w, _, _, rfl,
      rfl, hw, x, _, _, rfl, rfl, hx, t, _, _, rfl, rfl, ht, c1, _, rfl, h1, off, c2, _, _, rfl, rfl, hoff, h2, maj, _, _,
      rfl, rfl, hmaj, min, c3, _, _, rfl, rfl, hmin, h3, ino, _, _, rfl, rfl, hino, pad, path, rfl, rfl, hpad, hpath⟩
    have htype : (if t = 's' then MappingType.shared else .priv).letter = t := by
      by_cases hs : t = 's'
      · simp [hs, MappingType.letter]
      · simp only [hs, decide_false, Bool.false_or, decide_eq_true_eq] at ht
        simp [ht, MappingType.letter]
    refine ⟨⟨lo, hi, decide (r = 'r'), decide (w = 'w'), decide (x = 'x'),
      if t = 's' then .shared else .priv, off, maj, min, ino, pad, path, c0, c1, c2, c3, ?_, hino, hpad, hpath, ?_⟩,
      ?_, ?_⟩
    · simp only [List.forall_mem_cons]
      exact ⟨hlo, hhi, hoff, hmaj, hmin, fun w hw => absurd hw List.not_mem_nil⟩
    · simp only [List.forall_mem_cons]
      exact ⟨h0, h1, h2, h3, fun c hc => absurd hc List.not_mem_nil⟩
    · simp only [MapRow.line, permLetter_of_mem hr (by decide), permLetter_of_mem hw (by decide),
        permLetter_of_mem hx (by decide), htype]
    · simp only [MapRow.groups, permLetter_of_mem hr (by decide), permLetter_of_mem hw (by decide),
        permLetter_of_mem hx (by decide), htype]
  · rintro ⟨r, rfl, rfl⟩
    have hh := r.hex
    have hb := r.blanks
    simp only [List.forall_mem_cons] at hh hb
    obtain ⟨hlo, hhi, hoff, hmaj, hmin, -⟩ := hh
    obtain ⟨h0, h1, h2, h3, -⟩ := hb
    have hperm : ∀ (b : Bool) (c : Char), (decide (permLetter b c = c) || decide (permLetter b c = '-')) = true :=
      fun b c => by cases b <;> simp [permLetter]
    have htype : (decide (r.type.letter = 's') || decide (r.type.letter = 'p')) = true := by cases r.type <;> decide
    exact ⟨r.addressFrom, _, _, rfl, rfl, hlo, _, rfl, r.addressTo, _, _, _, rfl, rfl, hhi, h0,
      _, _, _, rfl, rfl, hperm _ _, _, _, _, rfl, rfl, hperm _ _, _, _, _, rfl, rfl, hperm _ _, _, _, _, rfl, rfl, htype,
      _, _, rfl, h1, r.offset, _, _, _, rfl, rfl, hoff, h2, r.devMajor, _, _, rfl, rfl, hmaj,
      r.devMinor, _, _, _, rfl, rfl, hmin, h3, r.inode, _, _, rfl, rfl, r.decimal, r.pad, r.path, rfl, rfl,
      r.padded, r.pathHead⟩

theorem stol_ten_of_xdigits {w : List Char} (hw : ∀ c ∈ w, isXdigit c = true) : stol 10 w =
    if w.takeWhile Char.isDigit = [] then .error .invalidArgument
    else if readDigits 10 (w.takeWhile Char.isDigit) < 2 ^ 63 then .ok (readDigits 10 (w.takeWhile Char.isDigit) : Int)
    else .error .outOfRange := by
  rw [stol, stoN, strtol_ten_of_xdigits hw]
  by_cases h : w.takeWhile Char.isDigit = []
  · rw [if_pos h, if_pos h]
  · rw [if_neg h, if_neg h]
    exact if_congr (by omega) rfl rfl

/-- **A row sets every member of the declaration, or does not convert.** -/
theorem MapRow.parseDeclaration_line (r : MapRow) (m : MMap) : MMap.parseDeclaration m r.line =
    match r.fault with
    | none   => .ok (r.declared m)
    | some e => .error e := by
  have hm : MMap.regexDeclareMapping.fullMatch r.line = some r.groups :=
    fullMatch_regexDeclareMapping_iff.2 ⟨r, rfl, rfl⟩
  have hh := r.hex
  simp only [List.forall_mem_cons] at hh
  obtain ⟨-, -, hoff, hmaj, hmin, -⟩ := hh
  have h16 : ∀ {w : List Char}, IsRun isXdigit w → IsRun (isBaseDigit 16) w := fun h => h
  have hperm : ∀ (b : Bool) (c : Char), c ≠ '-' → decide ([permLetter b c] = [c]) = b := fun b c hne => by
    cases b <;> simp [permLetter, hne.symm]
  have htype : (if [r.type.letter] = ['p'] then MappingType.priv else .shared) = r.type := by cases r.type <;> rfl
  have hoffset : stol 10 r.offset = if r.offsetDigits = [] then .error .invalidArgument
      else if readDigits 10 r.offsetDigits < 2 ^ 63 then .ok (readDigits 10 r.offsetDigits : Int)
      else .error .outOfRange := stol_ten_of_xdigits hoff.2
  simp only [groups] at hm
  simp only [MMap.parseDeclaration, hm, hoffset, stoi_of_run 16 (h16 hmaj), stoi_of_run 16 (h16 hmin),
    stol_of_run 10 (isRun_isBaseDigit 10 r.decimal), htype, hperm _ 'r' (by decide), hperm _ 'w' (by decide),
    hperm _ 'x' (by decide)]
  unfold fault
  by_cases ho : r.offsetDigits = []
  · rw [if_pos ho, if_pos ho]
    rfl
  · rw [if_neg ho, if_neg ho]
    simp only [ite_error_bind, ← ite_and]
    by_cases hr : readDigits 10 r.offsetDigits < 2 ^ 63 ∧ readDigits 16 r.devMajor < 2 ^ 31 ∧
        readDigits 16 r.devMinor < 2 ^ 31 ∧ readDigits 10 r.inode < 2 ^ 63
    · rw [if_pos hr, if_pos hr]
      rfl
    · rw [if_neg hr, if_neg hr]

theorem parseDeclaration_other {l : List Char} (h : ∀ r : MapRow, r.line ≠ l) (m : MMap) :
    MMap.parseDeclaration m l = .ok m := by
  have hm : MMap.regexDeclareMapping.fullMatch l = none := by
    rw [Option.eq_none_iff_forall_ne_some]
    intro caps hcaps
    obtain ⟨r, rfl, -⟩ := fullMatch_regexDeclareMapping_iff.1 hcaps
    exact h r rfl
  simp only [MMap.parseDeclaration, hm]
  rfl

/-! ## The constructor -/

/-- The members of the declaration are those of a row, the permissions as they are printed. -/
structure MapRow.Declares (r : MapRow) (m : MMap) : Prop where
  addressFrom : m.addressFrom = r.addressFrom
  addressTo   : m.addressTo = r.addressTo
  letters     : m.permissions ++ [m.type.letter] = r.letters
  offset      : m.offset = MMap.narrow (readDigits 10 r.offsetDigits)
  devMajor    : m.devMajor = readDigits 16 r.devMajor
  devMinor    : m.devMinor = readDigits 16 r.devMinor
  inode       : m.inode = readDigits 10 r.inode
  path        : m.path = r.path

/-- The members of the declaration are those of memory that held `junk`: the strings empty, the others anything. -/
structure Undeclared (junk m : MMap) : Prop where
  addressFrom : m.addressFrom = []
  addressTo   : m.addressTo = []
  permissions : m.permissions = junk.permissions
  type        : m.type = junk.type
  offset      : m.offset = junk.offset
  device      : m.devMajor = junk.devMajor ∧ m.devMinor = junk.devMinor
  inode       : m.inode = junk.inode
  path        : m.path = []

theorem MapRow.declares (r : MapRow) (m : MMap) (a : SmapsField → Int) (fl : List (List Char)) (c : List Char) :
    r.Declares { r.declared m with attr := a, vmflags := fl, category := c } where
  addressFrom := rfl
  addressTo := rfl
  letters := rfl
  offset := by simp only [MapRow.declared]
  devMajor := rfl
  devMinor := rfl
  inode := rfl
  path := rfl

/-- What the constructor makes of its first line decides how it ends. -/
theorem construct_eq (junk : MMap) (text : List Char) :
    (∃ e, MMap.parseDeclaration (MMap.fresh junk) (text.takeWhile (· ≠ '\n')) = .error e ∧
      MMap.construct junk (.ofText text) = .error e) ∨
    ∃ d a fl c ss, MMap.parseDeclaration (MMap.fresh junk) (text.takeWhile (· ≠ '\n')) = .ok d ∧
      MMap.construct junk (.ofText text) = .ok ({ d with attr := a, vmflags := fl, category := c }, ss) := by
  have hline : ((IStream.ofText text).getline '\n' []).2 = text.takeWhile (· ≠ '\n') := getline_snd_ofText '\n' text []
  cases hd : MMap.parseDeclaration (MMap.fresh junk) (text.takeWhile (· ≠ '\n')) with
  | error e =>
    refine .inl ⟨e, rfl, ?_⟩
    simp only [MMap.construct, StringStream.ofText, hline, hd]
    rfl
  | ok d =>
    obtain ⟨a, ha⟩ := MMap.foldlM_parseAttribute_eq
      (getlines '\n' ((IStream.ofText text).getline '\n' []).1) d
    obtain ⟨c, hc⟩ : ∃ c, MMap.defineCategory { d with attr := a, vmflags :=
        (getlines '\n' ((IStream.ofText text).getline '\n' []).1).foldl MMap.flagsAfter d.vmflags } =
      { d with attr := a, vmflags :=
        (getlines '\n' ((IStream.ofText text).getline '\n' []).1).foldl MMap.flagsAfter d.vmflags, category := c } :=
      ⟨_, rfl⟩
    refine .inr ⟨d, a, (getlines '\n' ((IStream.ofText text).getline '\n' []).1).foldl MMap.flagsAfter d.vmflags, c,
      ⟨((IStream.ofText text).getline '\n' []).1.drain, text⟩, rfl, ?_⟩
    rw [← hc]
    simp only [MMap.construct, StringStream.ofText, hline, hd, bind, Except.bind, ha]
    rfl

/-- **The constructor on any text.**  On a row it takes all of its members from the line, or throws what the row's
numbers throw; on any other line it takes none.  Nothing behind the first line makes it throw. -/
theorem construct_total (junk : MMap) (text : List Char) :
    (∃ r : MapRow, r.line = text.takeWhile (· ≠ '\n') ∧
      ((r.fault = none ∧ ∃ m ss, MMap.construct junk (.ofText text) = .ok (m, ss) ∧ r.Declares m) ∨
        ∃ e, r.fault = some e ∧ MMap.construct junk (.ofText text) = .error e)) ∨
    ((∀ r : MapRow, r.line ≠ text.takeWhile (· ≠ '\n')) ∧
      ∃ m ss, MMap.construct junk (.ofText text) = .ok (m, ss) ∧ Undeclared junk m) := by
  by_cases hrow : ∃ r : MapRow, r.line = text.takeWhile (· ≠ '\n')
  · obtain ⟨r, hr⟩ := hrow
    refine .inl ⟨r, hr, ?_⟩
    have hdecl := r.parseDeclaration_line (MMap.fresh junk)
    rw [hr] at hdecl
    rcases construct_eq junk text with ⟨e, he, hc⟩ | ⟨d, a, fl, c, ss, he, hc⟩
    · rw [he] at hdecl
      cases hf : r.fault with
      | none => rw [hf] at hdecl; cases hdecl
      | some e' =>
        rw [hf] at hdecl
        cases hdecl
        exact .inr ⟨e, rfl, hc⟩
    · rw [he] at hdecl
      cases hf : r.fault with
      | some e' => rw [hf] at hdecl; cases hdecl
      | none =>
        rw [hf] at hdecl
        cases hdecl
        exact .inl ⟨rfl, _, ss, hc, r.declares _ a fl c⟩
  · have hother : ∀ r : MapRow, r.line ≠ text.takeWhile (· ≠ '\n') := fun r hr => hrow ⟨r, hr⟩
    refine .inr ⟨hother, ?_⟩
    rcases construct_eq junk text with ⟨e, he, hc⟩ | ⟨d, a, fl, c, ss, he, hc⟩
    · rw [parseDeclaration_other hother] at he
      cases he
    · rw [parseDeclaration_other hother] at he
      cases he
      exact ⟨_, ss, hc, ⟨rfl, rfl, rfl, rfl, rfl, ⟨rfl, rfl⟩, rfl, rfl⟩⟩

/-! ## The file -/

/-- What the loop gathers: a line with a dash closes what is already there. -/
def chunksFrom : List (List Char) → List (List Char) → List (List (List Char))
  | cur, [] => [cur]
  | cur, l :: ls => if '-' ∈ l ∧ cur ≠ [] then cur :: chunksFrom [l] ls else chunksFrom (cur ++ [l]) ls

/-- One chunk more than there are dashes behind the first line. -/
def chunks : List (List Char) → List (List (List Char)) := chunksFrom []

/-- No line is lost or moved, and every chunk but the first starts at a line with a dash and runs up to the next.  A
file without lines is one chunk without lines. -/
structure Cut (ls : List (List Char)) (cs : List (List (List Char))) : Prop where
  flatten : cs.flatten = ls
  ne_nil  : cs ≠ []
  lines   : ls ≠ [] → ∀ c ∈ cs, c ≠ []
  starts  : ∀ c ∈ cs.tail, ∃ l ∈ c.head?, '-' ∈ l
  runs    : ∀ c ∈ cs, ∀ l ∈ c.tail, '-' ∉ l

theorem chunksFrom_flatten : ∀ (ls cur : List (List Char)), (chunksFrom cur ls).flatten = cur ++ ls
  | [], cur => by simp [chunksFrom]
  | l :: ls, cur => by
    rw [chunksFrom]
    split
    · rw [List.flatten_cons, chunksFrom_flatten ls [l], List.singleton_append]
    · rw [chunksFrom_flatten ls (cur ++ [l]), List.append_assoc, List.singleton_append]

theorem chunksFrom_head : ∀ (ls cur : List (List Char)), ∃ t cs, chunksFrom cur ls = (cur ++ t) :: cs
  | [], cur => ⟨[], [], by simp [chunksFrom]⟩
  | l :: ls, cur => by
    rw [chunksFrom]
    split
    · exact ⟨[], _, by rw [List.append_nil]⟩
    · obtain ⟨t, cs, h⟩ := chunksFrom_head ls (cur ++ [l])
      exact ⟨l :: t, cs, by rw [h, List.append_assoc, List.singleton_append]⟩

theorem chunksFrom_starts : ∀ (ls cur : List (List Char)), ∀ c ∈ (chunksFrom cur ls).tail, ∃ l ∈ c.head?, '-' ∈ l
  | [], cur => by simp [chunksFrom]
  | l :: ls, cur => by
    rw [chunksFrom]
    split
    · rename_i hl
      obtain ⟨t, cs, h⟩ := chunksFrom_head ls [l]
      intro c hc
      rw [List.tail_cons, h] at hc
      rcases List.mem_cons.1 hc with rfl | hc
      · exact ⟨l, rfl, hl.1⟩
      · exact chunksFrom_starts ls [l] c (by rw [h]; exact hc)
    · exact chunksFrom_starts ls (cur ++ [l])

theorem chunksFrom_runs : ∀ (ls cur : List (List Char)), (∀ l ∈ cur.tail, '-' ∉ l) →
    ∀ c ∈ chunksFrom cur ls, ∀ l ∈ c.tail, '-' ∉ l
  | [], cur, h => by simpa [chunksFrom] using h
  | l :: ls, cur, h => by
    rw [chunksFrom]
    split
    · intro c hc
      rcases List.mem_cons.1 hc with rfl | hc
      · exact h
      · exact chunksFrom_runs ls [l] (fun m hm => absurd hm List.not_mem_nil) c hc
    · rename_i hl
      refine chunksFrom_runs ls (cur ++ [l]) ?_
      cases cur with
      | nil => exact fun m hm => absurd hm List.not_mem_nil
      | cons k cur =>
        have hdash : '-' ∉ l := fun hc => hl ⟨hc, List.cons_ne_nil k cur⟩
        intro m hm
        rcases List.mem_append.1 hm with hm | hm
        · exact h m hm
        · exact List.mem_singleton.1 hm ▸ hdash

theorem chunksFrom_lines : ∀ (ls : List (List Char)) {cur : List (List Char)}, cur ≠ [] → ∀ c ∈ chunksFrom cur ls, c ≠ []
  | [], cur, h => by simpa [chunksFrom] using h
  | l :: ls, cur, h => by
    rw [chunksFrom]
    split
    · intro c hc
      rcases List.mem_cons.1 hc with rfl | hc
      · exact h
      · exact chunksFrom_lines ls (List.cons_ne_nil l []) c hc
    · exact chunksFrom_lines ls (by simp)

theorem chunks_cut (ls : List (List Char)) : Cut ls (chunks ls) where
  flatten := chunksFrom_flatten ls []
  ne_nil := by
    obtain ⟨t, cs, h⟩ := chunksFrom_head ls []
    rw [chunks, h]
    exact List.cons_ne_nil _ _
  lines := by
    cases ls with
    | nil => exact fun h => absurd rfl h
    | cons l ls =>
      rw [chunks, chunksFrom, if_neg (fun hc => hc.2 rfl)]
      exact fun _ => chunksFrom_lines ls (by simp)
  starts := chunksFrom_starts ls []
  runs := chunksFrom_runs ls [] fun _ h => absurd h List.not_mem_nil

/-- One mapping per chunk, each on the memory at its own index, until a constructor throws. -/
def buildAll (sys : Sys) : Nat → List (List (List Char)) → List MMap × Option Exn
  | _, [] => ([], none)
  | i, c :: cs =>
    match MMap.construct (sys.mapJunk i) (.ofText (unlines '\n' c)) with
    | .error e   => ([], some e)
    | .ok (m, _) => (m :: (buildAll sys (i + 1) cs).1, (buildAll sys (i + 1) cs).2)

namespace ProcessInfo

/-- How a call ends that was to build `ms` more mappings and then throw `e`, if anything. -/
def builtMaps (p : ProcessInfo) (r : List MMap × Option Exn) : EStateM.Result Exn ProcessInfo Unit :=
  match r.2 with
  | none   => .ok () (p.setMaps (p.mMaps ++ r.1))
  | some e => .error e (p.setMaps (p.mMaps ++ r.1))

theorem run_pushMap_error {sys : Sys} {t : List Char} {p : ProcessInfo} {e : Exn}
    (h : MMap.construct (sys.mapJunk p.mMaps.length) (.ofText t) = .error e) :
    (pushMap sys (.ofText t)).run p = .error e p := by
  simp only [pushMap, EStateM.run_bind, EStateM.run_get, h]
  rfl

theorem unlines_ne_nil_iff {cur : List (List Char)} : unlines '\n' cur ≠ [] ↔ cur ≠ [] := by
  cases cur <;> simp

/-- **The loop and the build behind it**, from what it gathered so far. -/
theorem run_smapsLoop (sys : Sys) : ∀ (ls cur : List (List Char)) (p : ProcessInfo),
    (do let ss ← ls.foldlM (smapsLine sys) (.ofText (unlines '\n' cur)); let _ ← pushMap sys ss : Cpp ProcessInfo Unit).run
      p = p.builtMaps (buildAll sys p.mMaps.length (chunksFrom cur ls))
  | [], cur, p => by
    rw [List.foldlM_nil, pure_bind, chunksFrom, buildAll]
    cases h : MMap.construct (sys.mapJunk p.mMaps.length) (.ofText (unlines '\n' cur)) with
    | error e =>
      rw [EStateM.run_bind, run_pushMap_error h]
      simp only [builtMaps, List.append_nil]
      rfl
    | ok r =>
      rw [EStateM.run_bind, run_pushMap sys h]
      rfl
  | l :: ls, cur, p => by
    rw [List.foldlM_cons, bind_assoc, EStateM.run_bind, chunksFrom]
    by_cases hl : '-' ∈ l ∧ cur ≠ []
    · rw [if_pos hl, buildAll]
      cases h : MMap.construct (sys.mapJunk p.mMaps.length) (.ofText (unlines '\n' cur)) with
      | error e =>
        rw [smapsLine, if_pos ⟨hl.1, unlines_ne_nil_iff.2 hl.2⟩, EStateM.run_bind, run_pushMap_error h]
        simp only [builtMaps, List.append_nil]
        rfl
      | ok r =>
        have ih := run_smapsLoop sys ls [l] (p.setMaps (p.mMaps ++ [r.1]))
        rw [unlines_cons, unlines_nil] at ih
        rw [run_smapsLine_head sys hl.1 (unlines_ne_nil_iff.2 hl.2) h]
        simp only
        rw [ih, builtMaps, builtMaps, mMaps_setMaps, List.length_append, List.length_singleton]
        simp only [setMaps_setMaps, List.append_assoc, List.singleton_append]
    · rw [if_neg hl, smapsLine, if_neg (fun hc => hl ⟨hc.1, unlines_ne_nil_iff.1 hc.2⟩)]
      have ih := run_smapsLoop sys ls (cur ++ [l]) p
      rw [unlines_append, unlines_cons, unlines_nil] at ih
      rw [← ih, StringStream.put_ofText, StringStream.put_ofText, List.append_assoc]
      rfl

/-- **`readSmaps` on any text**: the file is cut into chunks and each is built, in order, until a constructor throws;
the mappings built before that stay. -/
theorem run_readSmaps {sys : Sys} {p : ProcessInfo} {text : List Char}
    (h : sys.file (p.mProcPath ++ "/smaps".toList) = some text) :
    (readSmaps sys).run p = (p.setMaps []).builtMaps (buildAll sys 0 (chunks (splitLines '\n' text))) := by
  simp only [readSmaps, EStateM.run_bind, EStateM.run_modify, EStateM.run_get, mProcPath_setMaps, h, getlines_ofText]
  exact run_smapsLoop sys (splitLines '\n' text) [] (p.setMaps [])

end ProcessInfo

/-! ## How it ends -/

/-- The constructor throws on a chunk exactly when its first line is a row that does not convert. -/
theorem construct_chunk {c : List (List Char)} (hc : ∀ l ∈ c, '\n' ∉ l) (junk : MMap) :
    (∃ m ss, MMap.construct junk (.ofText (unlines '\n' c)) = .ok (m, ss)) ↔
      ∀ r : MapRow, r.line ∈ c.head? → r.fault = none := by
  have hhead : (unlines '\n' c).takeWhile (· ≠ '\n') = c.headD [] := by
    cases c with
    | nil => rfl
    | cons l ls =>
      rw [unlines_cons]
      refine takeWhile_append_stop (fun d hd => decide_eq_true fun e => hc l (by simp) (e ▸ hd)) fun d hd => ?_
      cases hd
      rfl
  have hrow : ∀ r : MapRow, r.line ∈ c.head? ↔ r.line = (unlines '\n' c).takeWhile (· ≠ '\n') := by
    intro r
    rw [hhead]
    cases c with
    | nil => simp [MapRow.line]
    | cons l ls => simp [eq_comm]
  constructor
  · rintro ⟨m, ss, hm⟩ r hr
    have hdecl := r.parseDeclaration_line (MMap.fresh junk)
    rw [(hrow r).1 hr] at hdecl
    rcases construct_eq junk (unlines '\n' c) with ⟨e, -, he⟩ | ⟨d, a, fl, g, s, hd, -⟩
    · rw [hm] at he
      cases he
    · rw [hd] at hdecl
      cases hf : r.fault with
      | none => rfl
      | some e => rw [hf] at hdecl; cases hdecl
  · intro hall
    rcases construct_total junk (unlines '\n' c) with ⟨r, hr, ⟨-, m, ss, hm, -⟩ | ⟨e, he, -⟩⟩ | ⟨-, m, ss, hm, -⟩
    · exact ⟨m, ss, hm⟩
    · rw [hall r ((hrow r).2 hr)] at he
      cases he
    · exact ⟨m, ss, hm⟩

theorem buildAll_none_iff (sys : Sys) : ∀ (cs : List (List (List Char))) (i : Nat), (∀ c ∈ cs, ∀ l ∈ c, '\n' ∉ l) →
    ((buildAll sys i cs).2 = none ↔ ∀ c ∈ cs, ∀ r : MapRow, r.line ∈ c.head? → r.fault = none)
  | [], _, _ => by simp [buildAll]
  | c :: cs, i, h => by
    have hc := construct_chunk (h c (by simp)) (sys.mapJunk i)
    have ih := buildAll_none_iff sys cs (i + 1) fun c' hc' => h c' (by simp [hc'])
    rw [List.forall_mem_cons, ← hc, buildAll]
    cases hm : MMap.construct (sys.mapJunk i) (.ofText (unlines '\n' c)) with
    | error e => simp
    | ok r =>
      rw [← ih]
      exact ⟨fun hn => ⟨⟨r.1, r.2, rfl⟩, hn⟩, fun hn => hn.2⟩

theorem length_buildAll (sys : Sys) : ∀ (cs : List (List (List Char))) (i : Nat), (buildAll sys i cs).2 = none →
    (buildAll sys i cs).1.length = cs.length
  | [], _, _ => rfl
  | c :: cs, i, h => by
    rw [buildAll] at h ⊢
    cases hm : MMap.construct (sys.mapJunk i) (.ofText (unlines '\n' c)) with
    | error e => simp [hm] at h
    | ok r =>
      rw [hm] at h
      rw [List.length_cons, List.length_cons, length_buildAll sys cs (i + 1) h]

def isHead (l : List Char) : Bool := '-' ∈ l

theorem countP_isHead_tail {c : List (List Char)} (h : ∀ l ∈ c.tail, '-' ∉ l) : c.tail.countP isHead = 0 :=
  List.countP_eq_zero.2 fun l hl => by simpa [isHead] using h l hl

theorem countP_isHead_flatten : ∀ {cs : List (List (List Char))}, (∀ c ∈ cs, ∃ l ∈ c.head?, '-' ∈ l) →
    (∀ c ∈ cs, ∀ l ∈ c.tail, '-' ∉ l) → cs.flatten.countP isHead = cs.length
  | [], _, _ => rfl
  | [] :: cs, hs, _ => by
    obtain ⟨l, hl, -⟩ := hs [] (by simp)
    cases hl
  | (k :: t) :: cs, hs, hr => by
    obtain ⟨l, hl, hdash⟩ := hs (k :: t) (by simp)
    cases hl
    have ht := countP_isHead_tail (hr (k :: t) (by simp))
    have ih : cs.flatten.countP isHead = cs.length :=
      countP_isHead_flatten (fun c hc => hs c (by simp [hc])) fun c hc => hr c (by simp [hc])
    rw [List.tail_cons] at ht
    rw [List.flatten_cons, List.countP_append, List.countP_cons_of_pos (by simpa [isHead] using hdash), ht, ih,
      List.length_cons]
    omega

/-- There is one chunk, and one more for every dash behind the first line. -/
theorem Cut.length {ls : List (List Char)} {cs : List (List (List Char))} (h : Cut ls cs) :
    cs.length = ls.tail.countP isHead + 1 := by
  obtain ⟨c, cs, rfl⟩ := List.exists_cons_of_ne_nil h.ne_nil
  have hcount := countP_isHead_flatten h.starts fun c' hc' => h.runs c' (by simp [show c' ∈ cs from hc'])
  rw [List.tail_cons] at hcount
  have hls := h.flatten
  rw [List.flatten_cons] at hls
  cases c with
  | nil =>
    have hnil : ls = [] := by
      by_contra hne
      exact h.lines hne [] (by simp) rfl
    subst hnil
    have hcs : cs.flatten = [] := by simpa using hls
    rw [hcs] at hcount
    simp [← hcount]
  | cons l t =>
    have ht := countP_isHead_tail (h.runs (l :: t) (by simp))
    rw [List.tail_cons] at ht
    rw [← hls, List.cons_append, List.tail_cons, List.countP_append, ht, hcount, List.length_cons]
    omega

namespace ProcessInfo

/-- **`readSmaps` on any file**: the lines are cut at the dashes, one mapping is built from each chunk, in order, and
the call throws exactly when a chunk starts with a row that does not convert. -/
theorem readSmaps_chunks {sys : Sys} {p : ProcessInfo} {text : List Char}
    (h : sys.file (p.mProcPath ++ "/smaps".toList) = some text) :
    ∃ cs, Cut (splitLines '\n' text) cs ∧
      (readSmaps sys).run p = (p.setMaps []).builtMaps (buildAll sys 0 cs) ∧
      ((∃ p', (readSmaps sys).run p = .ok () p') ↔ ∀ c ∈ cs, ∀ r : MapRow, r.line ∈ c.head? → r.fault = none) ∧
      ∀ p', (readSmaps sys).run p = .ok () p' →
        p'.mMaps.length = (splitLines '\n' text).tail.countP isHead + 1 := by
  have hcut := chunks_cut (splitLines '\n' text)
  have hline : ∀ c ∈ chunks (splitLines '\n' text), ∀ l ∈ c, '\n' ∉ l := fun c hc l hl =>
    notMem_of_mem_splitLines '\n' (by rw [← hcut.flatten]; exact List.mem_flatten_of_mem hc hl)
  have hrun := run_readSmaps h
  have hnone := buildAll_none_iff sys _ 0 hline
  refine ⟨_, hcut, hrun, ?_, ?_⟩
  · rw [← hnone, hrun, builtMaps]
    cases (buildAll sys 0 (chunks (splitLines '\n' text))).2 with
    | none => exact ⟨fun _ => rfl, fun _ => ⟨_, rfl⟩⟩
    | some e => exact ⟨fun ⟨_, hp⟩ => by simp at hp, fun he => by simp at he⟩
  · intro p' hp
    rw [hrun, builtMaps] at hp
    cases hb : (buildAll sys 0 (chunks (splitLines '\n' text))).2 with
    | some e => simp [hb] at hp
    | none =>
      rw [hb] at hp
      simp only [EStateM.Result.ok.injEq, true_and] at hp
      rw [← hp, mMaps_setMaps, mMaps_setMaps, List.nil_append, length_buildAll sys _ 0 hb, hcut.length]

/-- A file with a dash, and no declaration. -/
def dashedText : List Char := "Size: 4\na-b c\nRss: 4\n".toList

/-- A mapping is built at the start of the file, and one at the dash. -/
theorem readSmaps_chunks_two :
    ∃ p', (readSmaps (Sys.ofFiles fun _ => some dashedText)).run .zeroed = .ok () p' ∧ p'.mMaps.length = 2 := by
  obtain ⟨cs, hcut, -, hreturns, hlen⟩ := @readSmaps_chunks (Sys.ofFiles fun _ => some dashedText) .zeroed _ rfl
  have hother : ∀ l ∈ splitLines '\n' dashedText, MMap.regexDeclareMapping.fullMatch l = none := by decide
  have hhead : ∀ c ∈ cs, ∀ r : MapRow, r.line ∈ c.head? → r.fault = none := fun c hc r hr => by
    have hmem : r.line ∈ splitLines '\n' dashedText := by
      rw [← hcut.flatten]
      exact List.mem_flatten_of_mem hc (List.mem_of_mem_head? hr)
    have hmatch := fullMatch_regexDeclareMapping_iff.2 ⟨r, rfl, rfl⟩
    rw [hother r.line hmem] at hmatch
    cases hmatch
  obtain ⟨p', hp⟩ := hreturns.2 hhead
  exact ⟨p', hp, hlen p' hp⟩

end ProcessInfo

end SysInfo
