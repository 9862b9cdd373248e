import SysInfo.Numbers
/-!
# StatusFile — `readStatus` against the kernel's `/proc/<pid>/status`

Ids and sizes are printed as unsigned numbers; the code converts each with `std::stoi`, which throws from 2^31 on.
`status_decoded_iff`: a new object is filled with the numbers printed exactly when all of them are below 2^31.
-/
namespace SysInfo

open IStream Effects ProcessInfo Re

inductive IdKind where
  | uid
  | gid
deriving DecidableEq

namespace IdKind

def key : IdKind → List Char
  | .uid => "Uid".toList
  | .gid => "Gid".toList

def member : IdKind → StatusMember
  | .uid => .uid
  | .gid => .gid

def ids : IdKind → ProcessInfo → List Int
  | .uid => mUids
  | .gid => mGids

theorem key_chars (kind : IdKind) : ':' ∉ kind.key ∧ '\n' ∉ kind.key := by cases kind <;> decide

end IdKind

namespace VmField

/-- The name that proc(5) has for a size. -/
def label : VmField → List Char
  | .peak => "VmPeak".toList
  | .lck  => "VmLck".toList
  | .pin  => "VmPin".toList
  | .hwm  => "VmHWM".toList
  | .rss  => "VmRSS".toList
  | .data => "VmData".toList
  | .stk  => "VmStk".toList
  | .exe  => "VmExe".toList
  | .lib  => "VmLib".toList
  | .pte  => "VmPTE".toList
  | .pmd  => "VmPMD".toList
  | .swap => "VmSwap".toList

/-- The code compares with the same names. -/
theorem label_eq (f : VmField) : f.label = f.key := by cases f <;> rfl

theorem key_chars (f : VmField) : ':' ∉ f.key ∧ '\n' ∉ f.key := by cases f <;> decide

end VmField

/-- The real, effective, saved and file system id. -/
structure Ids where
  real      : Nat
  effective : Nat
  saved     : Nat
  fs        : Nat

namespace Ids

def list (i : Ids) : List Nat := [i.real, i.effective, i.saved, i.fs]

def text (i : Ids) : List Char := i.list.flatMap fun n => '\t' :: decimal n

end Ids

/-- A line of `status`: ids, a size in kB after blanks, or a line under another key. -/
inductive StatusLine where
  | ids (kind : IdKind) (i : Ids) (lt : ∀ n ∈ i.list, n < 2 ^ 32 - 1)
  | vm (f : VmField) (blanks : List Char) (n : Nat) (blank : blanks ≠ [] ∧ ∀ c ∈ blanks, c = ' ' ∨ c = '\t')
      (lt : n < 2 ^ 54)
  | other (key value : List Char) (unknown : key ≠ "Uid".toList ∧ key ≠ "Gid".toList ∧ VmField.ofKey key = none)
      (noColon : ':' ∉ key) (oneLine : '\n' ∉ key ∧ '\n' ∉ value)

namespace StatusLine

def key : StatusLine → List Char
  | .ids kind _ _ => kind.key
  | .vm f _ _ _ _ => f.label
  | .other key _ _ _ _ => key

def value : StatusLine → List Char
  | .ids _ i _ => i.text
  | .vm _ blanks n _ _ => blanks ++ (decimal n ++ " kB".toList)
  | .other _ value _ _ _ => value

def text (l : StatusLine) : List Char := l.key ++ ':' :: l.value

def numbers : StatusLine → List (StatusMember × Nat)
  | .ids kind i _ => i.list.map (kind.member, ·)
  | .vm f _ n _ _ => [(.vm f, n)]
  | .other _ _ _ _ _ => []

def member : StatusLine → Option StatusMember
  | .ids kind _ _ => some kind.member
  | .vm f _ _ _ _ => some (.vm f)
  | .other _ _ _ _ _ => none

/-- The object has the numbers of the line: ids as `int`s with the same bits. -/
def Decoded (p : ProcessInfo) : StatusLine → Prop
  | .ids kind i _ => kind.ids p = i.list.map fun n => (Int32.ofNat n).toInt
  | .vm f _ n _ _ => (p.mVm f).toNat = n
  | .other _ _ _ _ _ => True

/-- Every number of the line is in the reach of `std::stoi`. -/
def Small (l : StatusLine) : Prop := ∀ x ∈ l.numbers, x.2 < 2 ^ 31

theorem colon_notMem_key (l : StatusLine) : ':' ∉ l.key := by
  cases l with
  | ids kind i lt => exact kind.key_chars.1
  | vm f blanks n blank lt =>
    rw [key, f.label_eq]
    exact f.key_chars.1
  | other key value unknown noColon oneLine => exact noColon

theorem newline_notMem_key (l : StatusLine) : '\n' ∉ l.key := by
  cases l with
  | ids kind i lt => exact kind.key_chars.2
  | vm f blanks n blank lt =>
    rw [key, f.label_eq]
    exact f.key_chars.2
  | other key value unknown noColon oneLine => exact oneLine.1

theorem newline_notMem_value (l : StatusLine) : '\n' ∉ l.value := by
  cases l with
  | ids kind i lt =>
    intro h
    obtain ⟨n, -, hn⟩ := List.mem_flatMap.1 h
    rcases List.mem_cons.1 hn with hn | hn
    · exact absurd hn (by decide)
    · exact newline_notMem_decimal n hn
  | vm f blanks n blank lt =>
    have hb : '\n' ∉ blanks := fun h => by rcases blank.2 _ h with h | h <;> exact absurd h (by decide)
    simp only [value, List.mem_append, not_or]
    exact ⟨hb, newline_notMem_decimal n, by decide⟩
  | other key value unknown noColon oneLine => exact oneLine.2

theorem newline_notMem_text (l : StatusLine) : '\n' ∉ l.text := by
  simp only [text, List.mem_append, List.mem_cons, not_or]
  exact ⟨l.newline_notMem_key, by decide, l.newline_notMem_value⟩

theorem keyValue_text (l : StatusLine) : keyValue ':' l.text = (l.key, l.value) := by
  have hvalue : ∀ c ∈ l.value, decide (c ≠ '\n') = true := fun c hc =>
    decide_eq_true fun h => l.newline_notMem_value (h ▸ hc)
  rw [text, keyValue_append l.colon_notMem_key, takeWhile_all hvalue]

/-! ## The expressions -/

theorem fullMatch_ids (i : Ids) : regexUids.fullMatch i.text = some (i.list.map decimal) := by
  have htab : ∀ c ∈ ['\t'], isSpace c = true := fun c hc => by rw [List.mem_singleton.1 hc]; decide
  have hdig : ∀ (n : Nat) (t : List Char), ∀ c ∈ (decimal n ++ t).head?, isSpace c = false := fun n t c hc => by
    obtain ⟨d, w, hw⟩ := List.exists_cons_of_ne_nil (decimal_ne_nil n)
    rw [hw] at hc
    cases hc
    exact isSpace_of_isDigit (isDigit_of_mem_decimal (n := n) (by rw [hw]; simp))
  -- one id and what follows it
  have hid : ∀ (n : Nat) (t : List Char) (r : Re Char), Rejects r Char.isDigit →
      (seq (plus isSpace) (seq (grp digits) r)).fullMatch (['\t'] ++ (decimal n ++ '\t' :: t)) =
        (r.fullMatch ('\t' :: t)).map (decimal n :: ·) := by
    intro n t r hr
    rw [fullMatch_plus_word (rejects_digits_isSpace.seq r) (by simp) htab (hdig n _), digits,
      fullMatch_grp_plus_word hr (decimal_ne_nil n) (fun _ => isDigit_of_mem_decimal) (fun c hc => by cases hc; decide)]
  have hlast : ∀ n : Nat, (seq (plus isSpace) (seq (grp digits) (.star isSpace))).fullMatch (['\t'] ++ decimal n) =
      some [decimal n] := by
    intro n
    have htake : (decimal n).takeWhile Char.isDigit = decimal n := takeWhile_all fun _ => isDigit_of_mem_decimal
    have hdrop : (decimal n).dropWhile Char.isDigit = [] := List.dropWhile_eq_nil_iff.2 fun _ => isDigit_of_mem_decimal
    have hd := hdig n []
    rw [List.append_nil] at hd
    rw [fullMatch_plus_word (rejects_digits_isSpace.seq _) (by simp) htab hd, digits,
      fullMatch_grp_plus_first (by rw [htake]; exact decimal_ne_nil n) (by rw [hdrop]; rfl), htake, hdrop]
    rfl
  have hrej : ∀ r : Re Char, Rejects (seq (plus isSpace) r) Char.isDigit := fun r =>
    (rejects_plus fun c hc => isSpace_of_isDigit hc).seq r
  have htext : i.text = ['\t'] ++ (decimal i.real ++ '\t' :: (decimal i.effective ++ '\t' :: (decimal i.saved ++
      '\t' :: decimal i.fs))) := by
    simp [Ids.text, Ids.list]
  simp only [regexUids, cat]
  rw [htext, hid i.real _ _ (hrej _)]
  rw [show '\t' :: (decimal i.effective ++ '\t' :: (decimal i.saved ++ '\t' :: decimal i.fs)) =
    ['\t'] ++ (decimal i.effective ++ '\t' :: (decimal i.saved ++ '\t' :: decimal i.fs)) from rfl, hid _ _ _ (hrej _)]
  rw [show '\t' :: (decimal i.saved ++ '\t' :: decimal i.fs) =
    ['\t'] ++ (decimal i.saved ++ '\t' :: decimal i.fs) from rfl, hid _ _ _ (hrej _)]
  rw [show '\t' :: decimal i.fs = ['\t'] ++ decimal i.fs from rfl, hlast]
  rfl

theorem fullMatch_vm {blanks : List Char} (h : blanks ≠ [] ∧ ∀ c ∈ blanks, c = ' ' ∨ c = '\t') (n : Nat) :
    regexVm.fullMatch (blanks ++ (decimal n ++ " kB".toList)) = some [decimal n] := by
  have hsp : ∀ c ∈ blanks, isSpace c = true := fun c hc => by rcases h.2 c hc with rfl | rfl <;> decide
  have hdig : ∀ c ∈ (decimal n ++ " kB".toList).head?, isSpace c = false := fun c hc => by
    obtain ⟨d, w, hw⟩ := List.exists_cons_of_ne_nil (decimal_ne_nil n)
    rw [hw] at hc
    cases hc
    exact isSpace_of_isDigit (isDigit_of_mem_decimal (n := n) (by rw [hw]; simp))
  simp only [regexVm, cat]
  rw [fullMatch_plus_word (rejects_digits_isSpace.seq _) h.1 hsp hdig, digits,
    fullMatch_grp_plus_word (rejects_blank_isDigit.seq _) (decimal_ne_nil n) (fun _ => isDigit_of_mem_decimal)
      (fun c hc => by cases hc; decide)]
  rfl

/-! ## The numbers of a line -/

theorem ofKey_key (f : VmField) : VmField.ofKey f.key = some f := by cases f <;> rfl

theorem vm_key_ne (f : VmField) : f.key ≠ "Uid".toList ∧ f.key ≠ "Gid".toList := by cases f <;> decide

/-- **The code sees the numbers of the line.** -/
theorem statusNumbers_text (l : StatusLine) :
    statusNumbers l.text = l.numbers.map fun x => (x.1, decimal x.2) := by
  unfold statusNumbers
  rw [keyValue_text]
  dsimp only
  cases l with
  | ids kind i lt =>
    simp only [key, value, numbers, fullMatch_ids, Option.getD_some, List.map_map]
    cases kind with
    | uid => exact if_pos rfl
    | gid => exact (if_neg (by decide)).trans (if_pos rfl)
  | vm f blanks n blank lt =>
    simp only [key, f.label_eq, value, numbers, fullMatch_vm blank, ofKey_key, if_neg (vm_key_ne f).1, if_neg (vm_key_ne f).2]
    rfl
  | other key value unknown noColon oneLine =>
    simp only [StatusLine.key, StatusLine.value, numbers, if_neg unknown.1, if_neg unknown.2.1, unknown.2.2]
    rfl

theorem member_of_mem_numbers {l : StatusLine} {x : StatusMember × Nat} (h : x ∈ l.numbers) : l.member = some x.1 := by
  cases l with
  | ids kind i lt =>
    obtain ⟨n, -, rfl⟩ := List.mem_map.1 h
    rfl
  | vm f blanks n blank lt =>
    rw [List.mem_singleton.1 h]
    rfl
  | other key value unknown noColon oneLine => exact absurd h List.not_mem_nil

end StatusLine

/-! ## The file -/

/-- Lines in any order, each key that is read at most once. -/
structure StatusFile where
  lines : List StatusLine
  once  : (lines.filterMap StatusLine.member).Nodup

namespace StatusFile

variable (f : StatusFile)

def text : List Char := unlines '\n' (f.lines.map StatusLine.text)

def numbers : List (StatusMember × Nat) := f.lines.flatMap StatusLine.numbers

def Decoded : Prop :=
  ∀ (sys : Sys) (junk : ProcessInfo) (pid : Int32), sys.file (procPath pid ++ "status".toList) = some f.text →
    ∃ p, (readStatus sys).run (construct junk pid) = .ok () p ∧ ∀ l ∈ f.lines, l.Decoded p

theorem getlines_text : getlines '\n' (ofText f.text) = f.lines.map StatusLine.text :=
  splitLines_unlines '\n' _ (List.forall_mem_map.2 fun k _ => k.newline_notMem_text)

theorem flatMap_statusNumbers :
    (f.lines.map StatusLine.text).flatMap statusNumbers = f.numbers.map fun x => (x.1, decimal x.2) := by
  rw [numbers, List.flatMap_map, List.map_flatMap]
  exact congrArg (f.lines.flatMap ·) (funext StatusLine.statusNumbers_text)

theorem filter_numbers : ∀ {ls : List StatusLine}, (ls.filterMap StatusLine.member).Nodup → ∀ {l : StatusLine}, l ∈ ls →
    ∀ {m : StatusMember}, l.member = some m → (ls.flatMap StatusLine.numbers).filter (·.1 = m) = l.numbers
  | k :: ls, hnd, l, hl, m, hm => by
    have hnone : ∀ {ms : List StatusLine}, (∀ n ∈ ms, n.member ≠ some m) →
        (ms.flatMap StatusLine.numbers).filter (·.1 = m) = [] := by
      intro ms hms
      refine List.filter_eq_nil_iff.2 fun x hx => ?_
      obtain ⟨n, hn, hx⟩ := List.mem_flatMap.1 hx
      rw [decide_eq_true_eq]
      rintro rfl
      exact hms n hn (StatusLine.member_of_mem_numbers hx)
    have hall : l.numbers.filter (·.1 = m) = l.numbers := by
      refine List.filter_eq_self.2 fun x hx => decide_eq_true ?_
      exact Option.some.inj ((StatusLine.member_of_mem_numbers hx).symm.trans hm)
    rw [List.flatMap_cons, List.filter_append]
    rcases List.mem_cons.1 hl with rfl | hl
    · simp only [List.filterMap_cons, hm, List.nodup_cons] at hnd
      have hrest : ∀ n ∈ ls, n.member ≠ some m := fun n hn h => hnd.1 (List.mem_filterMap.2 ⟨n, hn, h⟩)
      rw [hall, hnone hrest, List.append_nil]
    · have hk : k.member ≠ some m := by
        intro h
        simp only [List.filterMap_cons, h, List.nodup_cons] at hnd
        exact hnd.1 (List.mem_filterMap.2 ⟨l, hl, hm⟩)
      have hnd' : (ls.filterMap StatusLine.member).Nodup := by
        cases hkm : k.member with
        | none => simpa only [List.filterMap_cons, hkm] using hnd
        | some m' =>
          simp only [List.filterMap_cons, hkm, List.nodup_cons] at hnd
          exact hnd.2
      have hfirst : k.numbers.filter (·.1 = m) = [] := by
        have h : ([k].flatMap StatusLine.numbers).filter (·.1 = m) = [] := hnone fun n hn => by
          rw [List.mem_singleton.1 hn]
          exact hk
        rwa [List.flatMap_singleton] at h
      rw [hfirst, List.nil_append, filter_numbers hnd' hl hm]

theorem stoi_decimal_isOk_iff (n : Nat) : (∃ z, stoi 10 (decimal n) = .ok z) ↔ n < 2 ^ 31 := by
  have hn := stoi_decimal_append n (t := []) fun c hc => by cases hc
  rw [List.append_nil] at hn
  rw [hn]
  by_cases h : n < 2 ^ 31
  · rw [if_pos h]
    exact iff_of_true ⟨_, rfl⟩ h
  · rw [if_neg h]
    exact iff_of_false (fun ⟨z, hz⟩ => by cases hz) h

theorem converted_decimal : ∀ {xs : List (StatusMember × Nat)}, (∀ x ∈ xs, x.2 < 2 ^ 31) →
    converted (stoi 10) (xs.map fun x => (x.1, decimal x.2)) = xs.map fun x => (x.1, (x.2 : Int))
  | [], _ => rfl
  | (m, n) :: xs, h => by
    rw [List.map_cons, converted, stoi_decimal (h (m, n) (by simp)), List.map_cons]
    exact congrArg _ (converted_decimal fun x hx => h x (by simp [hx]))

section

variable {f} {sys : Sys} {p : ProcessInfo} (hf : sys.file (p.mProcPath ++ "status".toList) = some f.text)

include hf

/-- **The read ends well exactly when every number is small.** -/
theorem run_readStatus_ok_iff :
    (∃ q, (readStatus sys).run p = .ok () q) ↔ ∀ l ∈ f.lines, l.Small := by
  have hrun : (readStatus sys).run p = (storeAll (stoi 10) StatusMember.store
      (f.numbers.map fun x => (x.1, decimal x.2))).run p := by
    rw [← flatMap_statusNumbers, ← f.getlines_text, storeAll, forM_flatMap]
    show (List.forM (getlines '\n' (openFile (sys.file (p.mProcPath ++ "status".toList)))) statusLine).run p = _
    rw [funext statusLine_eq, hf]
    rfl
  rw [hrun]
  refine (run_storeAll_ok_iff _ _ _ _).trans ?_
  constructor
  · intro h l hl x hx
    exact (stoi_decimal_isOk_iff x.2).1
      (h (x.1, decimal x.2) (List.mem_map.2 ⟨x, List.mem_flatMap.2 ⟨l, hl, hx⟩, rfl⟩))
  · intro h y hy
    obtain ⟨x, hx, rfl⟩ := List.mem_map.1 hy
    obtain ⟨l, hl, hx⟩ := List.mem_flatMap.1 hx
    exact (stoi_decimal_isOk_iff x.2).2 (h l hl x hx)

theorem statusStored_text (h : ∀ l ∈ f.lines, l.Small) :
    statusStored sys p = f.numbers.map fun x => (x.1, (x.2 : Int)) := by
  have hsmall : ∀ x ∈ f.numbers, x.2 < 2 ^ 31 := fun x hx => by
    obtain ⟨l, hl, hx⟩ := List.mem_flatMap.1 hx
    exact h l hl x hx
  rw [statusStored, hf, openFile, getlines_text, flatMap_statusNumbers, converted_decimal hsmall]

end

theorem filter_stored {l : StatusLine} (hl : l ∈ f.lines) {m : StatusMember} (hm : l.member = some m) :
    (f.numbers.map fun x => (x.1, (x.2 : Int))).filter (·.1 = m) = l.numbers.map fun x => (x.1, (x.2 : Int)) := by
  have h : f.numbers.filter (·.1 = m) = l.numbers := filter_numbers f.once hl hm
  rw [List.filter_map, ← h]
  rfl

theorem Decoded.small {f : StatusFile} (h : f.Decoded) : ∀ l ∈ f.lines, l.Small := by
  obtain ⟨p, hp, -⟩ := h (Sys.ofFiles fun _ => some f.text) zeroed 1 rfl
  exact (run_readStatus_ok_iff rfl).1 ⟨p, hp⟩

theorem decoded_of_small {f : StatusFile} (h : ∀ l ∈ f.lines, l.Small) : f.Decoded := by
  intro sys junk pid hf
  have hpath : sys.file ((construct junk pid).mProcPath ++ "status".toList) = some f.text := hf
  obtain ⟨p, hp⟩ := (run_readStatus_ok_iff hpath).2 h
  have hstate := state_readStatus sys (construct junk pid)
  rw [hp, state_ok, statusStored_text hpath h, foldl_statusStore] at hstate
  refine ⟨p, hp, fun l hl => ?_⟩
  rw [hstate]
  cases l with
  | ids kind i lt =>
    have hids : ((f.numbers.map fun x => (x.1, (x.2 : Int))).filter (·.1 = kind.member)).map Prod.snd =
        i.list.map fun n => (Int32.ofNat n).toInt := by
      rw [f.filter_stored hl rfl, StatusLine.numbers, List.map_map, List.map_map]
      refine List.map_congr_left fun n hn => ?_
      exact (Int32.toInt_ofNat_of_lt (h _ hl (kind.member, n) (List.mem_map.2 ⟨n, hn, rfl⟩))).symm
    cases kind with
    | uid => exact hids
    | gid => exact hids
  | vm g blanks n blank lt =>
    have hlast : lastFor (.vm g) (f.numbers.map fun x => (x.1, (x.2 : Int))) = some (n : Int) := by
      rw [← lastFor_filter, f.filter_stored hl rfl]
      exact if_pos rfl
    show (((lastFor (StatusMember.vm g) _).map UInt64.ofInt).getD _).toNat = n
    rw [hlast]
    show (UInt64.ofInt (n : Int)).toNat = n
    simp only [UInt64.ofInt, UInt64.toNat_ofNat']
    omega
  | other key value unknown noColon oneLine => trivial

/-- **A new object is filled with the numbers printed exactly when** each of them is below 2^31. -/
theorem status_decoded_iff : f.Decoded ↔ ∀ l ∈ f.lines, l.Small := ⟨Decoded.small, decoded_of_small⟩

theorem ids_nobody : ∀ n ∈ (⟨4294967294, 4294967294, 4294967294, 4294967294⟩ : Ids).list, n < 2 ^ 32 - 1 := by decide

/-- The overflow user id, as an unsigned number. -/
def nobodyLine : StatusLine := .ids .uid ⟨4294967294, 4294967294, 4294967294, 4294967294⟩ ids_nobody

theorem not_decoded_nobody : ¬ (⟨[nobodyLine], List.pairwise_singleton _ _⟩ : StatusFile).Decoded := by
  intro h
  have hsmall : nobodyLine.Small := h.small nobodyLine List.mem_cons_self
  exact absurd (hsmall (.uid, 4294967294) List.mem_cons_self) (by decide)

end StatusFile

end SysInfo
