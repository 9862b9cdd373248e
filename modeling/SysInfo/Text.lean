import Mathlib.Algebra.Order.Field.Rat
import Mathlib.Data.List.TakeWhile
import Mathlib.Data.List.Induction
/-!
# Text — characters, digits, and the C library's conversions

Strings are lists of characters, one per byte.  The character classes are those of the "C" locale, `strtol` is the
conversion under `std::stoi` and `std::stol`, and `decimal`/`hexUpper` are `printf`'s `%lu` and `%X`.  A conversion is
proved against its own printing (`strtol_decimal_append`, `readDigits_hexPad`).
-/
namespace SysInfo

/-! ## Classes -/

/-- `isspace`: blank, tab, newline, vertical tab, form feed, carriage return. -/
def isSpace (c : Char) : Bool := c = ' ' || (decide (9 ≤ c.toNat) && decide (c.toNat ≤ 13))

/-- `[[:xdigit:]]`. -/
def isXdigit (c : Char) : Bool :=
  c.isDigit || (decide (97 ≤ c.toNat) && decide (c.toNat ≤ 102)) || (decide (65 ≤ c.toNat) && decide (c.toNat ≤ 70))

def isBaseDigit (base : Nat) (c : Char) : Bool := if base = 16 then isXdigit c else c.isDigit

theorem toNat_of_isDigit {c : Char} (h : c.isDigit = true) : 48 ≤ c.toNat ∧ c.toNat ≤ 57 := by
  simp only [Char.isDigit, Bool.and_eq_true, decide_eq_true_eq] at h
  obtain ⟨h1, h2⟩ := h
  exact ⟨by simpa using UInt32.le_iff_toNat_le.1 h1, by simpa using UInt32.le_iff_toNat_le.1 h2⟩

theorem isSpace_of_isDigit {c : Char} (h : c.isDigit = true) : isSpace c = false := by
  have hc := toNat_of_isDigit h
  have hb : c ≠ ' ' := by rintro rfl; exact absurd h (by decide)
  simp only [isSpace, hb, decide_false, Bool.false_or, Bool.and_eq_false_iff, decide_eq_false_iff_not]
  omega

theorem isDigit_of_isSpace {c : Char} (h : isSpace c = true) : c.isDigit = false := by
  cases hd : c.isDigit with
  | false => rfl
  | true => rw [isSpace_of_isDigit hd] at h; cases h

theorem toNat_of_isAlpha {c : Char} (h : c.isAlpha = true) :
    (65 ≤ c.toNat ∧ c.toNat ≤ 90) ∨ (97 ≤ c.toNat ∧ c.toNat ≤ 122) := by
  rcases Bool.or_eq_true_iff.1 (show (c.isUpper || c.isLower) = true from h) with h | h
  · obtain ⟨h1, h2⟩ := of_decide_eq_true h
    exact .inl ⟨by simpa using UInt32.le_iff_toNat_le.1 h1, by simpa using UInt32.le_iff_toNat_le.1 h2⟩
  · obtain ⟨h1, h2⟩ := Bool.and_eq_true_iff.1 h
    have h1 := of_decide_eq_true h1
    have h2 := of_decide_eq_true h2
    exact .inr ⟨by simpa using UInt32.le_iff_toNat_le.1 h1, by simpa using UInt32.le_iff_toNat_le.1 h2⟩

theorem isDigit_of_isAlpha {c : Char} (h : c.isAlpha = true) : c.isDigit = false := by
  have hc := toNat_of_isAlpha h
  cases hd : c.isDigit with
  | false => rfl
  | true =>
    have hd := toNat_of_isDigit hd
    omega

theorem isSpace_of_isAlpha {c : Char} (h : c.isAlpha = true) : isSpace c = false := by
  have hc := toNat_of_isAlpha h
  have hb : c ≠ ' ' := by rintro rfl; exact absurd h (by decide)
  simp only [isSpace, hb, decide_false, Bool.false_or, Bool.and_eq_false_iff, decide_eq_false_iff_not]
  omega

theorem isXdigit_of_isDigit {c : Char} (h : c.isDigit = true) : isXdigit c = true := by
  simp [isXdigit, h]

theorem isSpace_of_isXdigit {c : Char} (h : isXdigit c = true) : isSpace c = false := by
  have hb : c ≠ ' ' := by rintro rfl; exact absurd h (by decide)
  simp only [isXdigit, Bool.or_eq_true, Bool.and_eq_true, decide_eq_true_eq] at h
  rcases h with (h | h) | h
  · exact isSpace_of_isDigit h
  all_goals
    simp only [isSpace, hb, decide_false, Bool.false_or, Bool.and_eq_false_iff, decide_eq_false_iff_not]
    omega

theorem isBaseDigit_of_isDigit {base : Nat} {c : Char} (h : c.isDigit = true) : isBaseDigit base c = true := by
  unfold isBaseDigit; split
  · exact isXdigit_of_isDigit h
  · exact h

theorem isSpace_of_isBaseDigit {base : Nat} {c : Char} (h : isBaseDigit base c = true) : isSpace c = false := by
  unfold isBaseDigit at h
  split at h
  · exact isSpace_of_isXdigit h
  · exact isSpace_of_isDigit h

/-! ## A word and what follows it -/

section Span

variable {α : Type} {p : α → Bool}

theorem takeWhile_append_stop {w t : List α} (hw : ∀ c ∈ w, p c = true) (ht : ∀ c ∈ t.head?, p c = false) :
    (w ++ t).takeWhile p = w := by
  rw [List.takeWhile_append_of_pos hw]
  cases t with
  | nil => simp
  | cons c t => rw [List.takeWhile_cons_of_neg (by simpa using ht c rfl), List.append_nil]

theorem dropWhile_append_stop {w t : List α} (hw : ∀ c ∈ w, p c = true) (ht : ∀ c ∈ t.head?, p c = false) :
    (w ++ t).dropWhile p = t := by
  rw [List.dropWhile_append_of_pos hw]
  cases t with
  | nil => rfl
  | cons c t => exact List.dropWhile_cons_of_neg (by simpa using ht c rfl)

theorem takeWhile_all {w : List α} (hw : ∀ c ∈ w, p c = true) : w.takeWhile p = w :=
  List.takeWhile_eq_self_iff.2 hw

theorem takeWhile_ne_eq_self_iff {a : Char} {s : List Char} : s.takeWhile (· ≠ a) = s ↔ a ∉ s := by
  rw [List.takeWhile_eq_self_iff]
  exact ⟨fun h ha => by simpa using h a ha, fun h c hc => by simpa using fun e : c = a => h (e ▸ hc)⟩

theorem mem_leftpad {n : Nat} {a c : α} {l : List α} (h : c ∈ l.leftpad n a) : c = a ∨ c ∈ l := by
  rw [List.leftpad, List.mem_append] at h
  exact h.imp List.eq_of_mem_replicate id

end Span

/-! ## Strings joined and split -/

theorem notMem_intercalate {a s : Char} (ha : a ≠ s) : ∀ {ws : List (List Char)}, (∀ w ∈ ws, a ∉ w) →
    a ∉ [s].intercalate ws
  | [], _ => List.not_mem_nil
  | [w], h => by
    rw [List.intercalate_singleton]
    exact h w List.mem_cons_self
  | w :: v :: ws, h => by
    rw [List.intercalate_cons_cons, List.append_assoc, List.mem_append, List.singleton_append, List.mem_cons, not_or,
      not_or]
    exact ⟨h w List.mem_cons_self, ha, notMem_intercalate ha fun u hu => h u (List.mem_cons_of_mem w hu)⟩

/-- The first string of a split ends where the delimiter first stands. -/
theorem getD_splitOn (a : Char) (t : List Char) : ∀ s : List Char, (s.splitOn a).getD 0 t = s.takeWhile (· ≠ a)
  | [] => rfl
  | c :: s => by
    have ih := getD_splitOn a t s
    obtain ⟨u, us, hu⟩ := List.exists_cons_of_ne_nil (List.splitOn_ne_nil a s)
    rw [hu, List.getD_cons_zero] at ih
    rw [List.splitOn_cons_eq_if_modifyHead]
    by_cases hc : c = a
    · rw [if_pos (by simp [hc]), List.takeWhile_cons_of_neg (by simp [hc])]
      rfl
    · rw [if_neg (by simp [hc]), hu, List.modifyHead_cons, List.getD_cons_zero,
        List.takeWhile_cons_of_pos (by simp [hc]), ih]

theorem notMem_of_mem_splitOn {a : Char} : ∀ {s w : List Char}, w ∈ s.splitOn a → a ∉ w
  | [], w, h => by
    rw [List.splitOn_nil, List.mem_singleton] at h
    simp [h]
  | c :: s, w, h => by
    rw [List.splitOn_cons_eq_if_modifyHead] at h
    obtain ⟨u, us, hu⟩ := List.exists_cons_of_ne_nil (List.splitOn_ne_nil a s)
    split at h
    · rcases List.mem_cons.1 h with rfl | h
      · exact List.not_mem_nil
      · exact notMem_of_mem_splitOn h
    · rename_i hc
      rw [hu, List.modifyHead_cons] at h
      rcases List.mem_cons.1 h with rfl | h
      · have hrest : a ∉ u := notMem_of_mem_splitOn (s := s) (by rw [hu]; exact List.mem_cons_self)
        rw [List.mem_cons, not_or]
        exact ⟨fun he => hc (by simp [he]), hrest⟩
      · exact notMem_of_mem_splitOn (s := s) (by rw [hu]; exact List.mem_cons_of_mem _ h)

/-! ## Digits -/

def digitVal (c : Char) : Nat :=
  if c.isDigit then c.toNat - 48 else if 97 ≤ c.toNat then c.toNat - 87 else c.toNat - 55

def readDigits (base : Nat) (l : List Char) : Nat := l.foldl (fun n c => base * n + digitVal c) 0

/-- `%lu`. -/
def decimal (n : Nat) : List Char := Nat.toDigits 10 n

/-- `%ld`. -/
def decimalInt (z : Int) : List Char := if z < 0 then '-' :: decimal z.natAbs else decimal z.natAbs

/-- `%X`. -/
def hexUpper (n : Nat) : List Char := (Nat.toDigits 16 n).map Char.toUpper

/-- `%0wX`. -/
def hexPad (w n : Nat) : List Char := (hexUpper n).leftpad w '0'

/-- `%0wx`. -/
def hexPadLower (w n : Nat) : List Char := (Nat.toDigits 16 n).leftpad w '0'

theorem readDigits_append (base : Nat) (l : List Char) (c : Char) :
    readDigits base (l ++ [c]) = base * readDigits base l + digitVal c := by
  simp [readDigits]

theorem readDigits_cons (base : Nat) (c : Char) (l : List Char) :
    readDigits base (c :: l) = digitVal c * base ^ l.length + readDigits base l := by
  induction l using List.reverseRecOn with
  | nil => simp [readDigits]
  | append_singleton l d ih =>
    rw [← List.cons_append, readDigits_append, ih, readDigits_append, List.length_append, List.length_singleton,
      Nat.pow_succ, Nat.mul_add, Nat.add_assoc]
    congr 1
    rw [Nat.mul_left_comm, Nat.mul_comm base]

theorem readDigits_leftpad (base n : Nat) (l : List Char) : readDigits base (l.leftpad n '0') = readDigits base l := by
  unfold readDigits List.leftpad
  rw [List.foldl_append]
  congr 1
  induction n - l.length with
  | zero => rfl
  | succ k ih => rw [List.replicate_succ', List.foldl_append, ih]; simp [digitVal]

theorem readDigits_lt {l : List Char} (h : ∀ c ∈ l, c.isDigit = true) : readDigits 10 l < 10 ^ l.length := by
  induction l using List.reverseRecOn with
  | nil => simp [readDigits]
  | append_singleton l c ih =>
    have hc := toNat_of_isDigit (h c (by simp))
    have hv : digitVal c ≤ 9 := by
      rw [digitVal, if_pos (h c (by simp))]; omega
    have := ih (fun d hd => h d (by simp [hd]))
    rw [readDigits_append, List.length_append, List.length_singleton, Nat.pow_succ]
    omega

theorem decimal_ne_nil (n : Nat) : decimal n ≠ [] := Nat.toDigits_ne_nil

theorem isDigit_of_mem_decimal {n : Nat} {c : Char} (h : c ∈ decimal n) : c.isDigit = true :=
  Nat.isDigit_of_mem_toDigits (by decide) (by decide) h

theorem digitVal_digitChar {d : Nat} (h : d < 10) : digitVal d.digitChar = d := by
  have : d.digitChar.isDigit = true := by simpa using h
  simp [digitVal, this, Nat.toNat_digitChar_sub_48_of_lt_ten h]

theorem readDigits_decimal (n : Nat) : readDigits 10 (decimal n) = n := by
  induction n using Nat.strong_induction_on with
  | _ n ih =>
    unfold decimal at *
    rw [Nat.toDigits_eq_if (by decide)]
    split
    · rename_i h
      simp [readDigits, digitVal_digitChar h]
    · rename_i h
      rw [readDigits_append, ih (n / 10) (by omega), digitVal_digitChar (Nat.mod_lt _ (by decide))]
      omega

theorem decimal_of_lt {n : Nat} (h : n < 10) : decimal n = [n.digitChar] := Nat.toDigits_of_lt_base h

theorem digitVal_hexUpper : ∀ {d : Nat}, d < 16 →
    digitVal d.digitChar.toUpper = d ∧ isXdigit d.digitChar.toUpper = true := by
  decide

theorem digitVal_hexLower : ∀ {d : Nat}, d < 16 → digitVal d.digitChar = d ∧ isXdigit d.digitChar = true := by
  decide

section Hex

/-! Both cases of hexadecimal printing at once: `f` is what happens to a digit. -/

variable {f : Char → Char} (hf : ∀ d, d < 16 → digitVal (f d.digitChar) = d ∧ isXdigit (f d.digitChar) = true)

include hf

theorem isXdigit_of_mem_hex {n : Nat} {c : Char} (h : c ∈ (Nat.toDigits 16 n).map f) : isXdigit c = true := by
  induction n using Nat.strong_induction_on with
  | _ n ih =>
    rw [Nat.toDigits_eq_if (by decide)] at h
    split at h
    · rename_i hn
      simp only [List.map_cons, List.map_nil, List.mem_singleton] at h
      exact h ▸ (hf n hn).2
    · rename_i hn
      rw [List.map_append, List.mem_append] at h
      rcases h with h | h
      · exact ih (n / 16) (by omega) h
      · simp only [List.map_cons, List.map_nil, List.mem_singleton] at h
        exact h ▸ (hf _ (Nat.mod_lt _ (by decide))).2

theorem readDigits_hex (n : Nat) : readDigits 16 ((Nat.toDigits 16 n).map f) = n := by
  induction n using Nat.strong_induction_on with
  | _ n ih =>
    rw [Nat.toDigits_eq_if (by decide)]
    split
    · rename_i h
      simp [readDigits, (hf n h).1]
    · rename_i h
      rw [List.map_append, List.map_singleton, readDigits_append, ih (n / 16) (by omega),
        (hf _ (Nat.mod_lt _ (by decide))).1]
      omega

end Hex

theorem isXdigit_of_mem_hexUpper {n : Nat} {c : Char} (h : c ∈ hexUpper n) : isXdigit c = true :=
  isXdigit_of_mem_hex (fun _ => digitVal_hexUpper) h

theorem readDigits_hexUpper (n : Nat) : readDigits 16 (hexUpper n) = n := readDigits_hex (fun _ => digitVal_hexUpper) n

theorem hexPadLower_ne_nil (w n : Nat) : hexPadLower w n ≠ [] := by
  simp [hexPadLower, List.leftpad, Nat.toDigits_ne_nil]

theorem isXdigit_of_mem_hexPadLower {w n : Nat} {c : Char} (h : c ∈ hexPadLower w n) : isXdigit c = true := by
  rcases mem_leftpad h with rfl | h
  · decide
  · exact isXdigit_of_mem_hex (f := id) (fun _ => digitVal_hexLower) (by simpa using h)

theorem readDigits_hexPadLower (w n : Nat) : readDigits 16 (hexPadLower w n) = n := by
  rw [hexPadLower, readDigits_leftpad]
  simpa using readDigits_hex (f := id) (fun _ => digitVal_hexLower) n

theorem length_hexPadLower_le {w n k : Nat} (hk : 0 < k) (hw : w ≤ k) (h : n < 16 ^ k) :
    (hexPadLower w n).length ≤ k := by
  have := (Nat.length_toDigits_le_iff (b := 16) (by decide) hk).2 h
  simp only [hexPadLower, List.leftpad, List.length_append, List.length_replicate]
  omega

theorem hexPad_ne_nil (w n : Nat) : hexPad w n ≠ [] := by
  have h : hexUpper n ≠ [] := by simp [hexUpper, Nat.toDigits_ne_nil]
  simp [hexPad, List.leftpad, h]

theorem length_hexPad {w n : Nat} (hw : 0 < w) (h : n < 16 ^ w) : (hexPad w n).length = w := by
  have := (Nat.length_toDigits_le_iff (b := 16) (by decide) hw).2 h
  simp only [hexPad, hexUpper, List.leftpad, List.length_append, List.length_replicate, List.length_map]
  omega

theorem isXdigit_of_mem_hexPad {w n : Nat} {c : Char} (h : c ∈ hexPad w n) : isXdigit c = true := by
  rcases mem_leftpad h with rfl | h
  · decide
  · exact isXdigit_of_mem_hexUpper h

theorem readDigits_hexPad (w n : Nat) : readDigits 16 (hexPad w n) = n := by
  rw [hexPad, readDigits_leftpad, readDigits_hexUpper]

theorem newline_notMem_of_isXdigit {w : List Char} (h : ∀ c ∈ w, isXdigit c = true) : '\n' ∉ w :=
  fun hm => absurd (h _ hm) (by decide)

theorem newline_notMem_decimal (n : Nat) : '\n' ∉ decimal n :=
  newline_notMem_of_isXdigit (fun _ hc => isXdigit_of_isDigit (isDigit_of_mem_decimal hc))

theorem newline_notMem_hexPad (w n : Nat) : '\n' ∉ hexPad w n :=
  newline_notMem_of_isXdigit (fun _ hc => isXdigit_of_mem_hexPad hc)

theorem newline_notMem_hexPadLower (w n : Nat) : '\n' ∉ hexPadLower w n :=
  newline_notMem_of_isXdigit (fun _ hc => isXdigit_of_mem_hexPadLower hc)

/-! ## `strtol`, `std::stoi`, `std::stol` -/

/-- What the modelled code throws. -/
inductive Exn where
  | invalidArgument
  | outOfRange
  | filesystemError
deriving Repr, DecidableEq

/-- The optional `0x` of base 16, taken only before a digit. -/
def dropHexPrefix : List Char → List Char
  | '0' :: x :: d :: t => if (x = 'x' || x = 'X') && isXdigit d then d :: t else '0' :: x :: d :: t
  | s => s

/-- `strtol`: blanks, a sign, digits; `none` when no digit was converted.  What follows the digits is ignored. -/
def strtol (base : Nat) (s : List Char) : Option Int :=
  let s := s.dropWhile isSpace
  let neg := s.head? = some '-'
  let s := if s.head? = some '-' || s.head? = some '+' then s.tail else s
  let s := if base = 16 then dropHexPrefix s else s
  let ds := s.takeWhile (isBaseDigit base)
  if ds = [] then none
  else if neg then some (-(readDigits base ds : Int)) else some (readDigits base ds)

/-- The body shared by `std::stoi` and `std::stol`, for a result between `lo` and `hi`. -/
def stoN (lo hi : Int) (base : Nat) (s : List Char) : Except Exn Int :=
  match strtol base s with
  | none   => .error .invalidArgument
  | some v => if lo ≤ v ∧ v ≤ hi then .ok v else .error .outOfRange

def stoi (base : Nat) (s : List Char) : Except Exn Int := stoN (-2 ^ 31) (2 ^ 31 - 1) base s

def stol (base : Nat) (s : List Char) : Except Exn Int := stoN (-2 ^ 63) (2 ^ 63 - 1) base s

theorem dropHexPrefix_of_digits {s : List Char} (h : ∀ c ∈ s, isXdigit c = true) : dropHexPrefix s = s := by
  unfold dropHexPrefix
  split
  · rename_i x d t
    have hx : isXdigit x = true := h x (by simp)
    have h1 : x ≠ 'x' := by rintro rfl; exact absurd hx (by decide)
    have h2 : x ≠ 'X' := by rintro rfl; exact absurd hx (by decide)
    simp [h1, h2]
  · rfl

/-- **A string of digits converts to the number it denotes.** -/
theorem strtol_of_digits (base : Nat) {s : List Char} (hne : s ≠ []) (h : ∀ c ∈ s, isBaseDigit base c = true) :
    strtol base s = some (readDigits base s : Int) := by
  obtain ⟨c, t, rfl⟩ := List.exists_cons_of_ne_nil hne
  have hc : isBaseDigit base c = true := h c (by simp)
  have hsp : (c :: t).dropWhile isSpace = c :: t :=
    List.dropWhile_cons_of_neg (by rw [isSpace_of_isBaseDigit hc]; decide)
  have hneg : c ≠ '-' := by
    rintro rfl; unfold isBaseDigit at hc; split at hc <;> exact absurd hc (by decide)
  have hpos : c ≠ '+' := by
    rintro rfl; unfold isBaseDigit at hc; split at hc <;> exact absurd hc (by decide)
  have hx : (if base = 16 then dropHexPrefix (c :: t) else c :: t) = c :: t := by
    split
    · rename_i hb
      exact dropHexPrefix_of_digits (fun d hd => by have := h d hd; rwa [isBaseDigit, if_pos hb] at this)
    · rfl
  simp only [strtol, hsp, List.head?_cons, Option.some.injEq, hneg, hpos, decide_false, Bool.or_self,
    Bool.false_eq_true, if_false, hx, takeWhile_all h, reduceCtorEq]

theorem strtol_ten_of_xdigits {s : List Char} (h : ∀ c ∈ s, isXdigit c = true) :
    strtol 10 s =
      if s.takeWhile Char.isDigit = [] then none else some (readDigits 10 (s.takeWhile Char.isDigit) : Int) := by
  have hds : isBaseDigit 10 = Char.isDigit := by funext c; simp [isBaseDigit]
  cases s with
  | nil => rfl
  | cons c t =>
    have hc := h c (by simp)
    have hsp : (c :: t).dropWhile isSpace = c :: t :=
      List.dropWhile_cons_of_neg (by rw [isSpace_of_isXdigit hc]; decide)
    have hneg : c ≠ '-' := by rintro rfl; exact absurd hc (by decide)
    have hpos : c ≠ '+' := by rintro rfl; exact absurd hc (by decide)
    simp only [strtol, hsp, List.head?_cons, Option.some.injEq, hneg, hpos, decide_false, Bool.or_self,
      Bool.false_eq_true, if_false, hds, show ¬ (10 = 16) by decide]

theorem stoN_of_digits (lo hi : Int) (base : Nat) {s : List Char} (hne : s ≠ [])
    (h : ∀ c ∈ s, isBaseDigit base c = true) (hlo : lo ≤ 0) (hhi : (readDigits base s : Int) ≤ hi) :
    stoN lo hi base s = .ok (readDigits base s : Int) := by
  rw [stoN, strtol_of_digits base hne h]
  exact if_pos ⟨by omega, hhi⟩

theorem stoi_decimal {n : Nat} (h : n < 2 ^ 31) : stoi 10 (decimal n) = .ok (n : Int) := by
  have := stoN_of_digits (-2 ^ 31) (2 ^ 31 - 1) 10 (decimal_ne_nil n)
    (fun c hc => isBaseDigit_of_isDigit (isDigit_of_mem_decimal hc)) (by decide)
    (by rw [readDigits_decimal]; omega)
  rwa [readDigits_decimal] at this

theorem stol_decimal {n : Nat} (h : n < 2 ^ 63) : stol 10 (decimal n) = .ok (n : Int) := by
  have := stoN_of_digits (-2 ^ 63) (2 ^ 63 - 1) 10 (decimal_ne_nil n)
    (fun c hc => isBaseDigit_of_isDigit (isDigit_of_mem_decimal hc)) (by decide)
    (by rw [readDigits_decimal]; omega)
  rwa [readDigits_decimal] at this

theorem stoN_spaces (lo hi : Int) (base : Nat) {pre : List Char} (hp : ∀ c ∈ pre, isSpace c = true) (s : List Char) :
    stoN lo hi base (pre ++ s) = stoN lo hi base s := by
  simp only [stoN, strtol, List.dropWhile_append_of_pos hp]

theorem strtol_decimal_append (n : Nat) {t : List Char} (ht : ∀ c ∈ t.head?, c.isDigit = false) :
    strtol 10 (decimal n ++ t) = some (n : Int) := by
  have hdig : ∀ c ∈ decimal n, c.isDigit = true := fun c hc => isDigit_of_mem_decimal hc
  have hds : isBaseDigit 10 = Char.isDigit := by funext c; simp [isBaseDigit]
  obtain ⟨c, w, hw⟩ := List.exists_cons_of_ne_nil (decimal_ne_nil n)
  have hc : c.isDigit = true := hdig c (by simp [hw])
  have hneg : c ≠ '-' := by rintro rfl; exact absurd hc (by decide)
  have hpos : c ≠ '+' := by rintro rfl; exact absurd hc (by decide)
  have hsp : (decimal n ++ t).dropWhile isSpace = decimal n ++ t := by
    rw [hw, List.cons_append]
    exact List.dropWhile_cons_of_neg (by rw [isSpace_of_isDigit hc]; decide)
  have hhead : (decimal n ++ t).head? = some c := by rw [hw]; rfl
  simp only [strtol, hsp, hhead, Option.some.injEq, hneg, hpos, decide_false, Bool.or_self, Bool.false_eq_true, if_false,
    hds, show ¬ (10 = 16) by decide, takeWhile_append_stop hdig ht, decimal_ne_nil, readDigits_decimal]

theorem stoi_decimal_append (n : Nat) {t : List Char} (ht : ∀ c ∈ t.head?, c.isDigit = false) :
    stoi 10 (decimal n ++ t) = if n < 2 ^ 31 then .ok (n : Int) else .error .outOfRange := by
  rw [stoi, stoN, strtol_decimal_append n ht]
  by_cases h : n < 2 ^ 31
  · rw [if_pos h]
    exact if_pos ⟨by omega, by omega⟩
  · rw [if_neg h]
    exact if_neg fun hr => h (by omega)

theorem stol_decimal_append (n : Nat) {t : List Char} (ht : ∀ c ∈ t.head?, c.isDigit = false) :
    stol 10 (decimal n ++ t) = if n < 2 ^ 63 then .ok (n : Int) else .error .outOfRange := by
  rw [stol, stoN, strtol_decimal_append n ht]
  by_cases h : n < 2 ^ 63
  · rw [if_pos h]
    exact if_pos ⟨by omega, by omega⟩
  · rw [if_neg h]
    exact if_neg fun hr => h (by omega)

theorem le_digitVal {c : Char} (hx : isXdigit c = true) (hd : c.isDigit = false) : 10 ≤ digitVal c := by
  simp only [isXdigit, hd, Bool.false_or, Bool.or_eq_true, Bool.and_eq_true, decide_eq_true_eq] at hx
  rw [digitVal, if_neg (by simp [hd])]
  split <;> omega

theorem digitVal_lt {c : Char} (h : c.isDigit = true) : digitVal c < 10 := by
  have hc := toNat_of_isDigit h
  rw [digitVal, if_pos h]
  omega

/-- **The decimal digits a hexadecimal number starts with** denote no more than the number in base 10, and as much only
when it is below 10. -/
theorem readDigits_takeWhile_isDigit {s : List Char} (h : ∀ c ∈ s, isXdigit c = true) :
    readDigits 10 (s.takeWhile Char.isDigit) ≤ readDigits 16 s ∧
      (readDigits 10 (s.takeWhile Char.isDigit) = readDigits 16 s →
        readDigits 16 s < 10 ∧ ∀ c ∈ s, c.isDigit = true) := by
  induction s using List.reverseRecOn with
  | nil => exact ⟨le_refl _, fun _ => ⟨by decide, fun c hc => absurd hc List.not_mem_nil⟩⟩
  | append_singleton s c ih =>
    obtain ⟨hle, heq⟩ := ih fun d hd => h d (by simp [hd])
    rw [readDigits_append 16]
    by_cases hs : ∀ d ∈ s, d.isDigit = true
    · rw [List.takeWhile_append_of_pos hs]
      rw [takeWhile_all hs] at hle heq
      cases hc : c.isDigit with
      | true =>
        rw [List.takeWhile_cons_of_pos hc, List.takeWhile_nil, readDigits_append]
        have hlt := digitVal_lt hc
        refine ⟨by omega, fun he => ⟨by omega, fun d hd => ?_⟩⟩
        rcases List.mem_append.1 hd with hd | hd
        · exact hs d hd
        · rw [List.mem_singleton.1 hd, hc]
      | false =>
        rw [List.takeWhile_cons_of_neg (by simp [hc]), List.append_nil]
        have hge := le_digitVal (h c (by simp)) hc
        exact ⟨by omega, fun he => by omega⟩
    · -- a letter further to the left
      have htake : (s ++ [c]).takeWhile Char.isDigit = s.takeWhile Char.isDigit := by
        rw [List.takeWhile_append, if_neg fun hlen => hs (List.takeWhile_eq_self_iff.1
          ((List.takeWhile_prefix _).eq_of_length hlen))]
      have hne : readDigits 10 (s.takeWhile Char.isDigit) ≠ readDigits 16 s := fun he => hs (heq he).2
      rw [htake]
      exact ⟨by omega, fun he => by omega⟩

end SysInfo
