import SysInfo.Text
/-!
# Stream — C++ input streams

An input stream is what is left to read and its `eofbit` and `failbit`; an operation on a stream that is not good sets
`failbit` and does nothing else.  `getline`, `>>` into a string and `>>` into an integer follow the library's rules for
the two bits, for the target (kept, or zeroed, or clipped to its type's range) and for what is consumed.

`getlines` is the list of strings a `while (getline(...))` loop delivers (`getlines_eq` unrolls it once), and
`extractNum_printed` reads back a printed number.
-/
namespace SysInfo

structure IStream where
  rest : List Char
  eof  : Bool
  fail : Bool
deriving Repr, DecidableEq

namespace IStream

def good (s : IStream) : Bool := !s.eof && !s.fail

/-- `std::istringstream`. -/
def ofText (t : List Char) : IStream := ⟨t, false, false⟩

/-- `std::ifstream`: a file that cannot be opened leaves the stream failed. -/
def openFile : Option (List Char) → IStream
  | some t => ofText t
  | none   => ⟨[], false, true⟩

@[simp] theorem good_ofText (t : List Char) : (ofText t).good = true := rfl
@[simp] theorem rest_ofText (t : List Char) : (ofText t).rest = t := rfl

/-! ## `getline` -/

/-- `std::getline(s, str, d)`: the stream and the string after it. -/
def getline (d : Char) (s : IStream) (str : List Char) : IStream × List Char :=
  if s.good then
    match s.rest.dropWhile (· ≠ d) with
    | []     => (⟨[], true, s.rest.isEmpty⟩, s.rest)
    | _ :: t => (⟨t, false, false⟩, s.rest.takeWhile (· ≠ d))
  else (⟨s.rest, s.eof, true⟩, str)

/-- The strings between delimiters; what follows the last one counts only when it is not empty. -/
def splitLines (d : Char) : List Char → List (List Char)
  | [] => []
  | c :: t =>
    if c = d then [] :: splitLines d t
    else match splitLines d t with
      | []      => [[c]]
      | l :: ls => (c :: l) :: ls

/-- The strings `while (getline(s, str, d))` delivers. -/
def getlines (d : Char) (s : IStream) : List (List Char) := if s.good then splitLines d s.rest else []

theorem splitLines_append (d : Char) : ∀ (l t : List Char), d ∉ l → splitLines d (l ++ d :: t) = l :: splitLines d t
  | [], t, _ => by simp [splitLines]
  | c :: l, t, h => by
    simp only [List.mem_cons, not_or] at h
    rw [List.cons_append, splitLines, if_neg (Ne.symm h.1), splitLines_append d l t h.2]

theorem splitLines_last (d : Char) : ∀ (l : List Char), l ≠ [] → d ∉ l → splitLines d l = [l]
  | [], h, _ => absurd rfl h
  | [c], _, h => by
    have : c ≠ d := fun hc => h (by simp [hc])
    simp [splitLines, this]
  | c :: c' :: l, _, h => by
    simp only [List.mem_cons, not_or] at h
    rw [splitLines, if_neg (Ne.symm h.1), splitLines_last d (c' :: l) (by simp) (by simp [h.2])]

theorem notMem_of_mem_splitLines (d : Char) : ∀ {s : List Char} {l : List Char}, l ∈ splitLines d s → d ∉ l
  | [], _, h => absurd h List.not_mem_nil
  | c :: s, l, h => by
    rw [splitLines] at h
    split at h
    · rcases List.mem_cons.1 h with rfl | h
      · exact List.not_mem_nil
      · exact notMem_of_mem_splitLines d h
    · rename_i hc
      cases hs : splitLines d s with
      | nil =>
        rw [hs] at h
        simp only [List.mem_singleton] at h
        subst h
        simpa using Ne.symm hc
      | cons k ks =>
        rw [hs] at h
        rcases List.mem_cons.1 h with rfl | h
        · have hk : d ∉ k := notMem_of_mem_splitLines d (by rw [hs]; exact List.mem_cons_self ..)
          simpa using ⟨Ne.symm hc, hk⟩
        · exact notMem_of_mem_splitLines d (by rw [hs]; exact List.mem_cons_of_mem k h)

/-- **The loop, once around**: a good stream delivers the line `getline` reads and goes on; otherwise it stops. -/
theorem getlines_eq (d : Char) (s : IStream) :
    getlines d s = if (s.getline d []).1.fail then [] else (s.getline d []).2 :: getlines d (s.getline d []).1 := by
  unfold getlines getline
  by_cases hg : s.good = true
  · rw [if_pos hg, if_pos hg]
    have hsplit := List.takeWhile_append_dropWhile (p := (· ≠ d)) (l := s.rest)
    have hmem : d ∉ s.rest.takeWhile (· ≠ d) := fun h => by simpa using List.mem_takeWhile_imp h
    generalize s.rest.takeWhile (· ≠ d) = w at hsplit hmem
    cases hd : s.rest.dropWhile (· ≠ d) with
    | nil =>
      rw [hd, List.append_nil] at hsplit
      simp only [good, Bool.not_true, Bool.false_and, Bool.false_eq_true, if_false]
      by_cases he : s.rest = []
      · simp [he, splitLines]
      · have hne : s.rest.isEmpty = false := by simpa using he
        rw [hne, splitLines_last d _ he (hsplit ▸ hmem)]
        rfl
    | cons c t =>
      have hc : c = d := by
        have h := List.head?_dropWhile_not (· ≠ d) s.rest
        rw [hd] at h
        simpa using h
      subst hc
      rw [hd] at hsplit
      rw [← hsplit, splitLines_append c w t hmem]
      simp [good]
  · rw [if_neg hg, if_neg hg]
    simp

@[simp] theorem getlines_ofText (d : Char) (t : List Char) : getlines d (ofText t) = splitLines d t := rfl

def unlines (d : Char) (ls : List (List Char)) : List Char := ls.flatMap (· ++ [d])

@[simp] theorem unlines_nil (d : Char) : unlines d [] = [] := rfl

@[simp] theorem unlines_cons (d : Char) (l : List Char) (ls : List (List Char)) :
    unlines d (l :: ls) = l ++ d :: unlines d ls := by simp [unlines]

@[simp] theorem unlines_append (d : Char) (ls ms : List (List Char)) :
    unlines d (ls ++ ms) = unlines d ls ++ unlines d ms := List.flatMap_append

/-- **Reading lines undoes writing them.** -/
theorem splitLines_unlines (d : Char) : ∀ (ls : List (List Char)), (∀ l ∈ ls, d ∉ l) → splitLines d (unlines d ls) = ls
  | [], _ => rfl
  | l :: ls, h => by
    rw [unlines_cons, splitLines_append d l _ (h l (by simp)),
      splitLines_unlines d ls (fun m hm => h m (by simp [hm]))]

/-- The last line counts without its delimiter too, unless it is empty. -/
theorem splitLines_unlines_last (d : Char) {l : List Char} (hne : l ≠ []) (hl : d ∉ l) : ∀ (ls : List (List Char)),
    (∀ m ∈ ls, d ∉ m) → splitLines d (unlines d ls ++ l) = ls ++ [l]
  | [], _ => splitLines_last d l hne hl
  | m :: ls, h => by
    rw [unlines_cons, List.append_assoc, List.cons_append, splitLines_append d m _ (h m (by simp)),
      splitLines_unlines_last d hne hl ls (fun k hk => h k (by simp [hk])), List.cons_append]

theorem splitLines_ne_nil (d : Char) : ∀ s : List Char, splitLines d (s ++ [d]) ≠ []
  | [] => by simp [splitLines]
  | c :: s => by
    rw [List.cons_append, splitLines]
    split
    · exact List.cons_ne_nil _ _
    · split <;> exact List.cons_ne_nil _ _

/-- **Lines split where a delimiter stands.** -/
theorem splitLines_split (d : Char) : ∀ s t : List Char,
    splitLines d (s ++ d :: t) = splitLines d (s ++ [d]) ++ splitLines d t
  | [], t => by simp [splitLines]
  | c :: s, t => by
    simp only [List.cons_append, splitLines, splitLines_split d s t]
    split
    · rfl
    · cases h : splitLines d (s ++ [d]) with
      | nil => exact absurd h (splitLines_ne_nil d s)
      | cons l ls => rfl

theorem getline_ofText (d : Char) {l : List Char} (h : d ∉ l) (t str : List Char) :
    (ofText (l ++ d :: t)).getline d str = (ofText t, l) := by
  have hl : ∀ c ∈ l, decide (c ≠ d) = true := fun c hc => decide_eq_true fun e => h (e ▸ hc)
  have ht : ∀ c ∈ (d :: t).head?, decide (c ≠ d) = false := fun c hc => by cases hc; simp
  simp only [getline, good_ofText, if_true, rest_ofText]
  rw [dropWhile_append_stop hl ht, takeWhile_append_stop hl ht]
  rfl

theorem getline_ofText_last (d : Char) {l : List Char} (h : d ∉ l) (str : List Char) :
    ((ofText l).getline d str).2 = l := by
  have hl : ∀ c ∈ l, decide (c ≠ d) = true := fun c hc => decide_eq_true fun e => h (e ▸ hc)
  have hd : (ofText l).rest.dropWhile (· ≠ d) = [] := List.dropWhile_eq_nil_iff.2 hl
  rw [getline, if_pos (good_ofText l), hd]
  rfl

theorem getline_snd_ofText (d : Char) (l str : List Char) : ((ofText l).getline d str).2 = l.takeWhile (· ≠ d) := by
  rw [getline, if_pos (good_ofText l)]
  cases hd : (ofText l).rest.dropWhile (· ≠ d) with
  | nil => exact (takeWhile_all (List.dropWhile_eq_nil_iff.1 hd)).symm
  | cons c t => rfl

/-- A line delivered empty ended with its delimiter. -/
theorem eof_getline_of_nil {d : Char} {s : IStream} {str : List Char} (hfail : (s.getline d str).1.fail = false)
    (hline : (s.getline d str).2 = []) : (s.getline d str).1.eof = false := by
  unfold getline at hfail hline ⊢
  by_cases hg : s.good = true
  · simp only [if_pos hg] at hfail hline ⊢
    cases hd : s.rest.dropWhile (· ≠ d) with
    | nil =>
      rw [hd] at hfail hline
      have hrest : s.rest = [] := hline
      rw [hrest] at hfail
      cases hfail
    | cons c t => rfl
  · rw [if_neg hg] at hfail
    cases hfail

/-- The stream a `while (getline(...))` loop leaves behind. -/
def drain (s : IStream) : IStream := if s.good then ⟨[], true, true⟩ else ⟨s.rest, s.eof, true⟩

/-- The loop reaches `drain` whatever line it is on. -/
theorem drain_eq (d : Char) (s : IStream) :
    s.drain = if (s.getline d []).1.fail then (s.getline d []).1 else (s.getline d []).1.drain := by
  unfold drain getline
  by_cases hg : s.good = true
  · rw [if_pos hg, if_pos hg]
    cases s.rest.dropWhile (· ≠ d) with
    | nil => cases s.rest <;> rfl
    | cons c t => rfl
  · rw [if_neg hg, if_neg hg]; rfl

/-! ## `>>` into a string -/

/-- `s >> str`. -/
def extractWord (s : IStream) (str : List Char) : IStream × List Char :=
  if s.good then
    match s.rest.dropWhile isSpace with
    | []     => (⟨[], true, true⟩, str)
    | c :: t =>
      let rest := (c :: t).dropWhile (!isSpace ·)
      (⟨rest, rest.isEmpty, false⟩, (c :: t).takeWhile (!isSpace ·))
  else (⟨s.rest, s.eof, true⟩, str)

theorem extractWord_word {pre w t : List Char} (hp : ∀ c ∈ pre, isSpace c = true) (hne : w ≠ [])
    (hw : ∀ c ∈ w, isSpace c = false) (ht : ∀ c ∈ t.head?, isSpace c = true) (str : List Char) :
    (ofText (pre ++ (w ++ t))).extractWord str = (⟨t, t.isEmpty, false⟩, w) := by
  obtain ⟨c, w', rfl⟩ := List.exists_cons_of_ne_nil hne
  have hd : (pre ++ (c :: w' ++ t)).dropWhile isSpace = c :: (w' ++ t) := by
    rw [List.dropWhile_append_of_pos hp, List.cons_append,
      List.dropWhile_cons_of_neg (by rw [hw c (by simp)]; decide)]
  have hw' : ∀ d ∈ c :: w', (!isSpace d) = true := fun d hd' => by rw [hw d hd']; rfl
  have ht' : ∀ d ∈ t.head?, (!isSpace d) = false := fun d hd' => by rw [ht d hd']; rfl
  simp only [extractWord, good_ofText, if_true]
  rw [rest_ofText, hd]
  simp only [← List.cons_append]
  rw [takeWhile_append_stop hw' ht', dropWhile_append_stop hw' ht']

end IStream

/-! ## Integer types and `>>` into them -/

/-- The C++ integer types of the members read with `>>`. -/
inductive CType where
  | int
  | uint
  | long
  | ulong
deriving Repr, DecidableEq

namespace CType

abbrev Val : CType → Type
  | .int   => Int32
  | .uint  => UInt32
  | .long  => Int64
  | .ulong => UInt64

def lo : CType → Int
  | .int   => -2 ^ 31
  | .uint  => 0
  | .long  => -2 ^ 63
  | .ulong => 0

def hi : CType → Int
  | .int   => 2 ^ 31 - 1
  | .uint  => 2 ^ 32 - 1
  | .long  => 2 ^ 63 - 1
  | .ulong => 2 ^ 64 - 1

def signed : CType → Bool
  | .int | .long => true
  | .uint | .ulong => false

/-- Conversion to the type, modulo its width. -/
def ofInt : (τ : CType) → Int → τ.Val
  | .int,   z => Int32.ofInt z
  | .uint,  z => UInt32.ofInt z
  | .long,  z => Int64.ofInt z
  | .ulong, z => UInt64.ofInt z

def toInt : (τ : CType) → τ.Val → Int
  | .int,   x => x.toInt
  | .uint,  x => (x.toNat : Int)
  | .long,  x => x.toInt
  | .ulong, x => (x.toNat : Int)

theorem ofInt_toInt : ∀ (τ : CType) (x : τ.Val), τ.ofInt (τ.toInt x) = x
  | .int,   x => Int32.ofInt_toInt x
  | .uint,  x => by
    apply UInt32.toNat_inj.1
    have h : UInt32.toNat x < 2 ^ 32 := x.toNat_lt
    show (UInt32.ofInt (UInt32.toNat x : Int)).toNat = UInt32.toNat x
    simp only [UInt32.ofInt, UInt32.toNat_ofNat']
    omega
  | .long,  x => Int64.ofInt_toInt x
  | .ulong, x => by
    apply UInt64.toNat_inj.1
    have h : UInt64.toNat x < 2 ^ 64 := x.toNat_lt
    show (UInt64.ofInt (UInt64.toNat x : Int)).toNat = UInt64.toNat x
    simp only [UInt64.ofInt, UInt64.toNat_ofNat']
    omega

theorem toInt_range : ∀ (τ : CType) (x : τ.Val), τ.lo ≤ τ.toInt x ∧ τ.toInt x ≤ τ.hi
  | .int,   x => ⟨x.le_toInt, by have := x.toInt_lt; simp only [toInt, hi]; omega⟩
  | .uint,  x => ⟨Int.natCast_nonneg _, by have := x.toNat_lt; simp only [toInt, hi]; omega⟩
  | .long,  x => ⟨x.le_toInt, by have := x.toInt_lt; simp only [toInt, hi]; omega⟩
  | .ulong, x => ⟨Int.natCast_nonneg _, by have := x.toNat_lt; simp only [toInt, hi]; omega⟩

theorem toInt_nonneg_of_unsigned {τ : CType} (h : τ.signed = false) (x : τ.Val) : 0 ≤ τ.toInt x := by
  cases τ with
  | int | long => cases h
  | uint | ulong => exact Int.natCast_nonneg _

/-- What `num_get` stores for a sign and a digit string, and whether it succeeds.  No digit stores 0; a value out of
range stores the nearest bound; a negative number read into an unsigned type wraps. -/
def numGet (τ : CType) (neg : Bool) (ds : List Char) : τ.Val × Bool :=
  let n : Int := readDigits 10 ds
  if ds = [] then (τ.ofInt 0, false)
  else if neg then
    if τ.signed then if τ.lo ≤ -n then (τ.ofInt (-n), true) else (τ.ofInt τ.lo, false)
    else if n ≤ τ.hi then (τ.ofInt (-n), true) else (τ.ofInt τ.hi, false)
  else if n ≤ τ.hi then (τ.ofInt n, true) else (τ.ofInt τ.hi, false)

theorem numGet_printed (τ : CType) (x : τ.Val) :
    numGet τ (decide (τ.toInt x < 0)) (decimal (τ.toInt x).natAbs) = (x, true) := by
  have hr := τ.toInt_range x
  unfold numGet
  rw [if_neg (decimal_ne_nil _), readDigits_decimal]
  by_cases h : τ.toInt x < 0
  · have hs : τ.signed = true := by
      by_contra hc
      have := toInt_nonneg_of_unsigned (by simpa using hc) x
      omega
    have hn : -((τ.toInt x).natAbs : Int) = τ.toInt x := by omega
    simp only [decide_eq_true h, if_true, hs, hn, hr.1, ofInt_toInt]
  · have hn : ((τ.toInt x).natAbs : Int) = τ.toInt x := by omega
    simp only [decide_eq_false h, Bool.false_eq_true, if_false, hn, hr.2, if_true, ofInt_toInt]

end CType

namespace IStream

/-- `s >> x` for an integer member `x`: the stream, and the member after it. -/
def extractNum (τ : CType) (s : IStream) (x : τ.Val) : IStream × τ.Val :=
  if s.good then
    match s.rest.dropWhile isSpace with
    | []     => (⟨[], true, true⟩, x)
    | c :: t =>
      let t' := if c = '-' || c = '+' then t else c :: t
      let rest := t'.dropWhile Char.isDigit
      let r := τ.numGet (c = '-') (t'.takeWhile Char.isDigit)
      (⟨rest, rest.isEmpty, !r.2⟩, r.1)
  else (⟨s.rest, s.eof, true⟩, x)

theorem extractNum_fail {s : IStream} (h : s.good = false) (τ : CType) (x : τ.Val) :
    s.extractNum τ x = (⟨s.rest, s.eof, true⟩, x) := by
  rw [extractNum, if_neg (by simp [h])]

/-- **A printed number is read back**, after blanks and before anything but a digit. -/
theorem extractNum_printed (τ : CType) (v x : τ.Val) {pre t : List Char} (hp : ∀ c ∈ pre, isSpace c = true)
    (ht : ∀ c ∈ t.head?, c.isDigit = false) :
    (ofText (pre ++ (decimalInt (τ.toInt v) ++ t))).extractNum τ x = (⟨t, t.isEmpty, false⟩, v) := by
  simp only [extractNum, good_ofText, if_true]
  rw [rest_ofText, List.dropWhile_append_of_pos hp]
  have hdig : ∀ c ∈ decimal (τ.toInt v).natAbs, c.isDigit = true := fun c hc => isDigit_of_mem_decimal hc
  have hnum := τ.numGet_printed v
  unfold decimalInt
  by_cases h : τ.toInt v < 0
  · rw [if_pos h, List.cons_append, List.dropWhile_cons_of_neg (by decide)]
    simp only [decide_true, Bool.true_or, if_true]
    rw [takeWhile_append_stop hdig ht, dropWhile_append_stop hdig ht]
    simp only [decide_eq_true h] at hnum
    rw [hnum]; rfl
  · rw [if_neg h]
    obtain ⟨c, w, hw⟩ := List.exists_cons_of_ne_nil (decimal_ne_nil (τ.toInt v).natAbs)
    have hc : c.isDigit = true := hdig c (by simp [hw])
    have hneg : c ≠ '-' := by rintro rfl; exact absurd hc (by decide)
    have hpos : c ≠ '+' := by rintro rfl; exact absurd hc (by decide)
    have hdrop : (decimal (τ.toInt v).natAbs ++ t).dropWhile isSpace = c :: (w ++ t) := by
      rw [hw, List.cons_append, List.dropWhile_cons_of_neg (by rw [isSpace_of_isDigit hc]; decide)]
    rw [hdrop]
    simp only [hneg, hpos, decide_false, Bool.or_self, Bool.false_eq_true, if_false]
    rw [← List.cons_append, ← hw, takeWhile_append_stop hdig ht, dropWhile_append_stop hdig ht]
    simp only [decide_eq_false h] at hnum
    rw [hnum]; rfl

end IStream

/-! ## `std::stringstream` -/

/-- A stream that can also be written: `buf` is all that was written, `rest` the part not read yet. -/
structure StringStream extends IStream where
  buf : List Char
deriving Repr, DecidableEq

namespace StringStream

def ofText (t : List Char) : StringStream := ⟨IStream.ofText t, t⟩

/-- `s << t`. -/
def put (s : StringStream) (t : List Char) : StringStream :=
  if s.good then { s with rest := s.rest ++ t, buf := s.buf ++ t } else { s with fail := true }

def clear (s : StringStream) : StringStream := { s with eof := false, fail := false }

def setStr (s : StringStream) (t : List Char) : StringStream := { s with rest := t, buf := t }

@[simp] theorem buf_ofText (t : List Char) : (ofText t).buf = t := rfl
@[simp] theorem put_ofText (t u : List Char) : (ofText t).put u = ofText (t ++ u) := rfl

end StringStream

end SysInfo
