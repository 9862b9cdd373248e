import SysInfo.Regex
import SysInfo.Stream
import Mathlib.Data.List.DropRight
import Mathlib.Data.List.Infix
/-!
# MMap — one mapping of `/proc/<pid>/smaps`

The constructor reads the declaration line with one regular expression and every further line with another.  The
members it does not set keep what the memory held (`junk`).

`SmapsBlock.setsNumbers_iff`: it sets the members of the numeric attribute lines exactly when their keys have no
underscore and their numbers one digit.
-/
namespace SysInfo

open IStream Re

/-- `enum mapping_type`. -/
inductive MappingType where
  | shared
  | priv
deriving Repr, DecidableEq

/-- The fourteen numeric members read from attribute lines. -/
inductive SmapsField where
  | size
  | rss
  | pss
  | sharedClean
  | sharedDirty
  | privateClean
  | privateDirty
  | referenced
  | anonymous
  | anonhugepages
  | swap
  | kernelpagesize
  | mmupagesize
  | locked
deriving Repr, DecidableEq

namespace SmapsField

/-- The key of a member, as the code compares it. -/
def key : SmapsField → List Char
  | .size           => "Size".toList
  | .rss            => "Rss".toList
  | .pss            => "Pss".toList
  | .sharedClean    => "Shared_Clean".toList
  | .sharedDirty    => "Shared_Dirty".toList
  | .privateClean   => "Private_Clean".toList
  | .privateDirty   => "Private_Dirty".toList
  | .referenced     => "Referenced".toList
  | .anonymous      => "Anonymous".toList
  | .anonhugepages  => "AnonHugePages".toList
  | .swap           => "Swap".toList
  | .kernelpagesize => "KernelPageSize".toList
  | .mmupagesize    => "MMUPageSize".toList
  | .locked         => "Locked".toList

/-- The members in the order of the `if`/`else if` chain. -/
def all : List SmapsField :=
  [.size, .rss, .pss, .sharedClean, .sharedDirty, .privateClean, .privateDirty, .referenced, .anonymous,
    .anonhugepages, .swap, .kernelpagesize, .mmupagesize, .locked]

/-- The chain: the first member with that key. -/
def ofKey (k : List Char) : Option SmapsField := all.find? (fun f => f.key = k)

theorem ofKey_key (f : SmapsField) : ofKey f.key = some f := by cases f <;> rfl

theorem key_chars (f : SmapsField) : ∀ c ∈ f.key, c.isAlpha = true ∨ c = '_' := by
  have h : f.key.all (fun c => c.isAlpha || c == '_') = true := by cases f <;> decide
  simpa using h

theorem key_ne_nil (f : SmapsField) : f.key ≠ [] := by cases f <;> decide

end SmapsField

structure MMap where
  addressFrom : List Char
  addressTo   : List Char
  permRead    : Bool
  permWrite   : Bool
  permExecute : Bool
  type        : MappingType
  offset      : Int
  devMajor    : Int
  devMinor    : Int
  inode       : Int
  pathname    : List Char
  attr        : SmapsField → Int
  vmflags     : List (List Char)
  category    : List Char

namespace MMap

/-- Memory that held one number in every numeric attribute. -/
def filled (z : Int) : MMap := ⟨[], [], false, false, false, .shared, 0, 0, 0, 0, [], fun _ => z, [], []⟩

/-! ## The constructor -/

/-- `^([[:xdigit:]]+)-([[:xdigit:]]+)\s([r-])([w-])([x-])([sp])\s([[:xdigit:]]+)\s([[:xdigit:]]+):([[:xdigit:]]+)`
`\s([[:digit:]]+)\s+(.*)$` -/
def regexDeclareMapping : Re Char :=
  cat [grp xdigits, chr '-', grp xdigits, blank, grp (.cls fun c => c = 'r' || c = '-'),
    grp (.cls fun c => c = 'w' || c = '-'), grp (.cls fun c => c = 'x' || c = '-'),
    grp (.cls fun c => c = 's' || c = 'p'), blank, grp xdigits, blank, grp xdigits, chr ':', grp xdigits, blank,
    grp digits, plus isSpace, grp anyStar]

/-- `^([[:alpha:]]+):\s+(.*)$` -/
def regexKeyValue : Re Char := cat [grp (plus Char.isAlpha), chr ':', plus isSpace, grp anyStar]

/-- `^([[:digit:]])\s.*$` -/
def regexValue : Re Char := cat [grp (.cls Char.isDigit), blank, anyStar]

/-- Conversion of a `long` to `int`. -/
def narrow (z : Int) : Int := z.bmod (2 ^ 32)

/-- The declaration line.  A line that is not a declaration sets nothing. -/
def parseDeclaration (m : MMap) (line : List Char) : Except Exn MMap :=
  match regexDeclareMapping.fullMatch line with
  | some [m1, m2, m3, m4, m5, m6, m7, m8, m9, m10, m11] => do
    let offset ← stol 10 m7
    let devMajor ← stoi 16 m8
    let devMinor ← stoi 16 m9
    let inode ← stol 10 m10
    return { m with
      addressFrom := m1
      addressTo := m2
      permRead := m3 = ['r']
      permWrite := m4 = ['w']
      permExecute := m5 = ['x']
      type := if m6 = ['p'] then .priv else .shared
      offset := narrow offset
      devMajor := devMajor
      devMinor := devMinor
      inode := inode
      pathname := m11 }
  | _ => return m

/-- `boost::algorithm::trim`. -/
def trim (s : List Char) : List Char := (s.dropWhile isSpace).rdropWhile isSpace

theorem trim_append_spaces {sp : List Char} (hsp : ∀ c ∈ sp, isSpace c = true) (s : List Char) :
    trim (s ++ sp) = trim s := by
  unfold trim
  rw [List.dropWhile_append]
  cases hd : s.dropWhile isSpace with
  | nil => rw [if_pos List.isEmpty_nil, List.dropWhile_eq_nil_iff.2 hsp]
  | cons c t =>
    rw [if_neg (by simp), List.rdropWhile, List.reverse_append,
      List.dropWhile_append_of_pos fun c hc => hsp c (List.mem_reverse.1 hc)]
    rfl

/-- One attribute line. -/
def parseAttribute (m : MMap) (line : List Char) : Except Exn MMap :=
  match regexKeyValue.fullMatch line with
  | some [key, v] =>
    let value := trim v
    match regexValue.fullMatch value with
    | some [n] =>
      match SmapsField.ofKey key with
      | some f => do
        let n ← stoi 10 n
        return { m with attr := Function.update m.attr f n }
      | none => return m
    | _ => return { m with vmflags := value.splitOn ' ' }
  | _ => return m

def defineCategory (m : MMap) : MMap :=
  let has (s : String) : Bool := s.toList <:+: m.pathname
  { m with category :=
      if has "/usr/bin" || has "/usr/lib" || m.pathname = "[vsyscall]".toList || m.pathname = "[vdso]".toList ||
          m.pathname = "[vvar]".toList then "Image".toList
      else if has "[heap]" then "Heap".toList
      else if has "[stack" then "Stack".toList
      else if m.type = .shared then "Shareable".toList
      else if m.pathname ≠ [] then "Mapped File".toList
      else "Private".toList }

/-- An object before the constructor's body, on memory that held `junk`: only strings and vectors are initialised. -/
def fresh (junk : MMap) : MMap :=
  { junk with addressFrom := [], addressTo := [], pathname := [], vmflags := [], category := [] }

/-- `MMap::MMap(std::stringstream&)`: the object and the stream. -/
def construct (junk : MMap) (ss : StringStream) : Except Exn (MMap × StringStream) := do
  let (s, line) := ss.getline '\n' []
  let m ← parseDeclaration (fresh junk) line
  let m ← (getlines '\n' s).foldlM parseAttribute m
  return (defineCategory m, { ss with toIStream := s.drain })

/-! ## The getters -/

def permissions (m : MMap) : List Char :=
  [if m.permRead then 'r' else '-', if m.permWrite then 'w' else '-', if m.permExecute then 'x' else '-']

/-- `type()`. -/
def typeName (m : MMap) : List Char := if m.type = .shared then "Shared".toList else "Private".toList

def vmFlags (m : MMap) : List (List Char) := m.vmflags

def path (m : MMap) : List Char := m.pathname

def size (m : MMap) : Int := m.attr .size

end MMap

/-! ## The kernel's lines -/

/-- A mapping as the kernel prints its declaration. -/
structure MapHeader where
  addressFrom : UInt64
  addressTo   : UInt64
  read        : Bool
  write       : Bool
  execute     : Bool
  type        : MappingType
  offset      : UInt64
  devMajor    : Nat
  devMinor    : Nat
  inode       : UInt64
  pad         : Nat
  path        : List Char
  major_lt    : devMajor < 2 ^ 20
  minor_lt    : devMinor < 2 ^ 20
  oneLine     : '\n' ∉ path

def permLetter (b : Bool) (c : Char) : Char := if b then c else '-'

def MappingType.letter : MappingType → Char
  | .shared => 's'
  | .priv   => 'p'

namespace MapHeader

/-- `%08lx-%08lx %c%c%c%c %08llx %02x:%02x %lu`, blanks, the path. -/
def line (h : MapHeader) : List Char :=
  hexPadLower 8 h.addressFrom.toNat ++ ('-' :: (hexPadLower 8 h.addressTo.toNat ++ (' ' :: permLetter h.read 'r' ::
    permLetter h.write 'w' :: permLetter h.execute 'x' :: h.type.letter :: ' ' :: (hexPadLower 8 h.offset.toNat ++
    (' ' :: (hexPadLower 2 h.devMajor ++ (':' :: (hexPadLower 2 h.devMinor ++ (' ' :: (decimal h.inode.toNat ++
    (List.replicate (h.pad + 1) ' ' ++ h.path)))))))))))

/-- The two numbers the code converts in base 10 are in its reach: the offset starts with a decimal digit and the inode
fits a `long`. -/
def Converts (h : MapHeader) : Prop :=
  (∃ c ∈ (hexPadLower 8 h.offset.toNat).head?, c.isDigit = true) ∧ h.inode.toNat < 2 ^ 63

theorem newline_notMem_line (h : MapHeader) : '\n' ∉ h.line := by
  have hp : ∀ (b : Bool) (c : Char), '\n' ≠ c → '\n' ≠ permLetter b c := fun b c hc => by
    cases b
    · exact (by decide : '\n' ≠ '-')
    · exact hc
  have ht : '\n' ≠ h.type.letter := by cases h.type <;> decide
  have hb : '\n' ∉ List.replicate (h.pad + 1) ' ' := fun hm => absurd (List.eq_of_mem_replicate hm) (by decide)
  simp only [line, List.mem_append, List.mem_cons, not_or]
  exact ⟨newline_notMem_hexPadLower _ _, by decide, newline_notMem_hexPadLower _ _, by decide, hp _ _ (by decide),
    hp _ _ (by decide), hp _ _ (by decide), ht, by decide, newline_notMem_hexPadLower _ _, by decide,
    newline_notMem_hexPadLower _ _, by decide, newline_notMem_hexPadLower _ _, by decide, newline_notMem_decimal _, hb,
    h.oneLine⟩

/-- **The eleven groups of a declaration line.** -/
theorem fullMatch_line (h : MapHeader) :
    MMap.regexDeclareMapping.fullMatch h.line =
      some [hexPadLower 8 h.addressFrom.toNat, hexPadLower 8 h.addressTo.toNat, [permLetter h.read 'r'],
        [permLetter h.write 'w'], [permLetter h.execute 'x'], [h.type.letter], hexPadLower 8 h.offset.toNat, hexPadLower 2 h.devMajor,
        hexPadLower 2 h.devMinor, decimal h.inode.toNat, h.path.dropWhile isSpace] := by
  have hstop : ∀ (c : Char) (t : List Char), isXdigit c = false → ∀ d ∈ (c :: t).head?, isXdigit d = false :=
    fun c t hc d hd => by cases hd; exact hc
  have hblank : ∀ r : Re Char, Rejects (seq blank r) isXdigit := fun r => rejects_blank_isXdigit.seq r
  have hsp : ∀ c ∈ List.replicate (h.pad + 1) ' ', isSpace c = true := fun c hc => by
    rw [List.eq_of_mem_replicate hc]; decide
  have htail : (seq (grp digits) (seq (plus isSpace) (grp anyStar))).fullMatch
      (decimal h.inode.toNat ++ (List.replicate (h.pad + 1) ' ' ++ h.path)) =
        some [decimal h.inode.toNat, h.path.dropWhile isSpace] := by
    rw [digits, fullMatch_grp_plus_word ((rejects_plus fun c hc => isSpace_of_isDigit hc).seq _) (decimal_ne_nil _)
        (fun _ => isDigit_of_mem_decimal) (fun c hc => by
          rw [List.replicate_succ, List.cons_append] at hc; cases hc; decide),
      fullMatch_plus_first (by
        rw [List.replicate_succ, List.cons_append, List.takeWhile_cons_of_pos (by decide)]; simp) (by simp),
      List.dropWhile_append_of_pos hsp]
    simp
  have hperm : ∀ (b : Bool) (c : Char), (permLetter b c = c || permLetter b c = '-') = true := fun b c => by
    cases b <;> simp [permLetter]
  have htype : (h.type.letter = 's' || h.type.letter = 'p') = true := by cases h.type <;> decide
  simp only [MMap.regexDeclareMapping, cat, line, xdigits]
  rw [fullMatch_grp_plus_word ((rejects_chr (by decide)).seq _) (hexPadLower_ne_nil _ _)
      (fun _ => isXdigit_of_mem_hexPadLower) (hstop '-' _ (by decide)), fullMatch_chr_seq, if_pos rfl,
    fullMatch_grp_plus_word (hblank _) (hexPadLower_ne_nil _ _) (fun _ => isXdigit_of_mem_hexPadLower)
      (hstop ' ' _ (by decide)), fullMatch_blank_seq, if_pos (by decide),
    fullMatch_grp_cls_seq, if_pos (hperm _ _), fullMatch_grp_cls_seq, if_pos (hperm _ _),
    fullMatch_grp_cls_seq, if_pos (hperm _ _), fullMatch_grp_cls_seq, if_pos htype,
    fullMatch_blank_seq, if_pos (by decide),
    fullMatch_grp_plus_word (hblank _) (hexPadLower_ne_nil _ _) (fun _ => isXdigit_of_mem_hexPadLower)
      (hstop ' ' _ (by decide)), fullMatch_blank_seq, if_pos (by decide),
    fullMatch_grp_plus_word ((rejects_chr (by decide)).seq _) (hexPadLower_ne_nil _ _)
      (fun _ => isXdigit_of_mem_hexPadLower) (hstop ':' _ (by decide)), fullMatch_chr_seq, if_pos rfl,
    fullMatch_grp_plus_word (hblank _) (hexPadLower_ne_nil _ _) (fun _ => isXdigit_of_mem_hexPadLower)
      (hstop ' ' _ (by decide)), fullMatch_blank_seq, if_pos (by decide), htail]
  rfl

/-- The decimal digits the offset column starts with: what `std::stol` makes of it in base 10. -/
def offsetDigits (h : MapHeader) : List Char := (hexPadLower 8 h.offset.toNat).takeWhile Char.isDigit

def declared (h : MapHeader) (m : MMap) : MMap :=
  { m with
    addressFrom := hexPadLower 8 h.addressFrom.toNat
    addressTo := hexPadLower 8 h.addressTo.toNat
    permRead := h.read
    permWrite := h.write
    permExecute := h.execute
    type := h.type
    offset := MMap.narrow (readDigits 10 h.offsetDigits)
    devMajor := h.devMajor
    devMinor := h.devMinor
    inode := h.inode.toNat
    pathname := h.path.dropWhile isSpace }

theorem stol_offset (h : MapHeader) :
    stol 10 (hexPadLower 8 h.offset.toNat) =
      if h.offsetDigits = [] then .error .invalidArgument else .ok (readDigits 10 h.offsetDigits : Int) := by
  have hlen : h.offsetDigits.length ≤ 16 :=
    (List.takeWhile_prefix _).length_le.trans (length_hexPadLower_le (by decide) (by decide) h.offset.toNat_lt)
  have hlt : readDigits 10 h.offsetDigits < 10 ^ 16 :=
    lt_of_lt_of_le (readDigits_lt fun c hc => List.mem_takeWhile_imp hc) (Nat.pow_le_pow_right (by decide) hlen)
  rw [stol, stoN, strtol_ten_of_xdigits (fun _ => isXdigit_of_mem_hexPadLower), ← offsetDigits]
  by_cases ho : h.offsetDigits = []
  · rw [if_pos ho, if_pos ho]
  · rw [if_neg ho, if_neg ho]
    exact if_pos ⟨by omega, by omega⟩

theorem stoi_device {n : Nat} (h : n < 2 ^ 20) : stoi 16 (hexPadLower 2 n) = .ok (n : Int) := by
  have := stoN_of_digits (-2 ^ 31) (2 ^ 31 - 1) 16 (hexPadLower_ne_nil 2 n)
    (fun c hc => isXdigit_of_mem_hexPadLower hc) (by decide) (by rw [readDigits_hexPadLower]; omega)
  rwa [readDigits_hexPadLower] at this

theorem offsetDigits_ne_nil {h : MapHeader} :
    h.offsetDigits ≠ [] ↔ ∃ c ∈ (hexPadLower 8 h.offset.toNat).head?, c.isDigit = true := by
  unfold offsetDigits
  cases hexPadLower 8 h.offset.toNat with
  | nil => simp
  | cons c t => simp [List.takeWhile_cons]

/-- **A declaration line that converts sets every member of the declaration**, and no other. -/
theorem parseDeclaration_line {h : MapHeader} (hc : h.Converts) (m : MMap) :
    MMap.parseDeclaration m h.line = .ok (h.declared m) := by
  have hperm : ∀ (b : Bool) (c : Char), c ≠ '-' → decide ([permLetter b c] = [c]) = b := fun b c hne => by
    cases b <;> simp [permLetter, hne.symm]
  have htype : (if [h.type.letter] = ['p'] then MappingType.priv else .shared) = h.type := by cases h.type <;> rfl
  have hoff := h.stol_offset
  rw [if_neg (offsetDigits_ne_nil.2 hc.1)] at hoff
  simp only [MMap.parseDeclaration, h.fullMatch_line, hoff, stoi_device h.major_lt, stoi_device h.minor_lt,
    stol_decimal hc.2, bind, Except.bind, pure, Except.pure, htype, hperm _ 'r' (by decide), hperm _ 'w' (by decide),
    hperm _ 'x' (by decide), declared]

theorem parseDeclaration_error {h : MapHeader} (hc : ¬ h.Converts) (m : MMap) :
    ∃ e, MMap.parseDeclaration m h.line = .error e := by
  have hoff := h.stol_offset
  simp only [MMap.parseDeclaration, h.fullMatch_line, stoi_device h.major_lt, stoi_device h.minor_lt, bind, Except.bind]
  by_cases ho : h.offsetDigits = []
  · rw [hoff, if_pos ho]
    exact ⟨_, rfl⟩
  · have hi : ¬ h.inode.toNat < 2 ^ 63 := fun hi => hc ⟨offsetDigits_ne_nil.1 ho, hi⟩
    have hin : stol 10 (decimal h.inode.toNat) = .error .outOfRange := by
      rw [stol, stoN, strtol_of_digits 10 (decimal_ne_nil _)
        (fun c hc => isBaseDigit_of_isDigit (isDigit_of_mem_decimal hc)), readDigits_decimal]
      exact if_neg (by omega)
    rw [hoff, if_neg ho, hin]
    exact ⟨_, rfl⟩

end MapHeader

/-! ### Attribute lines -/

/-- A line after the declaration: a number under one of the fourteen keys, or a line under any other key. -/
inductive SmapsLine where
  | number (f : SmapsField) (pad n : Nat) (lt : n < 2 ^ 31)
  | other (line : List Char) (unknown : SmapsField.ofKey (line.takeWhile (· ≠ ':')) = none) (oneLine : '\n' ∉ line)

/-- The key that proc(5) has for a number. -/
def SmapsField.label : SmapsField → List Char
  | .rss            => "Rss".toList
  | .pss            => "Pss".toList
  | .size           => "Size".toList
  | .swap           => "Swap".toList
  | .locked         => "Locked".toList
  | .anonymous      => "Anonymous".toList
  | .referenced     => "Referenced".toList
  | .sharedClean    => "Shared_Clean".toList
  | .sharedDirty    => "Shared_Dirty".toList
  | .privateClean   => "Private_Clean".toList
  | .privateDirty   => "Private_Dirty".toList
  | .anonhugepages  => "AnonHugePages".toList
  | .kernelpagesize => "KernelPageSize".toList
  | .mmupagesize    => "MMUPageSize".toList

/-- The code compares with the same keys. -/
theorem SmapsField.label_eq (f : SmapsField) : f.label = f.key := by cases f <;> rfl

namespace SmapsLine

/-- `Key:<blanks>N kB`, or the line itself. -/
def text : SmapsLine → List Char
  | .number f pad n _ => f.label ++ (':' :: (List.replicate (pad + 1) ' ' ++ (decimal n ++ " kB".toList)))
  | .other line _ _   => line

theorem newline_notMem_text : ∀ l : SmapsLine, '\n' ∉ l.text
  | .other _ _ h => h
  | .number f pad n _ => by
    have hk : '\n' ∉ f.label := by cases f <;> decide
    have hb : '\n' ∉ List.replicate (pad + 1) ' ' := fun hm => absurd (List.eq_of_mem_replicate hm) (by decide)
    simp only [text, List.mem_append, List.mem_cons, not_or]
    exact ⟨hk, by decide, hb, newline_notMem_decimal n, by decide⟩

def effect (v : SmapsField → Int) : SmapsLine → SmapsField → Int
  | .number f _ n _ => if '_' ∉ f.key ∧ n < 10 then Function.update v f n else v
  | .other _ _ _    => v

def entry : SmapsLine → Option (SmapsField × Nat)
  | .number f _ n _ => some (f, n)
  | .other _ _ _    => none

end SmapsLine

namespace MMap

theorem keyValue_eq (line : List Char) :
    regexKeyValue.fullMatch line =
      if line.takeWhile Char.isAlpha = [] then none
      else ((cat [chr ':', plus isSpace, grp anyStar]).fullMatch (line.dropWhile Char.isAlpha)).map
        (line.takeWhile Char.isAlpha :: ·) :=
  fullMatch_grp_plus ((rejects_chr (by decide)).seq _) line

theorem keyValue_key {line key v : List Char} (h : regexKeyValue.fullMatch line = some [key, v]) :
    key = line.takeWhile (· ≠ ':') := by
  rw [keyValue_eq] at h
  have hsplit := List.takeWhile_append_dropWhile (p := Char.isAlpha) (l := line)
  have halpha : ∀ c ∈ line.takeWhile Char.isAlpha, c.isAlpha = true := fun c hc => List.mem_takeWhile_imp hc
  generalize line.takeWhile Char.isAlpha = w at h hsplit halpha
  generalize line.dropWhile Char.isAlpha = r at h hsplit
  have hw : ∀ c ∈ w, decide (c ≠ ':') = true := fun c hc => decide_eq_true fun e => by
    have := halpha c hc
    rw [e] at this
    exact absurd this (by decide)
  split at h
  · cases h
  · cases r with
    | nil => cases h
    | cons c t =>
      simp only [cat, fullMatch_chr_seq] at h
      split at h
      · rename_i hc
        obtain ⟨_, _, hk⟩ := Option.map_eq_some_iff.1 h
        simp only [List.cons.injEq] at hk
        rw [← hsplit, hc, takeWhile_append_stop hw (fun d hd => by cases hd; simp), hk.1]
      · cases h

theorem keyValue_line {key : List Char} (hne : key ≠ []) (hk : ∀ c ∈ key, c.isAlpha = true) (pad : Nat) (t : List Char) :
    regexKeyValue.fullMatch (key ++ (':' :: (List.replicate (pad + 1) ' ' ++ t))) = some [key, t.dropWhile isSpace] := by
  have hsp : ∀ c ∈ List.replicate (pad + 1) ' ', isSpace c = true := fun c hc => by
    rw [List.eq_of_mem_replicate hc]; decide
  simp only [regexKeyValue, cat]
  rw [fullMatch_grp_plus_word ((rejects_chr (by decide)).seq _) hne hk (fun c hc => by cases hc; decide),
    fullMatch_chr_seq, if_pos rfl,
    fullMatch_plus_first (by
      rw [List.replicate_succ, List.cons_append, List.takeWhile_cons_of_pos (by decide)]; simp) (by simp),
    List.dropWhile_append_of_pos hsp]
  simp

/-- **No expression key holds an underscore**: a line under such a key is not accepted. -/
theorem keyValue_underscore {f : SmapsField} (h : '_' ∈ f.key) (t : List Char) :
    regexKeyValue.fullMatch (f.key ++ (':' :: t)) = none := by
  rw [keyValue_eq]
  cases f with
  | sharedClean | sharedDirty | privateClean | privateDirty => rfl
  | _ => exact absurd h (by decide)

theorem trim_kB (n : Nat) : trim (decimal n ++ " kB".toList) = decimal n ++ " kB".toList := by
  obtain ⟨c, w, hw⟩ := List.exists_cons_of_ne_nil (decimal_ne_nil n)
  have hc : isSpace c = false := isSpace_of_isDigit (isDigit_of_mem_decimal (n := n) (by rw [hw]; simp))
  rw [trim, hw, List.cons_append, List.dropWhile_cons_of_neg (by simp [hc]), ← List.cons_append, ← hw,
    show " kB".toList = [' ', 'k'] ++ ['B'] from rfl, ← List.append_assoc, List.rdropWhile_concat_neg _ _ _ (by decide)]

/-- **One digit, then a blank**: a longer number is not accepted. -/
theorem regexValue_kB (n : Nat) :
    regexValue.fullMatch (decimal n ++ " kB".toList) = if n < 10 then some [decimal n] else none := by
  simp only [regexValue, cat]
  by_cases h : n < 10
  · rw [if_pos h, decimal_of_lt h, List.singleton_append, fullMatch_grp_cls_seq,
      if_pos (isDigit_of_mem_decimal (n := n) (by rw [decimal_of_lt h]; simp))]
    simp [isSpace]
  · rw [if_neg h]
    obtain ⟨c, w, hw⟩ := List.exists_cons_of_ne_nil (decimal_ne_nil n)
    obtain ⟨d, u, rfl⟩ := List.exists_cons_of_ne_nil (l := w) (by
      rintro rfl
      have h1 : (decimal n).length ≤ 1 := by rw [hw]; simp
      exact h ((Nat.length_toDigits_le_iff (b := 10) (by decide) (by decide)).1 h1))
    have hd : isSpace d = false := isSpace_of_isDigit (isDigit_of_mem_decimal (n := n) (by rw [hw]; simp))
    rw [hw, List.cons_append, List.cons_append, fullMatch_grp_cls_seq, fullMatch_blank_seq, hd]
    simp

/-- **A line of the kernel never throws, and changes at most the member of its key.** -/
theorem parseAttribute_text (m : MMap) (l : SmapsLine) :
    ∃ m', parseAttribute m l.text = .ok m' ∧ m'.attr = l.effect m.attr := by
  cases l with
  | number f pad n lt =>
    simp only [SmapsLine.text, SmapsLine.effect, f.label_eq]
    by_cases hu : '_' ∈ f.key
    · rw [if_neg (fun h => h.1 hu : ¬ ('_' ∉ f.key ∧ n < 10)), parseAttribute, keyValue_underscore hu]
      exact ⟨m, rfl, rfl⟩
    · have halpha : ∀ c ∈ f.key, c.isAlpha = true := fun c hc =>
        (f.key_chars c hc).resolve_right (fun e => hu (e ▸ hc))
      obtain ⟨c, w, hw⟩ := List.exists_cons_of_ne_nil (decimal_ne_nil n)
      have hdrop : (decimal n ++ " kB".toList).dropWhile isSpace = decimal n ++ " kB".toList := by
        rw [hw, List.cons_append, List.dropWhile_cons_of_neg]
        simp [isSpace_of_isDigit (isDigit_of_mem_decimal (n := n) (by rw [hw]; simp : c ∈ decimal n))]
      rw [parseAttribute, keyValue_line f.key_ne_nil halpha, hdrop]
      simp only [trim_kB, regexValue_kB]
      by_cases hn : n < 10
      · simp only [if_pos hn, if_pos (⟨hu, hn⟩ : '_' ∉ f.key ∧ n < 10), f.ofKey_key, stoi_decimal lt]
        exact ⟨_, rfl, rfl⟩
      · simp only [if_neg hn, if_neg (fun h => hn h.2 : ¬ ('_' ∉ f.key ∧ n < 10))]
        exact ⟨_, rfl, rfl⟩
  | other line unknown oneLine =>
    simp only [SmapsLine.text, SmapsLine.effect, parseAttribute]
    split
    · rename_i key v hkv
      split
      · rw [keyValue_key hkv, unknown]
        exact ⟨m, rfl, rfl⟩
      · exact ⟨_, rfl, rfl⟩
    · exact ⟨m, rfl, rfl⟩

theorem foldlM_parseAttribute : ∀ (ls : List SmapsLine) (m : MMap),
    ∃ m', (ls.map SmapsLine.text).foldlM parseAttribute m = .ok m' ∧ m'.attr = ls.foldl SmapsLine.effect m.attr
  | [], m => ⟨m, rfl, rfl⟩
  | l :: ls, m => by
    obtain ⟨m₁, h₁, ha₁⟩ := parseAttribute_text m l
    obtain ⟨m₂, h₂, ha₂⟩ := foldlM_parseAttribute ls m₁
    refine ⟨m₂, ?_, ?_⟩
    · rw [List.map_cons, List.foldlM_cons, h₁]
      exact h₂
    · rw [ha₂, ha₁, List.foldl_cons]

end MMap

/-- A mapping's block: its declaration, then its lines, each of the fourteen keys at most once. -/
structure SmapsBlock where
  header : MapHeader
  lines  : List SmapsLine
  once   : ((lines.filterMap SmapsLine.entry).map Prod.fst).Nodup

namespace SmapsBlock

def text (b : SmapsBlock) : List Char := unlines '\n' (b.header.line :: b.lines.map SmapsLine.text)

def numbers (b : SmapsBlock) : List (SmapsField × Nat) := b.lines.filterMap SmapsLine.entry

theorem foldl_effect_of_notMem (f : SmapsField) : ∀ (ls : List SmapsLine) (v : SmapsField → Int),
    f ∉ (ls.filterMap SmapsLine.entry).map Prod.fst → ls.foldl SmapsLine.effect v f = v f
  | [], _, _ => rfl
  | .other _ _ _ :: ls, v, h => foldl_effect_of_notMem f ls v h
  | .number g _ n _ :: ls, v, h => by
    simp only [List.filterMap_cons, SmapsLine.entry, List.map_cons, List.mem_cons, not_or] at h
    rw [List.foldl_cons, foldl_effect_of_notMem f ls _ h.2, SmapsLine.effect]
    split
    · exact Function.update_of_ne h.1 _ _
    · rfl

/-- **What a run of lines leaves in a member**: the number printed for it when the expressions accept its line, and what
was there before when they do not. -/
theorem foldl_effect (f : SmapsField) (n : Nat) : ∀ (ls : List SmapsLine) (v : SmapsField → Int),
    ((ls.filterMap SmapsLine.entry).map Prod.fst).Nodup → (f, n) ∈ ls.filterMap SmapsLine.entry →
      ls.foldl SmapsLine.effect v f = if '_' ∉ f.key ∧ n < 10 then (n : Int) else v f
  | .other _ _ _ :: ls, v, hd, hm => foldl_effect f n ls v hd hm
  | .number g _ k _ :: ls, v, hd, hm => by
    simp only [List.filterMap_cons, SmapsLine.entry, List.map_cons, List.nodup_cons] at hd
    simp only [List.filterMap_cons, SmapsLine.entry, List.mem_cons, Prod.mk.injEq] at hm
    rw [List.foldl_cons]
    rcases hm with ⟨rfl, rfl⟩ | hm
    · rw [foldl_effect_of_notMem f ls _ hd.1, SmapsLine.effect]
      split
      · exact Function.update_self _ _ _
      · rfl
    · have hne : f ≠ g := by
        rintro rfl
        exact hd.1 (List.mem_map.2 ⟨_, hm, rfl⟩)
      rw [foldl_effect f n ls _ hd.2 hm, SmapsLine.effect]
      congr 1
      split
      · exact Function.update_of_ne hne _ _
      · rfl

/-- The constructor sets the member of every number printed in the block. -/
def SetsNumbers (b : SmapsBlock) : Prop :=
  ∀ junk, ∃ m ss, MMap.construct junk (.ofText b.text) = .ok (m, ss) ∧
    ∀ f n, (f, n) ∈ b.numbers → m.attr f = n ∧ (f = .size → m.size = n)

theorem construct_text (b : SmapsBlock) (junk : MMap) :
    MMap.construct junk (.ofText b.text) = (do
      let m ← MMap.parseDeclaration (MMap.fresh junk) b.header.line
      let m ← (b.lines.map SmapsLine.text).foldlM MMap.parseAttribute m
      return (MMap.defineCategory m, ⟨(IStream.ofText (unlines '\n' (b.lines.map SmapsLine.text))).drain, b.text⟩)) := by
  have hget := getline_ofText '\n' b.header.newline_notMem_line (unlines '\n' (b.lines.map SmapsLine.text)) []
  have hls : splitLines '\n' (unlines '\n' (b.lines.map SmapsLine.text)) = b.lines.map SmapsLine.text :=
    splitLines_unlines '\n' _ (List.forall_mem_map.2 fun k _ => k.newline_notMem_text)
  have htext : (StringStream.ofText b.text).toIStream =
      IStream.ofText (b.header.line ++ '\n' :: unlines '\n' (b.lines.map SmapsLine.text)) := by
    rw [StringStream.ofText, text, unlines_cons]
  simp only [MMap.construct, htext, hget, getlines_ofText, hls]
  rfl

theorem SetsNumbers.read {b : SmapsBlock} (h : b.SetsNumbers) :
    b.header.Converts ∧ ∀ f n, (f, n) ∈ b.numbers → '_' ∉ f.key ∧ n < 10 := by
  have hconv : b.header.Converts := by
    by_contra hc
    obtain ⟨m, ss, hm, -⟩ := h (MMap.filled 0)
    obtain ⟨e, he⟩ := MapHeader.parseDeclaration_error hc (MMap.fresh (MMap.filled 0))
    rw [construct_text, he] at hm
    cases hm
  refine ⟨hconv, fun f n hmem => ?_⟩
  -- on memory that held another number, a member that is not set shows
  obtain ⟨m, ss, hm, hset⟩ := h (MMap.filled (n + 1))
  obtain ⟨m', hm', ha⟩ := MMap.foldlM_parseAttribute b.lines (b.header.declared (MMap.fresh (MMap.filled (n + 1))))
  rw [construct_text, MapHeader.parseDeclaration_line hconv] at hm
  simp only [bind, Except.bind, hm', pure, Except.pure, Except.ok.injEq, Prod.mk.injEq] at hm
  have hv := (hset f n hmem).1
  rw [← hm.1, show (MMap.defineCategory m').attr = m'.attr from rfl, ha, foldl_effect f n _ _ b.once hmem] at hv
  by_contra hc
  rw [if_neg hc, show (b.header.declared (MMap.fresh (MMap.filled (n + 1)))).attr f = n + 1 from rfl] at hv
  omega

theorem setsNumbers_of_read {b : SmapsBlock} (hconv : b.header.Converts)
    (hall : ∀ f n, (f, n) ∈ b.numbers → '_' ∉ f.key ∧ n < 10) : b.SetsNumbers := by
  intro junk
  obtain ⟨m', hm', ha⟩ := MMap.foldlM_parseAttribute b.lines (b.header.declared (MMap.fresh junk))
  have hok : MMap.construct junk (.ofText b.text) = .ok (MMap.defineCategory m',
      ⟨(IStream.ofText (unlines '\n' (b.lines.map SmapsLine.text))).drain, b.text⟩) := by
    rw [construct_text, MapHeader.parseDeclaration_line hconv]
    simp only [bind, Except.bind, hm']
    rfl
  refine ⟨_, _, hok, fun f n hmem => ?_⟩
  have hv : m'.attr f = n := by
    rw [ha, foldl_effect f n _ _ b.once hmem, if_pos (hall f n hmem)]
  exact ⟨hv, fun hf => by subst hf; exact hv⟩

/-- **The members of a block are read back exactly when its declaration converts, no key printed has an underscore, and
no number printed has two digits.** -/
theorem setsNumbers_iff (b : SmapsBlock) :
    b.SetsNumbers ↔ b.header.Converts ∧ ∀ f n, (f, n) ∈ b.numbers → '_' ∉ f.key ∧ n < 10 :=
  ⟨fun h => h.read, fun h => setsNumbers_of_read h.1 h.2⟩

theorem not_setsNumbers_two_digits : ¬ (⟨⟨0x400000, 0x452000, true, false, true, .priv, 0, 8, 2, 173521, 5,
    "/usr/bin/dbus-daemon".toList, by decide, by decide, by decide⟩, [.number .size 8 328 (by decide)], by decide⟩ :
      SmapsBlock).SetsNumbers := fun h => by
  have := (h.read.2 .size 328 (by simp [numbers, SmapsLine.entry])).2
  omega

end SmapsBlock

end SysInfo
