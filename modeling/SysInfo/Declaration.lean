import SysInfo.MMap
/-!
# Declaration — the first line of a mapping's block

What one attribute line can do to an object (`parseAttribute_eq`), so that the constructor is one equation once the
declaration converts (`construct_declaration`).

`Declaration.header_readsBack_iff`: a declaration is read back exactly when its offset is one digit, for the column is
printed in base 16 and converted in base 10.
-/
namespace SysInfo

open IStream Re

namespace MMap

/-- One digit, then white space: the shape of a value that is taken for a number. -/
def oneDigit : List Char → Bool
  | d :: s :: _ => d.isDigit && isSpace s
  | _           => false

theorem regexValue_eq (v : List Char) : regexValue.fullMatch v = if oneDigit v then some [v.take 1] else none := by
  match v with
  | [] => rfl
  | [d] =>
    simp only [regexValue, cat, fullMatch_grp_cls_seq, oneDigit]
    split <;> rfl
  | d :: s :: t =>
    simp only [regexValue, cat, fullMatch_grp_cls_seq, fullMatch_blank_seq, fullMatch_anyStar, oneDigit]
    by_cases hd : d.isDigit = true <;> by_cases hs : isSpace s = true <;> simp [hd, hs]

theorem stoi_oneDigit {v : List Char} (h : oneDigit v = true) : ∃ n, stoi 10 (v.take 1) = .ok n := by
  match v with
  | [] | [_] => cases h
  | d :: s :: t =>
    have hd : ∀ c ∈ [d], c.isDigit = true := fun c hc => by
      rw [List.mem_singleton.1 hc]
      exact (Bool.and_eq_true_iff.1 h).1
    have hlt : readDigits 10 [d] < 10 := readDigits_lt hd
    have htake : (d :: s :: t).take 1 = [d] := rfl
    rw [htake]
    exact ⟨_, stoN_of_digits (-2 ^ 31) (2 ^ 31 - 1) 10 (List.cons_ne_nil d [])
      (fun c hc => isBaseDigit_of_isDigit (hd c hc)) (by decide) (by omega)⟩

def flagsAfter (fl : List (List Char)) (line : List Char) : List (List Char) :=
  match regexKeyValue.fullMatch line with
  | some [_, v] => if oneDigit (trim v) then fl else (trim v).splitOn ' '
  | _           => fl

/-- **An attribute line never throws**, and changes nothing but a numeric member and the flags. -/
theorem parseAttribute_eq (m : MMap) (line : List Char) :
    ∃ a, parseAttribute m line = .ok { m with attr := a, vmflags := flagsAfter m.vmflags line } := by
  unfold parseAttribute
  split
  · rename_i key v hkv
    have hfl : flagsAfter m.vmflags line = if oneDigit (trim v) then m.vmflags else (trim v).splitOn ' ' := by
      rw [flagsAfter, hkv]
    rw [hfl]
    simp only [regexValue_eq]
    by_cases hv : oneDigit (trim v) = true
    · obtain ⟨n, hn⟩ := stoi_oneDigit hv
      simp only [if_pos hv, hn]
      cases SmapsField.ofKey key with
      | none => exact ⟨m.attr, rfl⟩
      | some f => exact ⟨Function.update m.attr f n, rfl⟩
    · simp only [if_neg hv]
      exact ⟨m.attr, rfl⟩
  · rename_i hkv
    have hfl : flagsAfter m.vmflags line = m.vmflags := by
      unfold flagsAfter
      split
      · rename_i h
        exact absurd h (hkv _ _)
      · rfl
    rw [hfl]
    exact ⟨m.attr, rfl⟩

theorem foldlM_parseAttribute_eq : ∀ (ls : List (List Char)) (m : MMap),
    ∃ a, ls.foldlM parseAttribute m = .ok { m with attr := a, vmflags := ls.foldl flagsAfter m.vmflags }
  | [], m => ⟨m.attr, rfl⟩
  | l :: ls, m => by
    obtain ⟨a₁, h₁⟩ := parseAttribute_eq m l
    obtain ⟨a₂, h₂⟩ := foldlM_parseAttribute_eq ls { m with attr := a₁, vmflags := flagsAfter m.vmflags l }
    refine ⟨a₂, ?_⟩
    rw [List.foldlM_cons, h₁]
    exact h₂

/-- **The constructor on a declaration that converts**, whatever follows it. -/
theorem construct_declaration {h : MapHeader} (hc : h.Converts) (junk : MMap) (rest : List Char) :
    ∃ a ss, construct junk (.ofText (h.line ++ '\n' :: rest)) = .ok (defineCategory { h.declared (fresh junk) with
      attr := a, vmflags := (splitLines '\n' rest).foldl flagsAfter [] }, ss) := by
  obtain ⟨a, ha⟩ := foldlM_parseAttribute_eq (splitLines '\n' rest) (h.declared (fresh junk))
  have hget := getline_ofText '\n' h.newline_notMem_line rest []
  refine ⟨a, ⟨(IStream.ofText rest).drain, h.line ++ '\n' :: rest⟩, ?_⟩
  simp only [construct, StringStream.ofText, hget, getlines_ofText, h.parseDeclaration_line hc, bind, Except.bind, ha]
  rfl

end MMap

/-- A declaration whose numbers are in the range of the members that hold them, and whose path starts with no blank. -/
structure Declaration extends MapHeader where
  offset_lt : offset.toNat < 2 ^ 31
  inode_lt  : inode.toNat < 2 ^ 63
  path_head : ∀ c ∈ path.head?, isSpace c = false

namespace Declaration

/-- Every member of the declaration equals what was printed, whatever follows its line. -/
def ReadsBack (d : Declaration) : Prop :=
  ∀ (junk : MMap) (rest : List Char), ∃ m ss, MMap.construct junk (.ofText (d.line ++ '\n' :: rest)) = .ok (m, ss) ∧
    m.addressFrom = hexPadLower 8 d.addressFrom.toNat ∧ m.addressTo = hexPadLower 8 d.addressTo.toNat ∧
    m.permRead = d.read ∧ m.permWrite = d.write ∧ m.permExecute = d.execute ∧
    m.permissions = [permLetter d.read 'r', permLetter d.write 'w', permLetter d.execute 'x'] ∧
    m.typeName = (if d.type = .shared then "Shared".toList else "Private".toList) ∧ m.path = d.path ∧
    m.offset = d.offset.toNat ∧ m.devMajor = d.devMajor ∧ m.devMinor = d.devMinor ∧ m.inode = d.inode.toNat

theorem length_offset (d : Declaration) : (hexPadLower 8 d.offset.toNat).length = 8 := by
  have hle := length_hexPadLower_le (w := 8) (k := 8) (n := d.offset.toNat) (by decide) (le_refl 8) (by
    have := d.offset_lt; omega)
  have hge : 8 ≤ (hexPadLower 8 d.offset.toNat).length := by
    simp only [hexPadLower, List.leftpad, List.length_append, List.length_replicate]
    omega
  omega

/-- **The declaration converts**: below `2 ^ 31` the first of the eight digits is below 8. -/
theorem converts (d : Declaration) : d.Converts := by
  refine ⟨?_, d.inode_lt⟩
  obtain ⟨c, w, hw⟩ := List.exists_cons_of_ne_nil (hexPadLower_ne_nil 8 d.offset.toNat)
  have hx : isXdigit c = true := isXdigit_of_mem_hexPadLower (w := 8) (n := d.offset.toNat) (by rw [hw]; simp)
  refine ⟨c, by rw [hw]; rfl, ?_⟩
  have hlen := d.length_offset
  have hval := readDigits_hexPadLower 8 d.offset.toNat
  rw [hw, List.length_cons] at hlen
  rw [hw, readDigits_cons, Nat.succ.inj hlen] at hval
  have hlt := d.offset_lt
  by_contra hc
  have := le_digitVal hx (Bool.eq_false_iff.2 hc)
  omega

theorem offset_le (d : Declaration) : readDigits 10 d.offsetDigits ≤ d.offset.toNat := by
  have h := (readDigits_takeWhile_isDigit (s := hexPadLower 8 d.offset.toNat) fun _ => isXdigit_of_mem_hexPadLower).1
  rwa [readDigits_hexPadLower] at h

theorem narrow_offset (d : Declaration) : MMap.narrow (readDigits 10 d.offsetDigits) = readDigits 10 d.offsetDigits := by
  have hle := d.offset_le
  have hlt := d.offset_lt
  exact Int.bmod_eq_of_le (by omega) (by omega)

/-- **Base 10 gives the offset back only for one digit.** -/
theorem offsetDigits_eq_iff (d : Declaration) : readDigits 10 d.offsetDigits = d.offset.toNat ↔ d.offset.toNat < 10 := by
  have h := (readDigits_takeWhile_isDigit (s := hexPadLower 8 d.offset.toNat) fun _ => isXdigit_of_mem_hexPadLower).2
  rw [readDigits_hexPadLower] at h
  refine ⟨fun he => (h he).1, fun hlt => ?_⟩
  have hdig : ∀ c ∈ hexPadLower 8 d.offset.toNat, c.isDigit = true := fun c hc => by
    rcases mem_leftpad hc with rfl | hc
    · decide
    · rw [Nat.toDigits_of_lt_base (by omega)] at hc
      rw [List.mem_singleton.1 hc]
      simpa using hlt
  rw [MapHeader.offsetDigits, takeWhile_all hdig, hexPadLower, readDigits_leftpad, Nat.toDigits_of_lt_base (by omega)]
  simp [readDigits, digitVal_digitChar hlt]

theorem dropWhile_path (d : Declaration) : d.path.dropWhile isSpace = d.path := by
  have hp := d.path_head
  cases hd : d.path with
  | nil => rfl
  | cons c t => exact List.dropWhile_cons_of_neg (by simp [hp c (by rw [hd]; rfl)])

theorem ReadsBack.offset_lt_ten {d : Declaration} (h : d.ReadsBack) : d.offset.toNat < 10 := by
  obtain ⟨m, ss, hm, -, -, -, -, -, -, -, -, hoff, -⟩ := h (MMap.filled 0) []
  obtain ⟨a, ss', ha⟩ := MMap.construct_declaration d.converts (MMap.filled 0) []
  rw [ha] at hm
  rw [← (Prod.mk.inj (Except.ok.inj hm)).1] at hoff
  simp only [MMap.defineCategory, MapHeader.declared, d.narrow_offset] at hoff
  exact d.offsetDigits_eq_iff.1 (by omega)

theorem readsBack_of_offset_lt {d : Declaration} (h : d.offset.toNat < 10) : d.ReadsBack := by
  intro junk rest
  obtain ⟨a, ss, ha⟩ := MMap.construct_declaration d.converts junk rest
  refine ⟨_, ss, ha, rfl, rfl, rfl, rfl, rfl, rfl, rfl, d.dropWhile_path, ?_, rfl, rfl, rfl⟩
  simp only [MMap.defineCategory, MapHeader.declared, d.narrow_offset]
  rw [d.offsetDigits_eq_iff.2 h]

/-- **A mapping's header is read back exactly when its offset is below 10.** -/
theorem header_readsBack_iff (d : Declaration) : d.ReadsBack ↔ d.offset.toNat < 10 :=
  ⟨fun h => h.offset_lt_ten, readsBack_of_offset_lt⟩

/-- A file mapped from its third page on: `00002000` is stored as 2000. -/
theorem not_readsBack_page : ¬ (⟨⟨0x7f1c2a000000, 0x7f1c2a021000, true, false, true, .priv, 0x2000, 8, 1, 173521, 20,
    "/lib/libc.so.6".toList, by decide, by decide, by decide⟩, by decide, by decide, by simp [isSpace]⟩ :
      Declaration).ReadsBack := fun h => absurd h.offset_lt_ten (by decide)

end Declaration

end SysInfo
