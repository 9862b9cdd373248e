import SysInfo.Declaration
/-!
# VmFlags — which line decides the flags of a mapping

The flags are recognised by the shape of a value, not by its key: the last line whose value is not taken for a number is
split at its blanks (`vmflags_of_construct`).

`AttrBlock.vmFlags_iff`: the flags are those of the `VmFlags` line exactly when no other line of that shape decides, and
the line's words are separated by one blank each.
-/
namespace SysInfo

open IStream

/-- An attribute line: a key of letters and any value. -/
structure AttrLine where
  key     : List Char
  value   : List Char
  key_ne  : key ≠ []
  alpha   : ∀ c ∈ key, c.isAlpha = true
  oneLine : '\n' ∉ value

namespace AttrLine

/-- `Key: value`. -/
def text (l : AttrLine) : List Char := l.key ++ (':' :: ' ' :: l.value)

def isVmFlags (l : AttrLine) : Bool := l.key = "VmFlags".toList

/-- The value is not of the shape that is taken for a number. -/
def isText (l : AttrLine) : Bool := !MMap.oneDigit (MMap.trim l.value)

theorem newline_notMem_text (l : AttrLine) : '\n' ∉ l.text := by
  have hk : '\n' ∉ l.key := fun h => absurd (l.alpha _ h) (by decide)
  simp only [text, List.mem_append, List.mem_cons, not_or]
  exact ⟨hk, by decide, by decide, l.oneLine⟩

theorem flagsAfter_text (fl : List (List Char)) (l : AttrLine) :
    MMap.flagsAfter fl l.text = if l.isText then (MMap.trim l.value).splitOn ' ' else fl := by
  have hkv := MMap.keyValue_line l.key_ne l.alpha 0 l.value
  have htrim : MMap.trim (l.value.dropWhile isSpace) = MMap.trim l.value := by
    rw [MMap.trim, MMap.trim, List.dropWhile_idempotent]
  rw [MMap.flagsAfter, show l.text = l.key ++ (':' :: (List.replicate (0 + 1) ' ' ++ l.value)) from rfl, hkv]
  simp only [htrim, isText]
  by_cases h : MMap.oneDigit (MMap.trim l.value) = true <;> simp [h]

end AttrLine

/-! ## Words -/

/-- The flag words of a value, separated by any number of blanks. -/
def flagWords (s : List Char) : List (List Char) := (s.splitOn ' ').filter (· ≠ [])

theorem flagWords_ne_nil {c : Char} (hc : c ≠ ' ') : ∀ {s : List Char}, c ∈ s → flagWords s ≠ []
  | d :: s, h => by
    unfold flagWords
    rw [List.splitOn_cons_eq_if_modifyHead]
    by_cases hd : d = ' '
    · rw [if_pos (by simp [hd]), List.filter_cons_of_neg (by simp)]
      exact flagWords_ne_nil hc ((List.mem_cons.1 h).resolve_left fun he => hc (he.trans hd))
    · obtain ⟨u, us, hu⟩ := List.exists_cons_of_ne_nil (List.splitOn_ne_nil ' ' s)
      rw [if_neg (by simp [hd]), hu, List.modifyHead_cons, List.filter_cons_of_pos (by simp)]
      exact List.cons_ne_nil _ _

/-- **Splitting at every blank gives the words** exactly when they are separated by one blank each. -/
theorem splitOn_eq_flagWords_iff (s t : List Char) :
    t.splitOn ' ' = flagWords s ↔ flagWords s ≠ [] ∧ t = [' '].intercalate (flagWords s) := by
  constructor
  · intro h
    rw [← h]
    exact ⟨List.splitOn_ne_nil _ _, (List.intercalate_splitOn ' ').symm⟩
  · rintro ⟨hne, ht⟩
    have hblank : ∀ w ∈ flagWords s, ' ' ∉ w := fun w hw => notMem_of_mem_splitOn (List.mem_filter.1 hw).1
    rw [ht, List.splitOn_intercalate ' ' hblank hne]

theorem mem_of_mem_trim {c : Char} {s : List Char} (h : c ∈ MMap.trim s) : c ∈ s :=
  (List.dropWhile_suffix _).subset ((List.rdropWhile_prefix _ _).subset h)

theorem flagWords_of_oneDigit {s : List Char} (h : MMap.oneDigit (MMap.trim s) = true) : flagWords s ≠ [] := by
  cases ht : MMap.trim s with
  | nil => rw [ht] at h; cases h
  | cons d t =>
    have hd : d.isDigit = true := by
      rw [ht] at h
      cases t with
      | nil => cases h
      | cons e t => exact (Bool.and_eq_true_iff.1 h).1
    have hne : d ≠ ' ' := by rintro rfl; exact absurd hd (by decide)
    exact flagWords_ne_nil hne (mem_of_mem_trim (c := d) (by rw [ht]; exact List.mem_cons_self))

/-! ## The flags of a block -/

/-- The value, trimmed, of the last line that is not taken for a number. -/
def lastText (ls : List AttrLine) : Option (List Char) := (ls.filter AttrLine.isText).getLast?.map fun l => MMap.trim l.value

def flagsOf (ls : List AttrLine) : List (List Char) := ((lastText ls).map (·.splitOn ' ')).getD []

theorem foldl_flagsAfter (ls : List AttrLine) : (ls.map AttrLine.text).foldl MMap.flagsAfter [] = flagsOf ls := by
  induction ls using List.reverseRecOn with
  | nil => rfl
  | append_singleton ls l ih =>
    rw [List.map_append, List.foldl_append, ih, List.map_singleton, List.foldl_cons, List.foldl_nil, l.flagsAfter_text]
    unfold flagsOf lastText
    rw [List.filter_append]
    cases hl : l.isText with
    | true => rw [List.filter_cons_of_pos hl, List.filter_nil, List.getLast?_concat]; rfl
    | false => rw [List.filter_cons_of_neg (by simp [hl]), List.filter_nil, List.append_nil]; rfl

theorem flagsOf_inj {ls ms : List AttrLine} : flagsOf ls = flagsOf ms ↔ lastText ls = lastText ms := by
  refine ⟨fun h => ?_, fun h => by rw [flagsOf, flagsOf, h]⟩
  have hsplit : ∀ s t : List Char, s.splitOn ' ' = t.splitOn ' ' → s = t := fun s t hst => by
    calc s = [' '].intercalate (s.splitOn ' ') := (List.intercalate_splitOn ' ').symm
      _ = t := by rw [hst, List.intercalate_splitOn]
  unfold flagsOf at h
  cases hs : lastText ls with
  | none =>
    cases ht : lastText ms with
    | none => rfl
    | some t => rw [hs, ht] at h; exact absurd h.symm (List.splitOn_ne_nil _ _)
  | some s =>
    cases ht : lastText ms with
    | none => rw [hs, ht] at h; exact absurd h (List.splitOn_ne_nil _ _)
    | some t => rw [hs, ht] at h; exact congrArg some (hsplit s t h)

structure AttrBlock where
  header : MapHeader
  lines  : List AttrLine

namespace AttrBlock

def text (b : AttrBlock) : List Char := unlines '\n' (b.header.line :: b.lines.map AttrLine.text)

def vmFlagsOnly (b : AttrBlock) : AttrBlock := { b with lines := b.lines.filter AttrLine.isVmFlags }

/-- Only the `VmFlags` line decides the flags: they are its words when there is one such line, none when there is none,
and the other lines may as well be left out. -/
def VmFlagsDecides (b : AttrBlock) : Prop :=
  ∀ junk m ss, MMap.construct junk (.ofText b.text) = .ok (m, ss) →
    (∀ l, b.vmFlagsOnly.lines = [l] → m.vmFlags = flagWords l.value) ∧ (b.vmFlagsOnly.lines = [] → m.vmFlags = []) ∧
      ∃ m' ss', MMap.construct junk (.ofText b.vmFlagsOnly.text) = .ok (m', ss') ∧ m.vmFlags = m'.vmFlags

/-- **The constructor on a block**: an object exactly when the declaration converts, with the flags of the last line that
is not taken for a number. -/
theorem vmflags_of_construct {b : AttrBlock} (hc : b.header.Converts) (junk : MMap) :
    ∃ m ss, MMap.construct junk (.ofText b.text) = .ok (m, ss) ∧ m.vmFlags = flagsOf b.lines := by
  obtain ⟨a, ss, h⟩ := MMap.construct_declaration hc junk (unlines '\n' (b.lines.map AttrLine.text))
  have hls : splitLines '\n' (unlines '\n' (b.lines.map AttrLine.text)) = b.lines.map AttrLine.text :=
    splitLines_unlines '\n' _ (List.forall_mem_map.2 fun k _ => k.newline_notMem_text)
  rw [← unlines_cons] at h
  refine ⟨_, ss, h, ?_⟩
  rw [hls, foldl_flagsAfter]
  rfl

theorem converts_of_construct {b : AttrBlock} {junk m : MMap} {ss : StringStream}
    (h : MMap.construct junk (.ofText b.text) = .ok (m, ss)) : b.header.Converts := by
  by_contra hc
  obtain ⟨e, he⟩ := MapHeader.parseDeclaration_error hc (MMap.fresh junk)
  have hget := getline_ofText '\n' b.header.newline_notMem_line (unlines '\n' (b.lines.map AttrLine.text)) []
  simp only [MMap.construct, text, StringStream.ofText, unlines_cons, hget, bind, Except.bind, he] at h
  cases h

theorem flagsOf_singleton_iff (l : AttrLine) :
    flagsOf [l] = flagWords l.value ↔
      l.isText = true ∧ flagWords l.value ≠ [] ∧ MMap.trim l.value = [' '].intercalate (flagWords l.value) := by
  rw [← splitOn_eq_flagWords_iff]
  cases hl : l.isText with
  | true => simp [flagsOf, lastText, hl]
  | false =>
    have hw : flagWords l.value ≠ [] := flagWords_of_oneDigit (by simpa [AttrLine.isText] using hl)
    simp [flagsOf, lastText, hl, hw.symm]

/-- The last line that is not taken for a number has the value of the last such `VmFlags` line (there may be neither), and
a single `VmFlags` line is not taken for a number and has one blank between its words. -/
def Clear (b : AttrBlock) : Prop :=
  lastText b.lines = lastText b.vmFlagsOnly.lines ∧
    ∀ l, b.vmFlagsOnly.lines = [l] →
      l.isText = true ∧ flagWords l.value ≠ [] ∧ MMap.trim l.value = [' '].intercalate (flagWords l.value)

theorem VmFlagsDecides.clear {b : AttrBlock} (h : b.VmFlagsDecides) (hc : b.header.Converts) : b.Clear := by
  obtain ⟨m, ss, hm, hfl⟩ := vmflags_of_construct hc (MMap.filled 0)
  obtain ⟨hone, -, m', ss', hm', hframe⟩ := h _ _ _ hm
  obtain ⟨n, ss'', hn, hfl'⟩ := vmflags_of_construct (b := b.vmFlagsOnly) hc (MMap.filled 0)
  have he : m' = n := (Prod.mk.inj (Except.ok.inj (hm'.symm.trans hn))).1
  have heq : flagsOf b.lines = flagsOf b.vmFlagsOnly.lines := by rw [← hfl, hframe, he, hfl']
  refine ⟨flagsOf_inj.1 heq, fun l hl => (flagsOf_singleton_iff l).1 ?_⟩
  rw [← hl, ← heq, ← hfl, hone l hl]

theorem vmFlagsDecides_of_clear {b : AttrBlock} (h : b.header.Converts → b.Clear) : b.VmFlagsDecides := by
  intro junk m ss hm
  have hc := converts_of_construct hm
  obtain ⟨hlast, hwords⟩ := h hc
  obtain ⟨m₁, ss₁, hm₁, hfl₁⟩ := vmflags_of_construct hc junk
  obtain ⟨m₂, ss₂, hm₂, hfl₂⟩ := vmflags_of_construct (b := b.vmFlagsOnly) hc junk
  have he : m = m₁ := (Prod.mk.inj (Except.ok.inj (hm.symm.trans hm₁))).1
  have hfl : m.vmFlags = flagsOf b.vmFlagsOnly.lines := by rw [he, hfl₁, flagsOf_inj.2 hlast]
  refine ⟨fun l hl => ?_, fun hl => ?_, m₂, ss₂, hm₂, by rw [hfl, hfl₂]⟩
  · rw [hfl, hl]
    exact (flagsOf_singleton_iff l).2 (hwords l hl)
  · rw [hfl, hl]
    rfl

/-- **The `VmFlags` line decides the flags exactly when** the block's declaration does not convert, so that there is no
object, or the block is clear. -/
theorem vmFlags_iff (b : AttrBlock) : b.VmFlagsDecides ↔ (b.header.Converts → b.Clear) :=
  ⟨fun h => h.clear, vmFlagsDecides_of_clear⟩

/-- A block without a `VmFlags` line: the size in kilobytes is taken for flags. -/
theorem not_vmFlagsDecides_rss : ¬ (⟨⟨0x400000, 0x452000, true, false, true, .priv, 0, 8, 2, 173521, 5,
    "/usr/bin/dbus-daemon".toList, by decide, by decide, by decide⟩,
    [⟨"Rss".toList, "328 kB".toList, by decide, by simp, by decide⟩]⟩ : AttrBlock).VmFlagsDecides := fun h =>
  absurd (h.clear ⟨⟨'0', rfl, rfl⟩, by decide⟩).1 (by decide)

end AttrBlock

end SysInfo
