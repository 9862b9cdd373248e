import SysInfo.CpuRecords
/-!
# CpuBlocks — `readCPUInfo` against the kernel's `/proc/cpuinfo`

The kernel prints a block per CPU, each line a key, tabs, a colon, a blank and the value.  The code trims the key; the
value keeps its blank, as it is trimmed before it is read.  Four keys are spelled in the code's own way, so a line that the
kernel prints for them is one under an unknown key (`CpuKey.ofKey_trim_label`).  `cpuBlocks_readsBack_iff`: numbers and
the list of flags are read back, a text never is, and a `yes` reads as no.
-/
namespace SysInfo

open IStream ProcessInfo

/-! ## The kernel's lines -/

namespace CpuKey

/-- The key as the kernel spells it. -/
def label : CpuKey → List Char
  | .field .processor       => "processor".toList
  | .text .vendorId         => "vendor_id".toList
  | .field .cpuFamily       => "cpu family".toList
  | .field .model           => "model".toList
  | .text .modelName        => "model name".toList
  | .field .stepping        => "stepping".toList
  | .field .microcode       => "microcode".toList
  | .rate .cpuMhz           => "cpu MHz".toList
  | .cacheSize              => "cache size".toList
  | .field .physicalId      => "physical id".toList
  | .field .siblings        => "siblings".toList
  | .field .coreId          => "core id".toList
  | .field .cpuCores        => "cpu cores".toList
  | .field .apicid          => "apicid".toList
  | .field .initialApicid   => "initial apicid".toList
  | .flag .fpu              => "fpu".toList
  | .flag .fpuException     => "fpu_exception".toList
  | .field .cpuidLevel      => "cpuid level".toList
  | .flag .wp               => "wp".toList
  | .flags                  => "flags".toList
  | .text .bugs             => "bugs".toList
  | .rate .bogomips         => "bogomips".toList
  | .field .clflushSize     => "clflush size".toList
  | .field .cacheAlignement => "cache_alignment".toList
  | .text .addressSizes     => "address sizes".toList
  | .text .powerManagement  => "power management".toList

/-- The keys that the code spells in its own way. -/
def misspelt : List CpuKey := [.field .siblings, .field .cpuidLevel, .rate .bogomips, .field .cacheAlignement]

/-- A key that the code knows: the kernel's, where the code spells it so. -/
def printed (k : CpuKey) : List Char := if k ∈ misspelt then k.spelling else k.label

theorem printed_eq (k : CpuKey) : k.printed = k.spelling := by
  cases k with
  | field f | rate f | text f | flag f => cases f <;> rfl
  | cacheSize | flags => rfl

/-- What the kernel prints for the others is no key of the code. -/
theorem ofKey_trim_label {k : CpuKey} (h : k ∈ misspelt) : ofKey (MMap.trim k.label) = none := by
  simp only [misspelt, List.mem_cons, List.not_mem_nil, or_false] at h
  rcases h with rfl | rfl | rfl | rfl <;> decide

end CpuKey

/-- A line of a block, by the test its key passes. -/
inductive CpuEntry where
  | text (f : CpuText) (value : List Char)
  | flag (f : CpuFlag) (value : List Char)
  | microcode (n : Nat)
  | num (f : CpuField) (n : Nat) (ne : f ≠ .microcode)
  | flags (value : List Char)
  | rate (f : CpuRate) (n : Nat) (fraction : List Char)
  | cacheSize (value : List Char)
  | other (key value : List Char) (unknown : CpuKey.ofKey (MMap.trim key) = none)

namespace CpuEntry

def test : CpuEntry → Option CpuKey
  | .text f _    => some (.text f)
  | .flag f _    => some (.flag f)
  | .microcode _ => some (.field .microcode)
  | .num f _ _   => some (.field f)
  | .flags _     => some .flags
  | .rate f _ _  => some (.rate f)
  | .cacheSize _ => some .cacheSize
  | .other _ _ _ => none

def key : CpuEntry → List Char
  | .other key _ _ => key
  | e              => (e.test.map CpuKey.printed).getD []

/-- The value as it is printed: `%u`, `0x%x` for the microcode, `%u.%03u` for a rate. -/
def value : CpuEntry → List Char
  | .text _ v | .flag _ v | .flags v | .cacheSize v | .other _ v _ => v
  | .microcode n => '0' :: 'x' :: hexPadLower 1 n
  | .num _ n _ => decimal n
  | .rate _ n fraction => decimal n ++ '.' :: fraction

def Promises (c : CpuInfo) : CpuEntry → Prop
  | .text f v    => c.text f = v
  | .flag f v    => c.flag f = true ↔ v = "yes".toList
  | .microcode n => c.num .microcode = n
  | .num f n _   => c.num f = n
  | .flags v     => c.flags = words v
  | _            => True

def Converts : CpuEntry → Prop
  | .num _ n _  => n < 2 ^ 31
  | .rate _ n _ => n < 2 ^ 63
  | _           => True

instance : DecidablePred Converts := fun e => by cases e <;> unfold Converts <;> infer_instance

def apply (c : CpuInfo) : CpuEntry → CpuInfo
  | .text f v    => { c with text := Function.update c.text f (' ' :: v) }
  | .flag f _    => { c with flag := Function.update c.flag f false }
  | .microcode _ => { c with num := Function.update c.num .microcode 0 }
  | .num f n _   => { c with num := Function.update c.num f n }
  | .flags v     => { c with flags := c.flags ++ words v }
  | .rate f n _  => { c with rate := Function.update c.rate f n }
  | .cacheSize _ => { c with cacheSize := 0 }
  | .other _ _ _ => c

def Stored (c : CpuInfo) : CpuEntry → Prop
  | .text f v    => c.text f = ' ' :: v
  | .flag f _    => c.flag f = false
  | .microcode _ => c.num .microcode = 0
  | .num f n _   => c.num f = n
  | .flags v     => c.flags = words v
  | _            => True

/-- The values that are read back: no text, no `yes`, no microcode but 0, and numbers within their type. -/
def Right : CpuEntry → Prop
  | .text _ _    => False
  | .flag _ v    => v ≠ "yes".toList
  | .microcode n => n = 0
  | .num _ n _   => n < 2 ^ 31
  | .rate _ n _  => n < 2 ^ 63
  | _            => True

theorem Right.converts {e : CpuEntry} (h : e.Right) : e.Converts := by
  cases e with
  | num f n ne => exact h
  | rate f n fraction => exact h
  | _ => trivial

theorem promises_iff {c : CpuInfo} {e : CpuEntry} (h : e.Stored c) (hc : e.Converts) : e.Promises c ↔ e.Right := by
  cases e with
  | text f v =>
    refine ⟨fun hp => ?_, False.elim⟩
    have heq : ' ' :: v = v := h.symm.trans hp
    exact absurd heq (List.cons_ne_self _ _)
  | flag f v =>
    show (c.flag f = true ↔ v = "yes".toList) ↔ v ≠ "yes".toList
    rw [show c.flag f = false from h]
    simp
  | microcode n =>
    show c.num .microcode = n ↔ n = 0
    rw [show c.num .microcode = 0 from h]
    omega
  | num f n ne => exact iff_of_true h hc
  | rate f n fraction => exact iff_of_true trivial hc
  | flags v => exact iff_of_true h trivial
  | cacheSize v => exact Iff.rfl
  | other key v unknown => exact Iff.rfl

end CpuEntry

/-- A line: the key, tabs, a colon, a blank and the value. -/
structure CpuInfoLine where
  entry   : CpuEntry
  tabs    : Nat
  noColon : ':' ∉ entry.key
  oneLine : '\n' ∉ entry.key ∧ '\n' ∉ entry.value

namespace CpuInfoLine

def text (l : CpuInfoLine) : List Char :=
  (l.entry.key ++ List.replicate l.tabs '\t') ++ ':' :: ' ' :: l.entry.value

theorem text_ne_nil (l : CpuInfoLine) : l.text ≠ [] := by simp [text]

theorem newline_notMem_text (l : CpuInfoLine) : '\n' ∉ l.text := by
  have ht : '\n' ∉ List.replicate l.tabs '\t' := fun h => absurd (List.eq_of_mem_replicate h) (by decide)
  simp only [text, List.mem_append, List.mem_cons, not_or]
  exact ⟨⟨l.oneLine.1, ht⟩, by decide, by decide, l.oneLine.2⟩

end CpuInfoLine

/-! ## A line -/

namespace CpuKey

theorem trim_spelling (k : CpuKey) : MMap.trim k.spelling = k.spelling := by
  cases k with
  | field f | rate f | text f | flag f => cases f <;> rfl
  | cacheSize | flags => rfl

end CpuKey

theorem CpuEntry.ofKey_trim_key (e : CpuEntry) : CpuKey.ofKey (MMap.trim e.key) = e.test := by
  have hspelled : ∀ k : CpuKey, CpuKey.ofKey (MMap.trim k.printed) = some k := fun k => by
    rw [k.printed_eq, k.trim_spelling, k.ofKey_spelling]
  cases e with
  | other key value unknown => exact unknown
  | text f v => exact hspelled (.text f)
  | flag f v => exact hspelled (.flag f)
  | microcode n => exact hspelled (.field .microcode)
  | num f n ne => exact hspelled (.field f)
  | flags v => exact hspelled .flags
  | rate f n fraction => exact hspelled (.rate f)
  | cacheSize v => exact hspelled .cacheSize

namespace CpuInfoLine

theorem ofKey_trim (l : CpuInfoLine) :
    CpuKey.ofKey (MMap.trim (l.entry.key ++ List.replicate l.tabs '\t')) = l.entry.test := by
  rw [MMap.trim_append_spaces fun c hc => by rw [List.eq_of_mem_replicate hc]; decide]
  exact l.entry.ofKey_trim_key

theorem keyValue_text (l : CpuInfoLine) :
    keyValue ':' l.text = (l.entry.key ++ List.replicate l.tabs '\t', ' ' :: l.entry.value) := by
  have hkey : ':' ∉ l.entry.key ++ List.replicate l.tabs '\t' := fun h => (List.mem_append.1 h).elim l.noColon
    fun h => absurd (List.eq_of_mem_replicate h) (by decide)
  have hvalue : ∀ c ∈ ' ' :: l.entry.value, decide (c ≠ '\n') = true := by
    intro c hc
    rcases List.mem_cons.1 hc with rfl | hc
    · decide
    · exact decide_eq_true fun h => l.oneLine.2 (h ▸ hc)
  rw [text, keyValue_append hkey, takeWhile_all hvalue]

/-- **A line of the kernel** is stored, or its number is out of range. -/
theorem addLine_text (l : CpuInfoLine) (c : CpuInfo) :
    c.addLine l.text = if l.entry.Converts then .ok (l.entry.apply c) else .error .outOfRange := by
  have hblank : ∀ d ∈ [' '], isSpace d = true := fun d hd => by rw [List.mem_singleton.1 hd]; decide
  have hskip : ∀ base v, stoi base (' ' :: v) = stoi base v := fun base v => stoN_spaces _ _ base hblank v
  have hskipl : ∀ base v, stol base (' ' :: v) = stol base v := fun base v => stoN_spaces _ _ base hblank v
  simp only [CpuInfo.addLine, l.keyValue_text, l.ofKey_trim]
  cases l.entry with
  | text f v => rfl
  | flag f v =>
    have hno : decide (' ' :: v = "yes".toList) = false := decide_eq_false fun h => by cases h
    simp only [CpuEntry.test, CpuEntry.value, CpuEntry.Converts, CpuEntry.apply]
    exact congrArg (fun b => Except.ok { c with flag := Function.update c.flag f b }) hno
  | microcode n =>
    have hzero : stoi 10 ('0' :: 'x' :: hexPadLower 1 n) = .ok 0 := by
      have h := stoi_decimal_append 0 (t := 'x' :: hexPadLower 1 n) fun c hc => by cases hc; decide
      exact h
    simp only [CpuEntry.test, CpuEntry.value, hskip, hzero, CpuEntry.Converts, CpuEntry.apply]
    rfl
  | num f n ne =>
    have hn := stoi_decimal_append n (t := []) fun c hc => by cases hc
    rw [List.append_nil] at hn
    simp only [CpuEntry.test, CpuEntry.value, hskip, hn, CpuEntry.Converts, CpuEntry.apply]
    by_cases h : n < 2 ^ 31
    · simp only [if_pos h]
      exact (if_pos h).symm
    · simp only [if_neg h]
      exact (if_neg h).symm
  | flags v =>
    have hwords : words (' ' :: v) = words v := words_spaces [' '] v hblank
    simp only [CpuEntry.test, CpuEntry.value, hwords, CpuEntry.Converts, CpuEntry.apply]
    rfl
  | rate f n fraction =>
    have hn := stol_decimal_append n (t := '.' :: fraction) fun c hc => by cases hc; decide
    simp only [CpuEntry.test, CpuEntry.value, hskipl, hn, CpuEntry.Converts, CpuEntry.apply]
    by_cases h : n < 2 ^ 63
    · simp only [if_pos h]
      exact (if_pos h).symm
    · simp only [if_neg h]
      exact (if_neg h).symm
  | cacheSize v => rfl
  | other key v unknown => rfl

end CpuInfoLine

/-! ## A block -/

/-- The lines of a CPU, each key the code tests at most once. -/
structure CpuBlock where
  lines : List CpuInfoLine
  once  : (lines.filterMap (·.entry.test)).Nodup

namespace CpuBlock

def texts (b : CpuBlock) : List (List Char) := b.lines.map CpuInfoLine.text ++ [[]]

def record (b : CpuBlock) : CpuInfo := b.lines.foldl (fun c l => l.entry.apply c) CpuInfo.empty

end CpuBlock

namespace CpuEntry

theorem stored_apply (e : CpuEntry) {c : CpuInfo} (h : e.test = some .flags → c.flags = []) : e.Stored (e.apply c) := by
  cases e with
  | text f v => exact Function.update_self f (' ' :: v) c.text
  | flag f v => exact Function.update_self f false c.flag
  | microcode n => exact Function.update_self .microcode 0 c.num
  | num f n ne => exact Function.update_self f (n : Int) c.num
  | flags v =>
    show c.flags ++ words v = words v
    rw [h rfl, List.nil_append]
  | rate f n fraction | cacheSize v | other key v unknown => trivial

theorem Stored.apply {e e' : CpuEntry} {c : CpuInfo} (h : e.Stored c) (hne : e.test ≠ e'.test) : e.Stored (e'.apply c) := by
  cases e with
  | text f v =>
    cases e' with
    | text g w => exact (Function.update_of_ne (fun hf => hne (congrArg (some ∘ CpuKey.text) hf)) _ _).trans h
    | _ => exact h
  | flag f v =>
    cases e' with
    | flag g w => exact (Function.update_of_ne (fun hf => hne (congrArg (some ∘ CpuKey.flag) hf)) _ _).trans h
    | _ => exact h
  | microcode n =>
    cases e' with
    | microcode k => exact absurd rfl hne
    | num g k ne => exact (Function.update_of_ne (Ne.symm ne) _ _).trans h
    | _ => exact h
  | num f n ne =>
    cases e' with
    | microcode k => exact (Function.update_of_ne ne _ _).trans h
    | num g k ne' => exact (Function.update_of_ne (fun hf => hne (congrArg (some ∘ CpuKey.field) hf)) _ _).trans h
    | _ => exact h
  | flags v =>
    cases e' with
    | flags w => exact absurd rfl hne
    | _ => exact h
  | rate f n fraction | cacheSize v | other key v unknown => trivial

theorem flags_apply {e : CpuEntry} (h : e.test ≠ some .flags) (c : CpuInfo) : (e.apply c).flags = c.flags := by
  cases e with
  | flags v => exact absurd rfl h
  | _ => rfl

end CpuEntry

namespace CpuBlock

theorem stored_foldl_of_ne {e : CpuEntry} : ∀ (ls : List CpuInfoLine) {c : CpuInfo}, e.Stored c →
    (∀ l ∈ ls, e.test ≠ l.entry.test ∨ e.test = none) → e.Stored (ls.foldl (fun c l => l.entry.apply c) c)
  | [], _, h, _ => h
  | l :: ls, c, h, hne => by
    refine stored_foldl_of_ne ls ?_ fun m hm => hne m (by simp [hm])
    rcases hne l (by simp) with hl | hnone
    · exact h.apply hl
    · cases e with
      | other key v unknown => trivial
      | _ => cases hnone

/-- **Every line of a block is stored in its record.** -/
theorem stored_foldl : ∀ (ls : List CpuInfoLine) (c : CpuInfo), (ls.filterMap (·.entry.test)).Nodup →
    (some .flags ∈ ls.map (·.entry.test) → c.flags = []) →
      ∀ l ∈ ls, l.entry.Stored (ls.foldl (fun c l => l.entry.apply c) c)
  | k :: ls, c, hnd, hflags, l, hl => by
    -- a key of the first line is in no other
    have hfirst : ∀ m ∈ ls, k.entry.test ≠ m.entry.test ∨ k.entry.test = none := by
      intro m hm
      cases hk : k.entry.test with
      | none => exact .inr rfl
      | some key =>
        refine .inl fun heq => ?_
        simp only [List.filterMap_cons, hk] at hnd
        exact (List.nodup_cons.1 hnd).1 (List.mem_filterMap.2 ⟨m, hm, heq.symm⟩)
    have hrest : (ls.filterMap (·.entry.test)).Nodup := by
      cases hk : k.entry.test with
      | none => simpa only [List.filterMap_cons, hk] using hnd
      | some key =>
        simp only [List.filterMap_cons, hk] at hnd
        exact (List.nodup_cons.1 hnd).2
    rcases List.mem_cons.1 hl with rfl | hl
    · refine stored_foldl_of_ne ls (l.entry.stored_apply fun h => hflags ?_) hfirst
      rw [List.map_cons, h]
      exact List.mem_cons_self
    · refine stored_foldl ls (k.entry.apply c) hrest (fun hmem => ?_) l hl
      obtain ⟨m, hm, hmf⟩ := List.mem_map.1 hmem
      have hk : k.entry.test ≠ some .flags := fun h => by
        rcases hfirst m hm with hne | hnone
        · exact hne (h.trans hmf.symm)
        · rw [h] at hnone
          cases hnone
      rw [CpuEntry.flags_apply hk]
      exact hflags (List.mem_cons_of_mem _ hmem)

theorem stored_record (b : CpuBlock) : ∀ l ∈ b.lines, l.entry.Stored b.record :=
  stored_foldl b.lines CpuInfo.empty b.once fun _ => rfl

theorem newline_notMem_texts (b : CpuBlock) : ∀ l ∈ b.texts, '\n' ∉ l := by
  intro l hl
  rcases List.mem_append.1 hl with hl | hl
  · obtain ⟨k, -, rfl⟩ := List.mem_map.1 hl
    exact k.newline_notMem_text
  · rw [List.mem_singleton.1 hl]
    exact List.not_mem_nil

def Converts (b : CpuBlock) : Prop := ∀ l ∈ b.lines, l.entry.Converts

end CpuBlock

/-! ## The file -/

def cpuInfoFile (bs : List CpuBlock) : List Char := unlines '\n' (bs.flatMap CpuBlock.texts)

theorem getlines_cpuInfoFile (bs : List CpuBlock) :
    getlines '\n' (ofText (cpuInfoFile bs)) = bs.flatMap CpuBlock.texts := by
  refine splitLines_unlines '\n' _ fun l hl => ?_
  obtain ⟨b, -, hb⟩ := List.mem_flatMap.1 hl
  exact b.newline_notMem_texts l hb

/-- A block has a record exactly when its numbers convert, and then this one. -/
theorem foldlM_addLine_iff : ∀ {ls : List CpuInfoLine} {c c' : CpuInfo},
    (ls.map CpuInfoLine.text).foldlM CpuInfo.addLine c = .ok c' ↔
      (∀ l ∈ ls, l.entry.Converts) ∧ c' = ls.foldl (fun c l => l.entry.apply c) c
  | [], c, c' => by
    have hnil : ([].map CpuInfoLine.text).foldlM CpuInfo.addLine c = .ok c := rfl
    rw [hnil, Except.ok.injEq]
    simp [eq_comm]
  | l :: ls, c, c' => by
    rw [List.map_cons, List.foldlM_cons, l.addLine_text, List.forall_mem_cons, List.foldl_cons]
    by_cases h : l.entry.Converts
    · rw [if_pos h]
      exact foldlM_addLine_iff.trans (and_congr_left' (and_iff_right h).symm)
    · rw [if_neg h]
      exact iff_of_false (fun he => by cases he) fun he => h he.1.1

theorem mapM_recordOf_iff : ∀ {bs : List CpuBlock} {cs : List CpuInfo},
    (bs.map fun b => b.lines.map CpuInfoLine.text).mapM recordOf = .ok cs ↔
      (∀ b ∈ bs, b.Converts) ∧ cs = bs.map CpuBlock.record
  | [], cs => by
    have hnil : ([].map fun b : CpuBlock => b.lines.map CpuInfoLine.text).mapM recordOf = .ok [] := rfl
    rw [hnil, Except.ok.injEq]
    simp [eq_comm]
  | b :: bs, cs => by
    rw [List.map_cons, List.mapM_cons, List.forall_mem_cons, List.map_cons]
    cases hb : recordOf (b.lines.map CpuInfoLine.text) with
    | error e =>
      refine iff_of_false (fun he => by cases he) fun he => ?_
      rw [recordOf, foldlM_addLine_iff.2 ⟨he.1.1, rfl⟩] at hb
      cases hb
    | ok c =>
      obtain ⟨hconv, rfl⟩ := foldlM_addLine_iff.1 hb
      cases hbs : (bs.map fun b => b.lines.map CpuInfoLine.text).mapM recordOf with
      | error e =>
        refine iff_of_false (fun he => by cases he) fun he => ?_
        rw [mapM_recordOf_iff.2 ⟨he.1.2, rfl⟩] at hbs
        cases hbs
      | ok ds =>
        obtain ⟨hall, rfl⟩ := mapM_recordOf_iff.1 hbs
        show (.ok (b.record :: bs.map CpuBlock.record) : Except Exn _) = .ok cs ↔ _
        rw [Except.ok.injEq, and_iff_right ⟨hconv, hall⟩]
        exact eq_comm

/-- **One record per block** exactly when the numbers convert. -/
theorem readCPUInfo_iff {bs : List CpuBlock} {sys : Sys} (hf : sys.file "/proc/cpuinfo".toList = some (cpuInfoFile bs))
    {cs : List CpuInfo} : readCPUInfo sys = .ok cs ↔ (∀ b ∈ bs, b.Converts) ∧ cs = bs.map CpuBlock.record := by
  have hlines : bs.flatMap CpuBlock.texts = (bs.map fun b => b.lines.map CpuInfoLine.text).flatMap (· ++ [[]]) := by
    rw [List.flatMap_map]
    rfl
  rw [readCPUInfo_eq hf, ← getlines_ofText, getlines_cpuInfoFile, hlines, recordsOf_blocks, mapM_recordOf_iff]
  intro b hb l hl
  obtain ⟨c, -, rfl⟩ := List.mem_map.1 hb
  obtain ⟨k, -, rfl⟩ := List.mem_map.1 hl
  exact k.text_ne_nil

/-- Every record has the values printed in its block. -/
def ReadsBack (bs : List CpuBlock) : Prop :=
  ∀ sys : Sys, sys.file "/proc/cpuinfo".toList = some (cpuInfoFile bs) → ∃ cs, readCPUInfo sys = .ok cs ∧
    List.Forall₂ (fun (b : CpuBlock) c => ∀ l ∈ b.lines, l.entry.Promises c) bs cs

theorem ReadsBack.right {bs : List CpuBlock} (h : ReadsBack bs) : ∀ b ∈ bs, ∀ l ∈ b.lines, l.entry.Right := by
  obtain ⟨cs, hread, hall⟩ := h (Sys.ofFiles fun _ => some (cpuInfoFile bs)) rfl
  obtain ⟨hconv, rfl⟩ := (readCPUInfo_iff rfl).1 hread
  intro b hb l hl
  have hb' := List.forall₂_map_right_iff.1 hall
  exact (CpuEntry.promises_iff (b.stored_record l hl) (hconv b hb l hl)).1 (List.forall₂_same.1 hb' b hb l hl)

theorem readsBack_of_right {bs : List CpuBlock} (h : ∀ b ∈ bs, ∀ l ∈ b.lines, l.entry.Right) : ReadsBack bs := by
  intro sys hf
  have hconv : ∀ b ∈ bs, b.Converts := fun b hb l hl => (h b hb l hl).converts
  refine ⟨_, (readCPUInfo_iff hf).2 ⟨hconv, rfl⟩, List.forall₂_map_right_iff.2 (List.forall₂_same.2 fun b hb l hl => ?_)⟩
  exact (CpuEntry.promises_iff (b.stored_record l hl) (hconv b hb l hl)).2 (h b hb l hl)

/-- **The records have the values printed exactly when** no text is printed, no `yes`, no microcode but 0, and no
number beyond its type. -/
theorem cpuBlocks_readsBack_iff (bs : List CpuBlock) : ReadsBack bs ↔ ∀ b ∈ bs, ∀ l ∈ b.lines, l.entry.Right :=
  ⟨ReadsBack.right, readsBack_of_right⟩

/-- A CPU that names its vendor. -/
def vendorLine : CpuInfoLine := ⟨.text .vendorId "GenuineIntel".toList, 1, by decide, by decide⟩

theorem not_readsBack_vendor : ¬ ReadsBack [⟨[vendorLine], by decide⟩] := fun h =>
  h.right _ List.mem_cons_self vendorLine List.mem_cons_self

end SysInfo
