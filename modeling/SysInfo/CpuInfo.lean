import SysInfo.ProcessInfo
/-!
# CpuInfo — `/proc/cpuinfo`

`readCPUInfo` collects the lines of a block into one record and delivers the record at the blank line that closes the
block; the lines after the last blank line are never delivered.  `getNbCores` counts the records and
`getNbCPUs` those with core id 0.
-/
namespace SysInfo

open IStream

/-! ## The words of a text -/

/-- The words `while (s >> word)` delivers from a text. -/
def words : List Char → List (List Char)
  | [] => []
  | c :: t =>
    if isSpace c then words t
    else if t.head?.all isSpace then [c] :: words t
    else match words t with
      | []      => [[c]]
      | w :: ws => (c :: w) :: ws

theorem words_spaces : ∀ (pre t : List Char), (∀ c ∈ pre, isSpace c = true) → words (pre ++ t) = words t
  | [], _, _ => rfl
  | c :: pre, t, h => by
    rw [List.cons_append, words, if_pos (h c (by simp)), words_spaces pre t fun d hd => h d (by simp [hd])]

theorem words_word : ∀ (w t : List Char), w ≠ [] → (∀ c ∈ w, isSpace c = false) → t.head?.all isSpace = true →
    words (w ++ t) = w :: words t
  | [], _, h, _, _ => absurd rfl h
  | [c], t, _, hw, ht => by
    rw [List.cons_append, words, if_neg (by simp [hw c (by simp)]), List.nil_append, if_pos ht]
  | c :: d :: w, t, _, hw, ht => by
    have hd : isSpace d = false := hw d (by simp)
    rw [List.cons_append, words, if_neg (by simp [hw c (by simp)]), if_neg (by simp [hd]),
      words_word (d :: w) t (by simp) (fun e he => hw e (List.mem_cons_of_mem c he)) ht]

/-- **The loop, once around**: a word is delivered and the loop goes on behind it, until no word is left. -/
theorem words_eq (t : List Char) :
    words t = if ((ofText t).extractWord []).1.fail then []
      else ((ofText t).extractWord []).2 :: words ((ofText t).extractWord []).1.rest := by
  have hsplit := List.takeWhile_append_dropWhile (p := isSpace) (l := t)
  have hpre : ∀ c ∈ t.takeWhile isSpace, isSpace c = true := fun c hc => List.mem_takeWhile_imp hc
  simp only [extractWord, good_ofText, if_true]
  rw [show (ofText t).rest = t from rfl]
  cases hd : t.dropWhile isSpace with
  | nil =>
    rw [hd, List.append_nil] at hsplit
    have h := words_spaces (t.takeWhile isSpace) [] hpre
    rw [List.append_nil, hsplit] at h
    exact h
  | cons c u =>
    have hc : isSpace c = false := by
      have h := List.head?_dropWhile_not isSpace t
      rw [hd] at h
      simpa using h
    rw [hd] at hsplit
    have hw : words (c :: u) = (c :: u).takeWhile (!isSpace ·) :: words ((c :: u).dropWhile (!isSpace ·)) := by
      conv_lhs => rw [← List.takeWhile_append_dropWhile (p := (!isSpace ·)) (l := c :: u)]
      refine words_word _ _ (by simp [hc]) (fun e he => by simpa using List.mem_takeWhile_imp he) ?_
      have h := List.head?_dropWhile_not (!isSpace ·) (c :: u)
      cases hq : ((c :: u).dropWhile (!isSpace ·)).head? with
      | none => rfl
      | some e => rw [hq] at h; simpa using h
    rw [← hsplit, words_spaces _ _ hpre, hw]
    rfl

/-! ## The records -/

/-- The keys whose value goes through `std::stoi`. -/
inductive CpuField where
  | processor | cpuFamily | model | stepping | microcode | physicalId | siblings | coreId | cpuCores | apicid
  | initialApicid | cpuidLevel | clflushSize | cacheAlignement
deriving Repr, DecidableEq

/-- The keys whose value goes through `std::stol`, into a `float`. -/
inductive CpuRate where
  | cpuMhz | bogomips
deriving Repr, DecidableEq

/-- The keys whose value is kept as text. -/
inductive CpuText where
  | vendorId | modelName | bugs | addressSizes | powerManagement
deriving Repr, DecidableEq

/-- The keys whose value is compared with `yes`. -/
inductive CpuFlag where
  | fpu | fpuException | wp
deriving Repr, DecidableEq

/-- The test a key passes in the chain of `readCPUInfo`. -/
inductive CpuKey where
  | field (f : CpuField)
  | rate (f : CpuRate)
  | cacheSize
  | text (f : CpuText)
  | flag (f : CpuFlag)
  | flags
deriving Repr, DecidableEq

namespace CpuKey

/-- The key as the code spells it. -/
def spelling : CpuKey → List Char
  | .field .processor       => "processor".toList
  | .text .vendorId         => "vendor_id".toList
  | .field .cpuFamily       => "cpu family".toList
  | .field .model           => "model".toList
  | .text .modelName        => "model name".toList
  | .field .stepping        => "stepping".toList
  | .field .microcode       => "microcode".toList
  | .rate .cpuMhz           => "cpu MHz".toList
  | .cacheSize              => "cache size".toList
  | .field .physicalId      => "physical id".toList
  | .field .siblings        => "sibblings".toList
  | .field .coreId          => "core id".toList
  | .field .cpuCores        => "cpu cores".toList
  | .field .apicid          => "apicid".toList
  | .field .initialApicid   => "initial apicid".toList
  | .flag .fpu              => "fpu".toList
  | .flag .fpuException     => "fpu_exception".toList
  | .field .cpuidLevel      => "cpuid_level".toList
  | .flag .wp               => "wp".toList
  | .flags                  => "flags".toList
  | .text .bugs             => "bugs".toList
  | .rate .bogomips         => "bogomipinfo".toList
  | .field .clflushSize     => "clflush size".toList
  | .field .cacheAlignement => "cache_alignement".toList
  | .text .addressSizes     => "address sizes".toList
  | .text .powerManagement  => "power management".toList

def all : List CpuKey :=
  [.field .processor, .text .vendorId, .field .cpuFamily, .field .model, .text .modelName, .field .stepping,
    .field .microcode, .rate .cpuMhz, .cacheSize, .field .physicalId, .field .siblings, .field .coreId,
    .field .cpuCores, .field .apicid, .field .initialApicid, .flag .fpu, .flag .fpuException, .field .cpuidLevel,
    .flag .wp, .flags, .text .bugs, .rate .bogomips, .field .clflushSize, .field .cacheAlignement, .text .addressSizes,
    .text .powerManagement]

def ofKey (k : List Char) : Option CpuKey := all.find? (fun f => f.spelling = k)

theorem ofKey_spelling (k : CpuKey) : ofKey k.spelling = some k := by
  cases k with
  | field f | rate f | text f | flag f => cases f <;> rfl
  | cacheSize | flags => rfl

end CpuKey

/-- `cpu_info_t`. -/
structure CpuInfo where
  num       : CpuField → Int
  rate      : CpuRate → Int     -- the `long`, before its conversion to `float`
  cacheSize : Int
  text      : CpuText → List Char
  flag      : CpuFlag → Bool
  flags     : List (List Char)

namespace CpuInfo

/-- `cpu_info_t()`. -/
def empty : CpuInfo := ⟨fun _ => 0, fun _ => 0, 0, fun _ => [], fun _ => false, []⟩

/-- A line with a key and a value. -/
def addLine (c : CpuInfo) (line : List Char) : Except Exn CpuInfo :=
  let (key, value) := ProcessInfo.keyValue ':' line
  match CpuKey.ofKey (MMap.trim key) with
  | some (.field f)  => do return { c with num := Function.update c.num f (← stoi 10 value) }
  | some (.rate f)   => do return { c with rate := Function.update c.rate f (← stol 10 value) }
  | some .cacheSize  => return { c with cacheSize := 0 }
  | some (.text f)   => return { c with text := Function.update c.text f value }
  | some (.flag f)   => return { c with flag := Function.update c.flag f (value = "yes".toList) }
  | some .flags      => return { c with flags := c.flags ++ words value }
  | none             => return c

end CpuInfo

/-- One line of `/proc/cpuinfo`: a blank line delivers the record and starts the next one.  That the source keeps the old
record at the end of the file makes no difference (`cpuInfoLine_eq`). -/
def cpuInfoLine (s : List CpuInfo × CpuInfo) (line : List Char) : Except Exn (List CpuInfo × CpuInfo) :=
  if line = [] then return (s.1 ++ [s.2], CpuInfo.empty)
  else do return (s.1, ← s.2.addLine line)

/-- The line on the stream that `getline` leaves, with the source's `eof()` test. -/
def cpuInfoLineAt (stream : IStream) (s : List CpuInfo × CpuInfo) (line : List Char) :
    Except Exn (List CpuInfo × CpuInfo) :=
  if line = [] then return (s.1 ++ [s.2], if !stream.eof then CpuInfo.empty else s.2)
  else do return (s.1, ← s.2.addLine line)

/-- A blank line that `getline` delivers ends with its newline, so `eof()` is never set there. -/
theorem cpuInfoLine_eq {stream : IStream} {str : List Char} (h : (stream.getline '\n' str).1.fail = false)
    (s : List CpuInfo × CpuInfo) : cpuInfoLineAt (stream.getline '\n' str).1 s (stream.getline '\n' str).2 =
      cpuInfoLine s (stream.getline '\n' str).2 := by
  unfold cpuInfoLineAt cpuInfoLine
  by_cases hline : (stream.getline '\n' str).2 = []
  · rw [if_pos hline, if_pos hline, eof_getline_of_nil h hline]
    rfl
  · rw [if_neg hline, if_neg hline]

def readCPUInfo (sys : Sys) : Except Exn (List CpuInfo) := do
  let (cpuinfo, _) ← (getlines '\n' (openFile (sys.file "/proc/cpuinfo".toList))).foldlM cpuInfoLine ([], CpuInfo.empty)
  return cpuinfo

/-- The result is narrowed to an `int`. -/
def getNbCores (sys : Sys) : Except Exn Int32 := do
  let cpuinfo ← readCPUInfo sys
  return Int32.ofNat cpuinfo.length

/-- The records with core id 0.  An `int` that overflows is undefined, so the counter is an integer. -/
def getNbCPUs (sys : Sys) : Except Exn Int := do
  let cpuinfo ← readCPUInfo sys
  return cpuinfo.foldl (fun nbCPUs core => if core.num .coreId = 0 then nbCPUs + 1 else nbCPUs) 0

end SysInfo
