import SysInfo.CpuInfo
/-!
# CpuRecords — `readCPUInfo` on any text, block by block

The record that `readCPUInfo` fills is started afresh at every blank line, so a text that ends with one leaves nothing for
what follows it: reading is a homomorphism from texts closed by a blank line to lists of records (`readCPUInfo_append`),
and a record depends on the lines of its own block only (`recordsOf_blocks`).
-/
namespace SysInfo

open IStream

/-! ## Lines -/

/-- A text without a line, or whose last line is blank and closed by its newline. -/
inductive EndsBlank : List Char → Prop
  | empty : EndsBlank []
  | one : EndsBlank ['\n']
  | after (s : List Char) : EndsBlank (s ++ ['\n', '\n'])

theorem EndsBlank.splitLines {s : List Char} (h : EndsBlank s) :
    (splitLines '\n' s = [] ∨ ∃ ls, splitLines '\n' s = ls ++ [[]]) ∧
      ∀ t, IStream.splitLines '\n' (s ++ t) = splitLines '\n' s ++ splitLines '\n' t := by
  cases h with
  | empty => exact ⟨.inl rfl, fun t => rfl⟩
  | one => exact ⟨.inr ⟨[], rfl⟩, fun t => splitLines_split '\n' [] t⟩
  | after s =>
    have hblank := splitLines_split '\n' s ['\n']
    refine ⟨.inr ⟨_, hblank⟩, fun t => ?_⟩
    have hsplit := splitLines_split '\n' (s ++ ['\n']) t
    simpa using hsplit

/-! ## Records -/

/-- The records of a list of lines. -/
def recordsOf (ls : List (List Char)) : Except Exn (List CpuInfo) := do
  let r ← ls.foldlM cpuInfoLine ([], CpuInfo.empty)
  return r.1

theorem readCPUInfo_eq {sys : Sys} {text : List Char} (h : sys.file "/proc/cpuinfo".toList = some text) :
    readCPUInfo sys = recordsOf (splitLines '\n' text) := by
  rw [readCPUInfo, h]
  rfl

/-- Records delivered before go in front of those to come. -/
theorem foldlM_cpuInfoLine_acc (acc : List CpuInfo) : ∀ (ls : List (List Char)) (acc' : List CpuInfo) (c : CpuInfo),
    ls.foldlM cpuInfoLine (acc ++ acc', c) = (fun r => (acc ++ r.1, r.2)) <$> ls.foldlM cpuInfoLine (acc', c)
  | [], acc', c => rfl
  | l :: ls, acc', c => by
    rw [List.foldlM_cons, List.foldlM_cons]
    unfold cpuInfoLine
    split
    · have ih := foldlM_cpuInfoLine_acc acc ls (acc' ++ [c]) CpuInfo.empty
      rw [← List.append_assoc] at ih
      exact ih
    · cases c.addLine l with
      | error e => rfl
      | ok c' => exact foldlM_cpuInfoLine_acc acc ls acc' c'

/-- A blank line leaves an empty record behind. -/
theorem snd_of_foldlM_blank {ls : List (List Char)} {s r : List CpuInfo × CpuInfo}
    (h : (ls ++ [[]]).foldlM cpuInfoLine s = .ok r) : r.2 = CpuInfo.empty := by
  rw [List.foldlM_append] at h
  cases hs : ls.foldlM cpuInfoLine s with
  | error e => rw [hs] at h; cases h
  | ok t => rw [hs] at h; cases h; rfl

/-- **The records of lines that end with a blank one** come before those of the lines behind them. -/
theorem recordsOf_append {ls : List (List Char)} (h : ls = [] ∨ ∃ ks, ls = ks ++ [[]]) (ms : List (List Char)) :
    recordsOf (ls ++ ms) = (do
      let as ← recordsOf ls
      let bs ← recordsOf ms
      return as ++ bs) := by
  unfold recordsOf
  rw [List.foldlM_append]
  cases hls : ls.foldlM cpuInfoLine ([], CpuInfo.empty) with
  | error e => rfl
  | ok r =>
    have hempty : r = (r.1 ++ [], CpuInfo.empty) := by
      rcases h with rfl | ⟨ks, rfl⟩
      · cases hls; rfl
      · rw [List.append_nil, ← snd_of_foldlM_blank hls]
    show (ms.foldlM cpuInfoLine r >>= fun r => pure r.1) = _
    rw [hempty, foldlM_cpuInfoLine_acc r.1 ms [] CpuInfo.empty]
    cases ms.foldlM cpuInfoLine ([], CpuInfo.empty) <;> simp [Functor.map, Except.map, bind, Except.bind, pure, Except.pure]

/-- Joining two readings throws when one of them does. -/
theorem error_append (x y : Except Exn (List CpuInfo)) :
    (∃ e, (do let as ← x; let bs ← y; return as ++ bs) = .error e) ↔ (∃ e, x = .error e) ∨ ∃ e, y = .error e := by
  cases x with
  | error e => exact ⟨fun _ => .inl ⟨e, rfl⟩, fun _ => ⟨e, rfl⟩⟩
  | ok as =>
    cases y with
    | error e => exact ⟨fun _ => .inr ⟨e, rfl⟩, fun _ => ⟨e, rfl⟩⟩
    | ok bs =>
      constructor
      · rintro ⟨e, he⟩
        cases he
      · rintro (⟨e, he⟩ | ⟨e, he⟩) <;> cases he

/-- **Reading is a homomorphism**: a text closed by a blank line and what follows it are read one after the other; reading
throws when either of them does. -/
theorem readCPUInfo_append {s t : List Char} (h : EndsBlank s) {sysS sysT sys : Sys}
    (hs : sysS.file "/proc/cpuinfo".toList = some s) (ht : sysT.file "/proc/cpuinfo".toList = some t)
    (hst : sys.file "/proc/cpuinfo".toList = some (s ++ t)) :
    readCPUInfo sys = (do
      let as ← readCPUInfo sysS
      let bs ← readCPUInfo sysT
      return as ++ bs) := by
  obtain ⟨hends, hsplit⟩ := h.splitLines
  rw [readCPUInfo_eq hs, readCPUInfo_eq ht, readCPUInfo_eq hst, hsplit, recordsOf_append hends]

/-! ## Blocks -/

/-- The record of one block's lines. -/
def recordOf (ls : List (List Char)) : Except Exn CpuInfo := ls.foldlM CpuInfo.addLine CpuInfo.empty

theorem foldlM_cpuInfoLine_block : ∀ (ls : List (List Char)) (acc : List CpuInfo) (c : CpuInfo), (∀ l ∈ ls, l ≠ []) →
    ls.foldlM cpuInfoLine (acc, c) = (fun c => (acc, c)) <$> ls.foldlM CpuInfo.addLine c
  | [], _, _, _ => rfl
  | l :: ls, acc, c, h => by
    rw [List.foldlM_cons, List.foldlM_cons, cpuInfoLine, if_neg (h l (by simp))]
    cases c.addLine l with
    | error e => rfl
    | ok c' => exact foldlM_cpuInfoLine_block ls acc c' fun m hm => h m (by simp [hm])

theorem recordsOf_block {ls : List (List Char)} (h : ∀ l ∈ ls, l ≠ []) :
    recordsOf (ls ++ [[]]) = (fun c => [c]) <$> recordOf ls := by
  rw [recordsOf, List.foldlM_append, foldlM_cpuInfoLine_block ls [] CpuInfo.empty h, recordOf]
  cases ls.foldlM CpuInfo.addLine CpuInfo.empty <;> rfl

/-- **One record per block**, each from its own lines. -/
theorem recordsOf_blocks : ∀ bs : List (List (List Char)), (∀ b ∈ bs, ∀ l ∈ b, l ≠ []) →
    recordsOf (bs.flatMap (· ++ [[]])) = bs.mapM recordOf
  | [], _ => rfl
  | b :: bs, h => by
    rw [List.flatMap_cons, recordsOf_append (.inr ⟨b, rfl⟩), recordsOf_block (h b (by simp)),
      recordsOf_blocks bs fun d hd => h d (by simp [hd]), List.mapM_cons]
    cases recordOf b with
    | error e => rfl
    | ok c => cases bs.mapM recordOf <;> rfl

/-! ## Keys -/

namespace CpuKey

/-- The key of a line, if the code tests it. -/
def ofLine (line : List Char) : Option CpuKey := ofKey (MMap.trim (ProcessInfo.keyValue ':' line).1)

/-- The member of a key is zero or empty. -/
def Unset (c : CpuInfo) : CpuKey → Prop
  | .field f   => c.num f = 0
  | .rate f    => c.rate f = 0
  | .cacheSize => c.cacheSize = 0
  | .text f    => c.text f = []
  | .flag f    => c.flag f = false
  | .flags     => c.flags = []

theorem unset_empty (k : CpuKey) : k.Unset CpuInfo.empty := by cases k <;> rfl

end CpuKey

namespace CpuInfo

theorem addLine_eq (c : CpuInfo) (line : List Char) :
    c.addLine line = match CpuKey.ofLine line with
      | some (.field f)  => (fun n => { c with num := Function.update c.num f n }) <$>
          stoi 10 (ProcessInfo.keyValue ':' line).2
      | some (.rate f)   => (fun n => { c with rate := Function.update c.rate f n }) <$>
          stol 10 (ProcessInfo.keyValue ':' line).2
      | some .cacheSize  => .ok { c with cacheSize := 0 }
      | some (.text f)   => .ok { c with text := Function.update c.text f (ProcessInfo.keyValue ':' line).2 }
      | some (.flag f)   =>
        .ok { c with flag := Function.update c.flag f ((ProcessInfo.keyValue ':' line).2 = "yes".toList) }
      | some .flags      => .ok { c with flags := c.flags ++ words (ProcessInfo.keyValue ':' line).2 }
      | none             => .ok c := rfl

/-- Whether a line converts does not depend on the record. -/
theorem addLine_isOk {c : CpuInfo} {line : List Char} (d : CpuInfo) (h : ∃ c', c.addLine line = .ok c') :
    ∃ d', d.addLine line = .ok d' := by
  obtain ⟨c', h⟩ := h
  rw [addLine_eq] at h ⊢
  cases hk : CpuKey.ofLine line with
  | none => exact ⟨_, rfl⟩
  | some k =>
    cases k with
    | field f =>
      cases hn : stoi 10 (ProcessInfo.keyValue ':' line).2 with
      | error e => rw [hk, hn] at h; cases h
      | ok n => exact ⟨_, rfl⟩
    | rate f =>
      cases hn : stol 10 (ProcessInfo.keyValue ':' line).2 with
      | error e => rw [hk, hn] at h; cases h
      | ok n => exact ⟨_, rfl⟩
    | cacheSize | text f | flag f | flags => exact ⟨_, rfl⟩

/-- A line leaves the member of another key alone. -/
theorem unset_addLine {c c' : CpuInfo} {line : List Char} {k : CpuKey} (hk : CpuKey.ofLine line ≠ some k)
    (hc : k.Unset c) (h : c.addLine line = .ok c') : k.Unset c' := by
  rw [addLine_eq] at h
  cases hline : CpuKey.ofLine line with
  | none => rw [hline] at h; cases h; exact hc
  | some k' =>
    have hne : k ≠ k' := fun e => hk (by rw [hline, e])
    rw [hline] at h
    cases k' with
    | field f =>
      cases hn : stoi 10 (ProcessInfo.keyValue ':' line).2 with
      | error e => rw [hn] at h; cases h
      | ok n =>
        rw [hn] at h
        cases h
        cases k with
        | field g => exact (Function.update_of_ne (fun e => hne (congrArg CpuKey.field e)) _ _).trans hc
        | _ => exact hc
    | rate f =>
      cases hn : stol 10 (ProcessInfo.keyValue ':' line).2 with
      | error e => rw [hn] at h; cases h
      | ok n =>
        rw [hn] at h
        cases h
        cases k with
        | rate g => exact (Function.update_of_ne (fun e => hne (congrArg CpuKey.rate e)) _ _).trans hc
        | _ => exact hc
    | text f =>
      cases h
      cases k with
      | text g => exact (Function.update_of_ne (fun e => hne (congrArg CpuKey.text e)) _ _).trans hc
      | _ => exact hc
    | flag f =>
      cases h
      cases k with
      | flag g => exact (Function.update_of_ne (fun e => hne (congrArg CpuKey.flag e)) _ _).trans hc
      | _ => exact hc
    | cacheSize =>
      cases h
      cases k with
      | cacheSize => rfl
      | _ => exact hc
    | flags =>
      cases h
      cases k with
      | flags => exact absurd rfl hne
      | _ => exact hc

/-- The key that no line of a block has leaves its member as it was. -/
theorem unset_foldlM {k : CpuKey} : ∀ {ls : List (List Char)} {c c' : CpuInfo},
    (∀ l ∈ ls, CpuKey.ofLine l ≠ some k) → k.Unset c → ls.foldlM addLine c = .ok c' → k.Unset c'
  | [], _, _, _, hc, h => by cases h; exact hc
  | l :: ls, c, c', hk, hc, h => by
    rw [List.foldlM_cons] at h
    cases hl : c.addLine l with
    | error e => rw [hl] at h; cases h
    | ok d =>
      rw [hl] at h
      exact unset_foldlM (fun m hm => hk m (by simp [hm])) (unset_addLine (hk l (by simp)) hc hl) h

/-- A block whose numbers convert has a record. -/
theorem foldlM_isOk : ∀ {ls : List (List Char)} (c : CpuInfo), (∀ l ∈ ls, ∃ d, empty.addLine l = .ok d) →
    ∃ c', ls.foldlM addLine c = .ok c'
  | [], c, _ => ⟨c, rfl⟩
  | l :: ls, c, h => by
    obtain ⟨d, hd⟩ := addLine_isOk c (h l (by simp))
    obtain ⟨c', hc'⟩ := foldlM_isOk d fun m hm => h m (List.mem_cons_of_mem l hm)
    exact ⟨c', by rw [List.foldlM_cons, hd]; exact hc'⟩

end CpuInfo

/-! ## Files of blocks -/

/-- Non-empty lines, in which the numbers convert. -/
structure CpuLines where
  lines    : List (List Char)
  ne       : ∀ l ∈ lines, l ≠ []
  newline  : ∀ l ∈ lines, '\n' ∉ l
  converts : ∀ l ∈ lines, ∃ c, CpuInfo.empty.addLine l = .ok c

namespace CpuLines

/-- The block, closed by one blank line. -/
def text (b : CpuLines) : List Char := unlines '\n' (b.lines ++ [[]])

/-- No line of the block has the key. -/
def Lacks (b : CpuLines) (k : CpuKey) : Prop := ∀ l ∈ b.lines, CpuKey.ofLine l ≠ some k

theorem splitLines_text (bs : List CpuLines) :
    splitLines '\n' (bs.flatMap text) = (bs.map lines).flatMap (· ++ [[]]) := by
  have hunlines : bs.flatMap text = unlines '\n' ((bs.map lines).flatMap (· ++ [[]])) := by
    induction bs with
    | nil => rfl
    | cons b bs ih => rw [List.flatMap_cons, ih, List.map_cons, List.flatMap_cons, unlines_append, text]
  rw [hunlines]
  refine splitLines_unlines '\n' _ fun l hl => ?_
  simp only [List.mem_flatMap, List.mem_map, List.mem_append, List.mem_singleton] at hl
  obtain ⟨_, ⟨b, -, rfl⟩, hl | rfl⟩ := hl
  · exact b.newline l hl
  · simp

/-- One record per block: its own lines decide it, and a key it lacks has the zero or empty value. -/
theorem recordsOf_text : ∀ bs : List CpuLines, ∃ cs, (bs.map lines).mapM recordOf = .ok cs ∧
    List.Forall₂ (fun b c => recordOf b.lines = .ok c ∧ ∀ k, b.Lacks k → k.Unset c) bs cs
  | [] => ⟨[], rfl, .nil⟩
  | b :: bs => by
    obtain ⟨c, hc⟩ := CpuInfo.foldlM_isOk CpuInfo.empty b.converts
    obtain ⟨cs, hcs, hrecords⟩ := recordsOf_text bs
    refine ⟨c :: cs, ?_, .cons ⟨hc, fun k hk => CpuInfo.unset_foldlM hk k.unset_empty hc⟩ hrecords⟩
    rw [List.map_cons, List.mapM_cons, recordOf, hc, hcs]
    rfl

end CpuLines

/-- **`/proc/cpuinfo` is read block by block**: texts closed by a blank line are read one after the other, reading throws
when one of them makes it throw, and a file of blocks has one record per block, from its own lines. -/
theorem readCPUInfo_blockwise :
    (∀ s t : List Char, EndsBlank s → ∀ sysS sysT sys : Sys,
      sysS.file "/proc/cpuinfo".toList = some s → sysT.file "/proc/cpuinfo".toList = some t →
      sys.file "/proc/cpuinfo".toList = some (s ++ t) →
      (∀ as bs, readCPUInfo sysS = .ok as → readCPUInfo sysT = .ok bs → readCPUInfo sys = .ok (as ++ bs)) ∧
      ((∃ e, readCPUInfo sys = .error e) ↔ (∃ e, readCPUInfo sysS = .error e) ∨ ∃ e, readCPUInfo sysT = .error e)) ∧
    (∀ (bs : List CpuLines) (sys : Sys), sys.file "/proc/cpuinfo".toList = some (bs.flatMap CpuLines.text) →
      ∃ cs, readCPUInfo sys = .ok cs ∧
        List.Forall₂ (fun b c => recordOf b.lines = .ok c ∧ ∀ k, b.Lacks k → k.Unset c) bs cs ∧
        getNbCores sys = .ok (Int32.ofNat bs.length)) := by
  refine ⟨fun s t h sysS sysT sys hs ht hst => ?_, fun bs sys hf => ?_⟩
  · rw [readCPUInfo_append h hs ht hst]
    exact ⟨fun as bs has hbs => by rw [has, hbs]; rfl, error_append _ _⟩
  · obtain ⟨cs, hcs, hrecords⟩ := CpuLines.recordsOf_text bs
    have hread : readCPUInfo sys = .ok cs := by
      rw [readCPUInfo_eq hf, CpuLines.splitLines_text, recordsOf_blocks _ fun b hb => ?_, hcs]
      obtain ⟨b, -, rfl⟩ := List.mem_map.mp hb
      exact b.ne
    refine ⟨cs, hread, hrecords, ?_⟩
    rw [getNbCores, hread, hrecords.length_eq]
    rfl

/-- A block with a core id, and one without. -/
def CpuLines.core : CpuLines where
  lines := ["processor\t: 0".toList, "core id\t\t: 5".toList]
  ne := by decide
  newline := by decide
  converts := by
    simp only [List.forall_mem_cons]
    exact ⟨⟨_, rfl⟩, ⟨_, rfl⟩, fun _ h => absurd h List.not_mem_nil⟩

def CpuLines.bare : CpuLines where
  lines := ["processor\t: 1".toList]
  ne := by decide
  newline := by decide
  converts := by
    simp only [List.forall_mem_cons]
    exact ⟨⟨_, rfl⟩, fun _ h => absurd h List.not_mem_nil⟩

/-- A machine with these blocks in `/proc/cpuinfo`. -/
def CpuLines.sys (bs : List CpuLines) : Sys := Sys.ofFiles fun _ => some (bs.flatMap CpuLines.text)

/-- The second CPU does not take the core id of the first, and each is read as it is alone. -/
theorem readCPUInfo_blockwise_two : ∃ c d : CpuInfo,
    readCPUInfo (CpuLines.sys [.core]) = .ok [c] ∧ readCPUInfo (CpuLines.sys [.bare]) = .ok [d] ∧
      readCPUInfo (CpuLines.sys [.core, .bare]) = .ok [c, d] ∧ c.num .coreId = 5 ∧ d.num .coreId = 0 ∧
        getNbCores (CpuLines.sys [.core, .bare]) = .ok 2 := by
  obtain ⟨happend, hblocks⟩ := readCPUInfo_blockwise
  obtain ⟨_, hcs, hc, -⟩ := hblocks [.core] (CpuLines.sys [.core]) rfl
  obtain ⟨_, hds, hd, -⟩ := hblocks [.bare] (CpuLines.sys [.bare]) rfl
  obtain ⟨_, -, -, hcores⟩ := hblocks [.core, .bare] (CpuLines.sys [.core, .bare]) rfl
  obtain _ | @⟨_, c, _, _, ⟨hcore, -⟩, ⟨⟩⟩ := hc
  obtain _ | @⟨_, d, _, _, ⟨-, hlacks⟩, ⟨⟩⟩ := hd
  have hends : EndsBlank CpuLines.core.text := .after "processor\t: 0\ncore id\t\t: 5".toList
  obtain ⟨hboth, -⟩ := happend CpuLines.core.text CpuLines.bare.text hends (CpuLines.sys [.core]) (CpuLines.sys [.bare])
    (CpuLines.sys [.core, .bare]) (congrArg some (List.append_nil _)) (congrArg some (List.append_nil _))
    (congrArg (fun t => some (CpuLines.core.text ++ t)) (List.append_nil _))
  refine ⟨c, d, hcs, hds, hboth _ _ hcs hds, ?_, hlacks (.field .coreId) ?_, hcores⟩
  · cases hcore
    rfl
  · exact List.forall_mem_singleton.2 (by decide)

end SysInfo
