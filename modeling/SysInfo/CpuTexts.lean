import SysInfo.CpuRecords
/-!
# CpuTexts — `/proc/cpuinfo` of any text

A line is an entry of a key the chain knows, or counts for nothing; an entry faults when its number does not convert.
The blank lines cut any text into blocks and a rest.  Reading throws what the first entry at fault throws, in a block or
in the rest; otherwise there is one record per block, in which the last entry of each key counts and the flags of all
entries are joined, and the rest is never delivered (`readCPUInfo_total`).
-/
namespace SysInfo

open IStream

/-! ## Entries -/

def lineValue (l : List Char) : List Char := (ProcessInfo.keyValue ':' l).2

/-- The values of a key, in the order of the lines. -/
def cpuValues (k : CpuKey) (ls : List (List Char)) : List (List Char) :=
  (ls.filter (CpuKey.ofLine · = some k)).map lineValue

/-- What the conversion of a line throws. -/
def cpuFault (l : List Char) : Option Exn :=
  match CpuKey.ofLine l with
  | some (.field _) => (match stoi 10 (lineValue l) with | .ok _ => none | .error e => some e)
  | some (.rate _)  => (match stol 10 (lineValue l) with | .ok _ => none | .error e => some e)
  | _               => none

namespace CpuInfo

/-- The member of a key, when these are its values: the last one counts, and the flags of all of them are joined. -/
def Holds (c : CpuInfo) (vs : List (List Char)) : CpuKey → Prop
  | .field f   => match vs.getLast? with | some v => stoi 10 v = .ok (c.num f) | none => c.num f = 0
  | .rate f    => match vs.getLast? with | some v => stol 10 v = .ok (c.rate f) | none => c.rate f = 0
  | .cacheSize => c.cacheSize = 0
  | .text f    => c.text f = vs.getLast?.getD []
  | .flag f    => c.flag f = decide (vs.getLast? = some "yes".toList)
  | .flags     => c.flags = vs.flatMap words

def Describes (c : CpuInfo) (ls : List (List Char)) : Prop := ∀ k, c.Holds (cpuValues k ls) k

theorem describes_empty : empty.Describes [] := fun k => by cases k <;> rfl

theorem addLine_fault {l : List Char} (c : CpuInfo) :
    (∀ e, cpuFault l = some e → c.addLine l = .error e) ∧ (cpuFault l = none → ∃ c', c.addLine l = .ok c') := by
  rw [addLine_eq, cpuFault, lineValue]
  cases CpuKey.ofLine l with
  | none => exact ⟨fun e he => (nomatch he), fun _ => ⟨c, rfl⟩⟩
  | some k =>
    cases k with
    | field f =>
      cases stoi 10 (ProcessInfo.keyValue ':' l).2 with
      | error e => exact ⟨fun e' he => by cases he; rfl, fun h => by cases h⟩
      | ok n => exact ⟨fun e' he => (nomatch he), fun _ => ⟨_, rfl⟩⟩
    | rate f =>
      cases stol 10 (ProcessInfo.keyValue ':' l).2 with
      | error e => exact ⟨fun e' he => by cases he; rfl, fun h => by cases h⟩
      | ok n => exact ⟨fun e' he => (nomatch he), fun _ => ⟨_, rfl⟩⟩
    | cacheSize | text f | flag f | flags => exact ⟨fun e he => (nomatch he), fun _ => ⟨_, rfl⟩⟩

/-- A line leaves the members of other keys alone. -/
theorem holds_addLine_of_ne {c c' : CpuInfo} {l : List Char} {k : CpuKey} {vs : List (List Char)}
    (hk : CpuKey.ofLine l ≠ some k) (h : c.addLine l = .ok c') (hc : c.Holds vs k) : c'.Holds vs k := by
  rw [addLine_eq] at h
  cases hl : CpuKey.ofLine l with
  | none => rw [hl] at h; cases h; exact hc
  | some k' =>
    have hne : k ≠ k' := fun e => hk (by rw [hl, e])
    rw [hl] at h
    cases k' with
    | field f =>
      cases hn : stoi 10 (ProcessInfo.keyValue ':' l).2 with
      | error e => rw [hn] at h; cases h
      | ok n =>
        rw [hn] at h
        cases h
        cases k with
        | field g =>
          simp only [Holds, Function.update_of_ne (fun e : g = f => hne (congrArg CpuKey.field e))]
          exact hc
        | _ => exact hc
    | rate f =>
      cases hn : stol 10 (ProcessInfo.keyValue ':' l).2 with
      | error e => rw [hn] at h; cases h
      | ok n =>
        rw [hn] at h
        cases h
        cases k with
        | rate g =>
          simp only [Holds, Function.update_of_ne (fun e : g = f => hne (congrArg CpuKey.rate e))]
          exact hc
        | _ => exact hc
    | text f =>
      cases h
      cases k with
      | text g => exact (Function.update_of_ne (fun e => hne (congrArg CpuKey.text e)) _ _).trans hc
      | _ => exact hc
    | flag f =>
      cases h
      cases k with
      | flag g => exact (Function.update_of_ne (fun e => hne (congrArg CpuKey.flag e)) _ _).trans hc
      | _ => exact hc
    | cacheSize =>
      cases h
      cases k with
      | cacheSize => exact absurd rfl hne
      | _ => exact hc
    | flags =>
      cases h
      cases k with
      | flags => exact absurd rfl hne
      | _ => exact hc

/-- A line sets the member of its own key. -/
theorem holds_addLine_self {c c' : CpuInfo} {l : List Char} {k : CpuKey} {vs : List (List Char)}
    (hk : CpuKey.ofLine l = some k) (h : c.addLine l = .ok c') (hc : c.Holds vs k) : c'.Holds (vs ++ [lineValue l]) k := by
  rw [addLine_eq, hk] at h
  cases k with
  | field f =>
    cases hn : stoi 10 (ProcessInfo.keyValue ':' l).2 with
    | error e => rw [hn] at h; cases h
    | ok n =>
      rw [hn] at h
      cases h
      simp only [Holds, List.getLast?_concat, Function.update_self]
      exact hn
  | rate f =>
    cases hn : stol 10 (ProcessInfo.keyValue ':' l).2 with
    | error e => rw [hn] at h; cases h
    | ok n =>
      rw [hn] at h
      cases h
      simp only [Holds, List.getLast?_concat, Function.update_self]
      exact hn
  | cacheSize => cases h; rfl
  | text f =>
    cases h
    simp only [Holds, List.getLast?_concat, Function.update_self]
    rfl
  | flag f =>
    cases h
    simp only [Holds, List.getLast?_concat, Function.update_self, Option.some.injEq]
    rfl
  | flags =>
    cases h
    simp only [Holds, List.flatMap_append, List.flatMap_singleton] at hc ⊢
    rw [hc]
    rfl

theorem Describes.addLine {c c' : CpuInfo} {ls : List (List Char)} {l : List Char} (hc : c.Describes ls)
    (h : c.addLine l = .ok c') : c'.Describes (ls ++ [l]) := by
  intro k
  by_cases hk : CpuKey.ofLine l = some k
  · have hvalues : cpuValues k (ls ++ [l]) = cpuValues k ls ++ [lineValue l] := by
      rw [cpuValues, List.filter_append, List.filter_cons_of_pos (by simpa using hk), List.map_append]
      rfl
    rw [hvalues]
    exact holds_addLine_self hk h (hc k)
  · have hvalues : cpuValues k (ls ++ [l]) = cpuValues k ls := by
      rw [cpuValues, List.filter_append, List.filter_cons_of_neg (by simpa using hk), List.filter_nil, List.append_nil]
      rfl
    rw [hvalues]
    exact holds_addLine_of_ne hk h (hc k)

/-- From a record of the lines before: the first line at fault throws, or the record is one of all lines. -/
theorem foldlM_addLine_total : ∀ (ls : List (List Char)) {ks : List (List Char)} {c : CpuInfo}, c.Describes ks →
    (∃ e, ls.findSome? cpuFault = some e ∧ ls.foldlM CpuInfo.addLine c = .error e) ∨
      (ls.findSome? cpuFault = none ∧ ∃ c', ls.foldlM CpuInfo.addLine c = .ok c' ∧ c'.Describes (ks ++ ls))
  | [], ks, c, hc => .inr ⟨rfl, c, rfl, by rwa [List.append_nil]⟩
  | l :: ls, ks, c, hc => by
    obtain ⟨herror, hok⟩ := @addLine_fault l c
    rw [List.findSome?_cons, List.foldlM_cons]
    cases hl : cpuFault l with
    | some e =>
      rw [herror e hl]
      exact .inl ⟨e, rfl, rfl⟩
    | none =>
      obtain ⟨c', hc'⟩ := hok hl
      rw [hc']
      have ih := foldlM_addLine_total ls (hc.addLine hc')
      rwa [List.append_assoc, List.singleton_append] at ih

end CpuInfo

theorem recordOf_total (ls : List (List Char)) :
    (∃ e, ls.findSome? cpuFault = some e ∧ recordOf ls = .error e) ∨
      (ls.findSome? cpuFault = none ∧ ∃ c, recordOf ls = .ok c ∧ c.Describes ls) :=
  CpuInfo.foldlM_addLine_total ls CpuInfo.describes_empty

/-! ## Blocks -/

/-- Blank lines cut the lines of any text. -/
theorem exists_cpuBlocks : ∀ ls : List (List Char), ∃ (blocks : List (List (List Char))) (rest : List (List Char)),
    ls = blocks.flatMap (· ++ [[]]) ++ rest ∧ (∀ b ∈ blocks, ∀ l ∈ b, l ≠ []) ∧ ∀ l ∈ rest, l ≠ []
  | [] => ⟨[], [], rfl, fun _ h => absurd h List.not_mem_nil, fun _ h => absurd h List.not_mem_nil⟩
  | l :: ls => by
    obtain ⟨blocks, rest, hls, hblocks, hrest⟩ := exists_cpuBlocks ls
    by_cases hl : l = []
    · refine ⟨[] :: blocks, rest, by rw [hls, hl]; rfl, fun b hb => ?_, hrest⟩
      rcases List.mem_cons.1 hb with rfl | hb
      · exact fun m hm => absurd hm List.not_mem_nil
      · exact hblocks b hb
    · cases blocks with
      | nil =>
        refine ⟨[], l :: rest, by rw [hls]; rfl, hblocks, fun m hm => ?_⟩
        rcases List.mem_cons.1 hm with rfl | hm
        · exact hl
        · exact hrest m hm
      | cons b blocks =>
        refine ⟨(l :: b) :: blocks, rest, by rw [hls]; rfl, fun b' hb' => ?_, hrest⟩
        rcases List.mem_cons.1 hb' with rfl | hb'
        · intro m hm
          rcases List.mem_cons.1 hm with rfl | hm
          · exact hl
          · exact hblocks b (by simp) m hm
        · exact hblocks b' (by simp [hb'])

theorem cpuFault_blank : cpuFault [] = none := by decide

theorem findSome?_blocks : ∀ blocks : List (List (List Char)),
    (blocks.flatMap (· ++ [[]])).findSome? cpuFault = blocks.findSome? (·.findSome? cpuFault)
  | [] => rfl
  | b :: blocks => by
    have hblank : [[]].findSome? cpuFault = none := by rw [List.findSome?_cons, cpuFault_blank]; rfl
    rw [List.flatMap_cons, List.findSome?_append, List.findSome?_append, findSome?_blocks blocks, hblank, Option.or_none,
      List.findSome?_cons]
    cases b.findSome? cpuFault <;> rfl

theorem mapM_recordOf_total : ∀ blocks : List (List (List Char)),
    (∃ e, blocks.findSome? (·.findSome? cpuFault) = some e ∧ blocks.mapM recordOf = .error e) ∨
      (blocks.findSome? (·.findSome? cpuFault) = none ∧
        ∃ cs, blocks.mapM recordOf = .ok cs ∧ List.Forall₂ (fun b c => CpuInfo.Describes c b) blocks cs)
  | [] => .inr ⟨rfl, [], rfl, .nil⟩
  | b :: blocks => by
    rw [List.findSome?_cons, List.mapM_cons]
    rcases recordOf_total b with ⟨e, he, hb⟩ | ⟨hnone, c, hb, hc⟩
    · rw [he, hb]
      exact .inl ⟨e, rfl, rfl⟩
    · rw [hnone, hb]
      rcases mapM_recordOf_total blocks with ⟨e, he, hm⟩ | ⟨hn, cs, hm, hcs⟩
      · rw [hm]
        exact .inl ⟨e, he, rfl⟩
      · rw [hm]
        exact .inr ⟨hn, c :: cs, rfl, .cons hc hcs⟩

theorem readCPUInfo_eq_recordsOf (sys : Sys) :
    readCPUInfo sys = recordsOf (splitLines '\n' ((sys.file "/proc/cpuinfo".toList).getD [])) := by
  rw [readCPUInfo]
  cases sys.file "/proc/cpuinfo".toList <;> rfl

theorem recordsOf_rest {rest : List (List Char)} (h : ∀ l ∈ rest, l ≠ []) :
    recordsOf rest = (fun _ => []) <$> recordOf rest := by
  rw [recordsOf, foldlM_cpuInfoLine_block rest [] CpuInfo.empty h, recordOf]
  cases rest.foldlM CpuInfo.addLine CpuInfo.empty <;> rfl

theorem recordsOf_total {blocks : List (List (List Char))} {rest : List (List Char)}
    (hblocks : ∀ b ∈ blocks, ∀ l ∈ b, l ≠ []) (hrest : ∀ l ∈ rest, l ≠ []) :
    match (blocks.flatMap (· ++ [[]]) ++ rest).findSome? cpuFault with
    | some e => recordsOf (blocks.flatMap (· ++ [[]]) ++ rest) = .error e
    | none   => ∃ cs, recordsOf (blocks.flatMap (· ++ [[]]) ++ rest) = .ok cs ∧
        List.Forall₂ (fun b c => CpuInfo.Describes c b) blocks cs := by
  have hends : blocks.flatMap (· ++ [[]]) = [] ∨ ∃ ks, blocks.flatMap (· ++ [[]]) = ks ++ [[]] := by
    rcases List.eq_nil_or_concat blocks with rfl | ⟨bs, b, rfl⟩
    · exact .inl rfl
    · exact .inr ⟨bs.flatMap (· ++ [[]]) ++ b, by simp⟩
  rw [recordsOf_append hends, recordsOf_blocks blocks hblocks, recordsOf_rest hrest, List.findSome?_append,
    findSome?_blocks]
  rcases mapM_recordOf_total blocks with ⟨e, he, hm⟩ | ⟨hn, cs, hm, hcs⟩
  · rw [he, hm]
    rfl
  · rw [hn, hm, Option.none_or]
    rcases recordOf_total rest with ⟨e, he, hr⟩ | ⟨hr, c, hc, -⟩
    · rw [he, hr]
      rfl
    · rw [hr, hc]
      exact ⟨cs, by simp [bind, Except.bind, pure, Except.pure, Functor.map, Except.map], hcs⟩

theorem foldl_nbCPUs : ∀ (cs : List CpuInfo) (n : Int),
    cs.foldl (fun nbCPUs core => if core.num .coreId = 0 then nbCPUs + 1 else nbCPUs) n =
      n + cs.countP (·.num .coreId = 0)
  | [], n => (add_zero n).symm
  | c :: cs, n => by
    rw [List.foldl_cons, foldl_nbCPUs cs]
    by_cases h : c.num .coreId = 0
    · rw [List.countP_cons_of_pos (by simpa using h), if_pos h]
      omega
    · rw [List.countP_cons_of_neg (by simpa using h), if_neg h]

/-- **`/proc/cpuinfo` on any text**, and the two counts. -/
theorem readCPUInfo_total (sys : Sys) : ∃ (blocks : List (List (List Char))) (rest : List (List Char)),
    splitLines '\n' ((sys.file "/proc/cpuinfo".toList).getD []) = blocks.flatMap (· ++ [[]]) ++ rest ∧
    (∀ b ∈ blocks, ∀ l ∈ b, l ≠ []) ∧ (∀ l ∈ rest, l ≠ []) ∧
    match (splitLines '\n' ((sys.file "/proc/cpuinfo".toList).getD [])).findSome? cpuFault with
    | some e => readCPUInfo sys = .error e ∧ getNbCores sys = .error e ∧ getNbCPUs sys = .error e
    | none   => ∃ cs, readCPUInfo sys = .ok cs ∧ List.Forall₂ (fun b c => CpuInfo.Describes c b) blocks cs ∧
        getNbCores sys = .ok (Int32.ofNat blocks.length) ∧
        getNbCPUs sys = .ok (cs.countP (·.num .coreId = 0) : Int) := by
  obtain ⟨blocks, rest, hlines, hblocks, hrest⟩ :=
    exists_cpuBlocks (splitLines '\n' ((sys.file "/proc/cpuinfo".toList).getD []))
  have htotal := recordsOf_total hblocks hrest
  rw [← hlines, ← readCPUInfo_eq_recordsOf] at htotal
  refine ⟨blocks, rest, hlines, hblocks, hrest, ?_⟩
  revert htotal
  cases (splitLines '\n' ((sys.file "/proc/cpuinfo".toList).getD [])).findSome? cpuFault with
  | some e =>
    intro he
    replace he : readCPUInfo sys = .error e := he
    refine ⟨he, ?_, ?_⟩
    · rw [getNbCores, he]
      rfl
    · rw [getNbCPUs, he]
      rfl
  | none =>
    rintro ⟨cs, hcs, hdescribes⟩
    refine ⟨cs, hcs, hdescribes, ?_, ?_⟩
    · rw [getNbCores, hcs, hdescribes.length_eq]
      rfl
    · rw [getNbCPUs, hcs]
      show Except.ok (List.foldl _ (0 : Int) cs) = _
      rw [foldl_nbCPUs, zero_add]

end SysInfo
