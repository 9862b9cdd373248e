import SysInfo.ProcessInfo
/-!
# Smaps — `readSmaps` and the mappings of a file

The loop gathers lines in a stream and builds a mapping at each dash and at the end of the file; only the build at a
dash asks whether anything was gathered.  `readSmaps_onePerMapping_iff`: there is one mapping per block exactly when
there is a block.
-/
namespace SysInfo

open IStream

/-- A mapping of the file: a line with a dash, and lines without one, on which the constructor does not throw. -/
structure Mapping where
  head     : List Char
  attrs    : List (List Char)
  dash     : '-' ∈ head
  oneLine  : '\n' ∉ head
  attrs_ne : ∀ l ∈ attrs, '-' ∉ l ∧ '\n' ∉ l
  builds   : ∀ junk, ∃ r, MMap.construct junk (.ofText (unlines '\n' (head :: attrs))) = .ok r

namespace Mapping

def lines (b : Mapping) : List (List Char) := b.head :: b.attrs

def text (b : Mapping) : List Char := unlines '\n' b.lines

theorem newline_notMem (b : Mapping) : ∀ l ∈ b.lines, '\n' ∉ l := by
  intro l hl
  rcases List.mem_cons.1 hl with rfl | hl
  · exact b.oneLine
  · exact (b.attrs_ne l hl).2

theorem text_ne_nil (b : Mapping) : b.text ≠ [] := by
  simp [text, lines]

/-- The mappings built from some blocks, the first one on the memory at index `i`. -/
def Built (sys : Sys) : Nat → List Mapping → List MMap → Prop
  | _, [], ms => ms = []
  | i, b :: bs, ms => ∃ m ss ms', MMap.construct (sys.mapJunk i) (.ofText b.text) = .ok (m, ss) ∧ ms = m :: ms' ∧
      Built sys (i + 1) bs ms'

end Mapping

def smapsFile (bs : List Mapping) : List Char := bs.flatMap Mapping.text

theorem smapsFile_eq (bs : List Mapping) : smapsFile bs = unlines '\n' (bs.flatMap Mapping.lines) := by
  induction bs with
  | nil => rfl
  | cons b bs ih =>
    rw [smapsFile, List.flatMap_cons, List.flatMap_cons, unlines_append, ← ih]
    rfl

namespace ProcessInfo

section Loop

variable (sys : Sys)

theorem run_smapsLine_attr {l : List Char} (h : '-' ∉ l) (t : List Char) (p : ProcessInfo) :
    (smapsLine sys (.ofText t) l).run p = .ok (.ofText (t ++ (l ++ ['\n']))) p := by
  rw [smapsLine, if_neg (fun hc => h hc.1), StringStream.put_ofText, StringStream.put_ofText, List.append_assoc]
  rfl

theorem run_smapsLine_attrs : ∀ (ls : List (List Char)) (t : List Char) (p : ProcessInfo), (∀ l ∈ ls, '-' ∉ l) →
    (ls.foldlM (smapsLine sys) (.ofText t)).run p = .ok (.ofText (t ++ unlines '\n' ls)) p
  | [], t, p, _ => by rw [List.foldlM_nil, EStateM.run_pure, unlines_nil, List.append_nil]
  | l :: ls, t, p, h => by
    rw [List.foldlM_cons, EStateM.run_bind, run_smapsLine_attr sys (h l (by simp))]
    simp only
    rw [run_smapsLine_attrs ls _ p (fun m hm => h m (by simp [hm])), unlines_cons]
    simp

theorem run_pushMap {t : List Char} {p : ProcessInfo} {m : MMap} {ss : StringStream}
    (h : MMap.construct (sys.mapJunk p.mMaps.length) (.ofText t) = .ok (m, ss)) :
    (pushMap sys (.ofText t)).run p = .ok ss (p.setMaps (p.mMaps ++ [m])) := by
  simp only [pushMap, EStateM.run_bind, EStateM.run_get, h]
  rfl

theorem run_smapsLine_first (l : List Char) (p : ProcessInfo) :
    (smapsLine sys (.ofText []) l).run p = .ok (.ofText (l ++ ['\n'])) p := by
  rw [smapsLine, if_neg (fun hc => hc.2 rfl)]
  rfl

theorem run_smapsLine_head {l t : List Char} (hl : '-' ∈ l) (ht : t ≠ []) {p : ProcessInfo} {m : MMap}
    {ss : StringStream} (h : MMap.construct (sys.mapJunk p.mMaps.length) (.ofText t) = .ok (m, ss)) :
    (smapsLine sys (.ofText t) l).run p = .ok (.ofText (l ++ ['\n'])) (p.setMaps (p.mMaps ++ [m])) := by
  rw [smapsLine, if_pos ⟨hl, ht⟩, EStateM.run_bind, run_pushMap sys h]
  rfl

/-- **One block gathered, and blocks to come**: the loop and the build after it give each its mapping, in order. -/
theorem run_smaps : ∀ (bs : List Mapping) (b : Mapping) (p : ProcessInfo), ∃ ss ms,
    ((bs.flatMap Mapping.lines).foldlM (smapsLine sys) (.ofText b.text) >>= pushMap sys).run p =
      .ok ss (p.setMaps (p.mMaps ++ ms)) ∧ Mapping.Built sys p.mMaps.length (b :: bs) ms
  | [], b, p => by
    obtain ⟨⟨m, ss⟩, h⟩ := b.builds (sys.mapJunk p.mMaps.length)
    refine ⟨ss, [m], ?_, m, ss, [], h, rfl, rfl⟩
    rw [List.flatMap_nil, List.foldlM_nil, pure_bind]
    exact run_pushMap sys h
  | c :: bs, b, p => by
    obtain ⟨⟨m, s⟩, h⟩ := b.builds (sys.mapJunk p.mMaps.length)
    obtain ⟨ss, ms, hrun, hms⟩ := run_smaps bs c (p.setMaps (p.mMaps ++ [m]))
    rw [mMaps_setMaps, List.length_append, List.length_singleton] at hms
    refine ⟨ss, m :: ms, ?_, m, s, ms, h, rfl, hms⟩
    rw [List.flatMap_cons, Mapping.lines, List.cons_append, List.foldlM_cons, bind_assoc, EStateM.run_bind,
      run_smapsLine_head sys c.dash b.text_ne_nil h]
    simp only
    rw [List.foldlM_append, bind_assoc, EStateM.run_bind, run_smapsLine_attrs sys c.attrs _ _ (fun l hl => (c.attrs_ne l hl).1)]
    simp only
    rw [show c.head ++ ['\n'] ++ unlines '\n' c.attrs = c.text by
      rw [Mapping.text, Mapping.lines, unlines_cons, List.append_assoc]; rfl, hrun]
    simp

end Loop

/-- `readSmaps` gives one mapping per block, in order, each built from its own lines. -/
def OnePerMapping (bs : List Mapping) : Prop :=
  ∀ (sys : Sys) (p : ProcessInfo), sys.file (p.mProcPath ++ "/smaps".toList) = some (smapsFile bs) →
    ∃ p', (readSmaps sys).run p = .ok () p' ∧ p'.mMaps.length = bs.length ∧
      ∀ i b, bs[i]? = some b → ∃ m ss, MMap.construct (sys.mapJunk i) (.ofText b.text) = .ok (m, ss) ∧
        p'.mMaps[i]? = some m

end ProcessInfo

namespace Mapping

theorem Built.length {sys : Sys} : ∀ {bs : List Mapping} {i : Nat} {ms : List MMap}, Built sys i bs ms →
    ms.length = bs.length
  | [], _, _, h => by cases h; rfl
  | _ :: _, _, _, ⟨_, _, _, _, hms, h⟩ => by rw [hms, List.length_cons, List.length_cons, h.length]

theorem Built.get {sys : Sys} : ∀ {bs : List Mapping} {i : Nat} {ms : List MMap}, Built sys i bs ms →
    ∀ j b, bs[j]? = some b → ∃ m ss, MMap.construct (sys.mapJunk (i + j)) (.ofText b.text) = .ok (m, ss) ∧
      ms[j]? = some m
  | [], _, _, _, j, b, hj => by simp at hj
  | c :: bs, i, _, ⟨m, ss, ms, hm, hms, h⟩, j, b, hj => by
    cases j with
    | zero =>
      simp only [List.getElem?_cons_zero, Option.some.injEq] at hj
      subst hj
      exact ⟨m, ss, hm, by rw [hms]; rfl⟩
    | succ j =>
      rw [List.getElem?_cons_succ] at hj
      obtain ⟨m', ss', hm', hget⟩ := h.get j b hj
      exact ⟨m', ss', by rw [← hm', show i + (j + 1) = i + 1 + j by omega], by rw [hms, List.getElem?_cons_succ, hget]⟩

end Mapping

namespace ProcessInfo

theorem run_readSmaps_nil {sys : Sys} {p : ProcessInfo} (h : sys.file (p.mProcPath ++ "/smaps".toList) = some []) :
    (readSmaps sys).run p =
      .ok () (p.setMaps [MMap.defineCategory (MMap.fresh (sys.mapJunk 0))]) := by
  simp only [readSmaps, EStateM.run_bind, EStateM.run_modify, EStateM.run_get, mProcPath_setMaps, h]
  rfl

theorem onePerMapping_of_ne_nil {bs : List Mapping} (hbs : bs ≠ []) : OnePerMapping bs := by
  obtain ⟨b, bs, rfl⟩ := List.exists_cons_of_ne_nil hbs
  intro sys p hf
  have hlines : splitLines '\n' (smapsFile (b :: bs)) = (b :: bs).flatMap Mapping.lines := by
    rw [smapsFile_eq]
    refine splitLines_unlines '\n' _ fun l hl => ?_
    obtain ⟨c, -, hc⟩ := List.mem_flatMap.1 hl
    exact c.newline_notMem l hc
  obtain ⟨ss, ms, hrun, hms⟩ := run_smaps sys bs b (p.setMaps [])
  rw [mMaps_setMaps, List.nil_append, setMaps_setMaps] at hrun
  refine ⟨(p.setMaps ms), ?_, hms.length, fun i c hi => ?_⟩
  · have hloop : ((((b :: bs).flatMap Mapping.lines).foldlM (smapsLine sys) (.ofText [])) >>= pushMap sys).run
        (p.setMaps []) = .ok ss (p.setMaps ms) := by
      rw [← hrun, List.flatMap_cons, Mapping.lines, List.cons_append, List.foldlM_cons, bind_assoc, EStateM.run_bind,
        run_smapsLine_first]
      simp only
      rw [List.foldlM_append, bind_assoc, EStateM.run_bind, run_smapsLine_attrs sys b.attrs _ _ (fun l hl => (b.attrs_ne l hl).1)]
      simp only
      rw [show b.head ++ ['\n'] ++ unlines '\n' b.attrs = b.text by
        rw [Mapping.text, Mapping.lines, unlines_cons, List.append_assoc]; rfl]
    rw [EStateM.run_bind] at hloop
    simp only [readSmaps, EStateM.run_bind, EStateM.run_modify, EStateM.run_get, mProcPath_setMaps, hf,
      getlines_ofText, hlines]
    revert hloop
    generalize EStateM.run (List.foldlM (smapsLine sys) _ _) _ = r
    intro hloop
    cases r with
    | ok s q =>
      simp only at hloop ⊢
      rw [hloop]
      rfl
    | error e q => cases hloop
  · obtain ⟨m, s, hm, hget⟩ := hms.get i c hi
    exact ⟨m, s, by simpa using hm, hget⟩

theorem OnePerMapping.ne_nil {bs : List Mapping} (h : OnePerMapping bs) : bs ≠ [] := by
  rintro rfl
  obtain ⟨p', hp', hlen, -⟩ := h (Sys.ofFiles fun _ => some []) .zeroed rfl
  rw [run_readSmaps_nil rfl, EStateM.Result.ok.injEq] at hp'
  rw [← hp'.2] at hlen
  cases hlen

/-- **One mapping per block exactly when the file is not empty.** -/
theorem readSmaps_onePerMapping_iff (bs : List Mapping) : OnePerMapping bs ↔ bs ≠ [] :=
  ⟨OnePerMapping.ne_nil, onePerMapping_of_ne_nil⟩

/-- A kernel thread, with no mapping at all. -/
theorem not_onePerMapping_kernelThread : ¬ OnePerMapping [] := fun h => h.ne_nil rfl

end ProcessInfo

end SysInfo
