import SysInfo.Refresh
/-!
# StatAtomic — what `readStat` leaves when the file is cut off

`readStat` stores one extraction after the other into the members.  Where an extraction fails those before it stay
stored and those behind it are skipped, and the state goes through a local string that is empty when no word was read.
`readStat_allOrNothing_iff`: on anything but a complete line, the members are unchanged only when the object holds what
would be stored already.
-/
namespace SysInfo

open IStream Effects ProcessInfo

/-- There is something for `>>` to read. -/
def IStream.ready (s : IStream) : Bool := s.good && (s.rest.dropWhile isSpace != [])

section Streams

variable {s : IStream}

theorem extractNum_eq_ite (τ : CType) (x y : τ.Val) :
    (s.extractNum τ x).2 = if s.ready then (s.extractNum τ y).2 else x := by
  by_cases h : s.ready = true
  · rw [if_pos h]
    simp only [ready, Bool.and_eq_true, bne_iff_ne, ne_eq] at h
    exact extractNum_stored h.1 h.2 x y
  · rw [if_neg h]
    exact (extractNum_kept h x).2

theorem extractWord_eq_ite (x y : List Char) : (s.extractWord x).2 = if s.ready then (s.extractWord y).2 else x := by
  unfold extractWord ready
  cases s.good with
  | false => rfl
  | true => cases s.rest.dropWhile isSpace <;> rfl

end Streams

/-! ## A line, and the members behind `stat` -/

/-- A complete line, whatever stands behind its last column. -/
def CompleteLine (text : Option (List Char)) (l : StatLine) : Prop :=
  ∃ rest, text = some (l.text ++ rest) ∧ ∀ c ∈ rest.head?, isSpace c = true

/-- The members that `readStat` fills are what they were. -/
def StatUnchanged (p p' : ProcessInfo) : Prop :=
  p'.mPid = p.mPid ∧ p'.mName = p.mName ∧ p'.mState = p.mState ∧ ∀ f, p'.mStat f = p.mStat f

/-- The members hold the values of a complete line, or what they held before. -/
def AllOrNothing (text : Option (List Char)) (p p' : ProcessInfo) : Prop :=
  (∃ l, CompleteLine text l ∧ l.Gives p') ∨ StatUnchanged p p'

/-! ## What a stream stores -/

def afterPid (s : IStream) : IStream := (s.extractNum .int (CType.int.ofInt 0)).1

def afterName (s : IStream) : IStream := ((afterPid s).extractWord []).1

/-- The name without its parentheses. -/
def stripName (name : List Char) : List Char := (name.filter (· ≠ '(')).filter (· ≠ ')')

theorem stripName_eq_self_iff (name : List Char) : stripName name = name ↔ '(' ∉ name ∧ ')' ∉ name := by
  constructor
  · intro h
    rw [← h]
    simp [stripName]
  · rintro ⟨hopen, hclose⟩
    have hfil : name.filter (· ≠ '(') = name := List.filter_eq_self.2 fun c hc => by
      simpa using fun e : c = '(' => hopen (e ▸ hc)
    rw [stripName, hfil, List.filter_eq_self]
    exact fun c hc => by simpa using fun e : c = ')' => hclose (e ▸ hc)

/-- The object holds what the extractions of a stream store: those before the first failure, the one that fails there if
it stores a value, and the state, which is empty when it is not reached.  A name that is not read loses its parentheses. -/
structure Holds (s : IStream) (p : ProcessInfo) : Prop where
  pid   : s.ready = true → p.mPid = (s.extractNum .int (CType.int.ofInt 0)).2
  name  : if (afterPid s).ready then p.mName = stripName ((afterPid s).extractWord []).2
    else '(' ∉ p.mName ∧ ')' ∉ p.mName
  state : p.mState = stateName ((afterName s).extractWord []).2
  num   : ∀ f ∈ written (afterState s) StatField.order,
    p.mStat f = (extractFields (afterState s) zeroed.mStat StatField.order).2 f

theorem mPid_parseStat_iff (s : IStream) (p : ProcessInfo) :
    (parseStat s p).mPid = p.mPid ↔ (s.ready = true → p.mPid = (s.extractNum .int (CType.int.ofInt 0)).2) := by
  show (s.extractNum .int p.mPid).2 = p.mPid ↔ _
  rw [extractNum_eq_ite .int p.mPid (CType.int.ofInt 0)]
  by_cases h : s.ready = true
  · rw [if_pos h, forall_prop_of_true h]
    exact eq_comm
  · rw [if_neg h]
    exact ⟨fun _ hr => absurd hr h, fun _ => rfl⟩

theorem mName_parseStat_iff (s : IStream) (p : ProcessInfo) :
    (parseStat s p).mName = p.mName ↔
      if (afterPid s).ready then p.mName = stripName ((afterPid s).extractWord []).2
      else '(' ∉ p.mName ∧ ')' ∉ p.mName := by
  have hname : (parseStat s p).mName = stripName ((afterPid s).extractWord p.mName).2 := by
    simp only [parseStat, stripName, afterPid]
    rw [extractNum_stream .int s p.mPid (CType.int.ofInt 0)]
  rw [hname, extractWord_eq_ite p.mName []]
  split
  · exact eq_comm
  · exact stripName_eq_self_iff p.mName

theorem mState_parseStat_iff (s : IStream) (p : ProcessInfo) :
    (parseStat s p).mState = p.mState ↔ p.mState = stateName ((afterName s).extractWord []).2 := by
  have hstate : (parseStat s p).mState = stateName ((afterName s).extractWord []).2 := by
    simp only [parseStat, afterName, afterPid]
    rw [extractNum_stream .int s p.mPid (CType.int.ofInt 0), extractWord_stream _ p.mName []]
  rw [hstate]
  exact eq_comm

theorem mStat_parseStat_iff (s : IStream) (p : ProcessInfo) :
    (∀ f, (parseStat s p).mStat f = p.mStat f) ↔ ∀ f ∈ written (afterState s) StatField.order,
      p.mStat f = (extractFields (afterState s) zeroed.mStat StatField.order).2 f := by
  have hfields := extractFields_written StatField.order (afterState s) p.mStat zeroed.mStat StatField.nodup_order
  rw [mStat_parseStat]
  constructor
  · intro h f hf
    rw [← (hfields f).1 hf, h f]
  · intro h f
    by_cases hf : f ∈ written (afterState s) StatField.order
    · rw [(hfields f).1 hf, h f hf]
    · exact (hfields f).2 hf

/-- **A read changes nothing exactly when the object holds what it stores.** -/
theorem statUnchanged_iff (s : IStream) (p : ProcessInfo) : StatUnchanged p (parseStat s p) ↔ Holds s p := by
  rw [StatUnchanged, mPid_parseStat_iff, mName_parseStat_iff, mState_parseStat_iff, mStat_parseStat_iff]
  exact ⟨fun ⟨hpid, hname, hstate, hnum⟩ => ⟨hpid, hname, hstate, hnum⟩, fun h => ⟨h.pid, h.name, h.state, h.num⟩⟩

/-- **A complete line gives its values exactly when its name is ordinary.** -/
theorem gives_iff {text : Option (List Char)} {l : StatLine} (h : CompleteLine text l) (p : ProcessInfo) :
    l.Gives (parseStat (openFile text) p) ↔ ∀ c ∈ l.comm, isSpace c = false ∧ c ≠ '(' ∧ c ≠ ')' := by
  obtain ⟨rest, rfl, hrest⟩ := h
  constructor
  · rintro ⟨-, hname, -⟩
    rw [← hname]
    exact StatLine.mName_parseStat l rest p
  · exact fun hcomm => StatLine.gives_parseStat hcomm hrest p

theorem state_readStat (sys : Sys) (p : ProcessInfo) :
    Effects.state ((readStat sys).run p) = parseStat (openFile (sys.file (p.mProcPath ++ "stat".toList))) p := rfl

/-- **`readStat` is all or nothing exactly on a complete line with an ordinary name**, or when the object holds what the
file makes it store. -/
theorem readStat_allOrNothing_iff (sys : Sys) (p : ProcessInfo) :
    AllOrNothing (sys.file (p.mProcPath ++ "stat".toList)) p (Effects.state ((readStat sys).run p)) ↔
      (∃ l, CompleteLine (sys.file (p.mProcPath ++ "stat".toList)) l ∧
        ∀ c ∈ l.comm, isSpace c = false ∧ c ≠ '(' ∧ c ≠ ')') ∨
      Holds (openFile (sys.file (p.mProcPath ++ "stat".toList))) p := by
  rw [AllOrNothing, state_readStat, statUnchanged_iff]
  refine or_congr_left (exists_congr fun l => and_congr_right fun hline => gives_iff hline p)

/-- An object that has been read once. -/
def running : ProcessInfo := { zeroed with mState := "Running".toList }

/-- The process has exited since: its state is emptied, and nothing else. -/
theorem not_allOrNothing_exited :
    ¬ AllOrNothing none running (Effects.state ((readStat (.ofFiles fun _ => none)).run running)) := by
  rintro (⟨l, ⟨rest, htext, -⟩, -⟩ | hkept)
  · cases htext
  · exact absurd hkept.2.2.1 (by decide)

end SysInfo
