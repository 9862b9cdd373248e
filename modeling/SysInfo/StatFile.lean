import SysInfo.ProcessInfo
/-!
# StatFile — `readStat` against the kernel's `/proc/<pid>/stat`

The kernel prints the name of the process as it is, between parentheses; the code reads it with `>>`, up to the first
blank, and erases every parenthesis.  `readStat_exact_iff`: the file is read back exactly when the name has no white
space and no parenthesis.
-/
namespace SysInfo

open IStream

/-- What the kernel prints: the process, its name and its state letter, and the numbers. -/
structure StatLine where
  pid        : Int32
  comm       : List Char
  state      : Char
  num        : (f : StatField) → f.Val
  comm_ne    : '\n' ∉ comm ∧ '\x00' ∉ comm
  state_ne   : isSpace state = false

namespace StatLine

def numbers (num : (f : StatField) → f.Val) (fs : List StatField) : List Char :=
  fs.flatMap fun f => ' ' :: decimalInt (f.type.toInt (num f))

/-- The columns 4 to 52 of proc(5), ten to a line. -/
def columns : List StatField :=
  [.ppid, .pgid, .session, .ttyNr, .tpgid, .flags, .minflt, .cminflt, .majflt, .cmajflt,
    .utime, .stime, .cutime, .cstime, .priority, .nice, .numThreads, .itrealvalue, .starttime, .vmsize,
    .rss, .rsslim, .startcode, .endcode, .startstack, .kstkesp, .kstkeip, .signal, .blocked, .siginore,
    .sigcatch, .wchanAddr, .nswap, .cnswap, .exitSignal, .processor, .rtPriority, .policy, .delayacctBlkioTicks, .guestTime,
    .cguestTime, .startData, .endData, .startBrk, .argStart, .argEnd, .envStart, .envEnd, .exitCode]

/-- The code extracts them in this order. -/
theorem columns_eq : columns = StatField.order := rfl

/-- `pid (comm) state n1 n2 ...`. -/
def text (l : StatLine) : List Char :=
  decimalInt l.pid.toInt ++ (" (".toList ++ (l.comm ++ (") ".toList ++ (l.state :: numbers l.num columns))))

/-- Every member of the object is what the line says. -/
def Gives (l : StatLine) (p : ProcessInfo) : Prop :=
  p.mPid = l.pid ∧ p.mName = l.comm ∧ p.mState = ProcessInfo.stateName [l.state] ∧ ∀ f, p.mStat f = l.num f

/-- The end of the text, or a column separator. -/
theorem head_numbers_append (num : (f : StatField) → f.Val) (fs : List StatField) {rest : List Char}
    (hrest : ∀ c ∈ rest.head?, isSpace c = true) : ∀ c ∈ (numbers num fs ++ rest).head?, isSpace c = true := by
  cases fs with
  | nil => exact hrest
  | cons f fs => intro c hc; cases hc; decide

/-- **A run of printed fields is read back**, and the fields outside it keep what they held. -/
theorem extractFields_numbers (num : (f : StatField) → f.Val) {rest : List Char}
    (hrest : ∀ c ∈ rest.head?, isSpace c = true) : ∀ (fs : List StatField) (v : (f : StatField) → f.Val), fs.Nodup →
    ∀ g, (ProcessInfo.extractFields (ofText (numbers num fs ++ rest)) v fs).2 g = if g ∈ fs then num g else v g
  | [], v, _, g => by simp [ProcessInfo.extractFields]
  | f :: fs, v, hnd, g => by
    obtain ⟨hf, hnd⟩ := List.nodup_cons.1 hnd
    have hread : (ofText ([' '] ++ (decimalInt (f.type.toInt (num f)) ++ (numbers num fs ++ rest)))).extractNum f.type (v f) =
        (⟨numbers num fs ++ rest, (numbers num fs ++ rest).isEmpty, false⟩, num f) :=
      extractNum_printed f.type (num f) (v f) (fun c hc => by rw [List.mem_singleton.1 hc]; decide) fun c hc => by
        by_contra hd
        have hspace := head_numbers_append num fs hrest c hc
        rw [isSpace_of_isDigit (Bool.of_not_eq_false hd)] at hspace
        cases hspace
    have htext : numbers num (f :: fs) ++ rest =
        [' '] ++ (decimalInt (f.type.toInt (num f)) ++ (numbers num fs ++ rest)) := by
      simp [numbers]
    have hgo : ∀ w, (ProcessInfo.extractFields ⟨numbers num fs ++ rest, (numbers num fs ++ rest).isEmpty, false⟩ w fs).2 g =
        if g ∈ fs then num g else w g := fun w => by
      cases fs with
      | nil => simp [ProcessInfo.extractFields]
      | cons h fs => exact extractFields_numbers num hrest (h :: fs) w hnd g
    rw [htext, ProcessInfo.extractFields, hread, hgo]
    by_cases hg : g = f
    · subst hg
      rw [if_neg hf, if_pos (List.mem_cons_self ..), Function.update_self]
    · simp only [List.mem_cons, hg, false_or]
      split
      · rfl
      · exact Function.update_of_ne hg _ _

theorem numbers_order_ne_nil (num : (f : StatField) → f.Val) : numbers num StatField.order ≠ [] := by
  simp [numbers, StatField.order]

/-- The line from the name on, and what follows the line. -/
theorem extractNum_pid (l : StatLine) (rest : List Char) (x : Int32) :
    (ofText (l.text ++ rest)).extractNum .int x =
      (ofText (" (".toList ++ (l.comm ++ (") ".toList ++ (l.state :: (numbers l.num StatField.order ++ rest))))), l.pid) := by
  have hread : (ofText ([] ++ (decimalInt l.pid.toInt ++ (" (".toList ++ (l.comm ++ (") ".toList ++
      (l.state :: (numbers l.num StatField.order ++ rest)))))))).extractNum .int x = _ :=
    extractNum_printed .int l.pid x (fun c hc => absurd hc List.not_mem_nil) (fun c hc => by cases hc; decide)
  have htext : l.text ++ rest = [] ++ (decimalInt l.pid.toInt ++ (" (".toList ++ (l.comm ++ (") ".toList ++
      (l.state :: (numbers l.num StatField.order ++ rest)))))) := by
    simp [text, columns_eq]
  rw [htext, hread]
  rfl

theorem mPid_parseStat (l : StatLine) (rest : List Char) (p : ProcessInfo) :
    (ProcessInfo.parseStat (ofText (l.text ++ rest)) p).mPid = l.pid := by
  simp only [ProcessInfo.parseStat, extractNum_pid]

theorem mName_parseStat (l : StatLine) (rest : List Char) (p : ProcessInfo) :
    ∀ c ∈ (ProcessInfo.parseStat (ofText (l.text ++ rest)) p).mName, isSpace c = false ∧ c ≠ '(' ∧ c ≠ ')' := by
  intro c hc
  simp only [ProcessInfo.parseStat, extractNum_pid, List.mem_filter, decide_eq_true_eq] at hc
  refine ⟨?_, hc.1.2, hc.2⟩
  have hw := hc.1.1
  simp only [extractWord, good_ofText, if_true] at hw
  rw [rest_ofText, show " (".toList ++ (l.comm ++ (") ".toList ++ (l.state :: (numbers l.num StatField.order ++ rest)))) =
      ' ' :: '(' :: (l.comm ++ (") ".toList ++ (l.state :: (numbers l.num StatField.order ++ rest)))) from rfl,
    List.dropWhile_cons_of_pos (by decide), List.dropWhile_cons_of_neg (by decide)] at hw
  simpa using List.mem_takeWhile_imp hw

section Words

variable {l : StatLine} (h : ∀ c ∈ l.comm, isSpace c = false) {rest : List Char}
  (hrest : ∀ c ∈ rest.head?, isSpace c = true) (p : ProcessInfo)

include h hrest

theorem parseStat_text : ProcessInfo.parseStat (ofText (l.text ++ rest)) p =
    { p with
      mPid := l.pid
      mName := (('(' :: (l.comm ++ [')'])).filter (· ≠ '(')).filter (· ≠ ')')
      mState := ProcessInfo.stateName [l.state]
      mStat := (ProcessInfo.extractFields (ofText (numbers l.num StatField.order ++ rest)) p.mStat
        StatField.order).2 } := by
  let cols := numbers l.num StatField.order ++ rest
  have hname : (ofText ([' '] ++ (('(' :: (l.comm ++ [')'])) ++ ([' '] ++ ([l.state] ++ cols))))).extractWord p.mName =
      (ofText ([' '] ++ ([l.state] ++ cols)), '(' :: (l.comm ++ [')'])) :=
    extractWord_word (fun c hc => by rw [List.mem_singleton.1 hc]; decide) (by simp)
      (fun c hc => by
        rcases List.mem_cons.1 hc with rfl | hc
        · decide
        · rcases List.mem_append.1 hc with hc | hc
          · exact h c hc
          · rw [List.mem_singleton.1 hc]; decide)
      (fun c hc => by cases hc; decide) p.mName
  have hstate : (ofText ([' '] ++ ([l.state] ++ cols))).extractWord [] = (ofText cols, [l.state]) := by
    rw [extractWord_word (fun c hc => by rw [List.mem_singleton.1 hc]; decide) (by simp)
      (fun c hc => by rw [List.mem_singleton.1 hc]; exact l.state_ne) (head_numbers_append l.num _ hrest) [],
      show cols.isEmpty = false by simp [cols, numbers_order_ne_nil l.num]]
    rfl
  have htext : " (".toList ++ (l.comm ++ (") ".toList ++ (l.state :: cols))) =
      [' '] ++ (('(' :: (l.comm ++ [')'])) ++ ([' '] ++ ([l.state] ++ cols))) := by
    simp
  simp only [ProcessInfo.parseStat, extractNum_pid]
  rw [htext, hname]
  simp only [hstate]
  rfl

theorem num_parseStat (f : StatField) : (ProcessInfo.parseStat (ofText (l.text ++ rest)) p).mStat f = l.num f := by
  rw [parseStat_text h hrest]
  exact (extractFields_numbers l.num hrest StatField.order p.mStat StatField.nodup_order f).trans (if_pos f.mem_order)

end Words

/-- **A name of ordinary characters is read back**, and everything after it. -/
theorem gives_parseStat {l : StatLine} (h : ∀ c ∈ l.comm, isSpace c = false ∧ c ≠ '(' ∧ c ≠ ')') {rest : List Char}
    (hrest : ∀ c ∈ rest.head?, isSpace c = true) (p : ProcessInfo) :
    l.Gives (ProcessInfo.parseStat (ofText (l.text ++ rest)) p) := by
  have hword : ∀ c ∈ l.comm, isSpace c = false := fun c hc => (h c hc).1
  have hfil : ('(' :: (l.comm ++ [')'])).filter (· ≠ '(') = l.comm ++ [')'] := by
    rw [List.filter_cons_of_neg (by decide), List.filter_eq_self]
    intro c hc
    rcases List.mem_append.1 hc with hc | hc
    · exact decide_eq_true (h c hc).2.1
    · rw [List.mem_singleton.1 hc]; decide
  have hfil' : (l.comm ++ [')']).filter (· ≠ ')') = l.comm := by
    rw [List.filter_append, List.filter_eq_self.2 fun c hc => decide_eq_true (h c hc).2.2]
    exact List.append_nil _
  refine ⟨mPid_parseStat l rest p, ?_, ?_, num_parseStat hword hrest p⟩
  · rw [parseStat_text hword hrest p]
    simp only [hfil, hfil']
  · rw [parseStat_text hword hrest p]

/-! ### The line alone -/

theorem text_append_nil (l : StatLine) : l.text = l.text ++ [] := (List.append_nil _).symm

theorem head_nil : ∀ c ∈ ([] : List Char).head?, isSpace c = true := fun c hc => by cases hc

@[simp] theorem mPid_parseStat_line (l : StatLine) (p : ProcessInfo) :
    (ProcessInfo.parseStat (ofText l.text) p).mPid = l.pid := by
  rw [text_append_nil]
  exact mPid_parseStat l [] p

theorem num_parseStat_line {l : StatLine} (h : ∀ c ∈ l.comm, isSpace c = false) (p : ProcessInfo) (f : StatField) :
    (ProcessInfo.parseStat (ofText l.text) p).mStat f = l.num f := by
  rw [text_append_nil]
  exact num_parseStat h head_nil p f

/-- `readStat` on a file with this line gives its values, whatever the object held. -/
def ReadsBack (l : StatLine) : Prop :=
  ∀ (sys : Sys) (p : ProcessInfo), sys.file (p.mProcPath ++ "stat".toList) = some l.text →
    ∃ p', (ProcessInfo.readStat sys).run p = .ok () p' ∧ l.Gives p'

theorem run_readStat {sys : Sys} {p : ProcessInfo} {text : List Char}
    (h : sys.file (p.mProcPath ++ "stat".toList) = some text) :
    (ProcessInfo.readStat sys).run p = .ok () (ProcessInfo.parseStat (ofText text) p) := by
  rw [ProcessInfo.readStat, EStateM.run_modify, h]
  rfl

theorem ReadsBack.comm {l : StatLine} (h : l.ReadsBack) : ∀ c ∈ l.comm, isSpace c = false ∧ c ≠ '(' ∧ c ≠ ')' := by
  obtain ⟨p', hp', -, hname, -⟩ := h (Sys.ofFiles fun _ => some l.text) .zeroed rfl
  have hrun : (ProcessInfo.readStat (Sys.ofFiles fun _ => some l.text)).run .zeroed =
      .ok () (ProcessInfo.parseStat (ofText l.text) .zeroed) := run_readStat rfl
  rw [hrun, EStateM.Result.ok.injEq] at hp'
  rw [← hname, ← hp'.2, text_append_nil l]
  exact mName_parseStat l [] .zeroed

/-- **A stat line is read back exactly when the name has no white space and no parenthesis.** -/
theorem readStat_exact_iff (l : StatLine) :
    l.ReadsBack ↔ ∀ c ∈ l.comm, isSpace c = false ∧ c ≠ '(' ∧ c ≠ ')' :=
  ⟨fun h => h.comm, fun h _ p hf => ⟨_, run_readStat hf, text_append_nil l ▸ gives_parseStat h head_nil p⟩⟩

theorem isSpace_running : isSpace 'S' = false := by decide

/-- The web browser's `Web Content`. -/
theorem not_readsBack_webContent :
    ¬ (⟨1, "Web Content".toList, 'S', fun f => f.type.ofInt 0, by decide, isSpace_running⟩ : StatLine).ReadsBack := fun h =>
  absurd (h.comm ' ' (by decide)).1 (by decide)

end StatLine

end SysInfo
