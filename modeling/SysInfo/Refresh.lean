import SysInfo.Snapshot
/-!
# Refresh — a refreshed object against a fresh one

After `needUpdate()` a getter reads its source again, but into the members as they are: ids are pushed behind the old
ids, variables and descriptors are put over the old ones, and a number that is not extracted keeps its member.
`refreshed_agrees_iff`: the getters agree with those of a new object exactly when nothing of the old contents is left to
show (`NothingLeft`).
-/
namespace SysInfo

open IStream Effects ProcessInfo

/-! ## Histories

Every public member function may be called, in any state of the statics: other objects may have been used in between.
-/

theorem mProcPath_take (src : Source) (p q : ProcessInfo) : (take src p q).mProcPath = p.mProcPath := by
  cases src <;> rfl

/-- Code that leaves the path of the object alone. -/
def SamePath (s t : This) : Prop := t.obj.mProcPath = s.obj.mProcPath

instance : IsPreorder This SamePath where
  refl _ := rfl
  trans _ _ _ h h' := Eq.trans h' h

section

variable {α : Type} {sys : Sys}

theorem samePath_onObj {src : Source} {x : Cpp ProcessInfo α} (h : Moves (OnlyChanges src) x) :
    Moves SamePath (onObj x) := by
  intro s
  have hm : state (x.run s.obj) = take src s.obj _ := h s.obj
  rw [(run_onObj x s).1, SamePath, hm, mProcPath_take]

theorem samePath_getter (src : Source) (v : ProcessInfo → α) : Moves SamePath (onObj (getter sys src v)) :=
  samePath_onObj ((moves_refresh sys src).bind fun _ => moves_get_bind fun _ => moves_pure _)

/-- **No member function changes the path.** -/
theorem samePath_call (m : Member) : Moves SamePath (m.call sys) := by
  cases m with
  | needUpdate | pid => exact fun _ => rfl
  | userName passwd beyond => exact samePath_getter .status (nameOfUid passwd beyond)
  | query q =>
    cases q with
    | get g => exact samePath_onObj (moves_call sys g)
    | usage u => exact moves_usage_of_computes (samePath_getter .stat) (samePath_getter .io) (fun _ _ h => h.path) u

end

theorem mProcPath_afterCalls : ∀ (h : List Access) (p : ProcessInfo), (afterCalls p h).mProcPath = p.mProcPath
  | [], _ => rfl
  | c :: h, p => by
    rw [afterCalls_cons, mProcPath_afterCalls h]
    exact samePath_call c.member ⟨p, c.static⟩

/-! ## What is left of the old contents -/

/-- The fields of a list that are stored when they are extracted from a stream. -/
def written (s : IStream) : List StatField → List StatField
  | []      => []
  | f :: fs =>
    if s.good && (s.rest.dropWhile isSpace != []) then f :: written (s.extractNum f.type (f.type.ofInt 0)).1 fs else []

def afterState (s : IStream) : IStream :=
  (((s.extractNum .int (CType.int.ofInt 0)).1.extractWord []).1.extractWord []).1

/-- No old id, no variable or descriptor that is gone, and a stat file read up to `env_end`. -/
structure NothingLeft (sys : Sys) (p : ProcessInfo) : Prop where
  uids    : p.mUids = []
  gids    : p.mGids = []
  environ : ∀ k, p.mEnviron k ≠ none →
    ∃ env ∈ getlines '\x00' (openFile (sys.file (p.mProcPath ++ "environ".toList))), (keyValue '=' env).1 = k
  fds     : ∀ n, p.mFds n ≠ none → ∃ name ∈ (sys.dir (p.mProcPath ++ "fd".toList)).names, stoi 10 name = .ok n
  stat    : .envEnd ∈ written (afterState (openFile (sys.file (p.mProcPath ++ "stat".toList)))) StatField.order

/-- Readable, well-formed contents of the files of a pid, on which no reader throws. -/
structure Contents (pid : Int32) where
  sys    : Sys
  line   : StatLine
  stat   : sys.file (procPath pid ++ "stat".toList) = some line.text
  wchan  : (sys.file (procPath pid ++ "wchan".toList)).isSome = true
  status : ∀ p : ProcessInfo, p.mProcPath = procPath pid → ∃ p', (readStatus sys).run p = .ok () p'
  fd     : ∀ p : ProcessInfo, p.mProcPath = procPath pid → ∃ p', (readFd sys).run p = .ok () p'

/-- The getters that must not show old contents; `env_end` is the last field of `stat` with a getter. -/
def ProcessInfo.Getter.Listed : Getter → Prop
  | .field f => f ≠ .exitCode
  | .readBytes | .writeBytes | .vm _ | .maps => False
  | _ => True

/-- After `needUpdate()`, a listed getter returns what it returns on a new object. -/
def AgreesWithFresh (sys : Sys) (pid : Int32) (p : ProcessInfo) : Prop :=
  ∀ g : Getter, g.Listed → ∀ junk,
    value ((g.call sys).run p.needUpdate) = value ((g.call sys).run (construct junk pid))

/-- One getter does, when the new object is constructed on this memory. -/
def AgreesOn (sys : Sys) (pid : Int32) (p : ProcessInfo) (g : Getter) (junk : ProcessInfo) : Prop :=
  value ((g.call sys).run p.needUpdate) = value ((g.call sys).run (construct junk pid))

/-! ## A getter that is due -/

theorem value_getter {α : Type} (sys : Sys) (src : Source) (v : ProcessInfo → α) {p : ProcessInfo}
    (h : p.mNeedUpdate src = true) :
    value ((getter sys src v).run p) =
      match (reader sys src).run p with
      | .ok _ q    => .ok (v { q with mNeedUpdate := Function.update q.mNeedUpdate src false })
      | .error e _ => .error e := by
  simp only [getter, refresh, EStateM.run_bind, EStateM.run_get, h, if_true]
  cases (reader sys src).run p <;> rfl

theorem value_getter_congr {α : Type} {sys : Sys} {src : Source} {v : ProcessInfo → α} {p q p' q' : ProcessInfo}
    (hp : p.mNeedUpdate src = true) (hq : q.mNeedUpdate src = true) (hp' : (reader sys src).run p = .ok () p')
    (hq' : (reader sys src).run q = .ok () q')
    (hv : ∀ r : ProcessInfo, v { r with mNeedUpdate := Function.update r.mNeedUpdate src false } = v r) :
    value ((getter sys src v).run p) = value ((getter sys src v).run q) ↔ v p' = v q' := by
  rw [value_getter sys src v hp, value_getter sys src v hq, hp', hq']
  simp only [hv, Except.ok.injEq]

/-! ## The numbers of `stat` -/

theorem extractNum_stream (τ : CType) (s : IStream) (x y : τ.Val) : (s.extractNum τ x).1 = (s.extractNum τ y).1 := by
  unfold extractNum
  split
  · split <;> rfl
  · rfl

theorem extractWord_stream (s : IStream) (x y : List Char) : (s.extractWord x).1 = (s.extractWord y).1 := by
  unfold extractWord
  split
  · split <;> rfl
  · rfl

theorem extractNum_stored {τ : CType} {s : IStream} (hg : s.good = true) (hr : s.rest.dropWhile isSpace ≠ []) (x y : τ.Val) :
    (s.extractNum τ x).2 = (s.extractNum τ y).2 := by
  unfold extractNum
  rw [if_pos hg, if_pos hg]
  split
  · exact absurd ‹_› hr
  · rfl

theorem extractNum_kept {τ : CType} {s : IStream} (h : ¬ (s.good && (s.rest.dropWhile isSpace != [])) = true) (x : τ.Val) :
    (s.extractNum τ x).1.good = false ∧ (s.extractNum τ x).2 = x := by
  unfold extractNum
  by_cases hg : s.good = true
  · have hr : s.rest.dropWhile isSpace = [] := by simpa [hg] using h
    rw [if_pos hg, hr]
    exact ⟨rfl, rfl⟩
  · rw [if_neg hg]
    exact ⟨by simp [good], rfl⟩

theorem written_of_not_good {s : IStream} (h : s.good = false) (fs : List StatField) : written s fs = [] := by
  cases fs with
  | nil => rfl
  | cons f fs => rw [written, h]; rfl

theorem isPrefix_written : ∀ (fs : List StatField) (s : IStream), written s fs <+: fs
  | [], _ => List.prefix_rfl
  | f :: fs, s => by
    rw [written]
    split
    · exact (List.prefix_cons_inj f).2 (isPrefix_written fs _)
    · exact List.nil_prefix

/-- **A written field does not depend on what the object held; another keeps it.** -/
theorem extractFields_written : ∀ (fs : List StatField) (s : IStream) (v w : (f : StatField) → f.Val), fs.Nodup →
    ∀ g, (g ∈ written s fs → (extractFields s v fs).2 g = (extractFields s w fs).2 g) ∧
      (g ∉ written s fs → (extractFields s v fs).2 g = v g)
  | [], s, v, w, _, g => ⟨fun h => absurd h List.not_mem_nil, fun _ => rfl⟩
  | f :: fs, s, v, w, hnd, g => by
    obtain ⟨hf, hnd⟩ := List.nodup_cons.1 hnd
    have hstream := extractNum_stream f.type s (v f) (f.type.ofInt 0)
    have hstream' := extractNum_stream f.type s (w f) (f.type.ofInt 0)
    obtain ⟨ih₁, ih₂⟩ := extractFields_written fs (s.extractNum f.type (f.type.ofInt 0)).1
      (Function.update v f (s.extractNum f.type (v f)).2) (Function.update w f (s.extractNum f.type (w f)).2) hnd g
    have ih₃ := (extractFields_written fs (s.extractNum f.type (f.type.ofInt 0)).1
      (Function.update w f (s.extractNum f.type (w f)).2) w hnd g).2
    rw [extractFields, extractFields, hstream, hstream', written]
    by_cases hc : (s.good && (s.rest.dropWhile isSpace != [])) = true
    · rw [if_pos hc]
      by_cases hg : g = f
      · subst hg
        have hnot : g ∉ written (s.extractNum g.type (g.type.ofInt 0)).1 fs := fun h =>
          hf ((isPrefix_written fs _).subset h)
        simp only [Bool.and_eq_true, bne_iff_ne, ne_eq] at hc
        refine ⟨fun _ => ?_, fun h => absurd (List.mem_cons_self ..) h⟩
        rw [ih₂ hnot, ih₃ hnot, Function.update_self, Function.update_self, extractNum_stored hc.1 hc.2 (v g) (w g)]
      · simp only [List.mem_cons, hg, false_or]
        refine ⟨ih₁, fun h => ?_⟩
        rw [ih₂ h, Function.update_of_ne hg]
    · rw [if_neg hc]
      have hk := extractNum_kept hc (v f)
      refine ⟨fun h => absurd h List.not_mem_nil, fun _ => ?_⟩
      rw [ih₂ (by rw [written_of_not_good (by rw [← hstream]; exact hk.1)]; exact List.not_mem_nil), hk.2]
      by_cases hg : g = f
      · subst hg; exact Function.update_self ..
      · exact Function.update_of_ne hg _ _

theorem mem_written_of_envEnd {s : IStream} (h : .envEnd ∈ written s StatField.order) {f : StatField}
    (hf : f ≠ .exitCode) : f ∈ written s StatField.order := by
  rw [List.prefix_iff_eq_take.1 (isPrefix_written StatField.order s)] at h ⊢
  generalize (written s StatField.order).length = n at h ⊢
  have hn : 48 ≤ n := by
    by_contra hn
    have h47 : StatField.envEnd ∈ StatField.order.take 47 :=
      (List.take_prefix_take_left (by omega : n ≤ 47)).subset h
    exact absurd h47 (by decide)
  refine (List.take_prefix_take_left hn).subset ?_
  cases f with
  | exitCode => exact absurd rfl hf
  | _ => decide

theorem mStat_parseStat (s : IStream) (p : ProcessInfo) :
    (parseStat s p).mStat = (extractFields (afterState s) p.mStat StatField.order).2 := by
  have h₁ := extractNum_stream .int s p.mPid (CType.int.ofInt 0)
  simp only [parseStat, afterState]
  rw [h₁, extractWord_stream _ p.mName []]

theorem mState_parseStat (s : IStream) (p q : ProcessInfo) : (parseStat s p).mState = (parseStat s q).mState := by
  have h₁ := extractNum_stream .int s p.mPid q.mPid
  simp only [parseStat]
  rw [h₁, extractWord_stream _ p.mName q.mName]

theorem mName_parseStat_congr (l : StatLine) (p q : ProcessInfo) :
    (parseStat (ofText l.text) p).mName = (parseStat (ofText l.text) q).mName := by
  rw [l.text_append_nil]
  simp only [parseStat, StatLine.extractNum_pid]
  rfl

theorem run_reader_stat {sys : Sys} {p : ProcessInfo} {text : List Char}
    (h : sys.file (p.mProcPath ++ "stat".toList) = some text) :
    (reader sys .stat).run p = .ok () (parseStat (ofText text) p) := StatLine.run_readStat h

/-! ## The ids of `status` -/

/-- The left object holds the same ids as the right one, behind some older ones. -/
def Behind (us gs : List Int) (p q : ProcessInfo) : Prop :=
  p.mUids = us ++ q.mUids ∧ p.mGids = gs ++ q.mGids ∧ p.mProcPath = q.mProcPath

theorem couples_parseIds {us gs : List Int} {push : Int → ProcessInfo → ProcessInfo}
    (h : ∀ n p q, Behind us gs p q → Behind us gs (push n p) (push n q)) (value : List Char) :
    Couples (Behind us gs) (parseIds push value) (parseIds push value) := by
  unfold parseIds
  split
  · exact couples_forM fun _ _ => (couples_lift _).bind fun n => couples_modify (h n)
  · exact couples_pure _

/-- **A status line is read alike behind older ids.** -/
theorem couples_statusLine (us gs : List Int) (line : List Char) :
    Couples (Behind us gs) (statusLine line) (statusLine line) := by
  unfold statusLine
  dsimp only
  split
  · refine couples_parseIds (fun n p q h => ?_) _
    exact ⟨by simp [pushUid, h.1], h.2⟩
  split
  · refine couples_parseIds (fun n p q h => ?_) _
    exact ⟨h.1, by simp [pushGid, h.2.1], h.2.2⟩
  split
  · split
    · exact (couples_lift _).bind fun n => couples_modify fun p q h => h
    · exact couples_pure _
  · exact couples_pure _

theorem couples_readStatus (us gs : List Int) (sys : Sys) :
    Couples (Behind us gs) (readStatus sys) (readStatus sys) :=
  couples_get_bind fun p q h => by
    rw [h.2.2]
    exact couples_forM fun line _ => couples_statusLine us gs line

theorem value_readStatus (sys : Sys) {p q : ProcessInfo} (h : p.mProcPath = q.mProcPath) :
    value ((readStatus sys).run p) = value ((readStatus sys).run q) := by
  let bare (r : ProcessInfo) : ProcessInfo := { r with mUids := [], mGids := [] }
  have hold : ∀ r, value ((readStatus sys).run r) = value ((readStatus sys).run (bare r)) := fun r =>
    (couples_readStatus r.mUids r.mGids sys r (bare r) ⟨by simp [bare], by simp [bare], rfl⟩).1
  rw [hold p, hold q]
  exact (couples_readStatus [] [] sys (bare p) (bare q) ⟨rfl, rfl, h⟩).1

theorem ids_readStatus {sys : Sys} {p q p' q' : ProcessInfo} (hpath : p.mProcPath = q.mProcPath) (hu : q.mUids = [])
    (hg : q.mGids = []) (hp : (readStatus sys).run p = .ok () p') (hq : (readStatus sys).run q = .ok () q') :
    p'.mUids = p.mUids ++ q'.mUids ∧ p'.mGids = p.mGids ++ q'.mGids := by
  have h := (couples_readStatus p.mUids p.mGids sys p q ⟨by simp [hu], by simp [hg], hpath⟩).2
  rw [hp, hq] at h
  exact ⟨h.1, h.2.1⟩

/-! ## The maps of `environ` and `fd` -/

theorem foldl_environEntry (k : List Char) : ∀ (envs : List (List Char)) (m : List Char → Option (List Char)),
    envs.foldl environEntry m k = (envs.foldl environEntry (fun _ => none) k).or (m k) ∧
      (envs.foldl environEntry m k ≠ none ↔ m k ≠ none ∨ ∃ env ∈ envs, (keyValue '=' env).1 = k)
  | [], m => by simp
  | env :: envs, m => by
    obtain ⟨ih₁, ih₂⟩ := foldl_environEntry k envs (environEntry m env)
    have ih₃ := (foldl_environEntry k envs (environEntry (fun _ => none) env)).1
    simp only [List.foldl_cons]
    rw [ih₂, ih₁, ih₃]
    simp only [environEntry, List.mem_cons, exists_eq_or_imp]
    by_cases hk : k = (keyValue '=' env).1
    · subst hk
      simp only [Function.update_self]
      cases envs.foldl environEntry (fun _ => none) (keyValue '=' env).1 <;> simp
    · simp only [Function.update_of_ne hk, Option.or_none]
      refine ⟨trivial, ?_⟩
      constructor
      · rintro (h | h)
        · exact .inl h
        · exact .inr (.inr h)
      · rintro (h | h | h)
        · exact .inl h
        · exact absurd h.symm hk
        · exact .inr h

/-- A map put over another one is the upper one when it defines all that the lower one does. -/
theorem eq_iff_of_or {κ α : Type} {f g m : κ → Option α} (h : ∀ k, f k = (g k).or (m k)) :
    f = g ↔ ∀ k, m k ≠ none → g k ≠ none := by
  constructor
  · rintro rfl k hk hnone
    have hor := h k
    rw [hnone, Option.none_or] at hor
    exact hk hor.symm
  · intro hm
    funext k
    rw [h k]
    cases hg : g k with
    | none =>
      rw [Option.none_or]
      by_contra hk
      exact hm k hk hg
    | some w => rfl

/-- The left object's descriptors are those of the right one, put over some older ones. -/
def Over (m : Int → Option (List Char)) (p q : ProcessInfo) : Prop :=
  (∀ n, p.mFds n = (q.mFds n).or (m n)) ∧ p.mProcPath = q.mProcPath

theorem couples_readFd (m : Int → Option (List Char)) (sys : Sys) : Couples (Over m) (readFd sys) (readFd sys) :=
  couples_get_bind fun p q h => by
    rw [h.2]
    refine couples_forM fun name _ => couples_get_bind fun p q h => (couples_lift _).bind fun n => couples_modify ?_
    intro p' q' h'
    refine ⟨fun k => ?_, h'.2⟩
    by_cases hk : k = n
    · subst hk
      simp [h.2]
    · simp only [Function.update_of_ne hk]
      exact h'.1 k

theorem run_fdEntries (sys : Sys) (k : Int) : ∀ (names : List (List Char)) (p p' : ProcessInfo),
    (names.forM (fdEntry sys)).run p = .ok () p' →
      (p'.mFds k ≠ none ↔ p.mFds k ≠ none ∨ ∃ name ∈ names, stoi 10 name = .ok k)
  | [], p, p', h => by
    cases h
    simp
  | name :: names, p, p', h => by
    rw [run_forM_cons, EStateM.run_bind] at h
    simp only [fdEntry, EStateM.run_bind, EStateM.run_get] at h
    cases hn : stoi 10 name with
    | error e => rw [hn] at h; cases h
    | ok n =>
      rw [hn] at h
      simp only [run_lift_ok, EStateM.run_modify] at h
      rw [run_fdEntries sys k names _ p' h]
      simp only [List.mem_cons, exists_eq_or_imp, hn, Except.ok.injEq]
      by_cases hk : k = n
      · subst hk; simp
      · simp only [Function.update_of_ne hk]
        constructor
        · rintro (h | h)
          · exact .inl h
          · exact .inr (.inr h)
        · rintro (h | h | h)
          · exact .inl h
          · exact absurd h.symm hk
          · exact .inr h

/-! ## The main result -/

section Agree

variable {pid : Int32} (c : Contents pid) {p : ProcessInfo}

theorem Contents.run_stat (hp : p.mProcPath = procPath pid) :
    (reader c.sys .stat).run p.needUpdate = .ok () (parseStat (ofText c.line.text) p.needUpdate) :=
  run_reader_stat (by rw [mProcPath_needUpdate, hp, c.stat])

theorem agrees_stat (hp : p.mProcPath = procPath pid)
    (hw : .envEnd ∈ written (afterState (openFile (c.sys.file (p.mProcPath ++ "stat".toList)))) StatField.order)
    {g : Getter} (hs : g.source = .stat) (hl : g.Listed) (junk : ProcessInfo) :
    AgreesOn c.sys pid p g junk := by
  have hrp := c.run_stat hp
  have hrq : (reader c.sys .stat).run (construct junk pid) = .ok () (parseStat (ofText c.line.text) (construct junk pid)) :=
    run_reader_stat c.stat
  rw [hp, c.stat] at hw
  have hf : ∀ f : StatField, f ≠ .exitCode → (parseStat (ofText c.line.text) p.needUpdate).mStat f =
      (parseStat (ofText c.line.text) (construct junk pid)).mStat f := fun f hne => by
    rw [mStat_parseStat, mStat_parseStat]
    exact (extractFields_written _ _ _ _ StatField.nodup_order f).1 (mem_written_of_envEnd hw hne)
  have hfield : ∀ f : StatField, f ≠ .exitCode →
      value ((statGetter c.sys f).run p.needUpdate) = value ((statGetter c.sys f).run (construct junk pid)) :=
    fun f hne => (value_getter_congr rfl rfl hrp hrq fun _ => rfl).2 (hf f hne)
  cases g with
  | name => exact (value_getter_congr rfl rfl hrp hrq fun _ => rfl).2 (mName_parseStat_congr c.line _ _)
  | state => exact (value_getter_congr rfl rfl hrp hrq fun _ => rfl).2 (mState_parseStat _ _ _)
  | field f => exact hfield f hl
  | cguestTime => exact (value_getter_congr rfl rfl hrp hrq fun _ => rfl).2 (by rw [hf .cguestTime (by decide)])
  | policy => exact (value_getter_congr rfl rfl hrp hrq fun _ => rfl).2 (by rw [hf .policy (by decide)])
  | startTime => exact (value_getter_congr rfl rfl hrp hrq fun _ => rfl).2 (by rw [hf .starttime (by decide)])
  | ttyNr =>
    have h := hfield .ttyNr (by decide)
    unfold AgreesOn
    simp only [Getter.call, ttyNr, EStateM.run_bind]
    cases hx : (statGetter c.sys .ttyNr).run p.needUpdate with
    | ok a s =>
      cases hy : (statGetter c.sys .ttyNr).run (construct junk pid) with
      | ok b t =>
        rw [hx, hy] at h
        obtain rfl : a = b := by simpa using h
        simp only [value_run_lift]
      | error e t => rw [hx, hy] at h; cases h
    | error e s =>
      cases hy : (statGetter c.sys .ttyNr).run (construct junk pid) with
      | ok b t => rw [hx, hy] at h; cases h
      | error e' t => rw [hx, hy] at h; simpa using h
  | _ => cases hs

theorem written_of_agrees (hp : p.mProcPath = procPath pid)
    (h : ∀ junk, AgreesOn c.sys pid p (.field .envEnd) junk) :
    .envEnd ∈ written (afterState (openFile (c.sys.file (p.mProcPath ++ "stat".toList)))) StatField.order := by
  by_contra hw
  rw [hp, c.stat, openFile] at hw
  -- a new object on memory that held another number in that member
  let old : UInt64 := p.mStat .envEnd
  let junk : ProcessInfo := { zeroed with mStat := Function.update zeroed.mStat .envEnd (old + 1) }
  have hjunk : junk.mStat .envEnd = old + 1 := Function.update_self StatField.envEnd (old + 1) zeroed.mStat
  have hv := (value_getter_congr rfl rfl (c.run_stat hp) (run_reader_stat c.stat) fun _ => rfl).1 (h junk)
  simp only [mStat_parseStat] at hv
  rw [(extractFields_written _ _ _ zeroed.mStat StatField.nodup_order _).2 hw,
    (extractFields_written _ _ _ zeroed.mStat StatField.nodup_order _).2 hw] at hv
  have heq : old = old + 1 := hv.trans hjunk
  have hold := congrArg UInt64.toNat heq
  rw [UInt64.toNat_add, UInt64.toNat_one] at hold
  have := old.toNat_lt
  omega

theorem run_status (hp : p.mProcPath = procPath pid) (junk : ProcessInfo) :
    ∃ p' q', (reader c.sys .status).run p.needUpdate = .ok () p' ∧
      (reader c.sys .status).run (construct junk pid) = .ok () q' ∧
        p'.mUids = p.mUids ++ q'.mUids ∧ p'.mGids = p.mGids ++ q'.mGids := by
  obtain ⟨p', hp'⟩ := c.status p.needUpdate hp
  obtain ⟨q', hq'⟩ := c.status (construct junk pid) rfl
  have hpath : p.needUpdate.mProcPath = (construct junk pid).mProcPath := hp
  have hids : p'.mUids = p.needUpdate.mUids ++ q'.mUids ∧ p'.mGids = p.needUpdate.mGids ++ q'.mGids :=
    ids_readStatus hpath rfl rfl hp' hq'
  exact ⟨p', q', hp', hq', hids⟩

theorem agrees_uids_iff (hp : p.mProcPath = procPath pid) (junk : ProcessInfo) :
    AgreesOn c.sys pid p .uids junk ↔ p.mUids = [] := by
  obtain ⟨p', q', hp', hq', hu, -⟩ := run_status c hp junk
  refine (value_getter_congr rfl rfl hp' hq' fun _ => rfl).trans ?_
  rw [hu]
  exact List.append_left_eq_self

theorem agrees_gids_iff (hp : p.mProcPath = procPath pid) (junk : ProcessInfo) :
    AgreesOn c.sys pid p .gids junk ↔ p.mGids = [] := by
  obtain ⟨p', q', hp', hq', -, hg⟩ := run_status c hp junk
  refine (value_getter_congr rfl rfl hp' hq' fun _ => rfl).trans ?_
  rw [hg]
  exact List.append_left_eq_self

theorem agrees_environ_iff (hp : p.mProcPath = procPath pid) (junk : ProcessInfo) :
    AgreesOn c.sys pid p .environ junk ↔ ∀ k, p.mEnviron k ≠ none →
      ∃ env ∈ getlines '\x00' (openFile (c.sys.file (p.mProcPath ++ "environ".toList))), (keyValue '=' env).1 = k := by
  refine (value_getter_congr rfl rfl rfl rfl fun _ => rfl).trans ?_
  simp only [mProcPath_needUpdate, mProcPath_construct, hp]
  refine (eq_iff_of_or fun k => (foldl_environEntry k _ p.mEnviron).1).trans (forall_congr' fun k => ?_)
  exact imp_congr_right fun _ => (foldl_environEntry k _ fun _ => none).2.trans (or_iff_right fun h => h rfl)

theorem agrees_fds_iff (hp : p.mProcPath = procPath pid) (junk : ProcessInfo) :
    AgreesOn c.sys pid p .fds junk ↔ ∀ n, p.mFds n ≠ none →
      ∃ name ∈ (c.sys.dir (p.mProcPath ++ "fd".toList)).names, stoi 10 name = .ok n := by
  obtain ⟨p', hp'⟩ := c.fd p.needUpdate hp
  obtain ⟨q', hq'⟩ := c.fd (construct junk pid) rfl
  have hover := (couples_readFd p.mFds c.sys p.needUpdate (construct junk pid) ⟨fun _ => rfl, hp⟩).2.1
  rw [hp', hq'] at hover
  have hrp : (reader c.sys .fd).run p.needUpdate = .ok () p' := hp'
  have hrq : (reader c.sys .fd).run (construct junk pid) = .ok () q' := hq'
  refine (value_getter_congr rfl rfl hrp hrq fun _ => rfl).trans ?_
  rw [hp]
  refine (eq_iff_of_or hover).trans (forall_congr' fun n => ?_)
  exact imp_congr_right fun _ => (run_fdEntries c.sys n _ _ q' hq').trans (or_iff_right fun h => h rfl)

theorem agrees_wchanName (hp : p.mProcPath = procPath pid) (junk : ProcessInfo) :
    AgreesOn c.sys pid p .wchanName junk := by
  refine (value_getter_congr rfl rfl rfl rfl fun _ => rfl).2 ?_
  obtain ⟨t, ht⟩ := Option.isSome_iff_exists.1 c.wchan
  simp only [mProcPath_needUpdate, mProcPath_construct, hp, ht, openFile, IStream.getline, good_ofText, if_true]

theorem agrees_of_nothingLeft (hp : p.mProcPath = procPath pid) (h : NothingLeft c.sys p) :
    AgreesWithFresh c.sys pid p := by
  intro g hl junk
  have hpath : p.needUpdate.mProcPath = (construct junk pid).mProcPath := hp
  cases g with
  | name | state | field _ | cguestTime | policy | startTime | ttyNr => exact agrees_stat c hp h.stat rfl hl junk
  | cmdline | cwd | exe | root => exact (value_getter_congr rfl rfl rfl rfl fun _ => rfl).2 (by simp only [hpath])
  | environ => exact (agrees_environ_iff c hp junk).2 h.environ
  | uids => exact (agrees_uids_iff c hp junk).2 h.uids
  | gids => exact (agrees_gids_iff c hp junk).2 h.gids
  | fds => exact (agrees_fds_iff c hp junk).2 h.fds
  | wchanName => exact agrees_wchanName c hp junk
  | readBytes | writeBytes | vm _ | maps => exact absurd hl id

theorem nothingLeft_of_agrees (hp : p.mProcPath = procPath pid) (h : AgreesWithFresh c.sys pid p) :
    NothingLeft c.sys p where
  uids := (agrees_uids_iff c hp zeroed).1 (h .uids trivial zeroed)
  gids := (agrees_gids_iff c hp zeroed).1 (h .gids trivial zeroed)
  environ := (agrees_environ_iff c hp zeroed).1 (h .environ trivial zeroed)
  fds := (agrees_fds_iff c hp zeroed).1 (h .fds trivial zeroed)
  stat := written_of_agrees c hp (h (.field .envEnd) StatField.noConfusion)

end Agree

/-- **A refreshed object agrees with a fresh one exactly when nothing of the old contents is left to show**, after every
history of calls. -/
theorem refreshed_agrees_iff (junk : ProcessInfo) (pid : Int32) (h : List Access) (c : Contents pid) :
    AgreesWithFresh c.sys pid (afterCalls (construct junk pid) h) ↔
      NothingLeft c.sys (afterCalls (construct junk pid) h) := by
  have hp : (afterCalls (construct junk pid) h).mProcPath = procPath pid := mProcPath_afterCalls h _
  exact ⟨nothingLeft_of_agrees c hp, agrees_of_nothingLeft c hp⟩

/-- Process 1, named `init`, run by root. -/
def initLine : StatLine := ⟨1, "init".toList, 'S', fun f => f.type.ofInt 0, by decide, by decide⟩

def initSys : Sys := Sys.ofFiles fun path =>
  if path = procPath 1 ++ "status".toList then some "Uid:\t0\t0\t0\t0\n".toList
  else if path = procPath 1 ++ "stat".toList then some initLine.text
  else some []

def initFiles : Contents 1 where
  sys := initSys
  line := initLine
  stat := by decide +kernel
  wchan := by decide +kernel
  status p hp := by
    have hv := value_readStatus initSys (show p.mProcPath = (construct zeroed 1).mProcPath from hp)
    rw [show value ((readStatus initSys).run (construct zeroed 1)) = .ok () by decide +kernel] at hv
    cases hr : (readStatus initSys).run p with
    | ok a p' => exact ⟨p', rfl⟩
    | error e p' => rw [hr] at hv; cases hv
  fd p _ := ⟨p, rfl⟩

/-- `uids()`, on the files of process 1. -/
def uidsRead : Access := ⟨initFiles.sys, .initial, .query (.get .uids)⟩

/-- The ids of a second read stand behind those of the first. -/
theorem not_agrees_uids : ¬ AgreesWithFresh initFiles.sys 1 (afterCalls (construct zeroed 1) [uidsRead]) := fun h =>
  absurd (nothingLeft_of_agrees initFiles (mProcPath_afterCalls _ _) h).uids (by decide +kernel)

end SysInfo
