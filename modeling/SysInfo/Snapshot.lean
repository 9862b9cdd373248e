import SysInfo.Steps
/-!
# Snapshot — one read of each source between two refreshes

The public member functions of an object, `userName()` and the computed getters among them, run twice: as the code has
them, and `logged`, where every reader also writes its source into a log.  The log changes nothing else
(`couples_call`).  `snapshots`: between two calls of `needUpdate()` a source is read by the first call that needs it and
by no other, and its members stay what that call made them.
-/
namespace SysInfo

open IStream Effects ProcessInfo

/-! ## Member functions -/

/-- The name of the first of `uids()`: `passwd` is what `getpwuid` finds, `beyond` what memory holds behind an empty
`m_uids`. -/
def ProcessInfo.nameOfUid (passwd : Int → Option (List Char)) (beyond : Int) (p : ProcessInfo) : List Char :=
  let uid := p.mUids.headD beyond
  (passwd uid).getD (decimalInt uid)

/-- `userName()`. -/
def ProcessInfo.userName (sys : Sys) (passwd : Int → Option (List Char)) (beyond : Int) : Cpp ProcessInfo (List Char) :=
  getter sys .status (nameOfUid passwd beyond)

/-- `userName()` does to the object what `uids()` does. -/
theorem state_userName (sys : Sys) (passwd : Int → Option (List Char)) (beyond : Int) (p : ProcessInfo) :
    state ((ProcessInfo.userName sys passwd beyond).run p) = state ((Getter.uids.call sys).run p) :=
  (state_getter sys .status (nameOfUid passwd beyond) p).trans (state_getter sys .status mUids p).symm

inductive Member where
  | needUpdate
  | pid
  | userName (passwd : Int → Option (List Char)) (beyond : Int)
  | query (q : Query)

namespace Member

abbrev Val : Member → Type
  | .needUpdate => Unit
  | .pid => Int32
  | .userName _ _ => List Char
  | .query q => q.Val

def call (sys : Sys) : (m : Member) → Cpp This m.Val
  | .needUpdate => onObj (modify ProcessInfo.needUpdate)
  | .pid => onObj ProcessInfo.pid
  | .userName passwd beyond => onObj (ProcessInfo.userName sys passwd beyond)
  | .query q => q.call sys

/-- The sources a member function needs. -/
def needs : Member → List Source
  | .needUpdate | .pid => []
  | .userName _ _ => [.status]
  | .query (.get g) => [g.source]
  | .query (.usage .cpuUsage) => [.stat]
  | .query (.usage .ioReadUsage) | .query (.usage .ioWriteUsage) | .query (.usage (.ioTotalUsage _)) => [.io]

end Member

/-! ## Members by source -/

namespace Source

/-- A source that is read from `/proc`; the usages are computed. -/
def IsFile : Source → Prop
  | .cpuUsage | .ioReadUsage | .ioWriteUsage => False
  | _ => True

/-- The types of the members filled from a source. -/
abbrev Members : Source → Type
  | .stat => Int32 × List Char × List Char × ((f : StatField) → f.Val)
  | .status => List Int × List Int × (VmField → UInt64)
  | .io => IoStat
  | .cwd | .exe | .root | .wchan => List Char
  | .cmdline => List (List Char)
  | .environ => List Char → Option (List Char)
  | .fd => Int → Option (List Char)
  | .smaps => List MMap
  | .cpuUsage | .ioReadUsage | .ioWriteUsage => Unit

def members : (src : Source) → ProcessInfo → src.Members
  | .stat, p => (p.mPid, p.mName, p.mState, p.mStat)
  | .status, p => (p.mUids, p.mGids, p.mVm)
  | .io, p => p.mIo
  | .cwd, p => p.mCwd
  | .exe, p => p.mExe
  | .root, p => p.mRoot
  | .wchan, p => p.mWchanName
  | .cmdline, p => p.mCmdline
  | .environ, p => p.mEnviron
  | .fd, p => p.mFds
  | .smaps, p => p.mMaps
  | .cpuUsage, _ | .ioReadUsage, _ | .ioWriteUsage, _ => ()

theorem members_take {src src' : Source} (h : src ≠ src') (p q : ProcessInfo) :
    src.members (take src' p q) = src.members p := by
  cases src <;> cases src' <;> first | rfl | exact absurd rfl h

end Source

/-! ## The same code, with a log of the reads -/

structure Logged where
  this : This
  log  : List Source

/-- Code that reads no source. -/
def unlogged {α : Type} (x : Cpp This α) : Cpp Logged α := fun l =>
  match x.run l.this with
  | .ok a s    => .ok a { l with this := s }
  | .error e s => .error e { l with this := s }

/-- A reader, logged whether it throws or not.  It opens its file, link or directory once, and follows each link of `fd`
once, so an entry of the log is an access. -/
def loggedReader (sys : Sys) (src : Source) : Cpp Logged Unit := fun l =>
  (unlogged (onObj (reader sys src))).run { l with log := l.log ++ [src] }

namespace ProcessInfo

/-- What a getter returns of an object whose source is up to date. -/
def Getter.value (sys : Sys) : (g : Getter) → ProcessInfo → Except Exn g.Val
  | .name, p => .ok p.mName
  | .state, p => .ok p.mState
  | .field f, p => .ok (p.mStat f)
  | .cguestTime, p => .ok (p.mStat .cguestTime : Int64).toUInt64
  | .policy, p => .ok (policyName (p.mStat .policy))
  | .startTime, p =>
    let starttime : UInt64 := p.mStat .starttime
    .ok (sys.uptime - starttime / sys.clkTck)
  | .ttyNr, p => ttyPath sys (p.mStat .ttyNr)
  | .cmdline, p => .ok p.mCmdline
  | .cwd, p => .ok p.mCwd
  | .exe, p => .ok p.mExe
  | .root, p => .ok p.mRoot
  | .environ, p => .ok p.mEnviron
  | .readBytes, p => .ok p.mIo.readBytes
  | .writeBytes, p => .ok p.mIo.writeBytes
  | .uids, p => .ok p.mUids
  | .gids, p => .ok p.mGids
  | .vm f, p => .ok (p.mVm f)
  | .fds, p => .ok p.mFds
  | .wchanName, p => .ok p.mWchanName
  | .maps, p => .ok p.mMaps

/-- **Every getter refreshes one source** and returns a function of the object. -/
theorem call_eq (sys : Sys) (g : Getter) :
    g.call sys = (refresh g.source (reader sys g.source) >>= fun _ => get >>= fun p => lift (g.value sys p)) := by
  cases g with
  | ttyNr =>
    rw [Getter.call, ProcessInfo.ttyNr, statGetter, getter, bind_assoc]
    rfl
  | _ => rfl

end ProcessInfo

section

variable (sys : Sys)

def loggedRefresh (src : Source) : Cpp Logged Unit := do
  if (← get).this.obj.mNeedUpdate src then
    loggedReader sys src
    unlogged (onObj (modify (·.updated src)))

def loggedGetter {α : Type} (src : Source) (value : ProcessInfo → α) : Cpp Logged α := do
  loggedRefresh sys src
  return value (← get).this.obj

def loggedRefreshUsage (src : Source) (update : Cpp Logged Unit) : Cpp Logged Unit := do
  if (← get).this.obj.mNeedUpdate src then
    update
    unlogged (onObj (modify (·.updated src)))

def loggedIoUsage (m : IoMetric) : Cpp Logged Rat := do
  loggedRefreshUsage m.source do
    let bytes ← loggedGetter sys .io (·.mIo.counter m.field)
    unlogged (modify (recordIo m bytes))
  return m.usage (← get).this.obj

def loggedCpuUsage : Cpp Logged Int32 := do
  loggedRefreshUsage .cpuUsage do
    let nb ← unlogged (nbCore sys)
    let utime : UInt64 ← loggedGetter sys .stat (·.mStat .utime)
    let stime : UInt64 ← loggedGetter sys .stat (·.mStat .stime)
    unlogged (modify (recordCpu nb (cpuTotalTime sys) (utime + stime)))
  return (← get).this.obj.mCpuUsage

def Usage.logged : (u : Usage) → Cpp Logged u.Val
  | .cpuUsage => loggedCpuUsage sys
  | .ioReadUsage => loggedIoUsage sys .read
  | .ioWriteUsage => loggedIoUsage sys .write
  | .ioTotalUsage true => do
    let r ← loggedIoUsage sys .read
    let w ← loggedIoUsage sys .write
    return r + w
  | .ioTotalUsage false => do
    let w ← loggedIoUsage sys .write
    let r ← loggedIoUsage sys .read
    return r + w

def Member.logged : (m : Member) → Cpp Logged m.Val
  | .needUpdate => unlogged (onObj (modify ProcessInfo.needUpdate))
  | .pid => unlogged (onObj ProcessInfo.pid)
  | .userName passwd beyond => loggedGetter sys .status (nameOfUid passwd beyond)
  | .query (.get g) => do
    loggedRefresh sys g.source
    lift (g.value sys (← get).this.obj)
  | .query (.usage u) => u.logged sys

end

/-! ### The log changes nothing -/

/-- Logged code and the code of the same program. -/
def SameThis (l : Logged) (s : This) : Prop := l.this = s

section Couples

variable {α : Type}

theorem couples_unlogged (x : Cpp This α) : Couples SameThis (unlogged x) x := by
  rintro ⟨s, log⟩ t rfl
  cases h : x.run s with
  | ok a s' => rw [EStateM.run, unlogged, h]; exact ⟨rfl, rfl⟩
  | error e s' => rw [EStateM.run, unlogged, h]; exact ⟨rfl, rfl⟩

theorem couples_loggedReader (sys : Sys) (src : Source) :
    Couples SameThis (loggedReader sys src) (onObj (reader sys src)) := by
  rintro ⟨s, log⟩ t rfl
  exact couples_unlogged (onObj (reader sys src)) ⟨s, log ++ [src]⟩ s rfl

theorem onObj_bind {β : Type} (x : Cpp ProcessInfo α) (k : α → Cpp ProcessInfo β) :
    onObj (x >>= k) = (onObj x >>= fun a => onObj (k a)) := by
  funext s
  show onObj (x >>= k) s = EStateM.bind (onObj x) _ s
  rw [EStateM.bind, onObj, EStateM.run_bind]
  unfold onObj
  cases h : x.run s.obj <;> rfl

theorem onObj_get_bind (k : ProcessInfo → Cpp ProcessInfo α) :
    onObj (get >>= k) = (get >>= fun s => onObj (k s.obj)) := rfl

theorem couples_loggedRefresh (sys : Sys) (src : Source) :
    Couples SameThis (loggedRefresh sys src) (onObj (refresh src (reader sys src))) := by
  rw [refresh, onObj_get_bind]
  refine couples_get_bind fun l s h => ?_
  obtain rfl : l.this = s := h
  split
  · rw [onObj_bind]
    exact (couples_loggedReader sys src).bind fun _ => couples_unlogged _
  · exact couples_pure _

theorem couples_loggedGetter (sys : Sys) (src : Source) (value : ProcessInfo → α) :
    Couples SameThis (loggedGetter sys src value) (onObj (getter sys src value)) := by
  rw [getter, onObj_bind]
  refine (couples_loggedRefresh sys src).bind fun _ => couples_get_bind fun l s h => ?_
  obtain rfl : l.this = s := h
  exact couples_pure _

theorem couples_loggedRefreshUsage {x : Cpp Logged Unit} {y : Cpp This Unit} (h : Couples SameThis x y) (src : Source) :
    Couples SameThis (loggedRefreshUsage src x) (refreshUsage src y) := by
  refine couples_get_bind fun l s hs => ?_
  obtain rfl : l.this = s := hs
  split
  · exact h.bind fun _ => couples_unlogged _
  · exact couples_pure _

theorem couples_loggedIoUsage (sys : Sys) (m : IoMetric) :
    Couples SameThis (loggedIoUsage sys m) (ioUsage m sys) := by
  refine (couples_loggedRefreshUsage ?_ m.source).bind fun _ => couples_get_bind fun l s h => ?_
  · exact (couples_loggedGetter sys .io _).bind fun bytes => couples_unlogged _
  · obtain rfl : l.this = s := h
    exact couples_pure _

theorem couples_loggedCpuUsage (sys : Sys) : Couples SameThis (loggedCpuUsage sys) (ProcessInfo.cpuUsage sys) := by
  refine (couples_loggedRefreshUsage ?_ .cpuUsage).bind fun _ => couples_get_bind fun l s h => ?_
  · refine (couples_unlogged _).bind fun nb => ?_
    refine (couples_loggedGetter sys .stat _).bind fun utime => ?_
    exact (couples_loggedGetter sys .stat _).bind fun stime => couples_unlogged _
  · obtain rfl : l.this = s := h
    exact couples_pure _

/-- **The log changes nothing**: the logged code has the outcome of the code. -/
theorem couples_call (sys : Sys) (m : Member) : Couples SameThis (m.logged sys) (m.call sys) := by
  cases m with
  | needUpdate => exact couples_unlogged (onObj (modify ProcessInfo.needUpdate))
  | pid => exact couples_unlogged (onObj ProcessInfo.pid)
  | userName passwd beyond =>
    exact couples_loggedGetter sys .status (nameOfUid passwd beyond)
  | query q =>
    cases q with
    | get g =>
      have hvalue : Couples SameThis (get >>= fun l => lift (g.value sys l.this.obj) : Cpp Logged g.Val)
          (onObj (get >>= fun p => lift (g.value sys p))) := by
        rw [onObj_get_bind]
        refine couples_get_bind fun l s h => ?_
        obtain rfl : l.this = s := h
        cases g.value sys l.this.obj with
        | ok v => exact couples_pure v
        | error e => exact fun l s h => ⟨rfl, h⟩
      have hcall : Couples SameThis ((Member.query (.get g)).logged sys) (onObj (g.call sys)) := by
        rw [call_eq, onObj_bind]
        exact (couples_loggedRefresh sys g.source).bind fun _ => hvalue
      exact hcall
    | usage u =>
      cases u with
      | cpuUsage => exact couples_loggedCpuUsage sys
      | ioReadUsage => exact couples_loggedIoUsage sys .read
      | ioWriteUsage => exact couples_loggedIoUsage sys .write
      | ioTotalUsage readFirst =>
        cases readFirst with
        | true =>
          exact (couples_loggedIoUsage sys .read).bind fun r =>
            (couples_loggedIoUsage sys .write).bind fun w => couples_pure _
        | false =>
          exact (couples_loggedIoUsage sys .write).bind fun w =>
            (couples_loggedIoUsage sys .read).bind fun r => couples_pure _

end Couples

/-! ## What a call does to a source -/

/-- Objects with the same members from files, and the same flags on them. -/
def Alike (p q : ProcessInfo) : Prop :=
  ∀ src : Source, src.IsFile → src.members q = src.members p ∧ q.mNeedUpdate src = p.mNeedUpdate src

namespace Alike

variable {p q r : ProcessInfo}

theorem refl (p : ProcessInfo) : Alike p p := fun _ _ => ⟨rfl, rfl⟩

theorem trans (h : Alike p q) (h' : Alike q r) : Alike p r := fun src hs =>
  ⟨(h' src hs).1.trans (h src hs).1, (h' src hs).2.trans (h src hs).2⟩

theorem updated {u : Source} (h : ¬ u.IsFile) (p : ProcessInfo) : Alike p (p.updated u) := by
  intro src hs
  refine ⟨by cases src <;> rfl, Function.update_of_ne ?_ _ _⟩
  rintro rfl
  exact h hs

end Alike

/-- What a usage does besides its reads: the path stays, what is read from files, and whether it is due. -/
structure Computes (s t : This) : Prop where
  path  : t.obj.mProcPath = s.obj.mProcPath
  files : Alike s.obj t.obj

namespace Computes

theorem recordIo (m : IoMetric) (bytes : UInt64) (s : This) : Computes s (recordIo m bytes s) := by
  unfold ProcessInfo.recordIo
  split <;> cases m <;> exact ⟨rfl, fun src _ => by cases src <;> exact ⟨rfl, rfl⟩⟩

theorem recordCpu (nb : Int32) (total process : UInt64) (s : This) : Computes s (recordCpu nb total process s) := by
  unfold ProcessInfo.recordCpu
  split <;> exact ⟨rfl, fun src _ => by cases src <;> exact ⟨rfl, rfl⟩⟩

theorem updated {u : Source} (h : ¬ u.IsFile) (s : This) : Computes s { s with obj := s.obj.updated u } :=
  ⟨rfl, Alike.updated h s.obj⟩

end Computes

/-- The file a usage is computed from. -/
def Source.behind : Source → Option Source
  | .cpuUsage => some .stat
  | .ioReadUsage | .ioWriteUsage => some .io
  | _ => none

theorem Source.not_isFile_of_behind {u src : Source} (h : u.behind = some src) : ¬ u.IsFile := by
  cases u <;> first | exact id | cases h

theorem Source.isFile_of_behind {u src : Source} (h : u.behind = some src) : src.IsFile := by
  cases u <;> cases h <;> trivial

theorem IoMetric.behind_source (m : IoMetric) : m.source.behind = some .io := by cases m <;> rfl

/-- **A usage stays within a frame** when its reads do, and whatever keeps all that is read from files does. -/
theorem moves_usage_of_computes {T : This → This → Prop} [IsPreorder This T] {sys : Sys}
    (hstat : ∀ {α : Type} (v : ProcessInfo → α), Moves T (onObj (getter sys .stat v)))
    (hio : ∀ {α : Type} (v : ProcessInfo → α), Moves T (onObj (getter sys .io v)))
    (hcomputes : ∀ s t, Computes s t → T s t) (u : Usage) : Moves T (u.call sys) := by
  have hcores : Moves T (nbCore sys) := moves_cores fun s n => hcomputes s _ ⟨rfl, Alike.refl s.obj⟩
  have hflag : ∀ {u src : Source}, u.behind = some src →
      Moves T (modify fun s => { s with obj := s.obj.updated u } : Cpp This Unit) := fun hu =>
    moves_modify fun s => hcomputes s _ (Computes.updated (Source.not_isFile_of_behind hu) s)
  refine moves_usage (fun m => ?_) u fun _ => ?_
  · exact moves_ioUsage (hio _) (fun bytes => moves_modify fun s => hcomputes s _ (Computes.recordIo m bytes s))
      (hflag (IoMetric.behind_source m))
  · exact moves_cpuUsage hcores (hstat _) (hstat _)
      (fun nb total process => moves_modify fun s => hcomputes s _ (Computes.recordCpu nb total process s)) (hflag rfl)

/-- The object once a source is up to date. -/
def refreshed (sys : Sys) (src : Source) (p : ProcessInfo) : ProcessInfo :=
  if p.mNeedUpdate src then (state ((reader sys src).run p)).updated src else p

/-- The read this takes. -/
def readOf (src : Source) (p : ProcessInfo) : List Source := if p.mNeedUpdate src then [src] else []

theorem refreshed_of_not_due (sys : Sys) {src : Source} {p : ProcessInfo} (h : p.mNeedUpdate src = false) :
    refreshed sys src p = p := by
  rw [refreshed, h]
  rfl

theorem readOf_of_not_due {src : Source} {p : ProcessInfo} (h : p.mNeedUpdate src = false) : readOf src p = [] := by
  rw [readOf, h]
  rfl

theorem mNeedUpdate_refreshed (sys : Sys) (src : Source) (p : ProcessInfo) :
    (refreshed sys src p).mNeedUpdate src = false := by
  unfold refreshed
  cases h : p.mNeedUpdate src with
  | false => exact h
  | true => exact Function.update_self ..

theorem refreshed_of_ne {sys : Sys} {src src' : Source} (h : src' ≠ src) (p : ProcessInfo) :
    src'.members (refreshed sys src p) = src'.members p ∧
      (refreshed sys src p).mNeedUpdate src' = p.mNeedUpdate src' := by
  unfold refreshed
  split
  · have hm : state ((reader sys src).run p) = take src p _ := moves_reader sys src p
    refine ⟨?_, ?_⟩
    · rw [← Source.members_take h p (state ((reader sys src).run p)), ← hm]
      cases src' <;> rfl
    · refine (Function.update_of_ne h _ _).trans ?_
      rw [hm]
      exact mNeedUpdate_take h _ _
  · exact ⟨rfl, rfl⟩

theorem of_run_loggedRefresh {sys : Sys} {src : Source} {l t : Logged} (h : (loggedRefresh sys src).run l = .ok () t) :
    t = ⟨⟨refreshed sys src l.this.obj, l.this.static⟩, l.log ++ readOf src l.this.obj⟩ ∧
      (l.this.obj.mNeedUpdate src = true → ∃ r, (reader sys src).run l.this.obj = .ok () r) := by
  obtain ⟨⟨p, st⟩, log⟩ := l
  simp only [loggedRefresh, EStateM.run_bind, EStateM.run_get] at h
  cases hd : p.mNeedUpdate src with
  | false =>
    simp only [hd, Bool.false_eq_true, if_false] at h
    obtain rfl : (⟨⟨p, st⟩, log⟩ : Logged) = t := by cases h; rfl
    simp [refreshed, readOf, hd]
  | true =>
    simp only [hd, if_true] at h
    obtain ⟨_, m, hread, hclear⟩ := of_run_bind_ok h
    cases hr : (reader sys src).run p with
    | error e r =>
      have hrun : (loggedReader sys src).run ⟨⟨p, st⟩, log⟩ = .error e ⟨⟨r, st⟩, log ++ [src]⟩ := by
        rw [EStateM.run, loggedReader, EStateM.run, unlogged, run_onObj_error hr]
      rw [hrun] at hread
      cases hread
    | ok u r =>
      have hrun : (loggedReader sys src).run ⟨⟨p, st⟩, log⟩ = .ok () ⟨⟨r, st⟩, log ++ [src]⟩ := by
        rw [EStateM.run, loggedReader, EStateM.run, unlogged, run_onObj_ok hr]
      rw [hrun] at hread
      cases hread
      cases hclear
      refine ⟨?_, fun _ => ⟨r, rfl⟩⟩
      simp [refreshed, readOf, hd, hr]

theorem mNeedUpdate_refreshed_or (sys : Sys) (src : Source) (p : ProcessInfo) (u : Source) :
    (refreshed sys src p).mNeedUpdate u = p.mNeedUpdate u ∨ u = src ∨ u.behind = some src := by
  by_cases hu : u = src
  · exact .inr (.inl hu)
  · exact .inl (refreshed_of_ne hu p).2

theorem mNeedUpdate_recordIo (m : IoMetric) (bytes : UInt64) (s : This) :
    (recordIo m bytes s).obj.mNeedUpdate = s.obj.mNeedUpdate := by
  unfold ProcessInfo.recordIo
  split <;> cases m <;> rfl

theorem mNeedUpdate_recordCpu (nb : Int32) (total process : UInt64) (s : This) :
    (recordCpu nb total process s).obj.mNeedUpdate = s.obj.mNeedUpdate := by
  unfold ProcessInfo.recordCpu
  split <;> rfl

/-- Code that brought a source up to date, and computed with it. -/
structure Serves (sys : Sys) (src : Source) (l t : Logged) : Prop where
  obj  : Alike (refreshed sys src l.this.obj) t.this.obj
  flag : ∀ u, t.this.obj.mNeedUpdate u = l.this.obj.mNeedUpdate u ∨ u = src ∨ u.behind = some src
  log  : t.log = l.log ++ readOf src l.this.obj
  read : l.this.obj.mNeedUpdate src = true → ∃ r, (reader sys src).run l.this.obj = .ok () r

theorem Serves.of_not_due {sys : Sys} {src : Source} {l : Logged} (h : l.this.obj.mNeedUpdate src = false) :
    Serves sys src l l := by
  refine ⟨?_, fun _ => .inl rfl, ?_, fun hd => absurd (h.symm.trans hd) (by decide)⟩
  · rw [refreshed_of_not_due sys h]
    exact Alike.refl _
  · rw [readOf_of_not_due h, List.append_nil]

theorem of_run_unlogged {α : Type} {x : Cpp This α} {l t : Logged} {a : α} (h : (unlogged x).run l = .ok a t) :
    x.run l.this = .ok a t.this ∧ t.log = l.log := by
  rw [EStateM.run, unlogged] at h
  cases hx : x.run l.this with
  | ok b s => rw [hx] at h; cases h; exact ⟨rfl, rfl⟩
  | error e s => rw [hx] at h; cases h

theorem of_run_modify {g : This → This} {s t : This} (h : (modify g : Cpp This Unit).run s = .ok () t) : g s = t := by
  cases h
  rfl

theorem of_run_loggedGetter {sys : Sys} {src : Source} {α : Type} {value : ProcessInfo → α} {l t : Logged} {a : α}
    (h : (loggedGetter sys src value).run l = .ok a t) :
    t = ⟨⟨refreshed sys src l.this.obj, l.this.static⟩, l.log ++ readOf src l.this.obj⟩ ∧
      (l.this.obj.mNeedUpdate src = true → ∃ r, (reader sys src).run l.this.obj = .ok () r) := by
  obtain ⟨_, m, hrefresh, hreturn⟩ := of_run_bind_ok h
  cases hreturn
  exact of_run_loggedRefresh hrefresh

theorem Serves.of_refresh {sys : Sys} {src : Source} {l t : Logged} (h : (loggedRefresh sys src).run l = .ok () t) :
    Serves sys src l t := by
  obtain ⟨rfl, hread⟩ := of_run_loggedRefresh h
  exact ⟨Alike.refl _, mNeedUpdate_refreshed_or sys src _, rfl, hread⟩

theorem Serves.of_getter {sys : Sys} {src : Source} {α : Type} {value : ProcessInfo → α} {l t : Logged} {a : α}
    (h : (loggedGetter sys src value).run l = .ok a t) : Serves sys src l t := by
  obtain ⟨rfl, hread⟩ := of_run_loggedGetter h
  exact ⟨Alike.refl _, mNeedUpdate_refreshed_or sys src _, rfl, hread⟩

theorem run_loggedRefresh_stat (sys : Sys) (l : Logged) : ∃ t, (loggedRefresh sys .stat).run l = .ok () t := by
  simp only [loggedRefresh, EStateM.run_bind, EStateM.run_get]
  cases l.this.obj.mNeedUpdate .stat with
  | false => exact ⟨l, rfl⟩
  | true => exact ⟨_, rfl⟩

theorem obj_nbCore {sys : Sys} {s t : This} {nb : Int32} (h : (nbCore sys).run s = .ok nb t) : t.obj = s.obj := by
  obtain ⟨p, cores, table⟩ := s
  simp only [nbCore, EStateM.run_bind, EStateM.run_get] at h
  cases cores with
  | some n => cases h; rfl
  | none =>
    obtain ⟨n, s₁, hlift, hmodify⟩ := of_run_bind_ok h
    cases hn : getNbCores sys with
    | error e => rw [hn] at hlift; cases hlift
    | ok k =>
      rw [hn] at hlift
      cases hlift
      cases hmodify
      rfl

theorem of_run_loggedRefreshUsage {sys : Sys} {u src : Source} (hu : u.behind = some src) {x : Cpp Logged Unit}
    {l t : Logged} (hx : ∀ m, x.run l = .ok () m → Serves sys src l m)
    (hsync : l.this.obj.mNeedUpdate u = false → l.this.obj.mNeedUpdate src = false)
    (h : (loggedRefreshUsage u x).run l = .ok () t) : Serves sys src l t := by
  simp only [loggedRefreshUsage, EStateM.run_bind, EStateM.run_get] at h
  cases hd : l.this.obj.mNeedUpdate u with
  | false =>
    simp only [hd, Bool.false_eq_true, if_false] at h
    obtain rfl : l = t := by cases h; rfl
    exact Serves.of_not_due (hsync hd)
  | true =>
    simp only [hd, if_true] at h
    obtain ⟨_, m, hupdate, hclear⟩ := of_run_bind_ok h
    have hm := hx m hupdate
    cases hclear
    refine ⟨hm.obj.trans (Alike.updated (Source.not_isFile_of_behind hu) _), fun v => ?_, hm.log, hm.read⟩
    by_cases hv : v = u
    · exact .inr (.inr (hv ▸ hu))
    · rw [show (m.this.obj.updated u).mNeedUpdate v = m.this.obj.mNeedUpdate v from Function.update_of_ne hv _ _]
      exact hm.flag v

theorem serves_loggedIoUsage {sys : Sys} {m : IoMetric} {l t : Logged} {a : Rat}
    (hsync : l.this.obj.mNeedUpdate m.source = false → l.this.obj.mNeedUpdate .io = false)
    (h : (loggedIoUsage sys m).run l = .ok a t) : Serves sys .io l t := by
  obtain ⟨_, m', hupdate, hreturn⟩ := of_run_bind_ok h
  cases hreturn
  refine of_run_loggedRefreshUsage (IoMetric.behind_source m) (fun n hn => ?_) hsync hupdate
  obtain ⟨bytes, n', hread, hrecord⟩ := of_run_bind_ok hn
  obtain ⟨rfl, hok⟩ := of_run_loggedGetter hread
  obtain ⟨hrun, hlog⟩ := of_run_unlogged hrecord
  have hthis := of_run_modify hrun
  refine ⟨by rw [← hthis]; exact (Computes.recordIo m bytes _).files, fun u => ?_, hlog, hok⟩
  rw [← hthis, mNeedUpdate_recordIo]
  exact mNeedUpdate_refreshed_or sys .io _ u

theorem serves_loggedCpuUsage {sys : Sys} {l t : Logged} {a : Int32}
    (hsync : l.this.obj.mNeedUpdate .cpuUsage = false → l.this.obj.mNeedUpdate .stat = false)
    (h : (loggedCpuUsage sys).run l = .ok a t) : Serves sys .stat l t := by
  obtain ⟨_, m', hupdate, hreturn⟩ := of_run_bind_ok h
  cases hreturn
  refine of_run_loggedRefreshUsage rfl (fun n hn => ?_) hsync hupdate
  obtain ⟨nb, l₁, hcores, hn⟩ := of_run_bind_ok hn
  obtain ⟨utime, l₂, hutime, hn⟩ := of_run_bind_ok hn
  obtain ⟨stime, l₃, hstime, hrecord⟩ := of_run_bind_ok hn
  obtain ⟨hrun, hlog⟩ := of_run_unlogged hcores
  have hobj : l₁.this.obj = l.this.obj := obj_nbCore hrun
  obtain ⟨rfl, hok⟩ := of_run_loggedGetter hutime
  obtain ⟨rfl, -⟩ := of_run_loggedGetter hstime
  -- `stime()` finds `stat` up to date
  have hclear := mNeedUpdate_refreshed sys .stat l₁.this.obj
  have hnone := readOf_of_not_due hclear
  have hsame := refreshed_of_not_due sys hclear
  simp only [hnone, hsame, List.append_nil] at hrecord
  obtain ⟨hrec, hlog'⟩ := of_run_unlogged hrecord
  have hthis := of_run_modify hrec
  rw [hobj] at hthis hok hlog'
  refine ⟨by rw [← hthis]; exact (Computes.recordCpu nb _ _ _).files, fun u => ?_, ?_, hok⟩
  · rw [← hthis, mNeedUpdate_recordCpu]
    exact mNeedUpdate_refreshed_or sys .stat _ u
  · rw [hlog']
    simp only [hlog]

theorem Serves.again {sys : Sys} {src : Source} (hsrc : src.IsFile) {l m t : Logged} (h : Serves sys src l m)
    (h' : Serves sys src m t) : Serves sys src l t := by
  have hclear : m.this.obj.mNeedUpdate src = false := by
    rw [(h.obj src hsrc).2, mNeedUpdate_refreshed]
  refine ⟨?_, fun u => ?_, ?_, h.read⟩
  · have hobj := h'.obj
    rw [refreshed_of_not_due sys hclear] at hobj
    exact h.obj.trans hobj
  · rcases h'.flag u with hu | hu
    · rw [hu]
      exact h.flag u
    · exact .inr hu
  · rw [h'.log, h.log, readOf_of_not_due hclear, List.append_nil]

/-- The flag of a usage is down only when that of its file is. -/
def Synced (p : ProcessInfo) : Prop :=
  ∀ u src : Source, u.behind = some src → p.mNeedUpdate u = false → p.mNeedUpdate src = false

namespace Serves

variable {sys : Sys} {src : Source} {l t : Logged}

theorem mNeedUpdate_src (h : Serves sys src l t) (hsrc : src.IsFile) : t.this.obj.mNeedUpdate src = false := by
  rw [(h.obj src hsrc).2, mNeedUpdate_refreshed]

theorem of_ne (h : Serves sys src l t) {src' : Source} (hfile : src'.IsFile) (hne : src' ≠ src) :
    src'.members t.this.obj = src'.members l.this.obj ∧
      t.this.obj.mNeedUpdate src' = l.this.obj.mNeedUpdate src' := by
  rw [(h.obj src' hfile).1, (h.obj src' hfile).2]
  exact refreshed_of_ne hne _

theorem synced (h : Serves sys src l t) (hsrc : src.IsFile) (hl : Synced l.this.obj) : Synced t.this.obj := by
  intro u src' hu hclear
  by_cases hs : src' = src
  · subst hs
    exact h.mNeedUpdate_src hsrc
  · have hfile := Source.isFile_of_behind hu
    rw [(h.of_ne hfile hs).2]
    refine hl u src' hu ?_
    rcases h.flag u with hsame | rfl | hsrc'
    · rwa [hsame] at hclear
    · exact absurd hsrc (Source.not_isFile_of_behind hu)
    · exact absurd (Option.some.inj (hu.symm.trans hsrc')) hs

end Serves

/-- The two metrics of a sum read `io` once. -/
theorem serves_loggedIoUsages {sys : Sys} (m m' : IoMetric) (sum : Rat → Rat → Rat) {l t : Logged} {a : Rat}
    (hp : Synced l.this.obj)
    (h : (loggedIoUsage sys m >>= fun x => loggedIoUsage sys m' >>= fun y => pure (sum x y)).run l = .ok a t) :
    Serves sys .io l t := by
  obtain ⟨x, l₁, h₁, h⟩ := of_run_bind_ok h
  obtain ⟨y, l₂, h₂, h⟩ := of_run_bind_ok h
  have hs := serves_loggedIoUsage (hp _ _ (IoMetric.behind_source m)) h₁
  have hs' := serves_loggedIoUsage (hs.synced trivial hp _ _ (IoMetric.behind_source m')) h₂
  have hfile : Source.IsFile .io := trivial
  cases h
  exact hs.again hfile hs'

/-! ## Calls -/

/-- A call of a member function: the state of the system, and the statics as the rest of the program left them.  No call
looks at a part of the system twice, so one state serves the whole call. -/
structure Access where
  sys    : Sys
  static : Static
  member : Member

namespace Access

variable (c : Access) (p : ProcessInfo)

def run : EStateM.Result Exn This c.member.Val := (c.member.call c.sys).run ⟨p, c.static⟩

def after : ProcessInfo := (state (c.run p)).obj

def logged : Logged := state ((c.member.logged c.sys).run ⟨⟨p, c.static⟩, []⟩)

/-- The sources the call reads. -/
def reads : List Source := (c.logged p).log

/-- No reader throws.  Only `ttyNr()` throws without one, and the reader it calls never does. -/
def Quiet : Prop := c.member = .query (.get .ttyNr) ∨ ∃ a s, c.run p = .ok a s

theorem obj_logged : (c.logged p).this.obj = c.after p := by
  have h : (c.logged p).this = state (c.run p) := (couples_call c.sys c.member ⟨⟨p, c.static⟩, []⟩ _ rfl).2
  rw [h]
  rfl

variable {c p}

theorem run_logged {a : c.member.Val} {s : This} (h : c.run p = .ok a s) :
    (c.member.logged c.sys).run ⟨⟨p, c.static⟩, []⟩ = .ok a (c.logged p) := by
  have hv := (couples_call c.sys c.member ⟨⟨p, c.static⟩, []⟩ _ rfl).1
  rw [show (c.member.call c.sys).run _ = .ok a s from h] at hv
  unfold logged
  cases hr : (c.member.logged c.sys).run ⟨⟨p, c.static⟩, []⟩ with
  | ok b t =>
    rw [hr] at hv
    obtain rfl : b = a := by simpa using hv
    rfl
  | error e t => rw [hr] at hv; cases hv

/-- **A call of anything but `needUpdate()`** needs no source and does nothing, or serves the one it needs. -/
theorem serves (hm : c.member ≠ .needUpdate) (hp : Synced p) (hq : c.Quiet p) :
    (c.member.needs = [] ∧ c.logged p = ⟨⟨p, c.static⟩, []⟩) ∨
      ∃ src : Source, src.IsFile ∧ c.member.needs = [src] ∧ Serves c.sys src ⟨⟨p, c.static⟩, []⟩ (c.logged p) := by
  obtain ⟨sys, st, m⟩ := c
  -- a call that ended well
  have hok : ∀ {m : Member}, m ≠ .query (.get .ttyNr) → (⟨sys, st, m⟩ : Access).Quiet p →
      ∃ a, (m.logged sys).run ⟨⟨p, st⟩, []⟩ = .ok a ((⟨sys, st, m⟩ : Access).logged p) := by
    rintro m hne (h | ⟨a, s, h⟩)
    · exact absurd h hne
    · exact ⟨a, run_logged h⟩
  cases m with
  | needUpdate => exact absurd rfl hm
  | pid => exact .inl ⟨rfl, rfl⟩
  | userName passwd beyond =>
    obtain ⟨a, h⟩ := hok (by simp) hq
    exact .inr ⟨.status, trivial, rfl, @Serves.of_getter sys .status _ (nameOfUid passwd beyond) _ _ _ h⟩
  | query q =>
    cases q with
    | get g =>
      refine .inr ⟨g.source, by cases g <;> trivial, rfl, ?_⟩
      have hrefresh : ∃ t, (loggedRefresh sys g.source).run ⟨⟨p, st⟩, []⟩ = .ok () t := by
        by_cases hg : g = .ttyNr
        · subst hg
          exact run_loggedRefresh_stat sys _
        · obtain ⟨a, h⟩ := hok (by simpa using hg) hq
          obtain ⟨_, t, h, -⟩ := of_run_bind_ok h
          exact ⟨t, h⟩
      obtain ⟨t, ht⟩ := hrefresh
      have hlogged : (⟨sys, st, .query (.get g)⟩ : Access).logged p = t := by
        have hstate := state_run_bind (x := loggedRefresh sys g.source)
          (k := fun _ => get >>= fun l => lift (g.value sys l.this.obj)) (fun _ s => state_run_lift _ s) ⟨⟨p, st⟩, []⟩
        rw [ht] at hstate
        exact hstate
      rw [hlogged]
      exact Serves.of_refresh ht
    | usage u =>
      obtain ⟨a, h⟩ := hok (by simp) hq
      cases u with
      | cpuUsage => exact .inr ⟨.stat, trivial, rfl, serves_loggedCpuUsage (hp _ _ rfl) h⟩
      | ioReadUsage => exact .inr ⟨.io, trivial, rfl, serves_loggedIoUsage (m := .read) (hp _ _ rfl) h⟩
      | ioWriteUsage => exact .inr ⟨.io, trivial, rfl, serves_loggedIoUsage (m := .write) (hp _ _ rfl) h⟩
      | ioTotalUsage readFirst =>
        refine .inr ⟨.io, trivial, rfl, ?_⟩
        cases readFirst with
        | true => exact serves_loggedIoUsages .read .write (fun r w => r + w) hp h
        | false => exact serves_loggedIoUsages .write .read (fun w r => r + w) hp h

theorem mem_needs_iff {src src' : Source} (h : c.member.needs = [src']) : src ∈ c.member.needs ↔ src = src' := by
  rw [h, List.mem_singleton]

theorem synced (hm : c.member ≠ .needUpdate) (hp : Synced p) (hq : c.Quiet p) : Synced (c.after p) := by
  have hobj := obj_logged c p
  rw [← hobj]
  rcases serves hm hp hq with ⟨-, hsame⟩ | ⟨src, hsrc, -, hs⟩
  · rw [hsame]
    exact hp
  · exact hs.synced hsrc hp

/-- A call keeps what it does not need, and what is up to date. -/
theorem keeps (hm : c.member ≠ .needUpdate) (hp : Synced p) (hq : c.Quiet p) {src : Source} (hsrc : src.IsFile)
    (h : src ∈ c.member.needs → p.mNeedUpdate src = false) :
    src.members (c.after p) = src.members p ∧ (c.after p).mNeedUpdate src = p.mNeedUpdate src ∧ src ∉ c.reads p := by
  have hobj := obj_logged c p
  rcases serves hm hp hq with ⟨-, hsame⟩ | ⟨src', hsrc', hneeds, hs⟩
  · rw [← hobj, reads, hsame]
    exact ⟨rfl, rfl, List.not_mem_nil⟩
  rw [← hobj]
  by_cases heq : src = src'
  · subst heq
    have hclear := h ((mem_needs_iff hneeds).2 rfl)
    refine ⟨?_, ?_, ?_⟩
    · rw [(hs.obj src hsrc).1, refreshed_of_not_due _ hclear]
    · rw [hs.mNeedUpdate_src hsrc, hclear]
    · rw [reads, hs.log, readOf_of_not_due hclear]
      exact List.not_mem_nil
  · obtain ⟨hmembers, hflag⟩ := hs.of_ne hsrc heq
    refine ⟨hmembers, hflag, fun hread => heq ?_⟩
    rw [reads, hs.log, readOf] at hread
    split at hread
    · simpa using hread
    · simp at hread

/-- A call that needs a source that is due reads it once. -/
theorem takes (hm : c.member ≠ .needUpdate) (hp : Synced p) (hq : c.Quiet p) {src : Source}
    (h : src ∈ c.member.needs) (hdue : p.mNeedUpdate src = true) :
    c.reads p = [src] ∧ (c.after p).mNeedUpdate src = false ∧
      ∃ r, (reader c.sys src).run p = .ok () r ∧ src.members (c.after p) = src.members r := by
  have hobj := obj_logged c p
  rcases serves hm hp hq with ⟨hneeds, -⟩ | ⟨src', hsrc, hneeds, hs⟩
  · rw [hneeds] at h
    cases h
  obtain rfl := (mem_needs_iff hneeds).1 h
  obtain ⟨r, hr⟩ := hs.read hdue
  rw [← hobj]
  refine ⟨?_, hs.mNeedUpdate_src hsrc, r, hr, ?_⟩
  · rw [reads, hs.log, readOf, if_pos hdue]
    rfl
  · rw [(hs.obj src hsrc).1, refreshed, if_pos hdue, show (reader c.sys src).run _ = .ok () r from hr]
    cases src <;> rfl

end Access

/-! ## Runs -/

def afterCalls (p : ProcessInfo) (cs : List Access) : ProcessInfo := cs.foldl (fun p c => c.after p) p

@[simp] theorem afterCalls_nil (p : ProcessInfo) : afterCalls p [] = p := rfl
@[simp] theorem afterCalls_cons (p : ProcessInfo) (c : Access) (cs : List Access) :
    afterCalls p (c :: cs) = afterCalls (c.after p) cs := rfl

theorem afterCalls_append (p : ProcessInfo) (cs ds : List Access) :
    afterCalls p (cs ++ ds) = afterCalls (afterCalls p cs) ds := List.foldl_append

/-- Calls in which no reader throws. -/
def QuietRun : ProcessInfo → List Access → Prop
  | _, []      => True
  | p, c :: cs => c.Quiet p ∧ QuietRun (c.after p) cs

theorem quietRun_append {p : ProcessInfo} {cs ds : List Access} :
    QuietRun p (cs ++ ds) ↔ QuietRun p cs ∧ QuietRun (afterCalls p cs) ds := by
  induction cs generalizing p with
  | nil => simp [QuietRun]
  | cons c cs ih => simp only [List.cons_append, QuietRun, ih, afterCalls_cons, and_assoc]

def Between (cs : List Access) : Prop := ∀ c ∈ cs, c.member ≠ .needUpdate

section

variable {src : Source} {p : ProcessInfo}

theorem synced_run : ∀ {cs : List Access} {p : ProcessInfo}, Synced p → Between cs → QuietRun p cs →
    Synced (afterCalls p cs)
  | [], _, hp, _, _ => hp
  | c :: cs, p, hp, hb, ⟨hq, hqs⟩ =>
    synced_run (p := c.after p) (Access.synced (hb c (by simp)) hp hq) (fun d hd => hb d (by simp [hd])) hqs

/-- **Between two refreshes** a source keeps its members and its flag while it is up to date or not needed. -/
theorem keeps_run (hsrc : src.IsFile) : ∀ {cs : List Access} {p : ProcessInfo}, Between cs → QuietRun p cs → Synced p →
    (p.mNeedUpdate src = false ∨ ∀ c ∈ cs, src ∉ c.member.needs) →
      src.members (afterCalls p cs) = src.members p ∧ (afterCalls p cs).mNeedUpdate src = p.mNeedUpdate src
  | [], p, _, _, _, _ => ⟨rfl, rfl⟩
  | c :: cs, p, hb, ⟨hq, hqs⟩, hp, h => by
    have hc : src ∈ c.member.needs → p.mNeedUpdate src = false := fun hmem =>
      h.resolve_right fun hnone => hnone c (by simp) hmem
    obtain ⟨hmembers, hflag, -⟩ := Access.keeps (hb c (by simp)) hp hq hsrc hc
    have hsynced := Access.synced (hb c (by simp)) hp hq
    have hrest : (c.after p).mNeedUpdate src = false ∨ ∀ d ∈ cs, src ∉ d.member.needs :=
      h.imp (fun h => hflag.trans h) fun h d hd => h d (by simp [hd])
    obtain ⟨ih₁, ih₂⟩ := keeps_run hsrc (fun d hd => hb d (by simp [hd])) hqs hsynced hrest
    exact ⟨ih₁.trans hmembers, ih₂.trans hflag⟩

/-- `c`, after `xs`, is the first call that needs a source. -/
def First (src : Source) (xs : List Access) (c : Access) : Prop :=
  src ∈ c.member.needs ∧ ∀ x ∈ xs, src ∉ x.member.needs

/-- One snapshot of a source during the calls: the first call that needs it reads it once, no other does, and until the
end its members are what that read made them. -/
structure Snapshot (src : Source) (p : ProcessInfo) (cs : List Access) : Prop where
  first : ∀ xs c ys, cs = xs ++ c :: ys → First src xs c → (c.reads (afterCalls p xs)).count src = 1
  later : ∀ xs c ys, cs = xs ++ c :: ys → ¬ First src xs c → src ∉ c.reads (afterCalls p xs)
  keeps : ∀ xs c ys, cs = xs ++ c :: ys → First src xs c → ∃ r, (reader c.sys src).run (afterCalls p xs) = .ok () r ∧
    ∀ ys₁ ys₂, ys = ys₁ ++ ys₂ → src.members (afterCalls p (xs ++ c :: ys₁)) = src.members r

theorem not_due_of_needed (hsrc : src.IsFile) (hp : Synced p) (hdue : p.mNeedUpdate src = true) {xs : List Access}
    (hb : Between xs) (hq : QuietRun p xs) (hneeded : ∃ x ∈ xs, src ∈ x.member.needs) :
    (afterCalls p xs).mNeedUpdate src = false := by
  induction xs generalizing p with
  | nil => simp at hneeded
  | cons x xs ih =>
    obtain ⟨hqx, hqs⟩ := hq
    have hbs : Between xs := fun d hd => hb d (by simp [hd])
    have hsynced := Access.synced (hb x (by simp)) hp hqx
    rw [afterCalls_cons]
    by_cases hx : src ∈ x.member.needs
    · obtain ⟨-, hclear, -⟩ := Access.takes (hb x (by simp)) hp hqx hx hdue
      exact (keeps_run hsrc hbs hqs hsynced (.inl hclear)).2.trans hclear
    · obtain ⟨-, hflag, -⟩ := Access.keeps (hb x (by simp)) hp hqx hsrc fun h => absurd h hx
      refine ih hsynced (hflag.trans hdue) hbs hqs ?_
      obtain ⟨y, hy, hmem⟩ := hneeded
      rcases List.mem_cons.1 hy with rfl | hy
      · exact absurd hmem hx
      · exact ⟨y, hy, hmem⟩

/-- **One snapshot of each source**, from an object whose flags are all up. -/
theorem snapshot_of_due (hsrc : src.IsFile) (hdue : ∀ u, p.mNeedUpdate u = true) {cs : List Access} (hb : Between cs)
    (hq : QuietRun p cs) : Snapshot src p cs := by
  have hp : Synced p := fun u _ _ h => absurd ((hdue u).symm.trans h) (by decide)
  -- before a call
  have hsplit : ∀ xs c ys, cs = xs ++ c :: ys → Between xs ∧ c.member ≠ .needUpdate ∧ QuietRun p xs ∧
      c.Quiet (afterCalls p xs) ∧ Synced (afterCalls p xs) := by
    rintro xs c ys rfl
    obtain ⟨hqxs, hqc, -⟩ := quietRun_append.1 hq
    have hbxs : Between xs := fun d hd => hb d (by simp [hd])
    exact ⟨hbxs, hb c (by simp), hqxs, hqc, synced_run hp hbxs hqxs⟩
  -- a source no call has needed is still due
  have hstill : ∀ xs, Between xs → QuietRun p xs → (∀ x ∈ xs, src ∉ x.member.needs) →
      (afterCalls p xs).mNeedUpdate src = true := fun xs hbxs hqxs hnone =>
    (keeps_run hsrc hbxs hqxs hp (.inr hnone)).2.trans (hdue src)
  refine ⟨fun xs c ys hcs hfirst => ?_, fun xs c ys hcs hnot => ?_, fun xs c ys hcs hfirst => ?_⟩
  · obtain ⟨hbxs, hm, hqxs, hqc, hs⟩ := hsplit xs c ys hcs
    rw [(Access.takes hm hs hqc hfirst.1 (hstill xs hbxs hqxs hfirst.2)).1, List.count_singleton_self]
  · obtain ⟨hbxs, hm, hqxs, hqc, hs⟩ := hsplit xs c ys hcs
    by_cases hneeded : ∃ x ∈ xs, src ∈ x.member.needs
    · have hclear := not_due_of_needed hsrc hp (hdue src) hbxs hqxs hneeded
      exact (Access.keeps hm hs hqc hsrc fun _ => hclear).2.2
    · have hnone : ∀ x ∈ xs, src ∉ x.member.needs := fun x hx hmem => hneeded ⟨x, hx, hmem⟩
      exact (Access.keeps hm hs hqc hsrc fun hmem => absurd ⟨hmem, hnone⟩ hnot).2.2
  · obtain ⟨hbxs, hm, hqxs, hqc, hs⟩ := hsplit xs c ys hcs
    have hsynced := Access.synced hm hs hqc
    obtain ⟨-, hclear, r, hr, hmembers⟩ := Access.takes hm hs hqc hfirst.1 (hstill xs hbxs hqxs hfirst.2)
    refine ⟨r, hr, fun ys₁ ys₂ hys => ?_⟩
    subst hys hcs
    obtain ⟨-, -, hqys⟩ := quietRun_append.1 hq
    obtain ⟨hqys₁, -⟩ := quietRun_append.1 hqys
    have hbys : Between ys₁ := fun d hd => hb d (by simp [hd])
    rw [afterCalls_append, afterCalls_cons, (keeps_run hsrc hbys hqys₁ hsynced (.inl hclear)).1, hmembers]

/-- **All getters see one snapshot per file between two calls of `needUpdate()`.**  The statics and the system are what
they happen to be at each call. -/
theorem snapshots (junk : ProcessInfo) (pid : Int32) {src : Source} (hsrc : src.IsFile) {pre seg : List Access}
    (hpre : pre = [] ∨ ∃ xs c, pre = xs ++ [c] ∧ c.member = .needUpdate) (hseg : Between seg)
    (hquiet : QuietRun (afterCalls (construct junk pid) pre) seg) :
    Snapshot src (afterCalls (construct junk pid) pre) seg := by
  refine snapshot_of_due hsrc ?_ hseg hquiet
  rcases hpre with rfl | ⟨xs, ⟨sys, st, m⟩, rfl, hm⟩
  · exact fun u => rfl
  · subst hm
    rw [afterCalls_append]
    exact fun u => rfl

def Access.small (m : Member) : Access := ⟨Sys.small (.init 0 0) (.bytes 7 0) 0 0, .initial, m⟩

/-- A rate and then the bytes behind it: one read of `io`. -/
theorem snapshots_small : Snapshot .io (construct zeroed 1)
    [.small (.query (.usage .ioReadUsage)), .small (.query (.get .readBytes))] := by
  have hpath : (construct zeroed 1).mProcPath = procPath 1 := rfl
  have hrate : (Access.small (.query (.usage .ioReadUsage))).Quiet (construct zeroed 1) :=
    .inr ⟨_, _, run_usage .ioReadUsage (Shown.small .ioReadUsage (.init 0 0) rfl (.bytes 7 0) 0 0) hpath⟩
  have hsynced : Synced (construct zeroed 1) := fun _ _ _ h => by cases h
  have hclear : ((Access.small (.query (.usage .ioReadUsage))).after (construct zeroed 1)).mNeedUpdate .io = false :=
    (Access.takes (by simp [Access.small]) hsynced hrate (by decide) rfl).2.1
  have hbytes : (Access.small (.query (.get .readBytes))).Quiet _ := .inr ⟨_, _, run_onObj_ok (run_getter_of_not_due hclear)⟩
  have hbetween : Between [.small (.query (.usage .ioReadUsage)), .small (.query (.get .readBytes))] := by
    intro c hc
    simp only [List.mem_cons, List.not_mem_nil, or_false] at hc
    rcases hc with rfl | rfl <;> exact fun h => by cases h
  exact @snapshots zeroed 1 .io trivial [] _ (.inl rfl) hbetween ⟨hrate, hbytes, trivial⟩

end

end SysInfo
