import SysInfo.Samples
import SysInfo.Snapshot
/-!
# Report — what `operator<<` prints of an object

The lines of a report take eight getters, and the process goes on while they are called.  The first one refreshes `stat`
and the others find it up to date, so that all its figures are of one moment; then comes one read of `fd`, and one of
`status` for the last line, which goes to `std::cout`.

`print_reported`: what a call has written when it returns or throws is a part, from the start, of the report of the object
as the call leaves it.
-/
namespace SysInfo

open IStream Effects ProcessInfo

/-! ## The operator -/

variable {σ : Type} [DecidableEq σ]

/-- The object, and what the streams of a program have been given. -/
structure Printing (σ : Type) where
  obj  : ProcessInfo
  text : σ → List Char

/-- What the getters of a report find, each at its own time. -/
structure Moments where
  name      : Sys
  ppid      : Sys
  pgid      : Sys
  sid       : Sys
  ttyNr     : Sys
  startTime : Sys
  fds       : Sys
  userName  : Sys

/-- `std::cout`, the macros of `linux/kdev_t.h`, the order in which `unordered_map` lists its entries, what `getpwuid` finds,
and the memory behind an empty `m_uids`.  A chain of `<<` may call a getter before or after it writes what stands to its
left: `written` is how much of that is out by then. -/
structure PrintHost (σ : Type) where
  cout    : σ
  major   : Int32 → Int32
  minor   : Int32 → Int32
  walk    : (Int → Option (List Char)) → List (Int × List Char)
  passwd  : Int → Option (List Char)
  beyond  : Int
  written : List Char → Nat

namespace Printing

/-- The object as a call leaves it, and a text given to a stream. -/
def after (r : Printing σ) (p : ProcessInfo) (s : σ) (text : List Char) : Printing σ :=
  ⟨p, Function.update r.text s (r.text s ++ text)⟩

@[simp] theorem obj_after (r : Printing σ) (p : ProcessInfo) (s : σ) (text : List Char) : (r.after p s text).obj = p := rfl

@[simp] theorem after_after (r : Printing σ) (p q : ProcessInfo) (s : σ) (a b : List Char) :
    (r.after p s a).after q s b = r.after q s (a ++ b) := by
  simp [after]

theorem after_nil (r : Printing σ) (p : ProcessInfo) (s : σ) : (r.after p s []).text = r.text := by
  simp [after]

end Printing

def put (s : σ) (text : List Char) : Cpp (Printing σ) Unit := modify fun r => r.after r.obj s text

def onProcess {α : Type} (x : Cpp ProcessInfo α) : Cpp (Printing σ) α := fun r =>
  match x.run r.obj with
  | .ok a p    => .ok a { r with obj := p }
  | .error e p => .error e { r with obj := p }

section Operator

variable (h : PrintHost σ) (os : σ) (v : Moments)

/-- `s << head << getter()`, and what follows up to the end of the line. -/
def insertion (s : σ) (head : List Char) (rest : Cpp ProcessInfo (List Char)) : Cpp (Printing σ) Unit := do
  put s (head.take (h.written head))
  let text ← onProcess rest
  put s (head.drop (h.written head) ++ text)

/-- A line with one figure. -/
def putLine (s : σ) (head : String) (x : Cpp ProcessInfo (List Char)) : Cpp (Printing σ) Unit :=
  insertion h s head.toList (return (← x) ++ "\n".toList)

/-- A number of `stat`, as a stream writes it. -/
def figure (f : StatField) (x : f.Val) : List Char := decimalInt (f.type.toInt x)

/-- The numbers of `stat`. -/
abbrev Figures := (f : StatField) → f.Val

def Figures.text (m : Figures) (f : StatField) : List Char := figure f (m f)

/-- `MAJOR(p.m_tty_nr)` and `MINOR(p.m_tty_nr)`. -/
def ttyHead (m : Figures) : List Char :=
  let tty : Int32 := m .ttyNr
  "Controlling tty : Major : ".toList ++ (decimalInt (h.major tty).toInt ++ (", Minor : ".toList ++
    (decimalInt (h.minor tty).toInt ++ " (".toList)))

def startHead (m : Figures) : List Char :=
  "starttime : jiffies : ".toList ++ (m.text .starttime ++ ", diff : ".toList)

def threadsLine (m : Figures) : List Char := "Threads : ".toList ++ (m.text .numThreads ++ "\n".toList)

def fdLine (x : Int × List Char) : List Char :=
  '[' :: (decimalInt x.1 ++ ("] => ".toList ++ (x.2 ++ "\n".toList)))

/-- `operator<<(std::ostream&, ProcessInfo&)`. -/
def print : Cpp (Printing σ) Unit := do
  putLine h os "Name : " (name v.name)
  putLine h os "PID : " (return decimalInt (← pid).toInt)
  putLine h os "Parent PID : " (return figure .ppid (← ppid v.ppid))
  putLine h os "Process Group ID : " (return figure .pgid (← pgid v.pgid))
  putLine h os "Session ID : " (return figure .session (← sid v.sid))
  -- the members are plain loads: `stat` is up to date since the first line
  insertion h os (ttyHead h (← get).obj.mStat) (return (← ttyNr v.ttyNr) ++ ")\n".toList)
  insertion h os (startHead (← get).obj.mStat) (return decimal (← startTime v.startTime).toNat ++ "\n".toList)
  put os (threadsLine (← get).obj.mStat)
  put os "Opened Files :\n".toList
  put os ((h.walk (← onProcess (fds v.fds))).flatMap fdLine)
  -- the last line does not go to `os`
  putLine h h.cout "user name : " (userName v.userName h.passwd h.beyond)

end Operator

/-! ## Lines -/

section Lines

variable {h : PrintHost σ} {r : Printing σ} {s : σ} {text : List Char} {rest : Cpp ProcessInfo (List Char)} {p : ProcessInfo}

theorem run_text_ok {α : Type} {x : Cpp ProcessInfo α} {a : α} {q : ProcessInfo} (f : α → List Char) (hx : x.run p = .ok a q) :
    (x >>= fun a => pure (f a) : Cpp ProcessInfo (List Char)).run p = .ok (f a) q := by
  rw [EStateM.run_bind, hx]
  rfl

theorem run_text_error {α : Type} {x : Cpp ProcessInfo α} {e : Exn} {q : ProcessInfo} (f : α → List Char)
    (hx : x.run p = .error e q) : (x >>= fun a => pure (f a) : Cpp ProcessInfo (List Char)).run p = .error e q := by
  rw [EStateM.run_bind, hx]

omit [DecidableEq σ] in
theorem run_onProcess_ok {α : Type} {x : Cpp ProcessInfo α} {a : α} (hx : x.run r.obj = .ok a p) :
    (onProcess x).run r = .ok a { r with obj := p } := by
  rw [EStateM.run, onProcess, hx]

omit [DecidableEq σ] in
theorem run_onProcess_error {α : Type} {x : Cpp ProcessInfo α} {e : Exn} (hx : x.run r.obj = .error e p) :
    (onProcess x).run r = .error e { r with obj := p } := by
  rw [EStateM.run, onProcess, hx]

theorem run_insertion_ok {head : List Char} (hr : rest.run r.obj = .ok text p) :
    (insertion h s head rest).run r = .ok () (r.after p s (head ++ text)) := by
  have hfirst : (onProcess rest).run (r.after r.obj s (head.take (h.written head))) = _ := run_onProcess_ok hr
  simp only [insertion, put, EStateM.run_bind, EStateM.run_modify, hfirst]
  show EStateM.Result.ok () ((r.after p s (head.take (h.written head))).after p s _) = _
  rw [Printing.after_after, ← List.append_assoc, List.take_append_drop]

theorem run_insertion_error {head : List Char} {e : Exn} (hr : rest.run r.obj = .error e p) :
    (insertion h s head rest).run r = .error e (r.after p s (head.take (h.written head))) := by
  have hfirst : (onProcess rest).run (r.after r.obj s (head.take (h.written head))) = _ := run_onProcess_error hr
  simp only [insertion, put, EStateM.run_bind, EStateM.run_modify, hfirst]
  rfl

def line (head : String) (text : List Char) : List Char := head.toList ++ (text ++ "\n".toList)

theorem run_putLine_ok {head : String} (hr : rest.run r.obj = .ok text p) :
    (putLine h s head rest).run r = .ok () (r.after p s (line head text)) := by
  exact run_insertion_ok (run_text_ok (· ++ "\n".toList) hr)

theorem run_putLine_error {head : String} {e : Exn} (hr : rest.run r.obj = .error e p) : (putLine h s head rest).run r =
    .error e (r.after p s (head.toList.take (h.written head.toList))) := by
  exact run_insertion_error (run_text_error (· ++ "\n".toList) hr)

variable {α : Type} {k : Cpp (Printing σ) α}

theorem run_putLine_bind {head : String} (hr : rest.run r.obj = .ok text p) :
    (putLine h s head rest >>= fun _ => k).run r = k.run (r.after p s (line head text)) := by
  rw [EStateM.run_bind, run_putLine_ok hr]

theorem run_insertion_bind {head : List Char} (hr : rest.run r.obj = .ok text p) :
    (insertion h s head rest >>= fun _ => k).run r = k.run (r.after p s (head ++ text)) := by
  rw [EStateM.run_bind, run_insertion_ok hr]

omit [DecidableEq σ] in
theorem run_get_bind {k : Printing σ → Cpp (Printing σ) α} : (get >>= k).run r = (k r).run r := rfl

theorem run_put_bind (text : List Char) : (put s text >>= fun _ => k).run r = k.run (r.after r.obj s text) := rfl

end Lines

/-! ## The report -/

section Report

variable (h : PrintHost σ)

/-- The lines up to the controlling terminal. -/
def headLines (name : List Char) (pid : Int32) (m : Figures) : List Char :=
  line "Name : " name ++ (line "PID : " (decimalInt pid.toInt) ++ (line "Parent PID : " (m.text .ppid) ++
    (line "Process Group ID : " (m.text .pgid) ++ line "Session ID : " (m.text .session))))

/-- What `startTime()` returns. -/
def sinceStart (sys : Sys) (m : Figures) : UInt64 :=
  let starttime : UInt64 := m .starttime
  sys.uptime - starttime / sys.clkTck

/-- The other lines of `stat`, from the path of the terminal on. -/
def tailLines (sys : Sys) (m : Figures) (path : List Char) : List Char :=
  (path ++ ")\n".toList) ++ ((startHead m ++ (decimal (sinceStart sys m).toNat ++ "\n".toList)) ++ (threadsLine m ++
    "Opened Files :\n".toList))

def statLines (sys : Sys) (name : List Char) (pid : Int32) (m : Figures) (path : List Char) : List Char :=
  headLines name pid m ++ (ttyHead h m ++ tailLines sys m path)

/-- The path of the terminal, when it is found. -/
def terminal (sys : Sys) (m : Figures) : List Char := (ttyPath sys (m .ttyNr)).toOption.getD []

/-- All that an object has for `os`. -/
def report (v : Moments) (p : ProcessInfo) : List Char :=
  statLines h v.startTime p.mName p.mPid p.mStat (terminal v.ttyNr p.mStat) ++ (h.walk p.mFds).flatMap fdLine

def userLine (p : ProcessInfo) : List Char := line "user name : " (nameOfUid h.passwd h.beyond p)

omit [DecidableEq σ] in
theorem report_congr {p q : ProcessInfo} (hm : Source.stat.members p = Source.stat.members q) (v : Moments) :
    report h v p = statLines h v.startTime q.mName q.mPid q.mStat (terminal v.ttyNr q.mStat) ++
      (h.walk p.mFds).flatMap fdLine := by
  simp only [Source.members, Prod.mk.injEq] at hm
  obtain ⟨hpid, hname, -, hnum⟩ := hm
  rw [report, hpid, hname, hnum]

end Report

section Runs

variable (h : PrintHost σ) (os : σ) (v : Moments)

theorem run_ttyNr (sys : Sys) {q : ProcessInfo} (hq : q.mNeedUpdate .stat = false) : (ttyNr sys).run q =
    match ttyPath sys (q.mStat .ttyNr) with
    | .ok path => .ok path q
    | .error e => .error e q := by
  rw [ttyNr, EStateM.run_bind, statGetter, run_getter_of_not_due hq]
  dsimp only
  cases ttyPath sys (q.mStat .ttyNr) <;> rfl

/-- **The lines of `stat`** are of one read. -/
theorem run_print (r : Printing σ) : ∃ q, q.mNeedUpdate .stat = false ∧
    (print h os v).run r =
      match ttyPath v.ttyNr (q.mStat .ttyNr) with
      | .error e => .error e (r.after q os (headLines q.mName q.mPid q.mStat ++
        (ttyHead h q.mStat).take (h.written (ttyHead h q.mStat))))
      | .ok path =>
        match (fds v.fds).run q with
        | .error e p => .error e (r.after p os (statLines h v.startTime q.mName q.mPid q.mStat path))
        | .ok m p =>
          (putLine h h.cout "user name : " (userName v.userName h.passwd h.beyond)).run
            (r.after p os (statLines h v.startTime q.mName q.mPid q.mStat path ++ (h.walk m).flatMap fdLine)) := by
  obtain ⟨q, hname, hq⟩ := run_getter_stat_any v.name (·.mName) r.obj
  refine ⟨q, hq, ?_⟩
  have hpid : (return decimalInt (← pid).toInt : Cpp ProcessInfo (List Char)).run q = .ok (decimalInt q.mPid.toInt) q := rfl
  rw [print]
  refine (run_putLine_bind hname).trans ?_
  refine (run_putLine_bind hpid).trans ?_
  refine (run_putLine_bind (run_text_ok (figure .ppid) (run_getter_of_not_due hq))).trans ?_
  refine (run_putLine_bind (run_text_ok (figure .pgid) (run_getter_of_not_due hq))).trans ?_
  refine (run_putLine_bind (run_text_ok (figure .session) (run_getter_of_not_due hq))).trans ?_
  refine run_get_bind.trans ?_
  simp only [Printing.after_after, Printing.obj_after]
  have htty := run_ttyNr v.ttyNr hq
  cases hpath : ttyPath v.ttyNr (q.mStat .ttyNr) with
  | error e =>
    rw [hpath] at htty
    rw [EStateM.run_bind, run_insertion_error (run_text_error (· ++ ")\n".toList) htty)]
    simp only [Printing.after_after, headLines, List.append_assoc]
    rfl
  | ok path =>
    rw [hpath] at htty
    refine (run_insertion_bind (run_text_ok (· ++ ")\n".toList) htty)).trans ?_
    refine run_get_bind.trans ?_
    refine (run_insertion_bind (run_text_ok (fun d : UInt64 => decimal d.toNat ++ "\n".toList)
      (run_getter_of_not_due hq))).trans ?_
    refine run_get_bind.trans ((run_put_bind _).trans ((run_put_bind _).trans ?_))
    simp only [Printing.after_after, Printing.obj_after]
    have hlines : line "Name : " q.mName ++ line "PID : " (decimalInt q.mPid.toInt) ++
        line "Parent PID : " (Figures.text q.mStat .ppid) ++ line "Process Group ID : " (Figures.text q.mStat .pgid) ++
        line "Session ID : " (Figures.text q.mStat .session) ++ (ttyHead h q.mStat ++ (path ++ ")\n".toList)) ++
        (startHead q.mStat ++ (decimal (sinceStart v.startTime q.mStat).toNat ++ "\n".toList)) ++ threadsLine q.mStat ++
        "Opened Files :\n".toList = statLines h v.startTime q.mName q.mPid q.mStat path := by
      simp only [statLines, headLines, tailLines, List.append_assoc]
    rw [← hlines, EStateM.run_bind]
    cases hfds : (fds v.fds).run q with
    | error e p =>
      rw [run_onProcess_error hfds]
      rfl
    | ok m p =>
      rw [run_onProcess_ok hfds]
      dsimp only
      refine (run_put_bind _).trans ?_
      exact congrArg (putLine h h.cout "user name : " (userName v.userName h.passwd h.beyond)).run
        (Printing.after_after r p p os _ _)

/-- A getter leaves the members of the other sources. -/
theorem members_getter {α : Type} (sys : Sys) {src src' : Source} (hne : src ≠ src') (value : ProcessInfo → α)
    (p : ProcessInfo) : src.members (state ((getter sys src' value).run p)) = src.members p := by
  have hm : state ((refresh src' (reader sys src')).run p) = take src' p _ := moves_refresh sys src' p
  rw [state_getter, hm, Source.members_take hne]

theorem of_run_getter_ok {α : Type} {sys : Sys} {src : Source} {value : ProcessInfo → α} {p q : ProcessInfo} {a : α}
    (hp : (getter sys src value).run q = .ok a p) : a = value p := by
  obtain ⟨_, p', _, hreturn⟩ := of_run_bind_ok hp
  cases hreturn
  rfl

/-- What was written to `os` is a part, from the start, of the report of the object as the call left it, and what went to
`std::cout` a part of its last line; they are the whole when the call returned. -/
def Reported (r : Printing σ) (res : EStateM.Result Exn (Printing σ) Unit) : Prop :=
  ∃ out user, (state res).text = ((r.after (state res).obj os out).after (state res).obj h.cout user).text ∧
    out <+: report h v (state res).obj ∧ user <+: userLine h (state res).obj ∧
    (value res = .ok () → out = report h v (state res).obj ∧ user = userLine h (state res).obj)

theorem Reported.of_error {r : Printing σ} {e : Exn} {p : ProcessInfo} {out : List Char} (hout : out <+: report h v p) :
    Reported h os v r (.error e (r.after p os out)) :=
  ⟨out, [], (Printing.after_nil ..).symm, hout, List.nil_prefix, fun hok => by cases hok⟩

/-- **What is printed is what the object holds** behind the call, though the process goes on during it. -/
theorem print_reported (r : Printing σ) : Reported h os v r ((print h os v).run r) := by
  obtain ⟨q, hq, hrun⟩ := run_print h os v r
  rw [hrun]
  cases hpath : ttyPath v.ttyNr (q.mStat .ttyNr) with
  | error e =>
    refine Reported.of_error h os v ?_
    rw [report, statLines, List.append_assoc, List.append_assoc, List.prefix_append_right_inj]
    exact (List.take_prefix _ _).trans (List.prefix_append _ _)
  | ok path =>
    have hterminal : terminal v.ttyNr q.mStat = path := congrArg (·.toOption.getD []) hpath
    dsimp only
    have hfds := members_getter v.fds (show Source.stat ≠ .fd by decide) (·.mFds) q
    cases hf : (fds v.fds).run q with
    | error e p =>
      replace hfds : Source.stat.members p = Source.stat.members q := by
        rw [← hfds, ← state_error e p, ← hf]
        rfl
      refine Reported.of_error h os v ?_
      rw [report_congr h hfds, hterminal]
      exact List.prefix_append _ _
    | ok m p =>
      replace hfds : Source.stat.members p = Source.stat.members q := by
        rw [← hfds, ← state_ok m p, ← hf]
        rfl
      obtain rfl : m = p.mFds := of_run_getter_ok hf
      have hwhole : ∀ {u : ProcessInfo}, state ((userName v.userName h.passwd h.beyond).run p) = u →
          report h v u = statLines h v.startTime q.mName q.mPid q.mStat path ++ (h.walk p.mFds).flatMap fdLine := by
        rintro u rfl
        rw [userName]
        have hstat := members_getter v.userName (show Source.stat ≠ .status by decide) (nameOfUid h.passwd h.beyond) p
        have hfd := members_getter v.userName (show Source.fd ≠ .status by decide) (nameOfUid h.passwd h.beyond) p
        rw [report_congr h (hstat.trans hfds), hterminal]
        exact congrArg (fun m => _ ++ (h.walk m).flatMap fdLine) hfd
      cases hu : (userName v.userName h.passwd h.beyond).run p with
      | error e u =>
        have hout := hwhole (congrArg Effects.state hu)
        show Reported h os v r ((putLine h h.cout "user name : " _).run _)
        rw [run_putLine_error hu]
        exact ⟨_, _, rfl, hout ▸ List.prefix_rfl, (List.take_prefix _ _).trans (List.prefix_append _ _), fun hok => by
          cases hok⟩
      | ok name u =>
        have hout := hwhole (congrArg Effects.state hu)
        have huser : line "user name : " name = userLine h u := by rw [of_run_getter_ok hu, userLine]
        show Reported h os v r ((putLine h h.cout "user name : " _).run _)
        rw [run_putLine_ok hu, huser]
        exact ⟨_, _, rfl, hout ▸ List.prefix_rfl, List.prefix_rfl, fun _ => ⟨hout.symm, rfl⟩⟩

end Runs

end SysInfo
