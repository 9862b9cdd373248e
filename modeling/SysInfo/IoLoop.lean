import SysInfo.Monitor
import SysInfo.Numbers
/-!
# IoLoop — `ioTotalUsage()` and `needUpdate()`, again and again

The loop of a monitor on one object.  Both directions of a round take their bytes from one read of `io`, and the first of
them puts that read into the table, so the second one measures no time and counts nothing: whatever the files hold, every
round returns the rate of the direction that is evaluated first, since the last round that did not throw
(`loop_answers`).
-/
namespace SysInfo

open IStream Effects ProcessInfo Baseline

/-! ## `io` of any text -/

/-- The entries of a text of `io`. -/
def ioEntries (text : Option (List Char)) : List (IoField × List Char) := (getlines '\n' (openFile text)).flatMap ioNumbers

/-- What reading the text throws. -/
def ioFault (text : Option (List Char)) : Option Exn := firstFault (stol 10) (ioEntries text)

/-- The sample after a read: the last entry of each counter that comes before the fault, and the time. -/
def IoStat.reread (text : Option (List Char)) (now : Int) (io : IoStat) : IoStat where
  counter f := ((lastFor f (converted (stol 10) (ioEntries text))).map UInt64.ofInt).getD (io.counter f)
  lastRead := now

/-- **`readIo` on any text**: it throws at the first entry that does not convert, and takes the time and what comes before
in any case. -/
theorem run_readIo_text (sys : Sys) (p : ProcessInfo) :
    let text := sys.file (p.mProcPath ++ "io".toList)
    value ((readIo sys).run p) = (ioFault text).elim (.ok ()) .error ∧
      state ((readIo sys).run p) = p.withIo (p.mIo.reread text sys.now) := by
  have hread : (readIo sys).run p = (storeAll (stol 10) IoField.store
      (ioEntries (sys.file (p.mProcPath ++ "io".toList)))).run { p with mIo := { p.mIo with lastRead := sys.now } } := by
    rw [ioEntries, storeAll, forM_flatMap]
    show ((List.forM _ ioLine).run _) = _
    rw [funext ioLine_eq]
    rfl
  refine ⟨?_, ?_⟩
  · rw [hread, value_storeAll]
    rfl
  · rw [hread, state_storeAll, foldl_ioStore]
    simp only [withIo, IoStat.reread]
    congr 2
    funext f
    exact foldl_update UInt64.ofInt f _ _

/-! ## A round -/

/-- The direction that is evaluated first. -/
def firstMetric (readFirst : Bool) : IoMetric := if readFirst then .read else .write

/-- An object of a pid that is due in all respects, with this sample and this baseline in the table. -/
structure Ready (id : ObjId) (io : IoStat) (last : Option IoStat) (w : World) : Prop where
  obj  : ∃ p, w.objs id = some p ∧ p.mProcPath = procPath id.pid ∧ p.mPid = id.pid ∧ (∀ u, p.mNeedUpdate u = true) ∧
    p.mIo = io
  last : base w.static.table id.pid .io = last

section Call

variable {sys : Sys} {s : This} {text : Option (List Char)}

/-- A call whose read throws: the object keeps its flags. -/
theorem run_ioUsage_fault {m : IoMetric} {e : Exn} (htext : sys.file (s.obj.mProcPath ++ "io".toList) = text)
    (hd : ∀ u, s.obj.mNeedUpdate u = true) (hf : ioFault text = some e) :
    (ioUsage m sys).run s = .error e ⟨s.obj.withIo (s.obj.mIo.reread text sys.now), s.static⟩ := by
  obtain ⟨hvalue, hstate⟩ := run_readIo_text sys s.obj
  rw [htext, hf] at hvalue
  rw [htext] at hstate
  have hread : (readIo sys).run s.obj = .error e (s.obj.withIo (s.obj.mIo.reread text sys.now)) := by
    cases h : (readIo sys).run s.obj with
    | ok a q => rw [h] at hvalue; cases hvalue
    | error e' q =>
      rw [h] at hvalue hstate
      rw [← hstate]
      exact congrArg (EStateM.Result.error · q) (Except.error.inj hvalue)
  have hget : (getter sys .io (·.mIo.counter m.field)).run s.obj =
      .error e (s.obj.withIo (s.obj.mIo.reread text sys.now)) := by
    simp only [getter, refresh, EStateM.run_bind, EStateM.run_get, hd, if_true, reader, hread]
  rw [ioUsage, EStateM.run_bind]
  simp only [refreshUsage, EStateM.run_bind, EStateM.run_get, hd, if_true, updateIoUsage, run_onObj_error hget]

/-- A call whose read returns. -/
theorem run_ioUsage_fresh {m : IoMetric} (htext : sys.file (s.obj.mProcPath ++ "io".toList) = text)
    (hd : ∀ u, s.obj.mNeedUpdate u = true) (hf : ioFault text = none) :
    ∃ t : This, (ioUsage m sys).run s =
        .ok (rateSince m (s.obj.mIo.reread text sys.now) (base s.static.table s.obj.mPid .io)) t ∧
      t.obj.mProcPath = s.obj.mProcPath ∧ t.obj.mPid = s.obj.mPid ∧ t.obj.mIo = s.obj.mIo.reread text sys.now ∧
      t.obj.mNeedUpdate .io = false ∧ t.obj.mNeedUpdate m.other.source = true ∧
      base t.static.table s.obj.mPid .io = some t.obj.mIo := by
  obtain ⟨hvalue, hstate⟩ := run_readIo_text sys s.obj
  rw [htext, hf] at hvalue
  rw [htext] at hstate
  have hread : (reader sys .io).run s.obj = .ok () (s.obj.withIo (s.obj.mIo.reread text sys.now)) := by
    show (readIo sys).run s.obj = _
    cases h : (readIo sys).run s.obj with
    | ok a q => rw [h] at hstate; rw [← hstate]; rfl
    | error e' q => rw [h] at hvalue; cases hvalue
  have hrun := run_ioUsage_read (hd m.source) (run_getter_of_due (v := fun p => p.mIo.counter m.field) (hd .io) hread)
  refine ⟨_, hrun, ?_⟩
  refine ⟨by cases m <;> rfl, by cases m <;> rfl, by cases m <;> rfl, ?_, ?_, ?_⟩
  · cases m <;> rfl
  · cases m <;> exact hd _
  · rw [base_table]
    show Option.map _ ((s.static.store s.obj.mPid _).mapPidOldstate s.obj.mPid) = _
    rw [Static.mapPidOldstate_store_self]
    cases m <;> rfl

/-- The second call finds its own sample in the table. -/
theorem run_ioUsage_again (sys : Sys) {m : IoMetric} {t : This} (hio : t.obj.mNeedUpdate .io = false)
    (hd : t.obj.mNeedUpdate m.source = true) (hb : base t.static.table t.obj.mPid .io = some t.obj.mIo) :
    ∃ u : This, (ioUsage m sys).run t = .ok 0 u ∧ u.obj.mProcPath = t.obj.mProcPath ∧ u.obj.mPid = t.obj.mPid ∧
      u.obj.mIo = t.obj.mIo ∧ base u.static.table t.obj.mPid .io = some t.obj.mIo := by
  have hread : (getter sys .io (·.mIo.counter m.field)).run t.obj = .ok (t.obj.mIo.counter m.field) t.obj :=
    run_getter_of_not_due hio
  have hrun := run_ioUsage_read hd hread
  rw [hb, rateSince_self] at hrun
  refine ⟨_, hrun, by cases m <;> rfl, by cases m <;> rfl, by cases m <;> rfl, ?_⟩
  rw [base_table]
  show Option.map _ ((t.static.store t.obj.mPid _).mapPidOldstate t.obj.mPid) = _
  rw [Static.mapPidOldstate_store_self]
  rfl

theorem run_ioTotalUsage_fault (readFirst : Bool) {e : Exn}
    (htext : sys.file (s.obj.mProcPath ++ "io".toList) = text) (hd : ∀ u, s.obj.mNeedUpdate u = true) (hf : ioFault text = some e) :
    (ioTotalUsage readFirst sys).run s = .error e ⟨s.obj.withIo (s.obj.mIo.reread text sys.now), s.static⟩ := by
  cases readFirst with
  | true =>
    have hfirst := run_ioUsage_fault (m := .read) htext hd hf
    simp only [ioTotalUsage, if_true, ioReadUsage, EStateM.run_bind, hfirst]
  | false =>
    have hfirst := run_ioUsage_fault (m := .write) htext hd hf
    simp only [ioTotalUsage, Bool.false_eq_true, if_false, ioWriteUsage, EStateM.run_bind, hfirst]

/-- **The sum is the rate of its first operand.** -/
theorem run_ioTotalUsage_fresh (readFirst : Bool) (htext : sys.file (s.obj.mProcPath ++ "io".toList) = text)
    (hd : ∀ u, s.obj.mNeedUpdate u = true) (hf : ioFault text = none) :
    ∃ u : This, (ioTotalUsage readFirst sys).run s = .ok (rateSince (firstMetric readFirst)
        (s.obj.mIo.reread text sys.now) (base s.static.table s.obj.mPid .io)) u ∧
      u.obj.mProcPath = s.obj.mProcPath ∧ u.obj.mPid = s.obj.mPid ∧ u.obj.mIo = s.obj.mIo.reread text sys.now ∧
      base u.static.table s.obj.mPid .io = some (s.obj.mIo.reread text sys.now) := by
  obtain ⟨t, hfirst, hpath, hpid, hio, hclear, hother, hbase⟩ :=
    run_ioUsage_fresh (m := firstMetric readFirst) htext hd hf
  rw [← hpid] at hbase
  obtain ⟨u, hagain, hpath', hpid', hio', hbase'⟩ := run_ioUsage_again sys hclear hother hbase
  rw [hpid, hio] at hbase'
  refine ⟨u, ?_, hpath'.trans hpath, hpid'.trans hpid, hio'.trans hio, hbase'⟩
  cases readFirst with
  | true =>
    have hread : (ioReadUsage sys).run s = _ := hfirst
    have hwrite : (ioWriteUsage sys).run t = _ := hagain
    simp only [ioTotalUsage, if_true, EStateM.run_bind, hread, hwrite, EStateM.run_pure, add_zero]
  | false =>
    have hwrite : (ioWriteUsage sys).run s = _ := hfirst
    have hread : (ioReadUsage sys).run t = _ := hagain
    simp only [ioTotalUsage, Bool.false_eq_true, if_false, EStateM.run_bind, hread, hwrite, EStateM.run_pure, zero_add]

end Call

/-! ## The loop -/

section Loop

variable (readFirst : Bool) (id : ObjId)

/-- A round of the loop, at the files it finds. -/
def loopRound (sys : Sys) : List (Sys × Op) :=
  [(sys, .call id (.usage (.ioTotalUsage readFirst))), (sys, .needUpdate id)]

/-- The answers, from the sample in the object and the one in the table. -/
def loopAnswers : IoStat → Option IoStat → List Sys → List Answer
  | _, _, [] => []
  | io, last, sys :: rest =>
    let text := sys.file (procPath id.pid ++ "io".toList)
    let io' := io.reread text sys.now
    match ioFault text with
    | none   => some ⟨.usage (.ioTotalUsage readFirst), .ok (rateSince (firstMetric readFirst) io' last)⟩ :: none ::
        loopAnswers io' (some io') rest
    | some e => some ⟨.usage (.ioTotalUsage readFirst), .error e⟩ :: none :: loopAnswers io' last rest

variable {readFirst id} {io : IoStat} {last : Option IoStat} {w : World}

/-- What `needUpdate()` behind a call leaves. -/
theorem Ready.of_call {s : This} {io' : IoStat} {last' : Option IoStat} (hpath : s.obj.mProcPath = procPath id.pid)
    (hpid : s.obj.mPid = id.pid) (hio : s.obj.mIo = io') (hbase : base s.static.table id.pid .io = last') (sys : Sys) :
    Ready id io' last' (World.step (sys, .needUpdate id) (w.leave id s)).1 ∧
      (World.step (sys, .needUpdate id) (w.leave id s)).2 = none := by
  have hobj : (w.leave id s).objs id = some s.obj := Function.update_self ..
  simp only [World.step, hobj]
  exact ⟨⟨⟨_, World.objs_set_self .., hpath, hpid, fun _ => rfl, hio⟩, hbase⟩, trivial⟩

/-- **A round**, at any files. -/
theorem Ready.round (readFirst : Bool) (h : Ready id io last w) (sys : Sys) : ∃ io' last',
    Ready id io' last' (World.run w (loopRound readFirst id sys)).1 ∧ ∀ rest,
      (World.run w (loopRound readFirst id sys)).2 ++ loopAnswers readFirst id io' last' rest =
        loopAnswers readFirst id io last (sys :: rest) := by
  obtain ⟨⟨p, hp, hpath, hpid, hdue, rfl⟩, rfl⟩ := h
  have htext : sys.file ((⟨p, w.static⟩ : This).obj.mProcPath ++ "io".toList) =
      sys.file (procPath id.pid ++ "io".toList) := by rw [← hpath]
  have hstep : World.step (sys, .call id (.usage (.ioTotalUsage readFirst))) w = _ := World.step_call hp _
  rw [Query.call, Usage.call] at hstep
  simp only [loopAnswers]
  cases hf : ioFault (sys.file (procPath id.pid ++ "io".toList)) with
  | none =>
    obtain ⟨u, hrun, hpath', hpid', hio', hbase⟩ :=
      run_ioTotalUsage_fresh (s := ⟨p, w.static⟩) readFirst htext hdue hf
    replace hpid : p.mPid = id.pid := hpid
    rw [hrun] at hstep
    rw [hpid] at hbase
    obtain ⟨hready, hnone⟩ := Ready.of_call (w := w) (hpath'.trans hpath) (hpid'.trans hpid) hio' hbase sys
    have hworld : (World.run w (loopRound readFirst id sys)).1 = (World.step (sys, .needUpdate id) (w.leave id u)).1 := by
      simp only [loopRound, World.run, runOps, hstep, state_ok]
    refine ⟨_, _, by rw [hworld]; exact hready, fun rest => ?_⟩
    simp only [loopRound, World.run, runOps, hstep, state_ok, value_ok, hnone, hpid]
    rfl
  | some e =>
    have hrun := run_ioTotalUsage_fault (s := ⟨p, w.static⟩) readFirst htext hdue hf
    rw [hrun] at hstep
    obtain ⟨hready, hnone⟩ := Ready.of_call (w := w) (s := ⟨p.withIo (p.mIo.reread _ sys.now), w.static⟩) hpath hpid rfl
      rfl sys
    have hworld : (World.run w (loopRound readFirst id sys)).1 = (World.step (sys, .needUpdate id)
        (w.leave id ⟨p.withIo (p.mIo.reread (sys.file (procPath id.pid ++ "io".toList)) sys.now), w.static⟩)).1 := by
      simp only [loopRound, World.run, runOps, hstep, state_error]
    refine ⟨_, _, by rw [hworld]; exact hready, fun rest => ?_⟩
    simp only [loopRound, World.run, runOps, hstep, state_error, value_error, hnone]
    rfl

theorem Ready.run : ∀ (rounds : List Sys) {io : IoStat} {last : Option IoStat} {w : World}, Ready id io last w →
    (World.run w (rounds.flatMap (loopRound readFirst id))).2 = loopAnswers readFirst id io last rounds
  | [], _, _, _, _ => rfl
  | sys :: rest, io, last, w, h => by
    obtain ⟨io', last', hnext, hanswers⟩ := h.round readFirst sys
    rw [List.flatMap_cons, World.run, runOps_append, ← hanswers rest, ← Ready.run rest hnext]
    rfl

end Loop

/-- **A loop of `ioTotalUsage()` and `needUpdate()`** answers, at each round, what one sample and its predecessor say of
the direction that is evaluated first: the bytes of the other one are never counted.  It holds whatever the rounds read,
and goes on behind a round that throws. -/
theorem loop_answers (readFirst : Bool) (id : ObjId) (junk : ProcessInfo) (sys : Sys) (rounds : List Sys) :
    (World.run World.initial ((sys, .construct id junk) :: rounds.flatMap (loopRound readFirst id))).2 =
      none :: loopAnswers readFirst id { junk.mIo with lastRead := 0 } none rounds :=
  congrArg (none :: ·) (Ready.run rounds ⟨⟨_, World.objs_set_self .., rfl, rfl, fun _ => rfl, rfl⟩, rfl⟩)

end SysInfo
