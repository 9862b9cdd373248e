import SysInfo.Isolation
import SysInfo.Numbers
import SysInfo.Snapshot
/-!
# Sources — the files of an object do not interfere

An object caches eleven files and links of its process, each behind a flag, and a getter reads one of them.  What a getter
returns depends on its own source only: on when it was refreshed, by which calls, and on what the file held then.  Calls
that concern other sources can be added to a program, dropped, put in another order or left to throw
(`sources_independent`).

`SameOn` relates two objects that agree on one source.  A call that concerns it goes the same way on both
(`couples_getter`, `couples_usage`), and a call that does not leaves the relation as it is (`moves_getter`, `moves_usageOn`).
-/
namespace SysInfo

open IStream Effects ProcessInfo

/-! ## Agreement on a source -/

/-- The same path, the same members of a source, and the same flags on it and on what is computed from it. -/
structure SameOn (src : Source) (p q : ProcessInfo) : Prop where
  path    : p.mProcPath = q.mProcPath
  members : src.members p = src.members q
  due     : ∀ u, u = src ∨ u.behind = some src → p.mNeedUpdate u = q.mNeedUpdate u

namespace SameOn

variable {src : Source} {p q r : ProcessInfo}

theorem refl (src : Source) (p : ProcessInfo) : SameOn src p p := ⟨rfl, rfl, fun _ _ => rfl⟩

theorem symm (h : SameOn src p q) : SameOn src q p := ⟨h.path.symm, h.members.symm, fun u hu => (h.due u hu).symm⟩

theorem trans (h : SameOn src p q) (h' : SameOn src q r) : SameOn src p r :=
  ⟨h.path.trans h'.path, h.members.trans h'.members, fun u hu => (h.due u hu).trans (h'.due u hu)⟩

theorem needUpdate (h : SameOn src p q) : SameOn src p.needUpdate q.needUpdate := by
  refine ⟨h.path, ?_, fun _ _ => rfl⟩
  have hm := h.members
  cases src <;> exact hm

theorem updated (h : SameOn src p q) (u : Source) : SameOn src (p.updated u) (q.updated u) := by
  refine ⟨h.path, ?_, fun v hv => ?_⟩
  · have hm := h.members
    cases src <;> exact hm
  · have hd := h.due v hv
    by_cases hvu : v = u
    · subst hvu
      simp [ProcessInfo.updated]
    · simpa [ProcessInfo.updated, Function.update_of_ne hvu] using hd

/-- The members of another source, and its flag. -/
theorem take {src' : Source} (hsrc : src ≠ src') (hfile : src'.IsFile) (p q : ProcessInfo) :
    SameOn src p (ProcessInfo.take src' p q) := by
  refine ⟨by cases src' <;> rfl, (Source.members_take hsrc p q).symm, fun u hu => (mNeedUpdate_take ?_ p q).symm⟩
  rintro rfl
  rcases hu with rfl | hu
  · exact hsrc rfl
  · exact Source.not_isFile_of_behind hu hfile

end SameOn

theorem Source.isFile_source (g : Getter) : g.source.IsFile := by cases g <;> trivial

/-! ## A call that concerns the source -/

section Readers

variable {src : Source} (sys : Sys)

theorem SameOn.store_status (m : StatusMember) (n : Int) {p q : ProcessInfo} (h : SameOn .status p q) :
    SameOn .status (m.store n p) (m.store n q) := by
  obtain ⟨hpath, hm, hdue⟩ := h
  simp only [Source.members, Prod.mk.injEq] at hm
  obtain ⟨hu, hg, hv⟩ := hm
  cases m with
  | uid => exact ⟨hpath, by simp only [Source.members, StatusMember.store, pushUid, hu, hg, hv], hdue⟩
  | gid => exact ⟨hpath, by simp only [Source.members, StatusMember.store, pushGid, hu, hg, hv], hdue⟩
  | vm f => exact ⟨hpath, by simp only [Source.members, StatusMember.store, hu, hg, hv], hdue⟩

theorem SameOn.store_io (f : IoField) (n : Int) {p q : ProcessInfo} (h : SameOn .io p q) :
    SameOn .io (f.store n p) (f.store n q) := by
  obtain ⟨hpath, hm, hdue⟩ := h
  replace hm : p.mIo = q.mIo := hm
  exact ⟨hpath, by simp only [Source.members, IoField.store, hm], hdue⟩

theorem couples_smaps : Couples (SameOn .smaps) (readSmaps sys) (readSmaps sys) := by
  have hset : ∀ {p q : ProcessInfo} (ms : List MMap), SameOn .smaps p q → SameOn .smaps (p.setMaps ms) (q.setMaps ms) :=
    fun ms h => ⟨h.path, rfl, h.due⟩
  have hpush : ∀ ss, Couples (SameOn .smaps) (pushMap sys ss) (pushMap sys ss) := fun ss => by
    refine couples_get_bind fun p q h => ?_
    have hmaps : p.mMaps = q.mMaps := h.members
    rw [hmaps]
    refine (couples_lift _).bind fun r => (couples_modify fun p q h => ?_).bind fun _ => couples_pure _
    rw [show p.mMaps = q.mMaps from h.members]
    exact hset _ h
  have hline : ∀ ss l, Couples (SameOn .smaps) (smapsLine sys ss l) (smapsLine sys ss l) := fun ss l => by
    unfold smapsLine
    split
    · exact (hpush ss).bind fun _ => couples_pure _
    · exact couples_pure _
  refine (couples_modify fun p q h => hset [] h).bind fun _ => couples_get_bind fun p q h => ?_
  rw [h.path]
  cases sys.file (q.mProcPath ++ "/smaps".toList) with
  | none => exact couples_pure _
  | some text => exact (couples_foldlM hline _ _).bind fun ss => (hpush ss).bind fun _ => couples_pure _

/-- **A reader goes by the path and the members of its source.** -/
theorem couples_reader (hsrc : src.IsFile) : Couples (SameOn src) (reader sys src) (reader sys src) := by
  cases src with
  | stat =>
    refine couples_modify fun p q h => ?_
    obtain ⟨hpath, hm, hdue⟩ := h
    simp only [Source.members, Prod.mk.injEq] at hm
    obtain ⟨hpid, hname, -, hnum⟩ := hm
    exact ⟨hpath, by simp only [Source.members, parseStat, hpath, hpid, hname, hnum], hdue⟩
  | status =>
    refine couples_get_bind fun p q h => ?_
    rw [h.path]
    refine couples_forM fun line _ => ?_
    rw [statusLine_eq]
    exact couples_storeAll (fun m n p q => SameOn.store_status m n) _
  | io =>
    refine (couples_modify fun p q h => ?_).bind fun _ => couples_get_bind fun p q h => ?_
    · have hio : p.mIo = q.mIo := h.members
      exact ⟨h.path, by simp only [Source.members, hio], h.due⟩
    · rw [h.path]
      refine couples_forM fun line _ => ?_
      rw [ioLine_eq]
      exact couples_storeAll (fun f n p q => SameOn.store_io f n) _
  | cwd | exe | root | cmdline =>
    exact couples_modify fun p q h => ⟨h.path, by simp only [Source.members, h.path], h.due⟩
  | environ =>
    refine couples_modify fun p q h => ⟨h.path, ?_, h.due⟩
    have henv : p.mEnviron = q.mEnviron := h.members
    simp only [Source.members, h.path, henv]
  | wchan =>
    refine couples_modify fun p q h => ⟨h.path, ?_, h.due⟩
    have hname : p.mWchanName = q.mWchanName := h.members
    simp only [Source.members, h.path, hname]
  | fd =>
    refine couples_get_bind fun p q h => ?_
    rw [h.path]
    refine couples_forM fun name _ => couples_get_bind fun p q h => ?_
    rw [h.path]
    refine (couples_lift _).bind fun n => couples_modify fun p q h => ⟨h.path, ?_, h.due⟩
    have hfds : p.mFds = q.mFds := h.members
    simp only [Source.members, hfds]
  | smaps => exact couples_smaps sys
  | cpuUsage | ioReadUsage | ioWriteUsage => exact hsrc.elim

theorem couples_refresh (hsrc : src.IsFile) :
    Couples (SameOn src) (refresh src (reader sys src)) (refresh src (reader sys src)) := by
  refine couples_get_bind fun p q h => ?_
  rw [h.due src (.inl rfl)]
  split
  · exact (couples_reader sys hsrc).bind fun _ => couples_modify fun p q h => h.updated src
  · exact couples_pure _

theorem SameOn.value_eq {g : Getter} {p q : ProcessInfo} (h : SameOn g.source p q) : g.value sys p = g.value sys q := by
  have hm := h.members
  cases g with
  | name | state | field f | cguestTime | policy | startTime | ttyNr =>
    simp only [Getter.source, Source.members, Prod.mk.injEq] at hm
    simp only [Getter.value, hm]
  | uids | gids | vm f =>
    simp only [Getter.source, Source.members, Prod.mk.injEq] at hm
    simp only [Getter.value, hm]
  | readBytes | writeBytes =>
    replace hm : p.mIo = q.mIo := hm
    simp only [Getter.value, hm]
  | cmdline | cwd | exe | root | environ | fds | wchanName | maps => exact congrArg Except.ok hm

/-- **A getter answers alike on objects that agree on its source**, and they agree afterwards. -/
theorem couples_getter (g : Getter) : Couples (SameOn g.source) (g.call sys) (g.call sys) := by
  rw [call_eq]
  refine (couples_refresh sys (Source.isFile_source g)).bind fun _ => couples_get_bind fun p q h => ?_
  rw [h.value_eq sys]
  exact couples_lift _

end Readers

/-! ## Usages -/

/-- The file a usage is computed from. -/
def Usage.reads : Usage → Source
  | .cpuUsage => .stat
  | .ioReadUsage | .ioWriteUsage | .ioTotalUsage _ => .io

/-- Objects that agree on a source, among statics that agree as far as a call on the source can fail for them. -/
structure SameHere (src : Source) (s t : This) : Prop where
  obj   : SameOn src s.obj t.obj
  cores : src = .stat → s.static.nbCore = t.static.nbCore

instance (src : Source) : IsPreorder This (SameHere src) where
  refl s := ⟨SameOn.refl src s.obj, fun _ => rfl⟩
  trans _ _ _ h h' := ⟨h.obj.trans h'.obj, fun hs => (h.cores hs).trans (h'.cores hs)⟩

section Usages

variable {src : Source} {sys : Sys}

theorem SameHere.of_computes {s t : This} (hsrc : src.IsFile) (h : Computes s t)
    (hdue : ∀ u, u.behind = some src → t.obj.mNeedUpdate u = s.obj.mNeedUpdate u)
    (hcores : t.static.nbCore = s.static.nbCore) : SameHere src s t := by
  refine ⟨⟨h.path.symm, (h.files src hsrc).1.symm, fun u hu => ?_⟩, fun _ => hcores.symm⟩
  rcases hu with rfl | hu
  · exact (h.files u hsrc).2.symm
  · exact (hdue u hu).symm

/-- A record leaves every file alone. -/
theorem sameHere_recordIo (hsrc : src.IsFile) (m : IoMetric) (bytes : UInt64) (s : This) :
    SameHere src s (recordIo m bytes s) := by
  refine SameHere.of_computes hsrc (Computes.recordIo m bytes s) (fun u _ => ?_) ?_
  · exact congrFun (mNeedUpdate_recordIo m bytes s) u
  · unfold recordIo
    split <;> rfl

theorem sameHere_recordCpu (hsrc : src.IsFile) (nb : Int32) (total process : UInt64) (s : This) :
    SameHere src s (recordCpu nb total process s) := by
  refine SameHere.of_computes hsrc (Computes.recordCpu nb total process s) (fun u _ => ?_) ?_
  · exact congrFun (mNeedUpdate_recordCpu nb total process s) u
  · unfold recordCpu
    split <;> rfl

theorem SameHere.both {f g : This → This} {s t : This} (hf : ∀ s, SameHere src s (f s)) (hg : ∀ s, SameHere src s (g s))
    (h : SameHere src s t) : SameHere src (f s) (g t) where
  obj := ((hf s).obj.symm.trans h.obj).trans (hg t).obj
  cores hs := (((hf s).cores hs).symm.trans (h.cores hs)).trans ((hg t).cores hs)

theorem couples_onObjHere {α : Type} {x : Cpp ProcessInfo α} (hx : Couples (SameOn src) x x) :
    Couples (SameHere src) (onObj x) (onObj x) := by
  intro s t h
  obtain ⟨hs, hvs⟩ := run_onObj x s
  obtain ⟨ht, hvt⟩ := run_onObj x t
  obtain ⟨hv, hobj⟩ := hx s.obj t.obj h.obj
  rw [hs, ht, hvs, hvt]
  exact ⟨hv, hobj, h.cores⟩

theorem couples_refreshUsageHere {u : Source} (hu : u.behind = some src) {x : Cpp This Unit}
    (hx : Couples (SameHere src) x x) : Couples (SameHere src) (refreshUsage u x) (refreshUsage u x) := by
  refine couples_get_bind fun s t h => ?_
  rw [h.obj.due u (.inr hu)]
  split
  · exact hx.bind fun _ => couples_modify fun s t h => ⟨h.obj.updated u, h.cores⟩
  · exact couples_pure _

/-- An I/O call goes the same way whatever it returns, so that the call behind it does. -/
theorem couples_ioUsage_bind {α : Type} (m : IoMetric) {k : Rat → Cpp This α}
    (hk : ∀ a b, Couples (SameHere .io) (k a) (k b)) :
    Couples (SameHere .io) (ioUsage m sys >>= k) (ioUsage m sys >>= k) := by
  have hio : Source.IsFile .io := trivial
  have hbytes : Couples (SameHere .io) (onObj (getter sys .io (·.mIo.counter m.field)))
      (onObj (getter sys .io (·.mIo.counter m.field))) := by
    cases m with
    | read => exact couples_onObjHere (couples_getter sys .readBytes)
    | write => exact couples_onObjHere (couples_getter sys .writeBytes)
  have hupdate : Couples (SameHere .io) (updateIoUsage m sys) (updateIoUsage m sys) := hbytes.bind fun bytes =>
    couples_modify fun s t h => h.both (sameHere_recordIo hio m bytes) (sameHere_recordIo hio m bytes)
  rw [ioUsage, bind_assoc]
  exact (couples_refreshUsageHere (IoMetric.behind_source m) hupdate).bind fun _ s t h => hk _ _ s t h

theorem couples_nbCoreHere : Couples (SameHere .stat) (nbCore sys) (nbCore sys) := by
  refine couples_get_bind fun s t h => ?_
  rw [h.cores rfl]
  cases t.static.nbCore with
  | some n => exact couples_pure n
  | none =>
    exact (couples_lift _).bind fun n =>
      (couples_modify fun s t h => ⟨h.obj, fun _ => rfl⟩).bind fun _ => couples_pure n

/-- **A usage goes the same way on objects that agree on the file it reads**, though what it returns may differ. -/
theorem couples_usage (sys : Sys) (u : Usage) : Couples (SameHere u.reads) (u.call sys >>= fun _ => pure ())
    (u.call sys >>= fun _ => pure ()) := by
  have hdone : ∀ m : IoMetric, Couples (SameHere .io) (ioUsage m sys >>= fun _ => pure ())
      (ioUsage m sys >>= fun _ => pure ()) := fun m => couples_ioUsage_bind m fun _ _ => couples_pure _
  cases u with
  | cpuUsage =>
    have hstat : Source.IsFile .stat := trivial
    have hupdate : Couples (SameHere .stat) (updateCPUUsage sys) (updateCPUUsage sys) :=
      couples_nbCoreHere.bind fun nb => (couples_onObjHere (couples_getter sys (.field .utime))).bind fun utime =>
        (couples_onObjHere (couples_getter sys (.field .stime))).bind fun stime =>
          couples_modify fun s t h => h.both (sameHere_recordCpu hstat nb _ _) (sameHere_recordCpu hstat nb _ _)
    rw [Usage.call, ProcessInfo.cpuUsage, bind_assoc]
    exact (couples_refreshUsageHere rfl hupdate).bind fun _ s t h => ⟨rfl, h⟩
  | ioReadUsage => exact hdone .read
  | ioWriteUsage => exact hdone .write
  | ioTotalUsage readFirst =>
    rw [Usage.call, ioTotalUsage]
    cases readFirst with
    | true =>
      simp only [if_true, bind_assoc, pure_bind]
      exact couples_ioUsage_bind .read fun _ _ => hdone .write
    | false =>
      simp only [Bool.false_eq_true, if_false, bind_assoc, pure_bind]
      exact couples_ioUsage_bind .write fun _ _ => hdone .read

/-! ## A call that concerns another source -/

theorem moves_getter {g : Getter} (hne : src ≠ g.source) : Moves (SameHere src) (onObj (g.call sys)) := by
  intro s
  have hm : state ((g.call sys).run s.obj) = take g.source s.obj _ := moves_call sys g s.obj
  rw [(run_onObj (g.call sys) s).1, hm]
  exact ⟨SameOn.take hne (Source.isFile_source g) _ _, fun _ => rfl⟩

theorem sameHere_updated {u src' : Source} (hsrc : src.IsFile) (hu : u.behind = some src') (hne : src ≠ src') (s : This) :
    SameHere src s { s with obj := s.obj.updated u } := by
  refine SameHere.of_computes hsrc (Computes.updated (Source.not_isFile_of_behind hu) s) (fun v hv => ?_) rfl
  refine Function.update_of_ne ?_ _ _
  rintro rfl
  exact hne (Option.some.inj (hv.symm.trans hu))

/-- **A usage of another file** leaves the source as it is. -/
theorem moves_usageOn (hsrc : src.IsFile) {u : Usage} (hne : src ≠ u.reads) : Moves (SameHere src) (u.call sys) := by
  cases u with
  | cpuUsage =>
    have hcores : Moves (SameHere src) (nbCore sys) :=
      moves_cores fun s n => ⟨SameOn.refl src s.obj, fun hs => absurd hs hne⟩
    exact moves_cpuUsage hcores (moves_getter (g := .field .utime) hne) (moves_getter (g := .field .stime) hne)
      (fun nb total process => moves_modify (sameHere_recordCpu hsrc nb total process))
      (moves_modify (sameHere_updated hsrc rfl hne))
  | ioReadUsage | ioWriteUsage | ioTotalUsage readFirst =>
    refine moves_usage (fun m => moves_ioUsage ?_ (fun bytes => moves_modify (sameHere_recordIo hsrc m bytes))
      (moves_modify (sameHere_updated hsrc (IoMetric.behind_source m) hne))) _ fun h => by cases h
    cases m with
    | read => exact moves_getter (g := .readBytes) hne
    | write => exact moves_getter (g := .writeBytes) hne

end Usages

/-! ## Runs -/

/-- An operation on objects, or a call that reads a source. -/
def Op.concerns (src : Source) : Op → Bool
  | .call _ (.get g)   => g.source = src
  | .call _ (.usage u) => u.reads = src
  | _                  => true

/-- The answer of a getter. -/
def Answer.fetched : Answer → Answer
  | some ⟨.get g, r⟩ => some ⟨.get g, r⟩
  | _                => none

namespace World

/-- The programs have the same objects, as far as a source is concerned. -/
structure SameOn (src : Source) (w v : World) : Prop where
  objs  : ∀ id, Option.Rel (SysInfo.SameOn src) (w.objs id) (v.objs id)
  cores : src = .stat → w.static.nbCore = v.static.nbCore

namespace SameOn

variable {src : Source} {w v : World} {id : ObjId} {p q : ProcessInfo}

theorem refl (src : Source) (w : World) : SameOn src w w := by
  refine ⟨fun id => ?_, fun _ => rfl⟩
  cases w.objs id with
  | none => exact .none
  | some p => exact .some (SysInfo.SameOn.refl src p)

theorem objs_update (h : SameOn src w v) (hp : SysInfo.SameOn src p q) (id' : ObjId) :
    Option.Rel (SysInfo.SameOn src) (Function.update w.objs id (some p) id') (Function.update v.objs id (some q) id') := by
  by_cases hid : id' = id
  · subst hid
    rw [Function.update_self, Function.update_self]
    exact .some hp
  · rw [Function.update_of_ne hid, Function.update_of_ne hid]
    exact h.objs id'

theorem set (h : SameOn src w v) (hp : SysInfo.SameOn src p q) : SameOn src (w.set id p) (v.set id q) :=
  ⟨h.objs_update hp, h.cores⟩

theorem leave (h : SameOn src w v) {s t : This} (hs : SameHere src s t) : SameOn src (w.leave id s) (v.leave id t) :=
  ⟨h.objs_update hs.obj, hs.cores⟩

theorem obj_cases (h : SameOn src w v) (id : ObjId) :
    (w.objs id = none ∧ v.objs id = none) ∨ ∃ p q, w.objs id = some p ∧ v.objs id = some q ∧ SysInfo.SameOn src p q := by
  have hr := h.objs id
  generalize w.objs id = a, v.objs id = b at hr
  cases hr with
  | none => exact .inl ⟨rfl, rfl⟩
  | some hp => exact .inr ⟨_, _, rfl, rfl, hp⟩

/-- **A step that concerns the source** goes the same way in both programs, and a getter answers alike. -/
theorem kept (h : SameOn src w v) {x : Sys × Op} (hx : x.2.concerns src = true) :
    (World.step x w).2.fetched = (World.step x v).2.fetched ∧ SameOn src (World.step x w).1 (World.step x v).1 := by
  obtain ⟨sys, op⟩ := x
  cases op with
  | construct id junk => exact ⟨rfl, h.set (.refl src _)⟩
  | copy id n =>
    rcases h.obj_cases id with ⟨hw, hv⟩ | ⟨p, q, hw, hv, hp⟩ <;> simp only [World.step, hw, hv]
    · exact ⟨trivial, h⟩
    · exact ⟨trivial, h.set hp⟩
  | needUpdate id =>
    rcases h.obj_cases id with ⟨hw, hv⟩ | ⟨p, q, hw, hv, hp⟩ <;> simp only [World.step, hw, hv]
    · exact ⟨trivial, h⟩
    · exact ⟨trivial, h.set hp.needUpdate⟩
  | call id q =>
    rcases h.obj_cases id with ⟨hw, hv⟩ | ⟨p, p', hw, hv, hp⟩
    · simp only [World.step, hw, hv]
      exact ⟨trivial, h⟩
    cases q with
    | get g =>
      obtain rfl : g.source = src := of_decide_eq_true hx
      obtain ⟨hvalue, hstate⟩ := couples_getter sys g p p' hp
      rw [step_get hw, step_get hv, hvalue]
      exact ⟨rfl, h.set hstate⟩
    | usage u =>
      obtain rfl : u.reads = src := of_decide_eq_true hx
      have hcall := (couples_usage sys u ⟨p, w.static⟩ ⟨p', v.static⟩ ⟨hp, h.cores⟩).2
      rw [state_run_bind fun _ _ => rfl, state_run_bind fun _ _ => rfl] at hcall
      rw [step_call hw, step_call hv]
      exact ⟨rfl, h.leave hcall⟩

/-- **A step that concerns another source** changes nothing for this one. -/
theorem dropped (hsrc : src.IsFile) (h : SameOn src w v) {x : Sys × Op} (hx : x.2.concerns src = false) :
    SameOn src (World.step x w).1 v := by
  obtain ⟨sys, op⟩ := x
  cases op with
  | construct id junk | copy id n | needUpdate id => cases hx
  | call id q =>
    cases hw : w.objs id with
    | none => simpa only [World.step, hw] using h
    | some p =>
      have hmoves : Moves (SameHere src) (q.call sys) := by
        cases q with
        | get g => exact moves_getter fun e => of_decide_eq_false hx e.symm
        | usage u => exact moves_usageOn hsrc fun e => of_decide_eq_false hx e.symm
      have hcall := hmoves ⟨p, w.static⟩
      rcases h.obj_cases id with ⟨hnone, -⟩ | ⟨p', q', hp, hv, hpq⟩
      · rw [hw] at hnone
        cases hnone
      obtain rfl : p = p' := Option.some.inj (hw.symm.trans hp)
      have hset : ∀ id', Option.Rel (SysInfo.SameOn src) _ (Function.update v.objs id (some q') id') :=
        h.objs_update (hcall.obj.symm.trans hpq)
      rw [← hv, Function.update_eq_self] at hset
      rw [step_call hw]
      exact ⟨hset, fun hs => (hcall.cores hs).symm.trans (h.cores hs)⟩

end SameOn

/-- **Sources do not interfere**: in every program, from any state of its objects, the getters of a source answer what
they answer when all calls that concern other sources are left out, whatever files those read and whether they throw. -/
theorem sources_independent (g : Getter) (ops : List (Sys × Op)) (w : World) :
    answersOf (·.2.concerns g.source) ops ((run w ops).2.map Answer.fetched) =
      (run w (ops.filter (·.2.concerns g.source))).2.map Answer.fetched := by
  have hkeep : ∀ (x : Sys × Op) w v, True → x.2.concerns g.source = true → SameOn g.source w v →
      (step x w).2.fetched = (step x v).2.fetched ∧ SameOn g.source (step x w).1 (step x v).1 :=
    fun x w v _ hx h => h.kept hx
  have hdropped : ∀ (x : Sys × Op) w v, True → x.2.concerns g.source = false → SameOn g.source w v →
      SameOn g.source (step x w).1 v := fun x w v _ hx h => h.dropped (Source.isFile_source g) hx
  have hdrop := @runOps_drop _ _ _ (fun x w => ((step x w).1, (step x w).2.fetched)) _ _ _ hkeep hdropped
    ops (fun _ _ => trivial) _ _ (SameOn.refl _ w)
  simp only [runOps_map] at hdrop
  exact hdrop.1

end World

end SysInfo
