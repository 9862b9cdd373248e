import SysInfo.Steps
/-!
# Unset — values that depend on members nobody set

The constructor leaves the counters of `m_io` and the two `m_last_` members as the memory was, and an update that finds
no entry for its pid inserts a copy of the whole object.  So a CPU call makes an entry whose `m_io` may never have been
read, and an I/O call one whose ticks were never set; the first call of the other kind takes them for its baseline.
`unset_irrelevant`: a program that asks each pid for one kind of usage never sees such a member.
-/
namespace SysInfo

open Effects ProcessInfo

/-! ## Memories that differ in the unset members -/

namespace ProcessInfo

/-- The same object with other contents of the members the constructor does not set. -/
def withUnset (p : ProcessInfo) (io : IoStat) (total process : UInt64) : ProcessInfo :=
  { p with mIo := io, mLastCpuTotalTime := total, mLastProcessTotalTime := process }

end ProcessInfo

/-- The same operation, a construction in memory with other contents of the unset members. -/
inductive SameBut : Sys × Op → Sys × Op → Prop
  | construct (sys : Sys) (id : ObjId) (junk : ProcessInfo) (io : IoStat) (total process : UInt64) :
    SameBut (sys, .construct id junk) (sys, .construct id (junk.withUnset io total process))
  | refl (x : Sys × Op) : SameBut x x

/-! ## Objects and entries of the two runs -/

/-- The objects of the two runs: alike but for members nobody set. -/
structure ObjAlike (p q : ProcessInfo) : Prop where
  rest : q = { p with
    mIo := q.mIo, mLastCpuTotalTime := q.mLastCpuTotalTime, mLastProcessTotalTime := q.mLastProcessTotalTime }
  io   : p.mNeedUpdate .io = false → q.mIo = p.mIo

namespace ObjAlike

variable {p q : ProcessInfo}

theorem refl (p : ProcessInfo) : ObjAlike p p := ⟨rfl, fun _ => rfl⟩

theorem construct (junk : ProcessInfo) (io : IoStat) (total process : UInt64) (pid : Int32) :
    ObjAlike (construct junk pid) (construct (junk.withUnset io total process) pid) :=
  ⟨rfl, fun h => by cases h⟩

theorem needUpdate (h : ObjAlike p q) : ObjAlike p.needUpdate q.needUpdate := by
  refine ⟨?_, fun hd => by cases hd⟩
  rw [h.rest]
  rfl

theorem mNeedUpdate (h : ObjAlike p q) : q.mNeedUpdate = p.mNeedUpdate := by rw [h.rest]

theorem mPid (h : ObjAlike p q) : q.mPid = p.mPid := by rw [h.rest]

theorem mStat (h : ObjAlike p q) : q.mStat = p.mStat := by rw [h.rest]

theorem updated (h : ObjAlike p q) (src : Source) (hs : src ≠ .io) : ObjAlike (p.updated src) (q.updated src) := by
  refine ⟨?_, fun hd => h.io ?_⟩
  · rw [h.rest]; rfl
  · simpa [ProcessInfo.updated, Function.update_of_ne (Ne.symm hs)] using hd

theorem sampleIo (h : ObjAlike p q) (io : IoStat) :
    ObjAlike (p.sampleIo io) (q.sampleIo io) ∧ (q.sampleIo io).mIo = (p.sampleIo io).mIo := by
  unfold ProcessInfo.sampleIo
  rw [h.mNeedUpdate]
  cases hd : p.mNeedUpdate .io with
  | false => exact ⟨h, h.io hd⟩
  | true =>
    refine ⟨⟨?_, fun _ => rfl⟩, rfl⟩
    rw [h.rest]
    rfl

theorem sampleStat (h : ObjAlike p q) (l : StatLine) : ObjAlike (p.sampleStat l) (q.sampleStat l) := by
  unfold ProcessInfo.sampleStat
  rw [h.mNeedUpdate]
  cases hd : p.mNeedUpdate .stat with
  | false => exact h
  | true =>
    refine ⟨?_, fun hd => h.io ?_⟩
    · rw [h.rest]; rfl
    · simpa [ProcessInfo.updated, parseStat] using hd

theorem ticks (h : ObjAlike p q) : q.ticks = p.ticks := by rw [ProcessInfo.ticks, h.mStat]; rfl

theorem setUsage (h : ObjAlike p q) (m : IoMetric) (r : Rat) : ObjAlike (m.setUsage r p) (m.setUsage r q) := by
  refine ⟨?_, fun hd => ?_⟩
  · rw [h.rest]; cases m <;> rfl
  · cases m <;> exact h.io hd

theorem withCpuUsage (h : ObjAlike p q) (n : Int32) : ObjAlike (p.withCpuUsage n) (q.withCpuUsage n) := by
  refine ⟨?_, fun hd => h.io hd⟩
  rw [h.rest]
  rfl

theorem withTicks (h : ObjAlike p q) (total process : UInt64) :
    ObjAlike (p.withTicks total process) (q.withTicks total process) := by
  refine ⟨?_, fun hd => h.io hd⟩
  rw [h.rest]
  rfl

theorem result (h : ObjAlike p q) (u : Usage) : u.result q = u.result p := by
  rw [h.rest]
  cases u <;> rfl

end ObjAlike

/-- Entries of the two runs for a pid that is asked for one kind of usage: alike in the members of that kind. -/
def EntryAlike (cpu : Bool) (old old' : ProcessInfo) : Prop :=
  if cpu then old'.mLastCpuTotalTime = old.mLastCpuTotalTime ∧ old'.mLastProcessTotalTime = old.mLastProcessTotalTime
  else old'.mIo = old.mIo

theorem EntryAlike.ioBase : ∀ {old old' : Option ProcessInfo}, Option.Rel (EntryAlike false) old old' →
    old'.map (·.mIo) = old.map (·.mIo)
  | _, _, .none => rfl
  | _, _, .some h => congrArg some h

theorem EntryAlike.cpuBase (nb : Int32) (total process : UInt64) : ∀ {old old' : Option ProcessInfo},
    Option.Rel (EntryAlike true) old old' →
      shareSince nb total process old' = shareSince nb total process old ∧ old'.isSome = old.isSome
  | _, _, .none => ⟨rfl, rfl⟩
  | _, _, .some h => by
    obtain ⟨h₁, h₂⟩ := h
    exact ⟨by rw [shareSince, shareSince, h₁, h₂], rfl⟩

structure StaticAlike (cpu : Int32 → Bool) (st st' : Static) : Prop where
  cores : st'.nbCore = st.nbCore
  table : ∀ pid, Option.Rel (EntryAlike (cpu pid)) (st.mapPidOldstate pid) (st'.mapPidOldstate pid)

namespace StaticAlike

variable {cpu : Int32 → Bool} {st st' : Static}

theorem store (h : StaticAlike cpu st st') {pid : Int32} {old old' : ProcessInfo} (he : EntryAlike (cpu pid) old old') :
    StaticAlike cpu (st.store pid old) (st'.store pid old') := by
  refine ⟨h.cores, fun pid' => ?_⟩
  by_cases hp : pid' = pid
  · subst hp
    rw [Static.mapPidOldstate_store_self, Static.mapPidOldstate_store_self]
    exact .some he
  · rw [Static.mapPidOldstate_store_of_ne _ hp, Static.mapPidOldstate_store_of_ne _ hp]
    exact h.table pid'

theorem withCores (h : StaticAlike cpu st st') (nb : Int32) : StaticAlike cpu (st.withCores nb) (st'.withCores nb) := by
  refine ⟨?_, h.table⟩
  rw [Static.withCores, Static.withCores, h.cores]

end StaticAlike

/-- What a member function reaches in the two runs. -/
structure ThisAlike (cpu : Int32 → Bool) (s t : This) : Prop where
  obj    : ObjAlike s.obj t.obj
  static : StaticAlike cpu s.static t.static

namespace ThisAlike

variable {cpu : Int32 → Bool} {s t : This}

/-- **An I/O getter keeps the two runs alike** on a pid asked for I/O. -/
theorem ioUsed (h : ThisAlike cpu s t) (hk : cpu s.obj.mPid = false) (m : IoMetric) (io : IoStat) :
    ThisAlike cpu (s.ioUsed m io) (t.ioUsed m io) := by
  obtain ⟨ho, hio⟩ := h.obj.sampleIo io
  have hm : m.source ≠ .io := by cases m <;> decide
  have htab := h.static.table s.obj.mPid
  rw [hk] at htab
  unfold This.ioUsed
  rw [h.obj.mNeedUpdate]
  by_cases hd : s.obj.mNeedUpdate m.source = true
  · simp only [if_pos hd, mPid_sampleIo, h.obj.mPid, hio]
    -- the baseline and the new entry are `m_io`, alike in both runs
    rw [EntryAlike.ioBase htab]
    refine ⟨(ho.setUsage m _).updated _ hm, h.static.store ?_⟩
    simp only [EntryAlike, hk]
    rfl
  · simpa only [if_neg hd] using h

theorem ioAll (io : IoStat) : ∀ (ms : List IoMetric) {s t : This}, ThisAlike cpu s t → cpu s.obj.mPid = false →
    ThisAlike cpu (s.ioAll ms io) (t.ioAll ms io)
  | [], _, _, h, _ => h
  | m :: ms, s, _, h, hk => ioAll io ms (h.ioUsed hk m io) (by rwa [This.mPid_ioUsed])

/-- **`cpuUsage()` keeps the two runs alike** on a pid asked for CPU usage. -/
theorem cpuUsed (h : ThisAlike cpu s t) (hk : cpu s.obj.mPid = true) (nb : Int32) (total : UInt64) {l : StatLine}
    (hl : l.pid = s.obj.mPid) : ThisAlike cpu (s.cpuUsed nb total l) (t.cpuUsed nb total l) := by
  have ho := h.obj.sampleStat l
  have htab := h.static.table s.obj.mPid
  rw [hk] at htab
  unfold This.cpuUsed
  rw [h.obj.mNeedUpdate]
  by_cases hd : s.obj.mNeedUpdate .cpuUsage = true
  · simp only [if_pos hd, ho.mPid, mPid_sampleStat hl, ho.ticks, h.static.cores]
    -- the baseline and the new entry are the two totals, alike in both runs
    obtain ⟨hbase, hsome⟩ := EntryAlike.cpuBase (s.static.nbCore.getD nb) total (s.obj.sampleStat l).ticks htab
    rw [hbase, hsome]
    refine ⟨.updated (.withCpuUsage ?_ _) _ (by decide), (h.static.withCores nb).store ?_⟩
    · split
      · exact ho
      · exact ho.withTicks _ _
    · simp only [EntryAlike, hk, if_true]
      exact ⟨rfl, rfl⟩
  · simpa only [if_neg hd] using h

theorem after (h : ThisAlike cpu s t) {sys : Sys} {pid : Int32} {u : Usage} (S : Shown u sys pid) (hs : Belongs pid s.obj)
    (hk : cpu pid = decide (u = .cpuUsage)) : ThisAlike cpu (u.after S s) (u.after S t) := by
  rw [← hs.pid] at hk
  cases u with
  | cpuUsage => exact h.cpuUsed (by simpa using hk) _ _ (S.line_pid.trans hs.pid.symm)
  | ioReadUsage | ioWriteUsage | ioTotalUsage _ => exact ioAll _ _ h (by simpa using hk)

end ThisAlike

/-! ## The two runs -/

structure WorldAlike (cpu : Int32 → Bool) (w w' : World) : Prop where
  named  : w.Named
  objs   : ∀ id, Option.Rel ObjAlike (w.objs id) (w'.objs id)
  static : StaticAlike cpu w.static w'.static

/-- An operation the result is about: its files are well formed, it is no getter of a file's member, and a usage call is
of the kind its pid is asked for. -/
structure Permitted (cpu : Int32 → Bool) (x : Sys × Op) : Prop where
  reads : World.Reads x
  noGet : ∀ id g, x.2 ≠ .call id (.get g)
  kind  : ∀ id u, x.2 = .call id (.usage u) → cpu id.pid = decide (u = .cpuUsage)

namespace WorldAlike

variable {cpu : Int32 → Bool} {w w' : World}

theorem objs_set (h : WorldAlike cpu w w') {p q : ProcessInfo} (hpq : ObjAlike p q) (id id' : ObjId) :
    Option.Rel ObjAlike ((w.set id p).objs id') ((w'.set id q).objs id') := by
  by_cases hid : id' = id
  · subst hid
    rw [World.objs_set_self, World.objs_set_self]
    exact .some hpq
  · rw [World.objs_set_of_ne w hid, World.objs_set_of_ne w' hid]
    exact h.objs id'

theorem set (h : WorldAlike cpu w w') {id : ObjId} {p q : ProcessInfo} (hp : Belongs id.pid p) (hpq : ObjAlike p q) :
    WorldAlike cpu (w.set id p) (w'.set id q) := ⟨h.named.set hp, h.objs_set hpq id, h.static⟩

theorem obj_cases (h : WorldAlike cpu w w') (id : ObjId) :
    (w.objs id = none ∧ w'.objs id = none) ∨ ∃ p q, w.objs id = some p ∧ w'.objs id = some q ∧ ObjAlike p q := by
  have hr := h.objs id
  generalize w.objs id = a, w'.objs id = b at hr
  cases hr with
  | none => exact .inl ⟨rfl, rfl⟩
  | some ho => exact .inr ⟨_, _, rfl, rfl, ho⟩

theorem named' (h : WorldAlike cpu w w') : w'.Named := by
  intro id q hq
  rcases h.obj_cases id with ⟨-, hn⟩ | ⟨p, q', hp, hq', ho⟩
  · rw [hn] at hq; cases hq
  · rw [hq'] at hq
    cases hq
    have hb := h.named id p hp
    exact ⟨by rw [ho.rest]; exact hb.path, ho.mPid.trans hb.pid⟩

/-- **An operation answers alike in both runs.** -/
theorem step (h : WorldAlike cpu w w') {x y : Sys × Op} (hxy : SameBut x y) (hx : Permitted cpu x) :
    (World.step x w).2 = (World.step y w').2 ∧ WorldAlike cpu (World.step x w).1 (World.step y w').1 := by
  cases hxy with
  | construct sys id junk io total process =>
    exact ⟨rfl, h.set (Belongs.construct junk id.pid) (ObjAlike.construct junk io total process id.pid)⟩
  | refl x =>
    obtain ⟨sys, op⟩ := x
    cases op with
    | construct id junk => exact ⟨rfl, h.set (Belongs.construct junk id.pid) (ObjAlike.refl _)⟩
    | copy id n =>
      rcases h.obj_cases id with ⟨hp, hq⟩ | ⟨p, q, hp, hq, ho⟩ <;> simp only [World.step, hp, hq]
      · exact ⟨trivial, h⟩
      · exact ⟨trivial, h.set (show Belongs (ObjId.mk id.pid n).pid p from h.named id p hp) ho⟩
    | needUpdate id =>
      rcases h.obj_cases id with ⟨hp, hq⟩ | ⟨p, q, hp, hq, ho⟩ <;> simp only [World.step, hp, hq]
      · exact ⟨trivial, h⟩
      · exact ⟨trivial, h.set (h.named id p hp).needUpdate ho.needUpdate⟩
    | call id q =>
      cases q with
      | get g => exact absurd rfl (hx.noGet id g)
      | usage u =>
        obtain ⟨S⟩ : Nonempty (Shown u sys id.pid) := hx.reads
        rcases h.obj_cases id with ⟨hp, hq⟩ | ⟨p, q, hp, hq, ho⟩
        · simp only [World.step, hp, hq]
          exact ⟨trivial, h⟩
        · have hb := h.named id p hp
          have hafter := ThisAlike.after (s := ⟨p, w.static⟩) (t := ⟨q, w'.static⟩) ⟨ho, h.static⟩ S hb
            (hx.kind id u rfl)
          rw [World.step_usage hp h.named S, World.step_usage hq h.named' S, hafter.obj.result]
          exact ⟨rfl, h.named.leave (hb.after u S (s := ⟨p, w.static⟩)), h.objs_set hafter.obj id, hafter.static⟩

end WorldAlike

/-! ## The first refresh -/

def Usage.zero : (u : Usage) → u.Val
  | .cpuUsage => (0 : Int32)
  | .ioReadUsage | .ioWriteUsage | .ioTotalUsage _ => (0 : Rat)

structure AllDue (p : ProcessInfo) : Prop where
  cpu : p.mNeedUpdate .cpuUsage = true
  io  : ∀ m : IoMetric, p.mNeedUpdate m.source = true

/-- A pid without an entry, on whose objects no usage call was made. -/
structure Unasked (pid : Int32) (w : World) : Prop where
  named : w.Named
  due   : ∀ id p, w.objs id = some p → id.pid = pid → AllDue p
  entry : w.static.mapPidOldstate pid = none

theorem unasked_initial (pid : Int32) : Unasked pid .initial :=
  ⟨World.named_initial, fun _ _ h => (by cases h), rfl⟩

theorem AllDue.call {p : ProcessInfo} (h : AllDue p) (sys : Sys) (g : Getter) : AllDue (state ((g.call sys).run p)) := by
  obtain ⟨hcpu, hio, -⟩ := usages_call sys g p
  exact ⟨hcpu.trans h.cpu, fun m => (hio m).trans (h.io m)⟩

theorem Unasked.step {pid : Int32} {w : World} (h : Unasked pid w) {x : Sys × Op} (hx : World.Reads x)
    (hne : ∀ id u, x.2 = .call id (.usage u) → id.pid ≠ pid) : Unasked pid (World.step x w).1 := by
  have hlead : World.Leads (fun id p => id.pid = pid → AllDue p) (fun id p => id.pid = pid → AllDue p)
      (fun st => st.mapPidOldstate pid = none) (fun st => st.mapPidOldstate pid = none) x := by
    refine ⟨fun _ _ h => h, fun _ h => h, ?_⟩
    obtain ⟨sys, op⟩ := x
    cases op with
    | construct id junk => exact fun _ => ⟨rfl, fun m => rfl⟩
    | copy id n => exact fun p hp => hp
    | needUpdate id => exact fun p _ _ => ⟨rfl, fun m => rfl⟩
    | call id q =>
      cases q with
      | get g => exact fun p _ hp hid => (hp hid).call sys g
      | usage u =>
        intro S s hb _ hst
        have hid : id.pid ≠ pid := hne id u rfl
        exact ⟨fun e => absurd e hid, (This.oldstate_after u S hb hid.symm).trans hst⟩
  obtain ⟨h₁, h₂⟩ := hlead.step hx h.named h.due h.entry
  exact ⟨h.named.step hx, h₁, h₂⟩

/-- **The first usage call on a pid returns 0.** -/
theorem result_first {u : Usage} {sys : Sys} {pid : Int32} (S : Shown u sys pid) {s : This} (hb : Belongs pid s.obj)
    (hd : AllDue s.obj) (he : s.static.mapPidOldstate pid = none) : u.result (u.after S s).obj = u.zero := by
  rw [← hb.pid] at he
  have hbase : s.ioBase = none := by rw [This.ioBase, he]; rfl
  have hone : ∀ m : IoMetric, m.usage (s.ioUsed m (S.io.stat sys.now)).obj = 0 := fun m => by
    rw [This.usage_ioUsed (hd.io m), hbase, rateSince_none]
  have hboth : ∀ m : IoMetric, m.usage ((s.ioUsed m (S.io.stat sys.now)).ioUsed m.other (S.io.stat sys.now)).obj = 0 ∧
      m.other.usage ((s.ioUsed m (S.io.stat sys.now)).ioUsed m.other (S.io.stat sys.now)).obj = 0 := fun m => by
    obtain ⟨h₁, h₂, -⟩ := This.ioUsed_both hd.io m (S.io.stat sys.now)
    rw [hbase, rateSince_none] at h₁
    exact ⟨h₁, h₂⟩
  have hsum : ∀ a b : Rat, a = 0 → b = 0 → a + b = 0 := fun a b ha hb => by rw [ha, hb, add_zero]
  cases u with
  | cpuUsage =>
    have hnone : s.static.mapPidOldstate (s.obj.sampleStat S.line).mPid = none := by
      rw [mPid_sampleStat (S.line_pid.trans hb.pid.symm), he]
    simp only [Usage.after, This.cpuUsed, if_pos hd.cpu, hnone]
    rfl
  | ioReadUsage => exact hone .read
  | ioWriteUsage => exact hone .write
  | ioTotalUsage readFirst =>
    cases readFirst with
    | true => exact hsum _ _ (hboth .read).1 (hboth .read).2
    | false => exact hsum _ _ (hboth .write).2 (hboth .write).1

/-! ## The result -/

/-- A program of constructions, `needUpdate` and usage calls, every file readable and well formed. -/
structure UsageProgram (ops : List (Sys × Op)) : Prop where
  reads : ∀ x ∈ ops, World.Reads x
  noGet : ∀ x ∈ ops, ∀ id g, x.2 ≠ .call id (.get g)

/-- No pid receives both a `cpuUsage` call and an I/O usage call. -/
def OneKind (ops : List (Sys × Op)) : Prop :=
  ∀ x ∈ ops, ∀ y ∈ ops, ∀ id u id' u', x.2 = .call id (.usage u) → y.2 = .call id' (.usage u') → id.pid = id'.pid →
    (u = .cpuUsage ↔ u' = .cpuUsage)

/-- What the unset members hold shows in no answer, and the first call of a kind on a pid returns 0. -/
structure UnsetIrrelevant (ops : List (Sys × Op)) : Prop where
  answers : ∀ ops', List.Forall₂ SameBut ops ops' → (World.run .initial ops).2 = (World.run .initial ops').2
  first   : ∀ pre sys id u post, ops = pre ++ (sys, .call id (.usage u)) :: post →
    (∀ y ∈ pre, ∀ id' u', y.2 = .call id' (.usage u') → id'.pid = id.pid → ¬ (u = .cpuUsage ↔ u' = .cpuUsage)) →
      ∀ a ∈ (World.step (sys, .call id (.usage u)) (World.run .initial pre).1).2, a = ⟨.usage u, .ok u.zero⟩

open Classical in
/-- **A program that asks each pid for one kind of usage never sees an unset member.** -/
theorem unset_irrelevant {ops : List (Sys × Op)} (hops : UsageProgram ops) (hone : OneKind ops) : UnsetIrrelevant ops := by
  let cpu (pid : Int32) : Bool := decide (∃ x ∈ ops, ∃ id : ObjId, x.2 = .call id (.usage .cpuUsage) ∧ id.pid = pid)
  have hcpu : ∀ x ∈ ops, ∀ id u, x.2 = .call id (.usage u) → cpu id.pid = decide (u = .cpuUsage) := by
    intro x hx id u hu
    refine decide_eq_decide.2 ⟨?_, ?_⟩
    · rintro ⟨y, hy, id', hy', hpid⟩
      exact (hone x hx y hy id u id' .cpuUsage hu hy' hpid.symm).2 rfl
    · rintro rfl
      exact ⟨x, hx, id, hu, rfl⟩
  have hperm : ∀ x ∈ ops, Permitted cpu x := fun x hx => ⟨hops.reads x hx, hops.noGet x hx, hcpu x hx⟩
  constructor
  · intro ops' hsame
    have hinit : WorldAlike cpu .initial .initial := ⟨World.named_initial, fun _ => .none, rfl, fun _ => .none⟩
    refine (runOps_couple (P := fun x y => Permitted cpu x ∧ SameBut x y) (fun x y w w' hxy h => h.step hxy.2 hxy.1)
      ?_ hinit).1
    exact (List.forall₂_and_left _ _).2 ⟨hperm, hsame⟩
  · intro pre sys id u post hsplit hpre a ha
    have hin : ∀ y ∈ pre, y ∈ ops := fun y hy => by rw [hsplit]; exact List.mem_append_left _ hy
    have hx : (sys, Op.call id (.usage u)) ∈ ops := by rw [hsplit]; simp
    -- no usage call was made on the pid: one of this kind is excluded here, one of the other kind in the whole run
    have hunasked : ∀ y ∈ pre, ∀ id' u', y.2 = .call id' (.usage u') → id'.pid ≠ id.pid := fun y hy id' u' hu' hpid =>
      hpre y hy id' u' hu' hpid (hone _ hx y (hin y hy) id u id' u' rfl hu' hpid.symm)
    have hrun : Unasked id.pid (World.run .initial pre).1 := by
      refine runOps_keeps (· ∈ pre) (Unasked id.pid) (fun y w hy hw => ?_) pre .initial (fun y hy => hy) (unasked_initial _)
      exact hw.step (hops.reads y (hin y hy)) (hunasked y hy)
    obtain ⟨S⟩ : Nonempty (Shown u sys id.pid) := hops.reads _ hx
    cases hp : (World.run .initial pre).1.objs id with
    | none => simp [World.step, hp] at ha
    | some p =>
      have hb := hrun.named id p hp
      rw [World.step_usage hp hrun.named S, Option.mem_some_iff] at ha
      rw [← ha, result_first S hb (hrun.due id p hp rfl) hrun.entry]

/-- An object of `init` and a copy of it, both asked for the CPU usage. -/
theorem unset_irrelevant_cpuTwice :
    let sys := Sys.small (.init 3 4) (.bytes 0 0) 10 (10 ^ 9)
    UnsetIrrelevant [(sys, .construct ⟨1, 0⟩ .zeroed), (sys, .copy ⟨1, 0⟩ 1), (sys, .call ⟨1, 0⟩ (.usage .cpuUsage)),
      (sys, .call ⟨1, 1⟩ (.usage .cpuUsage))] := by
  refine unset_irrelevant ⟨fun x hx => ?_, fun x hx id g hg => ?_⟩ fun x hx y hy id u id' u' hu hu' _ => ?_
  · simp only [List.mem_cons, List.not_mem_nil, or_false] at hx
    rcases hx with rfl | rfl | rfl | rfl <;> exact ⟨Shown.small _ (.init 3 4) rfl (.bytes 0 0) 10 (10 ^ 9)⟩
  · simp only [List.mem_cons, List.not_mem_nil, or_false] at hx
    rcases hx with rfl | rfl | rfl | rfl <;> cases hg
  · simp only [List.mem_cons, List.not_mem_nil, or_false] at hx hy
    rcases hx with rfl | rfl | rfl | rfl <;> cases hu <;> rcases hy with rfl | rfl | rfl | rfl <;> cases hu' <;> rfl

/-! ## A program that sees them -/

def rateOf : (Σ q : Query, Except Exn q.Val) → Option Rat
  | ⟨.usage .ioReadUsage, .ok r⟩ => some r
  | _ => none

/-- `cpuUsage()` and then `ioReadUsage()` of one object, in memory whose counters hold 1. -/
def cpuThenRead : List (Sys × Op) :=
  let sys := Sys.small (.init 0 0) (.bytes 0 0) 0 (10 ^ 9)
  [(sys, .construct ⟨1, 0⟩ (ProcessInfo.zeroed.withUnset ⟨fun _ => 1, 0⟩ 0 0)), (sys, .call ⟨1, 0⟩ (.usage .cpuUsage)),
    (sys, .call ⟨1, 0⟩ (.usage .ioReadUsage))]

theorem usageProgram_cpuThenRead : UsageProgram cpuThenRead := by
  constructor
  · intro x hx
    simp only [cpuThenRead, List.mem_cons, List.not_mem_nil, or_false] at hx
    rcases hx with rfl | rfl | rfl <;> exact ⟨Shown.small _ (.init 0 0) rfl (.bytes 0 0) 0 (10 ^ 9)⟩
  · intro x hx id g hg
    simp only [cpuThenRead, List.mem_cons, List.not_mem_nil, or_false] at hx
    rcases hx with rfl | rfl | rfl <;> cases hg

/-- Not a byte was read, and the rate is 2^64 - 1 bytes a second. -/
theorem rate_cpuThenRead :
    ((World.step (Sys.small (.init 0 0) (.bytes 0 0) 0 (10 ^ 9), .call ⟨1, 0⟩ (.usage .ioReadUsage))
      (World.run .initial (cpuThenRead.take 2)).1).2.bind rateOf) = some (2 ^ 64 - 1) := by decide +kernel

/-- The first I/O refresh of a pid does not return 0. -/
theorem not_unsetIrrelevant_cpuThenRead : UsageProgram cpuThenRead ∧ ¬ UnsetIrrelevant cpuThenRead := by
  refine ⟨usageProgram_cpuThenRead, fun h => ?_⟩
  have hfirst := h.first (cpuThenRead.take 2) _ ⟨1, 0⟩ .ioReadUsage [] rfl
  have hrate := rate_cpuThenRead
  obtain ⟨a, ha, hr⟩ := Option.bind_eq_some_iff.1 hrate
  have hzero := hfirst (fun y hy id u hu hpid => ?_) a ha
  · rw [hzero] at hr
    exact absurd (Option.some.inj hr) (by decide +kernel)
  · simp only [cpuThenRead, List.take_succ_cons, List.take_zero, List.mem_cons, List.not_mem_nil, or_false] at hy
    rcases hy with rfl | rfl <;> cases hu
    simp

end SysInfo
