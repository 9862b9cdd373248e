import SysInfo.Refresh
import SysInfo.Sources
import SysInfo.UserName
/-!
# History — what an object keeps of all its reads

`needUpdate()` forgets nothing.  A read of `status` puts its ids behind the ones the object has, and reads of `environ` and
`fd` put their entries over the old ones.  What these getters return is a function of every read of the object's life
(`accumulated`), and the first id an object has read stays the one `userName()` looks up (`userName_kept`).

Which calls read follows from the calls alone (`reads`): a getter reads when its source is due, which it is after
`needUpdate()` and after a read that threw.  A `View` is a part of the object that one source fills, with the law of a
read; `View.run` is the induction over a program.
-/
namespace SysInfo

open IStream Effects ProcessInfo

/-! ## The reads of a program -/

namespace Op

/-- The operation puts another object in the place of `id`. -/
def replaces (id : ObjId) : Op → Prop
  | .construct id' _ => id' = id
  | .copy id' n      => (⟨id'.pid, n⟩ : ObjId) = id
  | _                => False

instance (id : ObjId) : DecidablePred (replaces id)
  | .construct id' _ => inferInstanceAs (Decidable (id' = id))
  | .copy id' n      => inferInstanceAs (Decidable ((⟨id'.pid, n⟩ : ObjId) = id))
  | .needUpdate _    => inferInstanceAs (Decidable False)
  | .call _ _        => inferInstanceAs (Decidable False)

/-- A getter of the source, called on the object. -/
def gets (src : Source) (id : ObjId) : Op → Bool
  | .call id' (.get g) => id' = id && g.source = src
  | _                  => false

def raises (id : ObjId) : Op → Bool
  | .needUpdate id' => id' = id
  | _               => false

end Op

/-- What the reads of a source find, from whether it is due at first. -/
def reads (src : Source) (id : ObjId) (fault : Sys → Bool) : Bool → List (Sys × Op) → List Sys
  | _, []        => []
  | due, x :: xs =>
    if x.2.gets src id then
      if due then x.1 :: reads src id fault (fault x.1) xs else reads src id fault due xs
    else reads src id fault (due || x.2.raises id) xs

/-! ## Views -/

/-- A part of an object that one source fills, which no usage reads: what a read makes of it, and which reads throw, by
the object's path and what they find there. -/
structure View (src : Source) (β : Type) where
  of           : ProcessInfo → β
  read         : List Char → Sys → β → β
  fault        : List Char → Sys → Bool
  isFile       : src.IsFile
  unused       : ∀ u : Usage, u.reads ≠ src
  of_members   : ∀ {p q : ProcessInfo}, src.members p = src.members q → of p = of q
  of_reader    : ∀ (sys : Sys) (p : ProcessInfo), of (state ((reader sys src).run p)) = read p.mProcPath sys (of p)
  ok_reader    : ∀ (sys : Sys) (p : ProcessInfo), (∃ q, (reader sys src).run p = .ok () q) ↔ fault p.mProcPath sys = false

def SameFlags (p q : ProcessInfo) : Prop := q.mNeedUpdate = p.mNeedUpdate

instance : IsPreorder ProcessInfo SameFlags where
  refl _ := rfl
  trans _ _ _ h h' := Eq.trans h' h

/-- **A reader leaves the flags alone**: they are the getters' business. -/
theorem sameFlags_reader (sys : Sys) (src : Source) : Moves SameFlags (reader sys src) := by
  have hm : ∀ {g : ProcessInfo → ProcessInfo}, (∀ p, SameFlags p (g p)) →
      Moves SameFlags (modify g : Cpp ProcessInfo Unit) := fun h => moves_modify h
  cases src with
  | stat | environ | cwd | exe | root | cmdline | wchan => exact hm fun _ => rfl
  | status =>
    intro p
    show SameFlags p (state ((readStatus sys).run p))
    rw [state_readStatus, foldl_statusStore]
    rfl
  | io =>
    intro p
    show SameFlags p (state ((readIo sys).run p))
    rw [state_readIo, foldl_ioStore]
    rfl
  | fd =>
    exact moves_get_bind fun p => moves_forM fun name _ => moves_get_bind fun q =>
      (moves_lift _).bind fun n => hm fun _ => by rfl
  | smaps =>
    have hpush : ∀ ss, Moves SameFlags (pushMap sys ss) := fun ss =>
      moves_get_bind fun p => (moves_lift _).bind fun r => (hm fun _ => by rfl).bind fun _ => moves_pure _
    have hline : ∀ ss l, Moves SameFlags (smapsLine sys ss l) := fun ss l => by
      unfold smapsLine
      split
      · exact (hpush ss).bind fun _ => moves_pure _
      · exact moves_pure _
    refine (hm fun _ => by rfl).bind fun _ => moves_get_bind fun p => ?_
    split
    · exact (moves_foldlM hline _ _).bind fun ss => (hpush ss).bind fun _ => moves_pure _
    · exact moves_pure _
  | cpuUsage | ioReadUsage | ioWriteUsage => exact moves_pure _

theorem mProcPath_reader (sys : Sys) (src : Source) (p : ProcessInfo) :
    (state ((reader sys src).run p)).mProcPath = p.mProcPath := by
  have hm : state ((reader sys src).run p) = take src p _ := moves_reader sys src p
  rw [hm, mProcPath_take]

namespace View

variable {src : Source} {β : Type} (v : View src β)

/-- **A getter** reads its source when that is due, and takes the flag down when the read returns. -/
theorem getter {g : Getter} (hg : g.source = src) (sys : Sys) (p : ProcessInfo) :
    (state ((g.call sys).run p)).mProcPath = p.mProcPath ∧
      (state ((g.call sys).run p)).mNeedUpdate src = (p.mNeedUpdate src && v.fault p.mProcPath sys) ∧
      v.of (state ((g.call sys).run p)) = if p.mNeedUpdate src then v.read p.mProcPath sys (v.of p) else v.of p := by
  subst hg
  rw [state_call, refresh, EStateM.run_bind, EStateM.run_get]
  dsimp only
  cases hd : p.mNeedUpdate g.source with
  | false => exact ⟨rfl, hd, rfl⟩
  | true =>
    have hpath := mProcPath_reader sys g.source p
    have hflags : (state ((reader sys g.source).run p)).mNeedUpdate = p.mNeedUpdate := sameFlags_reader sys g.source p
    have hof := v.of_reader sys p
    have hok := v.ok_reader sys p
    simp only [if_true, EStateM.run_bind, Bool.true_and]
    cases hr : (reader sys g.source).run p with
    | ok u q =>
      rw [hr] at hpath hof
      refine ⟨hpath, ?_, ?_⟩
      · rw [hok.1 ⟨q, hr⟩]
        exact Function.update_self ..
      · rw [← hof]
        refine v.of_members ?_
        cases g <;> rfl
    | error e q =>
      rw [hr] at hpath hof hflags
      refine ⟨hpath, ?_, hof⟩
      have hfault : v.fault p.mProcPath sys = true := by
        rw [← Bool.not_eq_false, ← hok]
        rintro ⟨q', hq'⟩
        rw [hr] at hq'
        cases hq'
      rw [hfault]
      exact (congrFun hflags g.source).trans hd

end View

/-! ## Runs -/

section Runs

variable {src : Source} {β : Type} (v : View src β) {w : World} {id : ObjId} {p : ProcessInfo}

/-- **An operation**, seen by the object: only a getter of the source and `needUpdate()` matter. -/
theorem View.step (hp : w.objs id = some p) {x : Sys × Op} (hx : ¬ x.2.replaces id) :
    ∃ q, (World.step x w).1.objs id = some q ∧ q.mProcPath = p.mProcPath ∧
      q.mNeedUpdate src = (if x.2.gets src id then p.mNeedUpdate src && v.fault p.mProcPath x.1
        else p.mNeedUpdate src || x.2.raises id) ∧
      v.of q = if x.2.gets src id && p.mNeedUpdate src then v.read p.mProcPath x.1 (v.of p) else v.of p := by
  obtain ⟨sys, op⟩ := x
  have hother : ∀ {id' : ObjId} (q : ProcessInfo), id' ≠ id → (w.set id' q).objs id = some p := fun q hne => by
    rw [World.objs_set_of_ne w (Ne.symm hne), hp]
  cases op with
  | construct id' junk => exact ⟨p, hother _ hx, rfl, by simp [Op.gets, Op.raises], by simp [Op.gets]⟩
  | copy id' n =>
    refine ⟨p, ?_, rfl, by simp [Op.gets, Op.raises], by simp [Op.gets]⟩
    cases hw : w.objs id' with
    | none => simpa only [World.step, hw] using hp
    | some q =>
      simp only [World.step, hw]
      exact hother q hx
  | needUpdate id' =>
    by_cases hid : id' = id
    · subst hid
      refine ⟨p.needUpdate, ?_, rfl, ?_, ?_⟩
      · simp only [World.step, hp, World.objs_set_self]
      · simp [Op.gets, Op.raises, ProcessInfo.needUpdate]
      · have hm : src.members p.needUpdate = src.members p := by cases src <;> rfl
        simpa [Op.gets] using v.of_members hm
    · refine ⟨p, ?_, rfl, by simp [Op.gets, Op.raises, hid], by simp [Op.gets]⟩
      cases hw : w.objs id' with
      | none => simpa only [World.step, hw] using hp
      | some q =>
        simp only [World.step, hw]
        exact hother _ hid
  | call id' q =>
    by_cases hid : id' = id
    · subst hid
      rw [World.step_call hp]
      refine ⟨_, World.objs_set_self .., ?_⟩
      by_cases hq : (Op.call id' q).gets src id' = true
      · cases q with
        | usage u => cases hq
        | get g =>
          have hg : g.source = src := by simpa [Op.gets] using hq
          obtain ⟨hpath, hdue, hof⟩ := v.getter hg sys p
          rw [Query.call, (run_onObj (g.call sys) ⟨p, w.static⟩).1]
          simp only [hq, if_true, Bool.true_and]
          exact ⟨hpath, hdue, hof⟩
      · have hmoves : Moves (SameHere src) (q.call sys) := by
          cases q with
          | get g => exact moves_getter fun e => hq (by simp [Op.gets, e])
          | usage u => exact moves_usageOn v.isFile (v.unused u).symm
        obtain ⟨⟨hpath, hm, hdue⟩, -⟩ := hmoves ⟨p, w.static⟩
        rw [Bool.not_eq_true] at hq
        refine ⟨hpath.symm, ?_, (v.of_members hm).symm.trans (by simp [hq])⟩
        simp only [hq, Op.raises, Bool.false_eq_true, if_false, Bool.or_false]
        exact (hdue src (.inl rfl)).symm
    · refine ⟨p, ?_, rfl, ?_, ?_⟩
      · cases hw : w.objs id' with
        | none => simpa only [World.step, hw] using hp
        | some q' =>
          rw [World.step_call hw]
          exact hother _ hid
      · cases q <;> simp [Op.gets, Op.raises, hid]
      · cases q <;> simp [Op.gets, hid]

/-- **A program**: what the object has of the source is made by the reads, in their order. -/
theorem View.run : ∀ {ops : List (Sys × Op)} {w : World} {p : ProcessInfo}, w.objs id = some p →
    (∀ x ∈ ops, ¬ x.2.replaces id) → ∃ q, (World.run w ops).1.objs id = some q ∧ q.mProcPath = p.mProcPath ∧
      v.of q = (reads src id (v.fault p.mProcPath) (p.mNeedUpdate src) ops).foldl (fun b sys => v.read p.mProcPath sys b)
        (v.of p)
  | [], _, p, hp, _ => ⟨p, hp, rfl, rfl⟩
  | x :: ops, w, p, hp, hops => by
    obtain ⟨q, hq, hpath, hdue, hof⟩ := v.step hp (hops x (by simp))
    have hrest : ∀ y ∈ ops, ¬ y.2.replaces id := fun y hy => hops y (by simp [hy])
    obtain ⟨r, hr, hpath', hrun⟩ := View.run hq hrest
    refine ⟨r, hr, hpath'.trans hpath, hrun.trans ?_⟩
    rw [hdue, hof, hpath, reads]
    cases x.2.gets src id with
    | false => rfl
    | true => cases p.mNeedUpdate src <;> rfl

end Runs

/-! ## The sources that pile up -/

/-- The ids of a kind that a text of `status` holds before the first number that is no `int`. -/
def idsIn (m : StatusMember) (text : Option (List Char)) : List Int :=
  ((converted (stoi 10) (numbersOf text)).filter (·.1 = m)).map Prod.snd

def View.ids : View .status (List Int × List Int) where
  of p := (p.mUids, p.mGids)
  read path sys ids :=
    let text := sys.file (path ++ "status".toList)
    (ids.1 ++ idsIn .uid text, ids.2 ++ idsIn .gid text)
  fault path sys := !convertsWhole (sys.file (path ++ "status".toList))
  isFile := trivial
  unused u h := by cases u <;> cases h
  of_members h := by
    simp only [Source.members, Prod.mk.injEq] at h
    rw [h.1, h.2.1]
  of_reader sys p := by
    show ((state ((readStatus sys).run p)).mUids, (state ((readStatus sys).run p)).mGids) = _
    rw [state_readStatus, foldl_statusStore]
    rfl
  ok_reader sys p := by
    rw [Bool.not_eq_false']
    exact readStatus_ok_iff sys p

/-- The variables of a text of `environ`. -/
def variablesIn (text : Option (List Char)) : List (List Char × List Char) :=
  (getlines '\x00' (openFile text)).map (keyValue '=')

def View.variables : View .environ (List Char → Option (List Char)) where
  of p := p.mEnviron
  read path sys m k := (lastFor k (variablesIn (sys.file (path ++ "environ".toList)))).or (m k)
  fault _ _ := false
  isFile := trivial
  unused u h := by cases u <;> cases h
  of_members h := h
  of_reader sys p := by
    funext k
    show (getlines '\x00' _).foldl environEntry p.mEnviron k = _
    rw [← foldl_update_some, variablesIn, List.foldl_map]
    rfl
  ok_reader sys p := iff_of_true ⟨_, rfl⟩ rfl

/-- The names of `fd`, with the targets of their links. -/
def linksAt (path : List Char) (sys : Sys) : List (List Char × List Char) :=
  (sys.dir (path ++ "fd".toList)).names.map fun name => (sys.link (path ++ ("fd/".toList ++ name)), name)

/-- The descriptors that a read of `fd` finds, up to the first name that is no `int`. -/
def descriptorsAt (path : List Char) (sys : Sys) : List (Int × List Char) :=
  (converted (stoi 10) (linksAt path sys)).map Prod.swap

def storeLink (target : List Char) (n : Int) (p : ProcessInfo) : ProcessInfo :=
  { p with mFds := Function.update p.mFds n (some target) }

theorem run_readFd_eq (sys : Sys) (p : ProcessInfo) :
    (readFd sys).run p = (storeAll (stoi 10) storeLink (linksAt p.mProcPath sys)).run p := by
  have hnames : ∀ (names : List (List Char)) (q : ProcessInfo), q.mProcPath = p.mProcPath →
      (names.forM (fdEntry sys)).run q = (storeAll (stoi 10) storeLink
        (names.map fun name => (sys.link (p.mProcPath ++ ("fd/".toList ++ name)), name))).run q := by
    intro names
    induction names with
    | nil => exact fun _ _ => rfl
    | cons name names ih =>
      intro q hq
      rw [run_forM_cons, List.map_cons, storeAll_cons, EStateM.run_bind, EStateM.run_bind]
      simp only [fdEntry, EStateM.run_bind, EStateM.run_get, hq]
      cases stoi 10 name with
      | error e => rfl
      | ok n => exact ih (storeLink (sys.link (p.mProcPath ++ ("fd/".toList ++ name))) n q) hq
  exact hnames _ p rfl

theorem mFds_foldl_storeLink (n : Int) (xs : List (List Char × Int)) (p : ProcessInfo) :
    (xs.foldl (fun q x => storeLink x.1 x.2 q) p).mFds n = (lastFor n (xs.map Prod.swap)).or (p.mFds n) := by
  have hfds : xs.foldl (fun (m : Int → Option (List Char)) x => Function.update m x.2 (some x.1)) p.mFds =
      (xs.foldl (fun q x => storeLink x.1 x.2 q) p).mFds := List.foldl_hom mFds fun _ _ => rfl
  rw [← hfds, ← foldl_update_some, List.foldl_map]
  rfl

def View.descriptors : View .fd (Int → Option (List Char)) where
  of p := p.mFds
  read path sys m n := (lastFor n (descriptorsAt path sys)).or (m n)
  fault path sys := !(linksAt path sys).all fun x => (stoi 10 x.2).toBool
  isFile := trivial
  unused u h := by cases u <;> cases h
  of_members h := h
  of_reader sys p := by
    funext n
    show (state ((readFd sys).run p)).mFds n = _
    rw [run_readFd_eq, state_storeAll]
    exact mFds_foldl_storeLink n _ p
  ok_reader sys p := by
    show (∃ q, (readFd sys).run p = .ok () q) ↔ _
    rw [run_readFd_eq, Bool.not_eq_false', List.all_eq_true]
    refine (run_storeAll_ok_iff (stoi 10) storeLink _ p).trans ?_
    refine forall_congr' fun x => forall_congr' fun _ => ?_
    cases stoi 10 x.2 <;> simp [Except.toBool]

/-! ## The object -/

section Object

variable {w : World} {id : ObjId} {p : ProcessInfo} {ops : List (Sys × Op)}

theorem foldl_append₂ {ι α β : Type} (f : ι → List α) (g : ι → List β) : ∀ (is : List ι) (a : List α) (b : List β),
    is.foldl (fun ab i => (ab.1 ++ f i, ab.2 ++ g i)) (a, b) = (a ++ is.flatMap f, b ++ is.flatMap g)
  | [], _, _ => by simp
  | i :: is, a, b => by simp [foldl_append₂ f g is]

/-- The ids of an object are those it had and those of each read since, in their order. -/
theorem ids_after (hp : w.objs id = some p) (hops : ∀ x ∈ ops, ¬ x.2.replaces id) :
    ∃ q, (World.run w ops).1.objs id = some q ∧ q.mProcPath = p.mProcPath ∧
      let found := reads .status id (View.ids.fault p.mProcPath) (p.mNeedUpdate .status) ops
      q.mUids = p.mUids ++ found.flatMap (fun sys => idsIn .uid (sys.file (p.mProcPath ++ "status".toList))) ∧
        q.mGids = p.mGids ++ found.flatMap (fun sys => idsIn .gid (sys.file (p.mProcPath ++ "status".toList))) := by
  obtain ⟨q, hq, hpath, hids⟩ := View.ids.run hp hops
  replace hids : (q.mUids, q.mGids) = _ := hids.trans (foldl_append₂ _ _ _ p.mUids p.mGids)
  exact ⟨q, hq, hpath, congrArg Prod.fst hids, congrArg Prod.snd hids⟩

theorem nameOfUid_of_prefix {q : ProcessInfo} (hne : p.mUids ≠ []) (h : p.mUids <+: q.mUids)
    (passwd : Int → Option (List Char)) (beyond : Int) : nameOfUid passwd beyond q = nameOfUid passwd beyond p := by
  obtain ⟨us, hus⟩ := h
  obtain ⟨u, vs, hvs⟩ := List.exists_cons_of_ne_nil hne
  simp only [nameOfUid, ← hus, hvs, List.cons_append, List.headD_cons]

namespace World

/-- **What an object holds of `status`, `environ` and `fd`** is what it held and what its reads have found since: all the
ids, and of a variable or a descriptor the last value found, though none of the later reads may have it. -/
theorem accumulated (hp : w.objs id = some p) (hops : ∀ x ∈ ops, ¬ x.2.replaces id) :
    ∃ q, (run w ops).1.objs id = some q ∧
      (let found := reads .status id (View.ids.fault p.mProcPath) (p.mNeedUpdate .status) ops
      q.mUids = p.mUids ++ found.flatMap (fun sys => idsIn .uid (sys.file (p.mProcPath ++ "status".toList))) ∧
        q.mGids = p.mGids ++ found.flatMap (fun sys => idsIn .gid (sys.file (p.mProcPath ++ "status".toList)))) ∧
      (let found := reads .environ id (View.variables.fault p.mProcPath) (p.mNeedUpdate .environ) ops
      ∀ k, q.mEnviron k = (lastFor k (found.flatMap fun sys => variablesIn (sys.file
        (p.mProcPath ++ "environ".toList)))).or (p.mEnviron k)) ∧
      (let found := reads .fd id (View.descriptors.fault p.mProcPath) (p.mNeedUpdate .fd) ops
      ∀ n, q.mFds n = (lastFor n (found.flatMap (descriptorsAt p.mProcPath))).or (p.mFds n)) := by
  obtain ⟨q, hq, -, huids, hgids⟩ := ids_after hp hops
  obtain ⟨q₁, hq₁, -, hvariables⟩ := View.variables.run hp hops
  obtain ⟨q₂, hq₂, -, hdescriptors⟩ := View.descriptors.run hp hops
  obtain rfl : q = q₁ := Option.some.inj (hq.symm.trans hq₁)
  obtain rfl : q = q₂ := Option.some.inj (hq.symm.trans hq₂)
  refine ⟨q, hq, ⟨huids, hgids⟩, fun k => ?_, fun n => ?_⟩
  · exact (congrFun hvariables k).trans (foldl_lastFor_or _ k _ p.mEnviron)
  · exact (congrFun hdescriptors n).trans (foldl_lastFor_or _ n _ p.mFds)

/-- Files that all hold the ids of one user. -/
def ownedBy (uid : Char) : Sys :=
  .ofFiles fun _ => some ("Uid:\t".toList ++ [uid, '\t', uid, '\t', uid, '\t', uid, '\n'])

theorem accumulated_twice :
    let ops : List (Sys × Op) :=
      [(ownedBy '7', .call ⟨1, 0⟩ (.get .uids)), (ownedBy '8', .needUpdate ⟨1, 0⟩), (ownedBy '8', .call ⟨1, 0⟩ (.get .uids))]
    ∃ q, (run (run initial [(ownedBy '7', .construct ⟨1, 0⟩ zeroed)]).1 ops).1.objs ⟨1, 0⟩ = some q ∧
      q.mUids = [7, 7, 7, 7, 8, 8, 8, 8] := by
  intro ops
  have hp : (run initial [(ownedBy '7', .construct ⟨1, 0⟩ zeroed)]).1.objs ⟨1, 0⟩ = some (construct zeroed 1) := rfl
  obtain ⟨q, hq, ⟨huids, -⟩, -⟩ := accumulated hp (show ∀ x ∈ ops, ¬ x.2.replaces ⟨1, 0⟩ by decide)
  exact ⟨q, hq, huids.trans rfl⟩

/-- **The first id stays the first**: once an object has read one, `userName()` looks up no other, whatever `status` says
later on. -/
theorem userName_kept (hp : w.objs id = some p) (hne : p.mUids ≠ []) (hops : ∀ x ∈ ops, ¬ x.2.replaces id) :
    ∃ q, (run w ops).1.objs id = some q ∧ ∀ sys passwd beyond name r,
      (ProcessInfo.userName sys passwd beyond).run q = .ok name r → name = nameOfUid passwd beyond p := by
  obtain ⟨q, hq, -, huids, -⟩ := ids_after hp hops
  refine ⟨q, hq, fun sys passwd beyond name r hr => ?_⟩
  obtain ⟨_, r', _, hreturn⟩ := of_run_bind_ok hr
  obtain ⟨rfl, rfl⟩ : nameOfUid passwd beyond r' = name ∧ r' = r := by cases hreturn; exact ⟨rfl, rfl⟩
  refine nameOfUid_of_prefix hne (List.IsPrefix.trans ⟨_, huids.symm⟩ ?_) passwd beyond
  -- the call itself may read `status` once more
  have hstate : state ((Getter.uids.call sys).run q) = r' := by
    rw [← state_ok (nameOfUid passwd beyond r') r', ← hr]
    exact (state_getter ..).trans (state_getter ..).symm
  have hids := (View.ids.getter (g := .uids) rfl sys q).2.2
  rw [hstate] at hids
  replace hids := congrArg Prod.fst hids
  cases hd : q.mNeedUpdate .status with
  | false =>
    simp only [hd, Bool.false_eq_true, if_false] at hids
    exact ⟨[], (List.append_nil _).trans hids.symm⟩
  | true =>
    simp only [hd, if_true] at hids
    exact ⟨_, hids.symm⟩

theorem userName_kept_changed :
    let w := (run initial [(ownedBy '7', .construct ⟨1, 0⟩ zeroed), (ownedBy '7', .call ⟨1, 0⟩ (.get .uids))]).1
    ∃ q, (run w [(ownedBy '8', .needUpdate ⟨1, 0⟩)]).1.objs ⟨1, 0⟩ = some q ∧ ∀ name r,
      (ProcessInfo.userName (ownedBy '8') (fun _ => none) 0).run q = .ok name r → name = "7".toList := by
  intro w
  obtain ⟨p, hp, hids⟩ : ∃ p, w.objs ⟨1, 0⟩ = some p ∧ p.mUids = [7, 7, 7, 7] := ⟨_, rfl, rfl⟩
  have hne : p.mUids ≠ [] := by simp [hids]
  have hops : ∀ x ∈ [((ownedBy '8', .needUpdate ⟨1, 0⟩) : Sys × Op)], ¬ x.2.replaces ⟨1, 0⟩ := by decide
  obtain ⟨q, hq, hname⟩ := userName_kept hp hne hops
  refine ⟨q, hq, fun name r hr => (hname _ _ _ name r hr).trans ?_⟩
  simp only [nameOfUid, hids]
  rfl

end World

end Object

end SysInfo
