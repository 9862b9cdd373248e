import SysInfo.Snapshot
import SysInfo.Numbers
/-!
# UserName — the id that `userName()` looks up

`userName()` takes `m_uids[0]` once its read of `status`, if one was due, has returned.  The ids are those of every read
so far, by any getter of `status`, and no call removes one; none of them checks that there is a first.

Two bits follow a history of calls: whether `status` is due, and whether a read has stored an id.  `Tracks`: they are the
object's flag and whether its `m_uids` holds anything.
-/
namespace SysInfo

open IStream Effects ProcessInfo

/-! ## What a text of `status` stores -/

def numbersOf (text : Option (List Char)) : List (StatusMember × List Char) :=
  (getlines '\n' (openFile text)).flatMap statusNumbers

/-- Every number of the text converts, so that reading it does not throw. -/
def convertsWhole (text : Option (List Char)) : Bool := (numbersOf text).all fun x => (stoi 10 x.2).toBool

/-- The text has an id before the first number that does not convert. -/
def storesUid (text : Option (List Char)) : Bool := (converted (stoi 10) (numbersOf text)).any fun x => x.1 = .uid

theorem readStatus_ok_iff (sys : Sys) (p : ProcessInfo) :
    (∃ q, (readStatus sys).run p = .ok () q) ↔ convertsWhole (sys.file (p.mProcPath ++ "status".toList)) = true := by
  have hread : (readStatus sys).run p =
      (storeAll (stoi 10) StatusMember.store (numbersOf (sys.file (p.mProcPath ++ "status".toList)))).run p := by
    show ((List.forM _ statusLine).run p) = _
    rw [storeAll, numbersOf, forM_flatMap, funext statusLine_eq]
    rfl
  rw [hread]
  refine (run_storeAll_ok_iff (stoi 10) StatusMember.store _ p).trans ?_
  simp only [convertsWhole, List.all_eq_true]
  refine forall_congr' fun x => forall_congr' fun _ => ?_
  cases stoi 10 x.2 <;> simp [Except.toBool]

theorem mUids_readStatus (sys : Sys) (p : ProcessInfo) :
    (state ((readStatus sys).run p)).mUids ≠ [] ↔
      p.mUids ≠ [] ∨ storesUid (sys.file (p.mProcPath ++ "status".toList)) = true := by
  have huids : (state ((readStatus sys).run p)).mUids =
      p.mUids ++ ((statusStored sys p).filter (·.1 = .uid)).map Prod.snd := by
    rw [state_readStatus, foldl_statusStore]
  have hany : storesUid (sys.file (p.mProcPath ++ "status".toList)) = true ↔
      (statusStored sys p).filter (·.1 = .uid) ≠ [] := by
    rw [storesUid, List.any_eq_true, Ne, List.filter_eq_nil_iff]
    simp only [decide_eq_true_eq, not_forall, not_not, exists_prop]
    rfl
  rw [huids, hany, Ne, List.append_eq_nil_iff, List.map_eq_nil_iff, not_and_or]

/-! ## What a call does to `status` -/

/-- Code that leaves the ids alone, and whether they are due. -/
def SameStatus (s t : This) : Prop :=
  t.obj.mProcPath = s.obj.mProcPath ∧ t.obj.mNeedUpdate .status = s.obj.mNeedUpdate .status ∧ t.obj.mUids = s.obj.mUids

instance : IsPreorder This SameStatus where
  refl _ := ⟨rfl, rfl, rfl⟩
  trans _ _ _ h h' := ⟨h'.1.trans h.1, h'.2.1.trans h.2.1, h'.2.2.trans h.2.2⟩

section

variable {α : Type} {sys : Sys}

theorem sameStatus_onObj {src : Source} (hsrc : src ≠ .status) {x : Cpp ProcessInfo α} (h : Moves (OnlyChanges src) x) :
    Moves SameStatus (onObj x) := by
  intro s
  have hm : state (x.run s.obj) = take src s.obj _ := h s.obj
  rw [(run_onObj x s).1, SameStatus, hm]
  refine ⟨by cases src <;> rfl, mNeedUpdate_take hsrc.symm _ _, ?_⟩
  cases src <;> first | exact absurd rfl hsrc | rfl

theorem sameStatus_getter {src : Source} (hsrc : src ≠ .status) (v : ProcessInfo → α) :
    Moves SameStatus (onObj (getter sys src v)) :=
  sameStatus_onObj hsrc ((moves_refresh sys src).bind fun _ => moves_get_bind fun _ => moves_pure _)

theorem sameStatus_of_computes (s t : This) (h : Computes s t) : SameStatus s t :=
  ⟨h.path, (h.files .status trivial).2, congrArg Prod.fst (h.files .status trivial).1⟩

/-- **A call that does not need `status`** leaves it as it was. -/
theorem sameStatus_call {m : Member} (hm : m ≠ .needUpdate) (h : Source.status ∉ m.needs) : Moves SameStatus (m.call sys) := by
  cases m with
  | needUpdate => exact absurd rfl hm
  | pid => exact fun s => refl_of SameStatus s
  | userName passwd beyond => exact absurd (List.mem_singleton.2 rfl) h
  | query q =>
    cases q with
    | get g => exact sameStatus_onObj (fun e => h (List.mem_singleton.2 e.symm)) (moves_call sys g)
    | usage u =>
      exact moves_usage_of_computes (sameStatus_getter (by decide)) (sameStatus_getter (by decide)) sameStatus_of_computes u

end

/-! ## Histories -/

structure StatusHistory where
  due : Bool
  fed : Bool

namespace StatusHistory

/-- An object just built. -/
def fresh : StatusHistory := ⟨true, false⟩

def read (h : StatusHistory) (text : Option (List Char)) : StatusHistory :=
  if h.due then ⟨!convertsWhole text, h.fed || storesUid text⟩ else h

def step (pid : Int32) (h : StatusHistory) (c : Access) : StatusHistory :=
  match c.member with
  | .needUpdate => { h with due := true }
  | m => if Source.status ∈ m.needs then h.read (c.sys.file (procPath pid ++ "status".toList)) else h

def follow (pid : Int32) (cs : List Access) : StatusHistory := cs.foldl (step pid) fresh

end StatusHistory

/-- The two bits of an object of a pid. -/
structure Tracks (pid : Int32) (h : StatusHistory) (p : ProcessInfo) : Prop where
  path : p.mProcPath = procPath pid
  due  : p.mNeedUpdate .status = h.due
  fed  : p.mUids ≠ [] ↔ h.fed = true

namespace Tracks

variable {pid : Int32} {h : StatusHistory} {p : ProcessInfo}

theorem construct (junk : ProcessInfo) (pid : Int32) : Tracks pid .fresh (construct junk pid) :=
  ⟨rfl, rfl, by simp [ProcessInfo.construct, ProcessInfo.needUpdate, StatusHistory.fresh]⟩

/-- **A refresh of `status`** reads it when it is due. -/
theorem refresh (ht : Tracks pid h p) (sys : Sys) :
    Tracks pid (h.read (sys.file (procPath pid ++ "status".toList)))
      (state ((ProcessInfo.refresh .status (reader sys .status)).run p)) := by
  unfold StatusHistory.read
  rw [ProcessInfo.refresh, EStateM.run_bind, EStateM.run_get]
  dsimp only
  rw [← ht.due]
  cases hd : p.mNeedUpdate .status with
  | false => exact ht
  | true =>
    simp only [if_true]
    have hok := readStatus_ok_iff sys p
    have huids := mUids_readStatus sys p
    have hpath : (state ((readStatus sys).run p)).mProcPath = p.mProcPath ∧
        (state ((readStatus sys).run p)).mNeedUpdate .status = p.mNeedUpdate .status := by
      rw [state_readStatus, foldl_statusStore]
      exact ⟨rfl, rfl⟩
    rw [ht.path, ht.fed] at huids
    rw [ht.path] at hok
    have hfed : (state ((readStatus sys).run p)).mUids ≠ [] ↔
        (h.fed || storesUid (sys.file (procPath pid ++ "status".toList))) = true := huids.trans (by rw [Bool.or_eq_true])
    show Tracks pid _ (state ((readStatus sys >>= fun _ => modify (·.updated .status)).run p))
    rw [EStateM.run_bind]
    cases hr : (readStatus sys).run p with
    | ok u q =>
      rw [hr] at hpath hfed
      rw [hok.1 ⟨q, hr⟩]
      exact ⟨hpath.1.trans ht.path, rfl, hfed⟩
    | error e q =>
      rw [hr] at hpath hfed
      have hnot : convertsWhole (sys.file (procPath pid ++ "status".toList)) = false := by
        rw [← Bool.not_eq_true, ← hok]
        rintro ⟨q', hq'⟩
        rw [hr] at hq'
        cases hq'
      exact ⟨hpath.1.trans ht.path, by rw [hnot]; exact hpath.2.trans hd, hfed⟩

theorem of_sameStatus {s t : This} (hst : SameStatus s t) (ht : Tracks pid h s.obj) : Tracks pid h t.obj :=
  ⟨hst.1.trans ht.path, hst.2.1.trans ht.due, by rw [hst.2.2]; exact ht.fed⟩

/-- **One call.** -/
theorem step (ht : Tracks pid h p) (c : Access) : Tracks pid (h.step pid c) (c.after p) := by
  obtain ⟨sys, st, m⟩ := c
  have hread := ht.refresh sys
  cases m with
  | needUpdate => exact ⟨ht.path, rfl, ht.fed⟩
  | pid => exact ht
  | userName passwd beyond =>
    rw [← state_getter sys .status (nameOfUid passwd beyond) p] at hread
    rw [Access.after, Access.run, Member.call, (run_onObj _ _).1]
    exact hread
  | query q =>
    show Tracks pid (if Source.status ∈ (Member.query q).needs then _ else h) _
    split
    · next hneeds =>
      cases q with
      | get g =>
        have hsrc : g.source = .status := (List.mem_singleton.1 hneeds).symm
        rw [← hsrc, ← state_call sys g p] at hread
        rw [Access.after, Access.run, Member.call, Query.call, (run_onObj _ _).1]
        exact hread
      | usage u => cases u <;> simp [Member.needs] at hneeds
    · next hneeds => exact of_sameStatus (sameStatus_call (fun e => by cases e) hneeds ⟨p, st⟩) ht

theorem run (junk : ProcessInfo) (pid : Int32) (cs : List Access) :
    Tracks pid (.follow pid cs) (afterCalls (ProcessInfo.construct junk pid) cs) := by
  suffices hcs : ∀ (cs : List Access) (h : StatusHistory) (p : ProcessInfo), Tracks pid h p →
      Tracks pid (cs.foldl (StatusHistory.step pid) h) (afterCalls p cs) from hcs cs _ _ (construct junk pid)
  intro cs
  induction cs with
  | nil => exact fun h p ht => ht
  | cons c cs ih => exact fun h p ht => ih _ _ (ht.step c)

end Tracks

/-! ## The result -/

/-- `userName()` returns exactly when its read, if one was due, did not throw. -/
theorem run_userName_ok_iff {pid : Int32} {h : StatusHistory} {p : ProcessInfo} (ht : Tracks pid h p) {c : Access}
    {passwd : Int → Option (List Char)} {beyond : Int} (hc : c.member = .userName passwd beyond) :
    (∃ a s, c.run p = .ok a s) ↔ (h.step pid c).due = false := by
  obtain ⟨sys, st, m⟩ := c
  subst hc
  have hok := readStatus_ok_iff sys p
  rw [ht.path] at hok
  have hrun : (∃ a s, (Access.mk sys st (.userName passwd beyond)).run p = .ok a s) ↔
      ∃ a q, (ProcessInfo.userName sys passwd beyond).run p = .ok a q := by
    rw [Access.run, Member.call]
    cases hx : (ProcessInfo.userName sys passwd beyond).run p with
    | ok a q => rw [run_onObj_ok hx]; exact ⟨fun _ => ⟨a, q, rfl⟩, fun _ => ⟨a, _, rfl⟩⟩
    | error e q =>
      rw [run_onObj_error hx]
      exact iff_of_false (fun ⟨a, s, h⟩ => by cases h) fun ⟨a, s, h⟩ => by cases h
  rw [hrun]
  show _ ↔ (h.read (sys.file (procPath pid ++ "status".toList))).due = false
  unfold StatusHistory.read
  rw [← ht.due]
  cases hd : p.mNeedUpdate .status with
  | false =>
    exact ⟨fun _ => ht.due.symm.trans hd, fun _ => ⟨_, _, run_getter_of_not_due hd⟩⟩
  | true =>
    rw [if_pos rfl, Bool.not_eq_false', ← hok]
    constructor
    · rintro ⟨a, q, hq⟩
      obtain ⟨_, r, hrefresh, -⟩ := of_run_bind_ok hq
      simp only [ProcessInfo.refresh, EStateM.run_bind, EStateM.run_get, hd, if_true] at hrefresh
      obtain ⟨_, r', hread, -⟩ := of_run_bind_ok hrefresh
      exact ⟨r', hread⟩
    · rintro ⟨q, hq⟩
      exact ⟨_, _, run_getter_of_due hd hq⟩

/-- **`userName()` finds an id**: `m_uids` holds one at each call that goes on to index it. -/
def FindsUid (junk : ProcessInfo) (pid : Int32) (cs : List Access) : Prop :=
  ∀ xs c ys passwd beyond, cs = xs ++ c :: ys → c.member = .userName passwd beyond →
    (∃ a s, c.run (afterCalls (construct junk pid) xs) = .ok a s) →
      (c.after (afterCalls (construct junk pid) xs)).mUids ≠ []

/-- Up to each call of `userName()` that leaves `status` read, some read has stored an id. -/
def StoresUid (pid : Int32) (cs : List Access) : Prop :=
  ∀ xs c ys passwd beyond, cs = xs ++ c :: ys → c.member = .userName passwd beyond →
    (StatusHistory.follow pid (xs ++ [c])).due = false → (StatusHistory.follow pid (xs ++ [c])).fed = true

/-- **`userName()` finds an id exactly when a read has stored one**, in every history of calls. -/
theorem userName_findsUid_iff (junk : ProcessInfo) (pid : Int32) (cs : List Access) :
    FindsUid junk pid cs ↔ StoresUid pid cs := by
  refine forall_congr' fun xs => forall_congr' fun c => forall_congr' fun ys => forall_congr' fun passwd =>
    forall_congr' fun beyond => forall_congr' fun _ => forall_congr' fun hc => ?_
  have ht := Tracks.run junk pid xs
  have hfollow : StatusHistory.follow pid (xs ++ [c]) = (StatusHistory.follow pid xs).step pid c := by
    rw [StatusHistory.follow, List.foldl_append]
    rfl
  rw [hfollow, run_userName_ok_iff ht hc, (ht.step c).fed]

/-- The process has exited: `status` cannot be opened. -/
def Access.exited : Access := ⟨.ofFiles fun _ => none, .initial, .userName (fun _ => none) 0⟩

theorem not_findsUid_exited : ¬ FindsUid zeroed 1 [.exited] := fun h => by
  have hrun := run_userName_ok_iff (Tracks.construct zeroed 1) (c := .exited) rfl
  exact h [] .exited [] _ _ rfl rfl (hrun.2 rfl) rfl

end SysInfo
