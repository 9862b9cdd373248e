import SysInfo.Numbers
import SysInfo.Smaps
import SysInfo.Steps
/-!
# FailedCall — what a getter that throws leaves behind

The readers of `status`, `io` and `smaps` store what they convert as they go, and a number that does not convert ends
them with an exception; what was stored stays.  `harmless_iff`: the object is as it was exactly when everything stored
before the exception was there already.
-/
namespace SysInfo

open IStream Effects ProcessInfo

/-! ## What is stored -/

theorem foldl_statusStore_eq_iff (xs : List (StatusMember × Int)) (p : ProcessInfo) :
    xs.foldl (fun p x => x.1.store x.2 p) p = p ↔
      (∀ x ∈ xs, x.1 ≠ .uid ∧ x.1 ≠ .gid) ∧ ∀ f n, lastFor (.vm f) xs = some n → p.mVm f = UInt64.ofInt n := by
  rw [foldl_statusStore]
  constructor
  · intro h
    have hu : p.mUids ++ (xs.filter (·.1 = .uid)).map Prod.snd = p.mUids := congrArg mUids h
    have hg : p.mGids ++ (xs.filter (·.1 = .gid)).map Prod.snd = p.mGids := congrArg mGids h
    have hv : (fun f => ((lastFor (.vm f) xs).map UInt64.ofInt).getD (p.mVm f)) = p.mVm := congrArg mVm h
    simp only [List.append_right_eq_self, List.map_eq_nil_iff, List.filter_eq_nil_iff, decide_eq_true_eq] at hu hg
    refine ⟨fun x hx => ⟨hu x hx, hg x hx⟩, fun f n hf => ?_⟩
    rw [← congrFun hv f, hf]
    rfl
  · rintro ⟨hids, hsizes⟩
    have hu : xs.filter (·.1 = .uid) = [] := List.filter_eq_nil_iff.2 fun x hx => by simpa using (hids x hx).1
    have hg : xs.filter (·.1 = .gid) = [] := List.filter_eq_nil_iff.2 fun x hx => by simpa using (hids x hx).2
    have hv : (fun f => ((lastFor (.vm f) xs).map UInt64.ofInt).getD (p.mVm f)) = p.mVm := by
      funext f
      cases hf : lastFor (.vm f) xs with
      | none => rfl
      | some n => exact (hsizes f n hf).symm
    rw [hu, hg, hv, List.map_nil, List.append_nil, List.append_nil]

theorem foldl_ioStore_eq_iff (xs : List (IoField × Int)) (now : Int) (p : ProcessInfo) :
    xs.foldl (fun p x => x.1.store x.2 p) { p with mIo := { p.mIo with lastRead := now } } = p ↔
      p.mIo.lastRead = now ∧ ∀ f n, lastFor f xs = some n → p.mIo.counter f = UInt64.ofInt n := by
  rw [foldl_ioStore]
  constructor
  · intro h
    have hnow : now = p.mIo.lastRead := congrArg (·.mIo.lastRead) h
    have hc : xs.foldl (fun v x => Function.update v x.1 (UInt64.ofInt x.2)) p.mIo.counter = p.mIo.counter :=
      congrArg (·.mIo.counter) h
    refine ⟨hnow.symm, fun f n hf => ?_⟩
    rw [← congrFun hc f, foldl_update, hf]
    rfl
  · rintro ⟨rfl, hcounters⟩
    have hc : xs.foldl (fun v x => Function.update v x.1 (UInt64.ofInt x.2)) p.mIo.counter = p.mIo.counter := by
      funext f
      rw [foldl_update]
      cases hf : lastFor f xs with
      | none => rfl
      | some n => exact (hcounters f n hf).symm
    simp only [hc]

/-! ## `smaps` as a list of blocks -/

/-- The texts of the blocks, `t` gathered already: a line with a dash starts the next one. -/
def blocks (t : List Char) : List (List Char) → List (List Char)
  | [] => [t]
  | l :: ls => if '-' ∈ l ∧ t ≠ [] then t :: blocks (l ++ ['\n']) ls else blocks (t ++ (l ++ ['\n'])) ls

/-- The mappings of the blocks before the first one that does not convert, the first one on the memory at index `i`. -/
def built (sys : Sys) : Nat → List (List Char) → List MMap
  | _, [] => []
  | i, b :: bs =>
    match MMap.construct (sys.mapJunk i) (.ofText b) with
    | .ok (m, _) => m :: built sys (i + 1) bs
    | .error _   => []

/-- What a failing read of `smaps` has stored. -/
def smapsStored (sys : Sys) (p : ProcessInfo) : List MMap :=
  match sys.file (p.mProcPath ++ "/smaps".toList) with
  | some text => built sys 0 (blocks [] (getlines '\n' (ofText text)))
  | none      => []

section

variable (sys : Sys)

theorem run_smapsLine_gather {l t : List Char} (h : ¬ ('-' ∈ l ∧ t ≠ [])) (p : ProcessInfo) :
    (smapsLine sys (.ofText t) l).run p = .ok (.ofText (t ++ (l ++ ['\n']))) p := by
  rw [smapsLine, StringStream.buf_ofText, if_neg h, StringStream.put_ofText, StringStream.put_ofText, List.append_assoc]
  rfl

theorem run_pushMap_error {t : List Char} {p : ProcessInfo} {e : Exn}
    (h : MMap.construct (sys.mapJunk p.mMaps.length) (.ofText t) = .error e) :
    (pushMap sys (.ofText t)).run p = .error e p := by
  simp only [pushMap, EStateM.run_bind, EStateM.run_get, h]
  rfl

/-- **The loop and the build after it** leave the mappings built, whether they throw or not. -/
theorem state_smaps : ∀ (ls : List (List Char)) (t : List Char) (p : ProcessInfo),
    state ((ls.foldlM (smapsLine sys) (.ofText t) >>= pushMap sys).run p) =
      p.setMaps (p.mMaps ++ built sys p.mMaps.length (blocks t ls))
  | [], t, p => by
    rw [List.foldlM_nil, pure_bind, blocks, built]
    cases h : MMap.construct (sys.mapJunk p.mMaps.length) (.ofText t) with
    | ok r =>
      rw [run_pushMap sys h]
      rfl
    | error e =>
      rw [run_pushMap_error sys h, List.append_nil]
      rfl
  | l :: ls, t, p => by
    rw [List.foldlM_cons, bind_assoc, EStateM.run_bind, blocks]
    by_cases hl : '-' ∈ l ∧ t ≠ []
    · rw [if_pos hl, built]
      cases h : MMap.construct (sys.mapJunk p.mMaps.length) (.ofText t) with
      | ok r =>
        rw [run_smapsLine_head sys hl.1 hl.2 h]
        simp only
        rw [state_smaps ls, mMaps_setMaps, List.length_append, List.append_assoc]
        rfl
      | error e =>
        have hline : (smapsLine sys (.ofText t) l).run p = .error e p := by
          rw [smapsLine, StringStream.buf_ofText, if_pos hl, EStateM.run_bind, run_pushMap_error sys h]
        rw [hline, List.append_nil]
        rfl
    · rw [if_neg hl, run_smapsLine_gather sys hl]
      exact state_smaps ls _ p

theorem state_readSmaps (p : ProcessInfo) : state ((readSmaps sys).run p) = p.setMaps (smapsStored sys p) := by
  unfold smapsStored
  cases h : sys.file (p.mProcPath ++ "/smaps".toList) with
  | none =>
    simp only [readSmaps, EStateM.run_bind, EStateM.run_modify, EStateM.run_get, mProcPath_setMaps, h]
    rfl
  | some text =>
    simp only [readSmaps, EStateM.run_bind, EStateM.run_modify, EStateM.run_get, mProcPath_setMaps, h]
    have hloop := state_smaps sys (getlines '\n' (ofText text)) [] (p.setMaps [])
    rw [EStateM.run_bind] at hloop
    rw [mMaps_setMaps, List.nil_append, setMaps_setMaps] at hloop
    rw [← show _ = p.setMaps (built sys 0 _) from hloop]
    cases EStateM.run (List.foldlM (smapsLine sys) _ _) (p.setMaps []) with
    | error e q => rfl
    | ok ss q =>
      simp only
      cases (pushMap sys ss).run q <;> rfl

end

/-! ## A call that throws -/

/-- The getters of `status`, `io` and `smaps`. -/
def ProcessInfo.Getter.Converts : Getter → Prop
  | .uids | .gids | .vm _ | .readBytes | .writeBytes | .maps => True
  | _ => False

/-- A call that finds its source due, and whose reader throws. -/
structure FailedCall where
  getter   : Getter
  converts : getter.Converts
  sys      : Sys
  obj      : ProcessInfo
  due      : obj.mNeedUpdate getter.source = true
  throws   : ∃ e q, (reader sys getter.source).run obj = .error e q

namespace FailedCall

variable (c : FailedCall)

def after : ProcessInfo := state ((c.getter.call c.sys).run c.obj)

/-- The object is as it was, and the next call returns what it would have returned. -/
structure Harmless : Prop where
  unchanged : c.after = c.obj
  retry     : ∀ (sys : Sys) (g : Getter), g.Converts → value ((g.call sys).run c.after) = value ((g.call sys).run c.obj)

/-- What the file stores before its first number that does not convert is what the object holds: no ids, the sizes it
has, the counters and the time it has, the mappings it has. -/
def Held : Prop :=
  match c.getter.source with
  | .status => (∀ x ∈ statusStored c.sys c.obj, x.1 ≠ .uid ∧ x.1 ≠ .gid) ∧
      ∀ f n, lastFor (.vm f) (statusStored c.sys c.obj) = some n → c.obj.mVm f = UInt64.ofInt n
  | .io => c.obj.mIo.lastRead = c.sys.now ∧
      ∀ f n, lastFor f (ioStored c.sys c.obj) = some n → c.obj.mIo.counter f = UInt64.ofInt n
  | _ => c.obj.mMaps = smapsStored c.sys c.obj

/-- The flag stays up, so the object is as the reader left it. -/
theorem after_eq : c.after = state ((reader c.sys c.getter.source).run c.obj) := by
  obtain ⟨e, q, h⟩ := c.throws
  rw [after, state_call, refresh, EStateM.run_bind, EStateM.run_get]
  simp only [c.due, if_true, EStateM.run_bind, h]

/-- **The object is unchanged exactly when nothing new was stored.** -/
theorem after_eq_obj_iff : c.after = c.obj ↔ c.Held := by
  rw [after_eq]
  unfold Held
  cases hs : c.getter.source with
  | status =>
    rw [reader, state_readStatus]
    exact foldl_statusStore_eq_iff _ _
  | io =>
    rw [reader, state_readIo]
    exact foldl_ioStore_eq_iff _ _ _
  | smaps =>
    rw [reader, state_readSmaps]
    constructor
    · intro h
      rw [← congrArg mMaps h]
      rfl
    · intro h
      rw [← h]
      rfl
  | _ =>
    have h := c.converts
    revert hs
    cases hg : c.getter <;> simp_all [Getter.Converts, Getter.source]

/-- **A call that throws is harmless exactly when what it stored was there already.** -/
theorem harmless_iff : c.Harmless ↔ c.Held := by
  rw [← after_eq_obj_iff]
  refine ⟨fun h => h.unchanged, fun h => ⟨h, fun sys g _ => ?_⟩⟩
  rw [h]

/-- The effective user id does not fit an `int`. -/
def outOfRangeStatus : Sys := .ofFiles fun _ => some "Uid:\t1000\t3000000000\t1000\t1000\n".toList

theorem throws_outOfRangeStatus :
    ∃ e q, (readStatus outOfRangeStatus).run (construct zeroed 1) = .error e q := by
  have h : (value ((readStatus outOfRangeStatus).run (construct zeroed 1))).isOk = false := by decide +kernel
  cases hr : (readStatus outOfRangeStatus).run (construct zeroed 1) with
  | ok a s => rw [hr] at h; cases h
  | error e q => exact ⟨e, q, rfl⟩

def outOfRangeUids : FailedCall := ⟨.uids, trivial, outOfRangeStatus, construct zeroed 1, rfl, throws_outOfRangeStatus⟩

/-- The first id is pushed before the second one throws. -/
theorem not_harmless_outOfRange : ¬ outOfRangeUids.Harmless := by
  intro h
  have hheld : outOfRangeUids.Held := outOfRangeUids.after_eq_obj_iff.1 h.unchanged
  have hstored : statusStored outOfRangeUids.sys outOfRangeUids.obj = [(.uid, 1000)] := by decide +kernel
  exact (hheld.1 (.uid, 1000) (by rw [hstored]; exact List.mem_singleton_self _)).1 rfl

end FailedCall

end SysInfo
