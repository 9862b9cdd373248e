import SysInfo.ProcessInfo
/-!
# Numbers — `status` and `io` as lists of numbers

The readers of `status` and `io` convert and store one number after the other: `readStatus` and `readIo` are loops of
stores over the numbers their lines hold (`statusLine_eq`, `ioLine_eq`), and leave the fold of the numbers before the
first one that does not convert.
-/
namespace SysInfo

open IStream Effects ProcessInfo

/-- What a number of `status` is stored in. -/
inductive StatusMember where
  | uid
  | gid
  | vm (f : VmField)
deriving DecidableEq

def StatusMember.store : StatusMember → Int → ProcessInfo → ProcessInfo
  | .uid, n => pushUid n
  | .gid, n => pushGid n
  | .vm f, n => fun p => { p with mVm := Function.update p.mVm f (UInt64.ofInt n) }

/-- The numbers of a line of `status`, as the expressions capture them. -/
def statusNumbers (line : List Char) : List (StatusMember × List Char) :=
  let (key, value) := keyValue ':' line
  if key = "Uid".toList then ((regexUids.fullMatch value).getD []).map (.uid, ·)
  else if key = "Gid".toList then ((regexUids.fullMatch value).getD []).map (.gid, ·)
  else match VmField.ofKey key with
    | some f =>
      match regexVm.fullMatch value with
      | some [m] => [(.vm f, m)]
      | _ => []
    | none => []

def IoField.store (f : IoField) (n : Int) (p : ProcessInfo) : ProcessInfo :=
  { p with mIo := { p.mIo with counter := Function.update p.mIo.counter f (UInt64.ofInt n) } }

/-- The number of a line of `io`. -/
def ioNumbers (line : List Char) : List (IoField × List Char) :=
  let (key, value) := keyValue ':' line
  match IoField.ofKey key with
  | some f => [(f, MMap.trim value)]
  | none => []

theorem parseIds_eq (member : StatusMember) (value : List Char) :
    parseIds member.store value =
      storeAll (stoi 10) StatusMember.store (((regexUids.fullMatch value).getD []).map (member, ·)) := by
  have hmap : ∀ ids : List (List Char), (ids.forM fun m => lift (stoi 10 m) >>= fun n => modify (member.store n)) =
      storeAll (stoi 10) StatusMember.store (ids.map (member, ·)) := by
    intro ids
    induction ids with
    | nil => rfl
    | cons m ids ih => exact congrArg (fun x => (lift (stoi 10 m) >>= fun n => modify (member.store n)) >>= fun _ => x) ih
  unfold parseIds
  cases regexUids.fullMatch value with
  | none => rfl
  | some ids => exact hmap ids

/-- **A line of `status` stores its numbers.** -/
theorem statusLine_eq (line : List Char) :
    statusLine line = storeAll (stoi 10) StatusMember.store (statusNumbers line) := by
  unfold statusLine statusNumbers
  obtain ⟨key, value⟩ := keyValue ':' line
  dsimp only
  by_cases hu : key = "Uid".toList
  · rw [if_pos hu, if_pos hu]
    exact parseIds_eq .uid value
  rw [if_neg hu, if_neg hu]
  by_cases hg : key = "Gid".toList
  · rw [if_pos hg, if_pos hg]
    exact parseIds_eq .gid value
  rw [if_neg hg, if_neg hg]
  cases VmField.ofKey key with
  | none => rfl
  | some f =>
    rcases regexVm.fullMatch value with _ | _ | ⟨m, _ | _⟩
    · rfl
    · rfl
    · exact (storeAll_singleton (stoi 10) StatusMember.store (.vm f) m).symm
    · rfl

theorem ioLine_eq (line : List Char) : ioLine line = storeAll (stol 10) IoField.store (ioNumbers line) := by
  unfold ioLine ioNumbers
  obtain ⟨key, value⟩ := keyValue ':' line
  dsimp only
  cases IoField.ofKey key with
  | none => rfl
  | some f => exact (storeAll_singleton (stol 10) IoField.store f (MMap.trim value)).symm

def statusStored (sys : Sys) (p : ProcessInfo) : List (StatusMember × Int) :=
  converted (stoi 10) ((getlines '\n' (openFile (sys.file (p.mProcPath ++ "status".toList)))).flatMap statusNumbers)

def ioStored (sys : Sys) (p : ProcessInfo) : List (IoField × Int) :=
  converted (stol 10) ((getlines '\n' (openFile (sys.file (p.mProcPath ++ "io".toList)))).flatMap ioNumbers)

theorem state_readStatus (sys : Sys) (p : ProcessInfo) :
    state ((readStatus sys).run p) = (statusStored sys p).foldl (fun p x => x.1.store x.2 p) p := by
  rw [statusStored, ← state_storeAll, storeAll, forM_flatMap]
  show state ((List.forM _ statusLine).run p) = _
  rw [funext statusLine_eq]
  rfl

theorem state_readIo (sys : Sys) (p : ProcessInfo) :
    state ((readIo sys).run p) =
      (ioStored sys p).foldl (fun p x => x.1.store x.2 p) { p with mIo := { p.mIo with lastRead := sys.now } } := by
  rw [ioStored, ← state_storeAll, storeAll, forM_flatMap]
  show state ((List.forM _ ioLine).run _) = _
  rw [funext ioLine_eq]
  rfl

theorem foldl_statusStore : ∀ (xs : List (StatusMember × Int)) (p : ProcessInfo),
    xs.foldl (fun p x => x.1.store x.2 p) p =
      { p with
        mUids := p.mUids ++ (xs.filter (·.1 = .uid)).map Prod.snd
        mGids := p.mGids ++ (xs.filter (·.1 = .gid)).map Prod.snd
        mVm := fun f => ((lastFor (.vm f) xs).map UInt64.ofInt).getD (p.mVm f) }
  | [], p => by simp [lastFor]
  | (m, n) :: xs, p => by
    rw [List.foldl_cons, foldl_statusStore xs]
    cases m with
    | uid => simp [StatusMember.store, pushUid, lastFor]
    | gid => simp [StatusMember.store, pushGid, lastFor]
    | vm f =>
      have hvm : ∀ g, ((lastFor (.vm g) xs).map UInt64.ofInt).getD (Function.update p.mVm f (UInt64.ofInt n) g) =
          ((lastFor (.vm g) ((.vm f, n) :: xs)).map UInt64.ofInt).getD (p.mVm g) := by
        intro g
        rw [lastFor]
        cases lastFor (.vm g) xs with
        | some c => rfl
        | none =>
          by_cases h : f = g
          · subst h
            simp
          · simp [h, Function.update_of_ne (Ne.symm h)]
      simp [StatusMember.store, hvm]

theorem foldl_ioStore : ∀ (xs : List (IoField × Int)) (p : ProcessInfo),
    xs.foldl (fun p x => x.1.store x.2 p) p =
      { p with mIo := { p.mIo with
        counter := xs.foldl (fun v x => Function.update v x.1 (UInt64.ofInt x.2)) p.mIo.counter } }
  | [], _ => rfl
  | (f, n) :: xs, p => foldl_ioStore xs (f.store n p)

end SysInfo
