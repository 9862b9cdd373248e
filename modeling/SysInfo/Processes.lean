import SysInfo.ProcessInfo
import SysInfo.Rows
import Mathlib.Data.List.Nodup
/-!
# Processes — the objects of `processList`

`processListPid` goes through `/proc` and keeps the directories whose name is a number; `processList` constructs an
object for each.  A directory entry that cannot be asked for its type, a number beyond `int` or an iterator that fails
ends the listing by an exception that nobody catches: the `catch` clauses of `processList` stand around a constructor
that never throws.

`processList_iff` says what comes out of any listing, `processList_own` whose files its objects read.
-/
namespace SysInfo

open Re ProcessInfo

/-! ## The code -/

section Listing

variable (sys : Sys) (isDirectory : List Char → Except Exn Bool)  -- `is_directory(itr->status())`, which may throw

/-- One entry of `/proc`; `&&` asks for the type first. -/
def listEntry (name : List Char) : Except Exn (Option Int32) := do
  if ← isDirectory name then
    if (digits.fullMatch name).isSome then return some (Int32.ofInt (← stoi 10 name)) else return none
  else return none

def processListPid : Except Exn (List Int32) := do
  let pids ← pushLoop (listEntry isDirectory) [] (sys.dir "/proc".toList).names
  if (sys.dir "/proc".toList).failed then throw .filesystemError else return pids

/-- The size is narrowed to an `int`. -/
def processCount : Except Exn Int32 := do return Int32.ofNat (← processListPid sys isDirectory).length

/-- The objects, each on memory of its own. -/
def processList (junk : Nat → ProcessInfo) : Except Exn (List ProcessInfo) := do
  return (← processListPid sys isDirectory).mapIdx fun i pid => construct (junk i) pid

end Listing

/-! ## A loop that throws or pushes -/

section Loop

variable {β : Type} {f : List Char → Except Exn (Option β)}

/-- What a body that does not throw pushes. -/
def pushed (f : List Char → Except Exn (Option β)) (l : List Char) : Option β :=
  match f l with
  | .ok o    => o
  | .error _ => none

theorem pushLoop_iff : ∀ {ls : List (List Char)} {acc rs : List β},
    pushLoop f acc ls = .ok rs ↔ (∀ l ∈ ls, ∃ o, f l = .ok o) ∧ rs = acc ++ ls.filterMap (pushed f)
  | [], acc, rs => by
    rw [pushLoop, List.filterMap_nil, List.append_nil, Except.ok.injEq]
    exact ⟨fun h => ⟨fun l hl => absurd hl List.not_mem_nil, h.symm⟩, fun h => h.2.symm⟩
  | l :: ls, acc, rs => by
    rw [pushLoop, List.forall_mem_cons, List.filterMap_cons, pushed]
    cases hl : f l with
    | error e => exact iff_of_false (by simp) fun h => by simp at h
    | ok o =>
      have hok : ∃ o', (Except.ok o : Except Exn (Option β)) = .ok o' := ⟨o, rfl⟩
      rw [and_iff_right hok]
      cases o with
      | none => exact pushLoop_iff
      | some b =>
        have ih := @pushLoop_iff ls (acc ++ [b]) rs
        rwa [List.append_assoc, List.singleton_append] at ih

end Loop

/-! ## Numbers in `/proc` -/

theorem fullMatch_digits_isSome {name : List Char} : (digits.fullMatch name).isSome = true ↔ IsRun Char.isDigit name := by
  have hplus : digits.fullMatch name = if name.takeWhile Char.isDigit = [] then none
      else accept [] (name.takeWhile Char.isDigit) (name.dropWhile Char.isDigit) :=
    exec_plus Char.isDigit accept name fun _ _ _ _ => rfl
  rw [hplus]
  constructor
  · intro h
    by_cases hne : name.takeWhile Char.isDigit = []
    · rw [if_pos hne] at h
      cases h
    · rw [if_neg hne, accept] at h
      have hdrop : name.dropWhile Char.isDigit = [] := by
        by_contra hc
        rw [if_neg (by simpa using hc)] at h
        cases h
      have hall : name.takeWhile Char.isDigit = name := by
        have hsplit := List.takeWhile_append_dropWhile (p := Char.isDigit) (l := name)
        rwa [hdrop, List.append_nil] at hsplit
      exact hall ▸ isRun_takeWhile hne
  · rintro ⟨hne, hdigit⟩
    rw [takeWhile_all hdigit, List.dropWhile_eq_nil_iff.2 hdigit, if_neg hne]
    rfl

/-- A directory whose name is a number. -/
def isPid (isDirectory : List Char → Except Exn Bool) (name : List Char) : Bool :=
  match isDirectory name with
  | .ok b    => b && (name != [] && name.all Char.isDigit)
  | .error _ => false

def pidOf (name : List Char) : Int32 := Int32.ofNat (readDigits 10 name)

/-- An entry that does not throw: its type is known, and its number fits an `int`. -/
def Listable (isDirectory : List Char → Except Exn Bool) (name : List Char) : Prop :=
  (∃ b, isDirectory name = .ok b) ∧ (isPid isDirectory name = true → readDigits 10 name < 2 ^ 31)

theorem isPid_iff {isDirectory : List Char → Except Exn Bool} {name : List Char} :
    isPid isDirectory name = true ↔ isDirectory name = .ok true ∧ IsRun Char.isDigit name := by
  unfold isPid IsRun
  cases isDirectory name <;> simp

theorem listEntry_eq {isDirectory : List Char → Except Exn Bool} {name : List Char} {b : Bool}
    (h : isDirectory name = .ok b) : listEntry isDirectory name =
      if isPid isDirectory name = true then
        if readDigits 10 name < 2 ^ 31 then .ok (some (pidOf name)) else .error .outOfRange
      else .ok none := by
  rw [listEntry, h]
  cases b with
  | false =>
    have hnot : ¬ isPid isDirectory name = true := fun hp => by
      rw [isPid_iff, h] at hp
      cases hp.1
    rw [if_neg hnot]
    rfl
  | true =>
    by_cases hrun : IsRun Char.isDigit name
    · rw [if_pos (isPid_iff.2 ⟨h, hrun⟩)]
      show (if (digits.fullMatch name).isSome = true then _ else _) = _
      rw [if_pos (fullMatch_digits_isSome.2 hrun), stoi_of_run 10 (isRun_isBaseDigit 10 hrun)]
      split
      · rfl
      · rfl
    · rw [if_neg fun hp => hrun (isPid_iff.1 hp).2]
      show (if (digits.fullMatch name).isSome = true then _ else _) = _
      rw [if_neg fun hm => hrun (fullMatch_digits_isSome.1 hm)]
      rfl

theorem listable_iff {isDirectory : List Char → Except Exn Bool} {name : List Char} :
    Listable isDirectory name ↔ ∃ o, listEntry isDirectory name = .ok o := by
  cases h : isDirectory name with
  | error e =>
    refine iff_of_false (fun hl => ?_) ?_
    · obtain ⟨b, hb⟩ := hl.1
      rw [h] at hb
      cases hb
    · rintro ⟨o, ho⟩
      rw [listEntry, h] at ho
      cases ho
  | ok b =>
    rw [Listable, and_iff_right ⟨b, h⟩, listEntry_eq h]
    split
    · rename_i hp
      split
      · rename_i hlt
        exact ⟨fun _ => ⟨_, rfl⟩, fun _ _ => hlt⟩
      · rename_i hge
        exact iff_of_false (fun hl => hge (hl hp)) (by simp)
    · rename_i hp
      exact ⟨fun _ => ⟨_, rfl⟩, fun _ hc => absurd hc hp⟩

theorem pushed_listEntry {isDirectory : List Char → Except Exn Bool} {name : List Char} (h : Listable isDirectory name) :
    pushed (listEntry isDirectory) name = if isPid isDirectory name = true then some (pidOf name) else none := by
  obtain ⟨⟨b, hb⟩, hlt⟩ := h
  rw [pushed, listEntry_eq hb]
  by_cases hp : isPid isDirectory name = true
  · simp only [if_pos hp, if_pos (hlt hp)]
  · simp only [if_neg hp]

/-! ## The listing -/

section Results

variable {sys : Sys} {isDirectory : List Char → Except Exn Bool}

/-- The processes, in the order of the directory. -/
def pidNames (sys : Sys) (isDirectory : List Char → Except Exn Bool) : List (List Char) :=
  (sys.dir "/proc".toList).names.filter (isPid isDirectory)

theorem processListPid_iff {pids : List Int32} : processListPid sys isDirectory = .ok pids ↔
    (sys.dir "/proc".toList).failed = false ∧ (∀ name ∈ (sys.dir "/proc".toList).names, Listable isDirectory name) ∧
      pids = (pidNames sys isDirectory).map pidOf := by
  have hloop := @pushLoop_iff _ (listEntry isDirectory) (sys.dir "/proc".toList).names [] pids
  have hfilter : (∀ name ∈ (sys.dir "/proc".toList).names, Listable isDirectory name) →
      (sys.dir "/proc".toList).names.filterMap (pushed (listEntry isDirectory)) =
        (pidNames sys isDirectory).map pidOf := by
    intro hall
    rw [List.filterMap_congr fun name hn => pushed_listEntry (hall name hn)]
    rw [pidNames, filterMap_ite (fun name => isPid isDirectory name = true) pidOf]
    simp
  simp only [← listable_iff, List.nil_append] at hloop
  rw [processListPid]
  cases hf : (sys.dir "/proc".toList).failed with
  | true =>
    refine iff_of_false (fun h => ?_) (by simp)
    cases hl : pushLoop (listEntry isDirectory) [] (sys.dir "/proc".toList).names with
    | error e => rw [hl] at h; cases h
    | ok rs => rw [hl] at h; cases h
  | false =>
    have hrun : (do
        let pids ← pushLoop (listEntry isDirectory) [] (sys.dir "/proc".toList).names
        if false = true then throw .filesystemError else return pids : Except Exn (List Int32)) =
          pushLoop (listEntry isDirectory) [] (sys.dir "/proc".toList).names := by
      cases pushLoop (listEntry isDirectory) [] (sys.dir "/proc".toList).names <;> rfl
    rw [hrun, hloop, and_iff_right rfl]
    exact and_congr_right fun hall => by rw [hfilter hall]

/-- **Any listing**: `processList` returns exactly when the directory can be read to its end and every entry of it tells
its type and, if it is a process, has a number that fits; the objects are those of the processes, in order. -/
theorem processList_iff {junk : Nat → ProcessInfo} {objs : List ProcessInfo} :
    processList sys isDirectory junk = .ok objs ↔
      (sys.dir "/proc".toList).failed = false ∧
        (∀ name ∈ (sys.dir "/proc".toList).names, Listable isDirectory name) ∧
          objs = (pidNames sys isDirectory).mapIdx fun i name => construct (junk i) (pidOf name) := by
  rw [processList]
  cases hl : processListPid sys isDirectory with
  | error e =>
    refine iff_of_false (fun h => by cases h) fun ⟨hf, hall, _⟩ => ?_
    rw [processListPid_iff.2 ⟨hf, hall, rfl⟩] at hl
    cases hl
  | ok pids =>
    obtain ⟨hf, hall, rfl⟩ := processListPid_iff.1 hl
    have hmap : (((pidNames sys isDirectory).map pidOf).mapIdx fun i pid => construct (junk i) pid) =
        (pidNames sys isDirectory).mapIdx fun i name => construct (junk i) (pidOf name) :=
      List.ext_getElem (by simp) fun i h₁ h₂ => by simp
    rw [and_iff_right hf, and_iff_right hall, ← hmap]
    exact ⟨fun h => by cases h; rfl, fun h => by rw [h]; rfl⟩

theorem toInt_pidOf {name : List Char} (h : readDigits 10 name < 2 ^ 31) : (pidOf name).toInt = readDigits 10 name :=
  Int32.toInt_ofNat_of_lt h

/-- An object of `processList` and the entry it was constructed for. -/
structure Lists (name : List Char) (p : ProcessInfo) : Prop where
  pid   : p.mPid.toInt = readDigits 10 name
  due   : ∀ src, p.mNeedUpdate src = true
  files : p.mProcPath = "/proc/".toList ++ (decimal (readDigits 10 name) ++ "/".toList)
  own   : p.mProcPath = "/proc/".toList ++ (name ++ "/".toList) ↔ name = decimal (readDigits 10 name)

theorem lists_construct {name : List Char} (h : readDigits 10 name < 2 ^ 31) (junk : ProcessInfo) :
    Lists name (construct junk (pidOf name)) := by
  have hpid := toInt_pidOf h
  have hfiles : procPath (pidOf name) = "/proc/".toList ++ (decimal (readDigits 10 name) ++ "/".toList) := by
    rw [procPath, hpid, decimalInt, if_neg (by omega), Int.natAbs_natCast]
  refine ⟨hpid, fun _ => rfl, hfiles, ?_⟩
  rw [mProcPath_construct, hfiles, List.append_cancel_left_eq, List.append_cancel_right_eq]
  exact eq_comm

/-- **Every object is due and reads the files of the number it was listed under**: those of its own directory exactly when
the name is the plain decimal, as the kernel prints it; then no two objects share a number. -/
theorem processList_own {junk : Nat → ProcessInfo} {objs : List ProcessInfo}
    (h : processList sys isDirectory junk = .ok objs) :
    List.Forall₂ Lists (pidNames sys isDirectory) objs ∧
      processCount sys isDirectory = .ok (Int32.ofNat objs.length) ∧
      ((sys.dir "/proc".toList).names.Nodup →
        (∀ name ∈ pidNames sys isDirectory, name = decimal (readDigits 10 name)) → (objs.map mPid).Nodup) := by
  obtain ⟨hf, hall, rfl⟩ := processList_iff.1 h
  have hlt : ∀ name ∈ pidNames sys isDirectory, readDigits 10 name < 2 ^ 31 := fun name hn =>
    (hall name (List.mem_filter.1 hn).1).2 (List.mem_filter.1 hn).2
  have hlists : List.Forall₂ Lists (pidNames sys isDirectory)
      ((pidNames sys isDirectory).mapIdx fun i name => construct (junk i) (pidOf name)) := by
    refine List.forall₂_iff_get.2 ⟨by simp, fun i h₁ h₂ => ?_⟩
    simp only [List.get_eq_getElem, List.getElem_mapIdx]
    exact lists_construct (hlt _ (List.getElem_mem _)) _
  refine ⟨hlists, ?_, fun hnodup hplain => ?_⟩
  · rw [processCount, processListPid_iff.2 ⟨hf, hall, rfl⟩, List.length_mapIdx]
    show Except.ok (Int32.ofNat (List.map pidOf (pidNames sys isDirectory)).length) = _
    rw [List.length_map]
  · have hpids : ((pidNames sys isDirectory).mapIdx fun i name => construct (junk i) (pidOf name)).map mPid =
        (pidNames sys isDirectory).map pidOf := List.ext_getElem (by simp) fun i h₁ h₂ => by simp [construct, needUpdate]
    rw [hpids]
    refine List.Nodup.map_on (fun x hx y hy hxy => ?_) (hnodup.filter _)
    have hnum : readDigits 10 x = readDigits 10 y := by
      have htoInt := congrArg Int32.toInt hxy
      rw [toInt_pidOf (hlt x hx), toInt_pidOf (hlt y hy)] at htoInt
      exact Int.ofNat_inj.1 htoInt
    rw [hplain x hx, hnum, ← hplain y hy]

def Sys.listing (names : List (List Char)) : Sys := { Sys.ofFiles fun _ => none with dir := fun _ => ⟨names, false⟩ }

/-- A process, a directory of another kind and a file. -/
theorem processList_own_init : ∃ objs,
    processList (.listing ["1".toList, "sys".toList, "stat".toList]) (fun name => .ok (name != "stat".toList))
      (fun _ => .zeroed) = .ok objs ∧
    List.Forall₂ Lists ["1".toList] objs ∧
    processCount (.listing ["1".toList, "sys".toList, "stat".toList]) (fun name => .ok (name != "stat".toList)) = .ok 1 := by
  have h : processList (.listing ["1".toList, "sys".toList, "stat".toList]) (fun name => .ok (name != "stat".toList))
    (fun _ => .zeroed) = .ok [construct .zeroed 1] := rfl
  obtain ⟨hlists, hcount, -⟩ := processList_own h
  exact ⟨_, h, hlists, hcount⟩

end Results

end SysInfo
