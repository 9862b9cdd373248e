import Mathlib.Algebra.Group.Basic
import Mathlib.Data.List.Induction
import Mathlib.Logic.Function.Basic
import Mathlib.Tactic.Abel
/-!
# Baseline — a table of last samples, and the log behind it

Several recorders share a table from keys to entries; an entry has a value for each component.  A record stores its
component under its key; a key without an entry gets all that its recorder holds, sampled or not.  Every metric is a
difference between a new sample and the baseline, the value in the table.

The table is what its log makes of it: the baseline of a key and a component is its last sample, and before any it is
what the first recorder of the key held (`base_replay`).  The differences counted for a key add up to the last sample less
the first baseline (`counted_eq`).
-/
namespace SysInfo.Baseline

variable {κ ι : Type*} {S : ι → Type*}

/-- A record: its key, the component sampled, and what its recorder holds of every component. -/
structure Record (κ : Type*) {ι : Type*} (S : ι → Type*) where
  key  : κ
  comp : ι
  held : (i : ι) → S i

abbrev Table (κ : Type*) {ι : Type*} (S : ι → Type*) := κ → Option ((i : ι) → S i)

def base (t : Table κ S) (k : κ) (i : ι) : Option (S i) := (t k).map (· i)

variable [DecidableEq κ]

/-- The records of a key. -/
def ofKey (k : κ) (log : List (Record κ S)) : List (Record κ S) := log.filter (·.key = k)

theorem ofKey_append {k : κ} (log log' : List (Record κ S)) : ofKey k (log ++ log') = ofKey k log ++ ofKey k log' :=
  List.filter_append ..

variable [DecidableEq ι]

def Table.record (t : Table κ S) (x : Record κ S) : Table κ S :=
  Function.update t x.key (some ((t x.key).elim x.held fun old => Function.update old x.comp (x.held x.comp)))

def replayFrom (t : Table κ S) (log : List (Record κ S)) : Table κ S := log.foldl Table.record t

/-- The table that a log leaves, from an empty one. -/
def replay (log : List (Record κ S)) : Table κ S := replayFrom (fun _ => none) log

section Record

variable (t : Table κ S) (x : Record κ S)

theorem record_self : t.record x x.key =
    some ((t x.key).elim x.held fun old => Function.update old x.comp (x.held x.comp)) := Function.update_self ..

theorem record_of_ne {k : κ} (h : k ≠ x.key) : t.record x k = t k := Function.update_of_ne h ..

theorem base_record_self : base (t.record x) x.key x.comp = some (x.held x.comp) := by
  rw [base, record_self]
  cases t x.key <;> simp

theorem base_record_of_eq {k : κ} {i : ι} {x : Record κ S} (h : x.key = k ∧ x.comp = i) :
    base (t.record x) k i = some (x.held i) := by
  obtain ⟨rfl, rfl⟩ := h
  exact base_record_self t x

/-- The other components of an entry stay. -/
theorem base_record_of_comp_ne {i : ι} (h : i ≠ x.comp) :
    base (t.record x) x.key i = (base t x.key i).or (some (x.held i)) := by
  rw [base, record_self, base]
  cases t x.key with
  | none => rfl
  | some old => exact congrArg some (Function.update_of_ne h ..)

end Record

/-! ## The log -/

section Log

theorem replay_append_singleton (log : List (Record κ S)) (x : Record κ S) :
    replay (log ++ [x]) = (replay log).record x := List.foldl_append

theorem replayFrom_append (t : Table κ S) (log log' : List (Record κ S)) :
    replayFrom t (log ++ log') = replayFrom (replayFrom t log) log' := List.foldl_append

theorem replay_append (log log' : List (Record κ S)) : replay (log ++ log') = replayFrom (replay log) log' :=
  replayFrom_append ..

/-- The records of a component under a key. -/
def samples (k : κ) (i : ι) (log : List (Record κ S)) : List (Record κ S) :=
  log.filter fun x => x.key = k ∧ x.comp = i

variable {k : κ} {i : ι}

theorem samples_append (log log' : List (Record κ S)) :
    samples k i (log ++ log') = samples k i log ++ samples k i log' := List.filter_append ..

/-- **What the table says**: the last sample, or what the first recorder of the key held. -/
theorem base_replay (log : List (Record κ S)) :
    base (replay log) k i = ((samples k i log).getLast?.or (ofKey k log).head?).map (·.held i) := by
  induction log using List.reverseRecOn with
  | nil => rfl
  | append_singleton log x ih =>
    rw [replay_append_singleton, samples_append, ofKey_append]
    by_cases hk : x.key = k
    · subst hk
      have hof : ofKey x.key [x] = [x] := List.filter_cons_of_pos (by simp)
      by_cases hi : x.comp = i
      · subst hi
        have hs : samples x.key x.comp [x] = [x] := List.filter_cons_of_pos (by simp)
        rw [base_record_self, hs, List.getLast?_concat]
        rfl
      · have hs : samples x.key i [x] = [] := List.filter_cons_of_neg (by simp [hi])
        rw [base_record_of_comp_ne _ _ (Ne.symm hi), ih, hs, hof, List.append_nil, List.head?_append]
        cases (samples x.key i log).getLast? with
        | some y => rfl
        | none =>
          rw [Option.none_or, Option.none_or]
          cases (ofKey x.key log).head? <;> rfl
    · have hof : ofKey k [x] = [] := List.filter_cons_of_neg (by simpa using hk)
      have hs : samples k i [x] = [] := List.filter_cons_of_neg (by simp [hk])
      rw [base, record_of_ne _ _ (Ne.symm hk), hof, hs, List.append_nil, List.append_nil, ← ih]
      rfl

theorem isSome_replay_iff {log : List (Record κ S)} : (replay log k).isSome = true ↔ ∃ x ∈ log, x.key = k := by
  induction log using List.reverseRecOn with
  | nil => simp [replay, replayFrom]
  | append_singleton log x ih =>
    rw [replay_append_singleton]
    by_cases hk : x.key = k
    · subst hk
      rw [record_self]
      simp
    · rw [record_of_ne _ _ (Ne.symm hk), ih]
      simp [hk]

end Log

/-! ## Differences -/

section Differences

variable {A : Type*} [AddCommGroup A] (k : κ) (i : ι) (f : S i → A)

/-- What one record counts for a key and a component: its sample less the baseline, and nothing without one. -/
def delta (t : Table κ S) (x : Record κ S) : A :=
  if x.key = k ∧ x.comp = i then (base t k i).elim 0 fun b => f (x.held i) - f b else 0

def counted : Table κ S → List (Record κ S) → A
  | _, []     => 0
  | t, x :: xs => delta k i f t x + counted (t.record x) xs

variable {k i f}

/-- The baseline moves by what is counted. -/
theorem counted_add : ∀ {log : List (Record κ S)} {t : Table κ S} {b : S i}, base t k i = some b →
    ∃ c, base (replayFrom t log) k i = some c ∧ counted k i f t log = f c - f b
  | [], t, b, h => ⟨b, h, (sub_self _).symm⟩
  | x :: log, t, b, h => by
    by_cases hx : x.key = k ∧ x.comp = i
    · obtain ⟨c, hc, hsum⟩ := @counted_add log _ _ (base_record_of_eq t hx)
      refine ⟨c, hc, ?_⟩
      rw [counted, hsum, delta, if_pos hx, h, Option.elim_some]
      abel
    · have hkept : base (t.record x) k i = some b := by
        by_cases hk : x.key = k
        · subst hk
          have hi : i ≠ x.comp := fun hi => hx ⟨rfl, hi.symm⟩
          rw [base_record_of_comp_ne t x hi, h]
          rfl
        · rw [base, record_of_ne t x (Ne.symm hk)]
          exact h
      obtain ⟨c, hc, hsum⟩ := @counted_add log _ _ hkept
      refine ⟨c, hc, ?_⟩
      rw [counted, hsum, delta, if_neg hx, zero_add]

theorem counted_append : ∀ (log : List (Record κ S)) {t : Table κ S} (log' : List (Record κ S)),
    counted k i f t (log ++ log') = counted k i f t log + counted k i f (replayFrom t log) log'
  | [], t, log' => (zero_add _).symm
  | x :: log, t, log' => by
    rw [List.cons_append, counted, counted, counted_append log, add_assoc]
    rfl

/-- Records of other keys count nothing and leave the entry alone. -/
theorem counted_of_absent : ∀ {log : List (Record κ S)} {t : Table κ S}, (∀ x ∈ log, x.key ≠ k) →
    counted k i f t log = 0 ∧ replayFrom t log k = t k
  | [], _, _ => ⟨rfl, rfl⟩
  | x :: log, t, h => by
    have hx : x.key ≠ k := h x (by simp)
    obtain ⟨hsum, ht⟩ := @counted_of_absent log (t.record x) fun y hy => h y (by simp [hy])
    refine ⟨?_, ?_⟩
    · rw [counted, hsum, delta, if_neg fun hc => hx hc.1, add_zero]
    · rw [← record_of_ne t x (Ne.symm hx), ← ht]
      rfl

/-- **Nothing is lost or counted twice**: the differences counted add up to the baseline less what the first recorder of
the key held. -/
theorem counted_eq {log : List (Record κ S)} {x : Record κ S} (hx : (ofKey k log).head? = some x) :
    ∃ c, base (replay log) k i = some c ∧ counted k i f (fun _ => none) log = f c - f (x.held i) := by
  rw [ofKey, List.head?_filter, List.find?_eq_some_iff_append] at hx
  obtain ⟨hkey, pre, post, rfl, hpre⟩ := hx
  obtain rfl : x.key = k := by simpa using hkey
  obtain ⟨hnothing, hnone⟩ := @counted_of_absent _ _ _ _ _ _ _ x.key i f pre (fun _ => none) fun y hy => by
    simpa using hpre y hy
  have hfirst : base ((replay pre).record x) x.key i = some (x.held i) := by
    by_cases hi : i = x.comp
    · subst hi
      exact base_record_self _ x
    · rw [base_record_of_comp_ne _ x hi, base, replay, hnone]
      rfl
  obtain ⟨c, hc, hsum⟩ := @counted_add _ _ _ _ _ _ _ x.key i f post _ _ hfirst
  refine ⟨c, by rw [replay_append]; exact hc, ?_⟩
  have hdelta : delta x.key i f (replay pre) x = 0 := by
    rw [delta, base, replay, hnone]
    split <;> rfl
  rw [counted_append, hnothing, zero_add, counted, ← replay, hdelta, zero_add, hsum]

end Differences

end SysInfo.Baseline
