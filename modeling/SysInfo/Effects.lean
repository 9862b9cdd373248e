import Mathlib.Algebra.Order.Field.Rat
import Mathlib.Data.List.Forall2
import Mathlib.Order.Defs.Unbundled
/-!
# Effects — programs that may throw, alone and in pairs

Rules for `EStateM` programs, where an exception keeps the state it found.  `Moves T` is a frame: whatever the outcome,
the state ends where the preorder `T` allows.  `Couples R` runs two programs side by side: from related states they end
alike (the same value or the same exception) and in related states.  A loop does what its body does.

A system that executes one operation after the other is a step function; `runOps` is a whole run of it, and `runOps_inv`,
`runOps_couple` carry an invariant, or a relation between two runs, from one step to all of them.
-/
namespace SysInfo.Effects

universe u

variable {ε σ τ α β : Type u}

/-- A call of a throwing function that has no state. -/
def lift : Except ε α → EStateM ε σ α
  | .ok a    => pure a
  | .error e => throw e

def value : EStateM.Result ε σ α → Except ε α
  | .ok a _    => .ok a
  | .error e _ => .error e

def state : EStateM.Result ε σ α → σ
  | .ok _ s    => s
  | .error _ s => s

@[simp] theorem value_ok (a : α) (s : σ) : value (.ok a s : EStateM.Result ε σ α) = .ok a := rfl
@[simp] theorem value_error (e : ε) (s : σ) : value (.error e s : EStateM.Result ε σ α) = .error e := rfl
@[simp] theorem state_ok (a : α) (s : σ) : state (.ok a s : EStateM.Result ε σ α) = s := rfl
@[simp] theorem state_error (e : ε) (s : σ) : state (.error e s : EStateM.Result ε σ α) = s := rfl

@[simp] theorem run_lift_ok (a : α) (s : σ) : (lift (.ok a) : EStateM ε σ α).run s = .ok a s := rfl

@[simp] theorem state_run_lift (x : Except ε α) (s : σ) : state ((lift x : EStateM ε σ α).run s) = s := by
  cases x <;> rfl

@[simp] theorem value_run_lift (x : Except ε α) (s : σ) : value ((lift x : EStateM ε σ α).run s) = x := by
  cases x <;> rfl

theorem state_run_bind {x : EStateM ε σ α} {k : α → EStateM ε σ β} (hk : ∀ a s, state ((k a).run s) = s) (s : σ) :
    state ((x >>= k).run s) = state (x.run s) := by
  rw [EStateM.run_bind]
  cases x.run s with
  | ok a t => exact hk a t
  | error e t => rfl

theorem of_run_bind_ok {x : EStateM ε σ α} {k : α → EStateM ε σ β} {s u : σ} {b : β} (h : (x >>= k).run s = .ok b u) :
    ∃ a t, x.run s = .ok a t ∧ (k a).run t = .ok b u := by
  rw [EStateM.run_bind] at h
  cases hx : x.run s with
  | ok a t => rw [hx] at h; exact ⟨a, t, rfl, h⟩
  | error e t => rw [hx] at h; cases h

/-- A loop, once around. -/
theorem run_forM_cons {ι : Type*} (body : ι → EStateM ε σ PUnit) (i : ι) (l : List ι) (s : σ) :
    ((i :: l).forM body).run s = (body i >>= fun _ => l.forM body).run s := rfl

/-! ## Frames -/

/-- Whatever the outcome, the state ends where `T` allows. -/
def Moves (T : σ → σ → Prop) (x : EStateM ε σ α) : Prop := ∀ s, T s (state (x.run s))

section Moves

variable {T : σ → σ → Prop}

theorem moves_modify {g : σ → σ} (h : ∀ s, T s (g s)) : Moves T (modify g : EStateM ε σ PUnit) := fun s => h s

theorem moves_get_bind {k : σ → EStateM ε σ β} (hk : ∀ t, Moves T (k t)) : Moves T (get >>= k) := fun s => hk s s

variable [IsPreorder σ T]

theorem moves_pure (a : α) : Moves T (pure a : EStateM ε σ α) := fun s => refl_of T s

theorem moves_lift (x : Except ε α) : Moves T (lift x : EStateM ε σ α) := fun s => by
  rw [state_run_lift]; exact refl_of T s

theorem Moves.bind {x : EStateM ε σ α} {k : α → EStateM ε σ β} (hx : Moves T x) (hk : ∀ a, Moves T (k a)) :
    Moves T (x >>= k) := by
  intro s
  have h := hx s
  rw [EStateM.run_bind]
  cases hr : x.run s with
  | ok a s' => rw [hr] at h; exact trans_of T h (hk a s')
  | error e s' => rw [hr] at h; exact h

theorem moves_forM {ι : Type*} {body : ι → EStateM ε σ PUnit} : ∀ {l : List ι}, (∀ i ∈ l, Moves T (body i)) →
    Moves T (l.forM body)
  | [], _ => moves_pure _
  | i :: l, h => (h i (by simp)).bind fun _ => moves_forM fun j hj => h j (by simp [hj])

theorem moves_foldlM {ι : Type*} {body : α → ι → EStateM ε σ α} (h : ∀ a i, Moves T (body a i)) :
    ∀ (l : List ι) (a : α), Moves T (l.foldlM body a)
  | [], a => moves_pure a
  | i :: l, a => (h a i).bind fun b => moves_foldlM h l b

end Moves

/-! ## Pairs -/

/-- From related states the two programs end alike, and in related states. -/
def Couples (R : σ → τ → Prop) (x : EStateM ε σ α) (y : EStateM ε τ α) : Prop :=
  ∀ s t, R s t → value (x.run s) = value (y.run t) ∧ R (state (x.run s)) (state (y.run t))

section Couples

variable {R : σ → τ → Prop}

theorem couples_pure (a : α) : Couples R (pure a : EStateM ε σ α) (pure a) := fun _ _ h => ⟨rfl, h⟩

theorem couples_lift (x : Except ε α) : Couples R (lift x : EStateM ε σ α) (lift x) := fun s t h => by
  rw [value_run_lift, value_run_lift, state_run_lift, state_run_lift]
  exact ⟨rfl, h⟩

theorem couples_modify {g : σ → σ} {g' : τ → τ} (h : ∀ s t, R s t → R (g s) (g' t)) :
    Couples R (modify g : EStateM ε σ PUnit) (modify g') := fun s t hR => ⟨rfl, h s t hR⟩

theorem Couples.bind {x : EStateM ε σ α} {y : EStateM ε τ α} {k : α → EStateM ε σ β} {k' : α → EStateM ε τ β}
    (hx : Couples R x y) (hk : ∀ a, Couples R (k a) (k' a)) : Couples R (x >>= k) (y >>= k') := by
  intro s t hR
  obtain ⟨hv, hs⟩ := hx s t hR
  rw [EStateM.run_bind, EStateM.run_bind]
  cases hr : x.run s with
  | ok a s' =>
    cases hq : y.run t with
    | ok b t' =>
      rw [hr, hq] at hv hs
      obtain rfl : a = b := by simpa using hv
      exact hk a s' t' hs
    | error e t' => rw [hr, hq] at hv; cases hv
  | error e s' =>
    cases hq : y.run t with
    | ok b t' => rw [hr, hq] at hv; cases hv
    | error e' t' =>
      rw [hr, hq] at hv hs
      obtain rfl : e = e' := by simpa using hv
      exact ⟨rfl, hs⟩

theorem couples_get_bind {k : σ → EStateM ε σ β} {k' : τ → EStateM ε τ β} (h : ∀ s t, R s t → Couples R (k s) (k' t)) :
    Couples R (get >>= k) (get >>= k') := fun s t hR => h s t hR s t hR

theorem couples_forM {ι : Type*} {body : ι → EStateM ε σ PUnit} {body' : ι → EStateM ε τ PUnit} :
    ∀ {l : List ι}, (∀ i ∈ l, Couples R (body i) (body' i)) → Couples R (l.forM body) (l.forM body')
  | [], _ => couples_pure _
  | i :: l, h => (h i (by simp)).bind fun _ => couples_forM fun j hj => h j (by simp [hj])

theorem couples_foldlM {ι : Type*} {body : α → ι → EStateM ε σ α} {body' : α → ι → EStateM ε τ α}
    (h : ∀ a i, Couples R (body a i) (body' a i)) :
    ∀ (l : List ι) (a : α), Couples R (l.foldlM body a) (l.foldlM body' a)
  | [], a => couples_pure a
  | i :: l, a => (h a i).bind fun b => couples_foldlM h l b

end Couples

/-! ## Stores behind conversions -/

section Stores

variable {κ ι : Type u}

/-- The entries before the first one that does not convert, with what they convert to. -/
def converted (conv : ι → Except ε β) : List (κ × ι) → List (κ × β)
  | []           => []
  | (k, i) :: xs =>
    match conv i with
    | .ok b    => (k, b) :: converted conv xs
    | .error _ => []

/-- Convert and store, one entry after the other. -/
def storeAll (conv : ι → Except ε β) (store : κ → β → σ → σ) (xs : List (κ × ι)) : EStateM ε σ PUnit :=
  xs.forM fun x => lift (conv x.2) >>= fun b => modify (store x.1 b)

theorem storeAll_cons (conv : ι → Except ε β) (store : κ → β → σ → σ) (k : κ) (i : ι) (xs : List (κ × ι)) :
    storeAll conv store ((k, i) :: xs) =
      (lift (conv i) >>= fun b => modify (store k b) >>= fun _ => storeAll conv store xs) := bind_assoc ..

theorem storeAll_singleton (conv : ι → Except ε β) (store : κ → β → σ → σ) (k : κ) (i : ι) :
    storeAll conv store [(k, i)] = (lift (conv i) >>= fun b => modify (store k b)) := bind_pure_unit

/-- **A loop of stores leaves what it converted**, whether it throws or not. -/
theorem state_storeAll (conv : ι → Except ε β) (store : κ → β → σ → σ) : ∀ (xs : List (κ × ι)) (s : σ),
    state ((storeAll conv store xs).run s) = (converted conv xs).foldl (fun s x => store x.1 x.2 s) s
  | [], _ => rfl
  | (k, i) :: xs, s => by
    rw [storeAll_cons, EStateM.run_bind, converted]
    cases conv i with
    | ok b => exact state_storeAll conv store xs (store k b s)
    | error e => rfl

/-- **A loop of stores ends well exactly when every entry converts.** -/
theorem run_storeAll_ok_iff (conv : ι → Except ε β) (store : κ → β → σ → σ) : ∀ (xs : List (κ × ι)) (s : σ),
    (∃ t, (storeAll conv store xs).run s = .ok ⟨⟩ t) ↔ ∀ x ∈ xs, ∃ b, conv x.2 = .ok b
  | [], s => ⟨fun _ x hx => absurd hx List.not_mem_nil, fun _ => ⟨s, rfl⟩⟩
  | (k, i) :: xs, s => by
    rw [storeAll_cons, EStateM.run_bind, List.forall_mem_cons]
    cases h : conv i with
    | ok b => exact (run_storeAll_ok_iff conv store xs (store k b s)).trans (and_iff_right ⟨b, rfl⟩).symm
    | error e => exact iff_of_false (fun ⟨t, ht⟩ => by cases ht) (fun ⟨⟨b, hb⟩, _⟩ => by cases hb)

theorem forM_flatMap {body : α → EStateM ε σ PUnit} {entry : ι → List α} : ∀ l : List ι,
    (l.flatMap entry).forM body = l.forM fun i => (entry i).forM body
  | [] => rfl
  | i :: l => by
    have hrest : (entry i ++ l.flatMap entry).forM body = (entry i).forM body >>= fun _ => (l.flatMap entry).forM body :=
      List.forM_append
    rw [List.flatMap_cons, hrest, forM_flatMap l]
    rfl

/-- What the first entry throws that does not convert. -/
def firstFault (conv : ι → Except ε β) : List (κ × ι) → Option ε
  | []           => none
  | (_, i) :: xs =>
    match conv i with
    | .ok _    => firstFault conv xs
    | .error e => some e

/-- **A loop of stores throws what the first entry throws** that does not convert. -/
theorem value_storeAll (conv : ι → Except ε β) (store : κ → β → σ → σ) : ∀ (xs : List (κ × ι)) (s : σ),
    value ((storeAll conv store xs).run s) = (firstFault conv xs).elim (.ok ⟨⟩) .error
  | [], _ => rfl
  | (k, i) :: xs, s => by
    rw [storeAll_cons, EStateM.run_bind, firstFault]
    cases conv i with
    | ok b => exact value_storeAll conv store xs (store k b s)
    | error e => rfl

section OneFault

variable {conv : ι → Except ε β} (P : ι → Prop) [DecidablePred P] (val : ι → β) {e : ε}

/-- Where only one exception is thrown, entries convert up to the first that is out of bounds. -/
theorem converted_of_ite : ∀ {xs : List (κ × ι)}, (∀ x ∈ xs, conv x.2 = if P x.2 then .ok (val x.2) else .error e) →
    converted conv xs = (xs.takeWhile (P ·.2)).map fun x => (x.1, val x.2)
  | [], _ => rfl
  | (k, i) :: xs, h => by
    have ih := converted_of_ite fun x hx => h x (List.mem_cons_of_mem _ hx)
    rw [converted, h (k, i) List.mem_cons_self]
    by_cases hi : P i
    · rw [if_pos hi, List.takeWhile_cons, if_pos (decide_eq_true hi), List.map_cons, ← ih]
    · rw [if_neg hi, List.takeWhile_cons, if_neg (by simpa using hi), List.map_nil]

theorem firstFault_of_ite : ∀ {xs : List (κ × ι)}, (∀ x ∈ xs, conv x.2 = if P x.2 then .ok (val x.2) else .error e) →
    firstFault conv xs = if ∀ x ∈ xs, P x.2 then none else some e
  | [], _ => (if_pos fun x hx => absurd hx List.not_mem_nil).symm
  | (k, i) :: xs, h => by
    have ih := firstFault_of_ite fun x hx => h x (List.mem_cons_of_mem _ hx)
    rw [firstFault, h (k, i) List.mem_cons_self]
    by_cases hi : P i
    · rw [if_pos hi]
      dsimp only
      rw [ih]
      exact if_congr (by rw [List.forall_mem_cons, and_iff_right hi]) rfl rfl
    · rw [if_neg hi, if_neg fun hall => hi (hall _ List.mem_cons_self)]

end OneFault

theorem couples_storeAll {R : σ → τ → Prop} {conv : ι → Except ε β} {store : κ → β → σ → σ} {store' : κ → β → τ → τ}
    (h : ∀ k b s t, R s t → R (store k b s) (store' k b t)) (xs : List (κ × ι)) :
    Couples R (storeAll conv store xs) (storeAll conv store' xs) :=
  couples_forM fun x _ => (couples_lift _).bind fun b => couples_modify (h x.1 b)

variable [DecidableEq κ]

def lastFor (k : κ) : List (κ × β) → Option β
  | []            => none
  | (k', b) :: xs => (lastFor k xs).or (if k' = k then some b else none)

theorem lastFor_filter (k : κ) : ∀ xs : List (κ × β), lastFor k (xs.filter (·.1 = k)) = lastFor k xs
  | [] => rfl
  | (k', b) :: xs => by
    by_cases h : k' = k
    · rw [List.filter_cons_of_pos (by simpa using h), lastFor, lastFor, lastFor_filter k xs]
    · rw [List.filter_cons_of_neg (by simpa using h), lastFor, if_neg h, Option.or_none, lastFor_filter k xs]

theorem lastFor_append (k : κ) (ys : List (κ × β)) : ∀ xs : List (κ × β),
    lastFor k (xs ++ ys) = (lastFor k ys).or (lastFor k xs)
  | []      => (Option.or_none ..).symm
  | x :: xs => by rw [List.cons_append, lastFor, lastFor, lastFor_append k ys xs, Option.or_assoc]

/-- Maps put one over the other: the last entry stands. -/
theorem foldl_lastFor_or {ι : Type*} (entries : ι → List (κ × β)) (k : κ) : ∀ (is : List ι) (m : κ → Option β),
    is.foldl (fun m i k => (lastFor k (entries i)).or (m k)) m k = (lastFor k (is.flatMap entries)).or (m k)
  | [], _ => rfl
  | i :: is, m => by
    rw [List.foldl_cons, foldl_lastFor_or entries k is, List.flatMap_cons, lastFor_append, Option.or_assoc]

theorem foldl_update {γ : Type*} (g : β → γ) (k : κ) : ∀ (xs : List (κ × β)) (v : κ → γ),
    xs.foldl (fun v x => Function.update v x.1 (g x.2)) v k = ((lastFor k xs).map g).getD (v k)
  | [], _ => rfl
  | (k', b) :: xs, v => by
    rw [List.foldl_cons, foldl_update g k xs, lastFor]
    cases lastFor k xs with
    | some c => rfl
    | none =>
      by_cases h : k' = k
      · subst h
        simp
      · simp [h, Function.update_of_ne (Ne.symm h)]

theorem foldl_update_some (k : κ) (xs : List (κ × β)) (v : κ → Option β) :
    xs.foldl (fun (v : κ → Option β) x => Function.update v x.1 (some x.2)) v k = (lastFor k xs).or (v k) := by
  rw [foldl_update some k xs v]
  cases lastFor k xs <;> rfl

end Stores

/-! ## Runs of a machine -/

section Runs

variable {σ τ ι κ ο : Type*}

/-- A whole run: the state it ends in, and what each step answered. -/
def runOps (step : ι → σ → σ × ο) : σ → List ι → σ × List ο
  | s, []      => (s, [])
  | s, i :: is => ((runOps step (step i s).1 is).1, (step i s).2 :: (runOps step (step i s).1 is).2)

variable {step : ι → σ → σ × ο}

theorem runOps_append : ∀ (is js : List ι) (s : σ), runOps step s (is ++ js) =
    ((runOps step (runOps step s is).1 js).1, (runOps step s is).2 ++ (runOps step (runOps step s is).1 js).2)
  | [], _, _ => rfl
  | i :: is, js, s => by
    simp only [List.cons_append, runOps]
    rw [runOps_append is js]

/-- What a run answers, seen through a map. -/
theorem runOps_map {π : Type*} (f : ο → π) : ∀ (is : List ι) (s : σ),
    runOps (fun i s => ((step i s).1, f (step i s).2)) s is = ((runOps step s is).1, (runOps step s is).2.map f)
  | [], _ => rfl
  | i :: is, s => by simp only [runOps, runOps_map f is, List.map_cons]

theorem length_runOps : ∀ (is : List ι) (s : σ), (runOps step s is).2.length = is.length
  | [], _ => rfl
  | i :: is, s => congrArg Nat.succ (length_runOps is (step i s).1)

theorem answer_eq_of_runOps {xs ys : List ι} {x : ι} {s t : σ}
    (h : (runOps step s (xs ++ x :: ys)).2 = (runOps step t (xs ++ x :: ys)).2) :
    (step x (runOps step s xs).1).2 = (step x (runOps step t xs).1).2 := by
  rw [runOps_append, runOps_append] at h
  have hlen : (runOps step s xs).2.length = (runOps step t xs).2.length := by rw [length_runOps, length_runOps]
  exact (List.cons.inj (List.append_inj h hlen).2).1

/-- A step of a run meets a condition for the first time, or none ever does. -/
theorem none_or_first (step : ι → σ → σ × ο) (P : ι → σ → Prop) : ∀ (is : List ι) (s : σ),
    (∀ xs x ys, is = xs ++ x :: ys → ¬ P x (runOps step s xs).1) ∨
      ∃ xs x ys, is = xs ++ x :: ys ∧ P x (runOps step s xs).1 ∧
        ∀ xs' x' ys', xs = xs' ++ x' :: ys' → ¬ P x' (runOps step s xs').1
  | [], _ => .inl fun xs x ys h => by simp at h
  | i :: is, s => by
    by_cases hi : P i s
    · exact .inr ⟨[], i, is, rfl, hi, fun xs' x' ys' h => by simp at h⟩
    -- what holds of every split of the rest holds of every split of the whole
    have hcons : ∀ {js : List ι}, (∀ xs x ys, js = xs ++ x :: ys → ¬ P x (runOps step (step i s).1 xs).1) →
        ∀ xs x ys, i :: js = xs ++ x :: ys → ¬ P x (runOps step s xs).1 := by
      intro js hjs xs x ys h
      cases xs with
      | nil => rwa [← (List.cons.inj h).1]
      | cons j xs =>
        obtain ⟨rfl, hrest⟩ := List.cons.inj h
        exact hjs xs x ys hrest
    rcases none_or_first step P is (step i s).1 with h | ⟨xs, x, ys, hsplit, hx, hbefore⟩
    · exact .inl (hcons h)
    · exact .inr ⟨i :: xs, x, ys, by rw [hsplit]; rfl, hx, hcons hbefore⟩

/-- **An invariant holds along a run**, and what it says of each answer; it may speak of the steps still to come. -/
theorem runOps_inv {Inv : List ι → σ → Prop} {Good : ο → Prop}
    (h : ∀ i is s, Inv (i :: is) s → Inv is (step i s).1 ∧ Good (step i s).2) :
    ∀ (is : List ι) (s : σ), Inv is s → Inv [] (runOps step s is).1 ∧ ∀ o ∈ (runOps step s is).2, Good o
  | [], s, hs => ⟨hs, by simp [runOps]⟩
  | i :: is, s, hs => by
    obtain ⟨h₁, h₂⟩ := h i is s hs
    obtain ⟨ih₁, ih₂⟩ := runOps_inv h is (step i s).1 h₁
    exact ⟨ih₁, fun o ho => (List.mem_cons.1 ho).elim (fun e => e ▸ h₂) (ih₂ o)⟩

theorem runOps_keeps (P : ι → Prop) (I : σ → Prop) (h : ∀ i s, P i → I s → I (step i s).1) :
    ∀ (is : List ι) (s : σ), (∀ i ∈ is, P i) → I s → I (runOps step s is).1
  | [], _, _, hs => hs
  | i :: is, s, hP, hs =>
    runOps_keeps P I h is (step i s).1 (fun j hj => hP j (List.mem_cons_of_mem i hj)) (h i s (hP i (by simp)) hs)

/-- **Two runs answer alike** when steps that correspond answer alike and keep a relation between the states. -/
theorem runOps_couple {step' : κ → τ → τ × ο} {P : ι → κ → Prop} {R : σ → τ → Prop}
    (h : ∀ i j s t, P i j → R s t → (step i s).2 = (step' j t).2 ∧ R (step i s).1 (step' j t).1) :
    ∀ {is : List ι} {js : List κ}, List.Forall₂ P is js → ∀ {s : σ} {t : τ}, R s t →
      (runOps step s is).2 = (runOps step' t js).2 ∧ R (runOps step s is).1 (runOps step' t js).1
  | [], [], _, s, t, hR => ⟨rfl, hR⟩
  | i :: is, j :: js, .cons hP hPs, s, t, hR => by
    obtain ⟨h₁, h₂⟩ := h i j s t hP hR
    obtain ⟨ih₁, ih₂⟩ := runOps_couple h hPs h₂
    refine ⟨?_, ih₂⟩
    simp only [runOps]
    rw [h₁, ih₁]

def answersOf (keep : ι → Bool) (is : List ι) (os : List ο) : List ο := ((is.zip os).filter (keep ·.1)).map Prod.snd

theorem answersOf_cons (keep : ι → Bool) (i : ι) (is : List ι) (o : ο) (os : List ο) :
    answersOf keep (i :: is) (o :: os) = if keep i then o :: answersOf keep is os else answersOf keep is os := by
  rw [answersOf, List.zip_cons_cons, List.filter_cons]
  split <;> rfl

/-- **Steps that a relation does not see can be dropped** from one of two runs: the others answer as before. -/
theorem runOps_drop {P : ι → Prop} {keep : ι → Bool} {R : σ → σ → Prop}
    (hkeep : ∀ i s t, P i → keep i = true → R s t → (step i s).2 = (step i t).2 ∧ R (step i s).1 (step i t).1)
    (hdrop : ∀ i s t, P i → keep i = false → R s t → R (step i s).1 t) :
    ∀ {is : List ι}, (∀ i ∈ is, P i) → ∀ {s t : σ}, R s t →
      answersOf keep is (runOps step s is).2 = (runOps step t (is.filter keep)).2 ∧
        R (runOps step s is).1 (runOps step t (is.filter keep)).1
  | [], _, s, t, hR => ⟨rfl, hR⟩
  | i :: is, hP, s, t, hR => by
    have hPs : ∀ j ∈ is, P j := fun j hj => hP j (List.mem_cons_of_mem i hj)
    cases hk : keep i with
    | false =>
      obtain ⟨ih₁, ih₂⟩ := runOps_drop hkeep hdrop hPs (hdrop i s t (hP i (by simp)) hk hR)
      rw [List.filter_cons_of_neg (by simp [hk])]
      refine ⟨?_, ih₂⟩
      rw [← ih₁, runOps, answersOf_cons, if_neg (by simp [hk])]
    | true =>
      obtain ⟨h₁, h₂⟩ := hkeep i s t (hP i (by simp)) hk hR
      obtain ⟨ih₁, ih₂⟩ := runOps_drop hkeep hdrop hPs h₂
      rw [List.filter_cons_of_pos hk]
      refine ⟨?_, ih₂⟩
      rw [runOps, runOps, answersOf_cons, if_pos hk, h₁, ih₁]

end Runs

end SysInfo.Effects
