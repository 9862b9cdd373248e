import Mathlib.Data.List.Basic
import Mathlib.Logic.Function.Basic
import Mathlib.Logic.Relation
/-!
# WorkQueue — workers that share a queue

Items wait in a queue.  A worker takes the first one, together with something of its own, and puts out the outputs of
its work one at a time; other workers may do anything in between.  Outputs are logged with the number of the item they
are of.

`Pool.Accounts` is what any interleaving keeps: the outputs logged for an item and those a worker still has of it are
those of its work, in order.  So no output is lost, doubled or misattributed (`Reach.accounts`).
-/
namespace SysInfo.WorkQueue

variable {γ ι ο ω : Type*}

/-- A worker waits, or has some outputs left of an item, known by its number among the items taken. -/
inductive Job (ο : Type*) where
  | idle
  | busy (n : Nat) (left : List ο)

structure Pool (γ ι ο ω : Type*) where
  queue : List ι
  taken : List (γ × ι)
  jobs : ω → Job ο
  log   : List (Nat × ο)

namespace Pool

/-- Every item so far, in the order of arrival. -/
def arrived (p : Pool γ ι ο ω) : List ι := p.taken.map Prod.snd ++ p.queue

/-- The outputs of one item. -/
def logOf (p : Pool γ ι ο ω) (n : Nat) : List ο := (p.log.filter (·.1 = n)).map Prod.snd

/-- Some worker is at the item. -/
def Current (p : Pool γ ι ο ω) (n : Nat) : Prop := ∃ w left, p.jobs w = .busy n left

def initial (queue : List ι) : Pool γ ι ο ω := ⟨queue, [], fun _ => .idle, []⟩

end Pool

inductive Step [DecidableEq ω] (work : γ × ι → List ο) : Pool γ ι ο ω → Pool γ ι ο ω → Prop
  | arrive (p : Pool γ ι ο ω) (i : ι) : Step work p { p with queue := p.queue ++ [i] }
  | take {p : Pool γ ι ο ω} (w : ω) (own : γ) {i : ι} {rest : List ι} (hq : p.queue = i :: rest) (ht : p.jobs w = .idle) :
      Step work p { p with
        queue := rest, taken := p.taken ++ [(own, i)],
        jobs := Function.update p.jobs w (.busy p.taken.length (work (own, i))) }
  | put {p : Pool γ ι ο ω} (w : ω) {n : Nat} {o : ο} {left : List ο} (ht : p.jobs w = .busy n (o :: left)) :
      Step work p { p with jobs := Function.update p.jobs w (.busy n left), log := p.log ++ [(n, o)] }
  | finish {p : Pool γ ι ο ω} (w : ω) {n : Nat} (ht : p.jobs w = .busy n []) :
      Step work p { p with jobs := Function.update p.jobs w .idle }

abbrev Reach [DecidableEq ω] (work : γ × ι → List ο) : Pool γ ι ο ω → Pool γ ι ο ω → Prop := Relation.ReflTransGen (Step work)

/-- **What is logged and what is left of an item are its work.** -/
structure Pool.Accounts (work : γ × ι → List ο) (p : Pool γ ι ο ω) : Prop where
  alone  : ∀ w w' n left left', p.jobs w = .busy n left → p.jobs w' = .busy n left' → w = w'
  lt     : ∀ w n left, p.jobs w = .busy n left → n < p.taken.length
  logged : ∀ x ∈ p.log, x.1 < p.taken.length
  busy   : ∀ w n left i, p.jobs w = .busy n left → p.taken[n]? = some i → p.logOf n ++ left = work i
  done   : ∀ n i, p.taken[n]? = some i → ¬ p.Current n → p.logOf n = work i

variable {work : γ × ι → List ο}

theorem Pool.Accounts.initial (queue : List ι) : (Pool.initial queue : Pool γ ι ο ω).Accounts work where
  alone w w' n left left' h := by cases h
  lt w n left h := by cases h
  logged x h := by cases h
  busy w n left i h := by cases h
  done n i h := by cases h

theorem Pool.logOf_append (p : Pool γ ι ο ω) (jobs : ω → Job ο) (n k : Nat) (o : ο) :
    ({ p with jobs := jobs, log := p.log ++ [(k, o)] } : Pool γ ι ο ω).logOf n =
      if k = n then p.logOf n ++ [o] else p.logOf n := by
  simp only [Pool.logOf, List.filter_append, List.map_append]
  by_cases h : k = n
  · simp [h]
  · simp [h]

/-- Part of its work is logged, and all of it when no worker is at the item. -/
theorem Pool.Accounts.logOf_prefix {p : Pool γ ι ο ω} (h : p.Accounts work) {n : Nat} {i : γ × ι} (hi : p.taken[n]? = some i) :
    p.logOf n <+: work i ∧ (¬ p.Current n → p.logOf n = work i) := by
  refine ⟨?_, h.done n i hi⟩
  by_cases hc : p.Current n
  · obtain ⟨w, left, hw⟩ := hc
    exact ⟨left, h.busy w n left i hw hi⟩
  · have hdone : p.logOf n = work i := h.done n i hi hc
    exact hdone ▸ List.prefix_refl (p.logOf n)

variable [DecidableEq ω]

/-- A worker that is busy behind an update is the one updated, or it was busy before. -/
theorem of_update_busy {jobs : ω → Job ο} {w w' : ω} {t : Job ο} {n : Nat} {left : List ο}
    (h : Function.update jobs w t w' = .busy n left) :
    (w' = w ∧ t = .busy n left) ∨ (w' ≠ w ∧ jobs w' = .busy n left) := by
  by_cases hw : w' = w
  · subst hw
    rw [Function.update_self] at h
    exact .inl ⟨rfl, h⟩
  · rw [Function.update_of_ne hw] at h
    exact .inr ⟨hw, h⟩

namespace Pool.Accounts

variable {p : Pool γ ι ο ω}

theorem take (h : p.Accounts work) (w : ω) (own : γ) {i : ι} {rest : List ι} (ht : p.jobs w = .idle) :
    ({ p with
      queue := rest, taken := p.taken ++ [(own, i)],
      jobs := Function.update p.jobs w (.busy p.taken.length (work (own, i))) } : Pool γ ι ο ω).Accounts work := by
  have hnew : p.logOf p.taken.length = [] := by
    rw [Pool.logOf, List.map_eq_nil_iff, List.filter_eq_nil_iff]
    intro x hx
    simpa using Nat.ne_of_lt (h.logged x hx)
  refine ⟨fun w₁ w₂ n l₁ l₂ h₁ h₂ => ?_, fun w' n left hw' => ?_, fun x hx => ?_, fun w' n left j hw' hj => ?_,
    fun n j hj hn => ?_⟩
  · rcases of_update_busy h₁ with ⟨e₁, ht₁⟩ | ⟨-, ht₁⟩ <;> rcases of_update_busy h₂ with ⟨e₂, ht₂⟩ | ⟨-, ht₂⟩
    · rw [e₁, e₂]
    · cases ht₁
      exact absurd (h.lt w₂ _ l₂ ht₂) (Nat.lt_irrefl _)
    · cases ht₂
      exact absurd (h.lt w₁ _ l₁ ht₁) (Nat.lt_irrefl _)
    · exact h.alone w₁ w₂ n l₁ l₂ ht₁ ht₂
  · rw [List.length_append, List.length_singleton]
    rcases of_update_busy hw' with ⟨-, ht'⟩ | ⟨-, ht'⟩
    · cases ht'
      omega
    · exact Nat.lt_succ_of_lt (h.lt w' n left ht')
  · rw [List.length_append, List.length_singleton]
    exact Nat.lt_succ_of_lt (h.logged x hx)
  · rcases of_update_busy hw' with ⟨-, ht'⟩ | ⟨-, ht'⟩
    · cases ht'
      rw [List.getElem?_append_right (Nat.le_refl _), Nat.sub_self] at hj
      cases hj
      exact congrArg (· ++ work (own, i)) hnew
    · rw [List.getElem?_append_left (h.lt w' n left ht')] at hj
      exact h.busy w' n left j ht' hj
  · have hlt : n < p.taken.length := by
      by_contra hge
      have hlen := (List.getElem?_eq_some_iff.1 hj).1
      rw [List.length_append, List.length_singleton] at hlen
      obtain rfl : n = p.taken.length := by omega
      exact hn ⟨w, _, Function.update_self ..⟩
    rw [List.getElem?_append_left hlt] at hj
    refine h.done n j hj fun ⟨w', left, hw'⟩ => hn ⟨w', left, ?_⟩
    have hne : w' ≠ w := fun e => by rw [e, ht] at hw'; cases hw'
    exact (Function.update_of_ne hne ..).trans hw'

theorem put (h : p.Accounts work) (w : ω) {n : Nat} {o : ο} {left : List ο} (ht : p.jobs w = .busy n (o :: left)) :
    ({ p with jobs := Function.update p.jobs w (.busy n left), log := p.log ++ [(n, o)] } :
      Pool γ ι ο ω).Accounts work := by
  refine ⟨fun w₁ w₂ k l₁ l₂ h₁ h₂ => ?_, fun w' k l hw' => ?_, fun x hx => ?_, fun w' k l j hw' hj => ?_,
    fun k j hj hk => ?_⟩
  · rcases of_update_busy h₁ with ⟨e₁, ht₁⟩ | ⟨-, ht₁⟩ <;> rcases of_update_busy h₂ with ⟨e₂, ht₂⟩ | ⟨-, ht₂⟩
    · rw [e₁, e₂]
    · cases ht₁
      exact e₁.trans (h.alone w w₂ n _ l₂ ht ht₂)
    · cases ht₂
      exact (h.alone w₁ w n l₁ _ ht₁ ht).trans e₂.symm
    · exact h.alone w₁ w₂ k l₁ l₂ ht₁ ht₂
  · rcases of_update_busy hw' with ⟨-, ht'⟩ | ⟨-, ht'⟩
    · cases ht'
      exact h.lt w n _ ht
    · exact h.lt w' k l ht'
  · rcases List.mem_append.1 hx with hx | hx
    · exact h.logged x hx
    · rw [List.mem_singleton.1 hx]
      exact h.lt w n _ ht
  · rw [Pool.logOf_append]
    rcases of_update_busy hw' with ⟨-, ht'⟩ | ⟨hne, ht'⟩
    · cases ht'
      rw [if_pos rfl, List.append_assoc]
      exact h.busy w n _ j ht hj
    · rw [if_neg fun e => hne (h.alone w' w k l _ ht' (e ▸ ht))]
      exact h.busy w' k l j ht' hj
  · have hne : n ≠ k := fun e => hk ⟨w, left, by rw [← e]; exact Function.update_self ..⟩
    rw [Pool.logOf_append, if_neg hne]
    refine h.done k j hj fun ⟨w', l, hw'⟩ => hk ⟨w', l, ?_⟩
    have hw : w' ≠ w := fun e => by rw [e, ht] at hw'; cases hw'; exact hne rfl
    exact (Function.update_of_ne hw ..).trans hw'

theorem finish (h : p.Accounts work) (w : ω) {n : Nat} (ht : p.jobs w = .busy n []) :
    ({ p with jobs := Function.update p.jobs w .idle } : Pool γ ι ο ω).Accounts work := by
  have hcases : ∀ {w' k l}, Function.update p.jobs w .idle w' = .busy k l → p.jobs w' = .busy k l := by
    intro w' k l hw'
    rcases of_update_busy hw' with ⟨-, ht'⟩ | ⟨-, ht'⟩
    · cases ht'
    · exact ht'
  refine ⟨fun w₁ w₂ k l₁ l₂ h₁ h₂ => h.alone w₁ w₂ k l₁ l₂ (hcases h₁) (hcases h₂),
    fun w' k l hw' => h.lt w' k l (hcases hw'), h.logged, fun w' k l j hw' hj => h.busy w' k l j (hcases hw') hj,
    fun k j hj hk => ?_⟩
  by_cases hkn : k = n
  · subst hkn
    exact (List.append_nil _).symm.trans (h.busy w k [] j ht hj)
  · refine h.done k j hj fun ⟨w', l, hw'⟩ => hk ⟨w', l, ?_⟩
    have hw : w' ≠ w := fun e => by rw [e, ht] at hw'; cases hw'; exact hkn rfl
    exact (Function.update_of_ne hw ..).trans hw'

theorem step {q : Pool γ ι ο ω} (h : p.Accounts work) (hst : Step work p q) : q.Accounts work := by
  cases hst with
  | arrive i => exact ⟨h.alone, h.lt, h.logged, h.busy, h.done⟩
  | take w own hq ht => exact h.take w own ht
  | put w ht => exact h.put w ht
  | finish w ht => exact h.finish w ht

end Pool.Accounts

/-- **Any interleaving accounts for every output.** -/
theorem Reach.accounts {p q : Pool γ ι ο ω} (h : Reach work p q) (hp : p.Accounts work) : q.Accounts work := by
  induction h with
  | refl => exact hp
  | tail _ hst ih => exact ih.step hst

end SysInfo.WorkQueue
