import SysInfo.Text
/-!
# Regex — backtracking matching with capture groups

A regular expression over any alphabet, run as a Perl-syntax engine runs it: a star tries the longest run first and
gives characters back until what follows matches.  `Re.exec` is that search in continuation style and `Re.fullMatch`
asks for the whole input (so a leading `^` and a trailing `$` say nothing and are left out).

The rules below replace the search by one split.  A run followed by something that cannot start inside the run is the
longest run (`fullMatch_plus`, under `Rejects`); a run whose longest split already succeeds is that split
(`fullMatch_plus_first`).
-/
namespace SysInfo

/-- Regular expressions with groups; the star is over a class of characters. -/
inductive Re (α : Type) where
  | eps
  | cls (p : α → Bool)
  | star (p : α → Bool)
  | seq (a b : Re α)
  | alt (a b : Re α)
  | grp (a : Re α)

namespace Re

variable {α β γ : Type}

/-- A continuation takes the groups captured, the word consumed and the input left. -/
abbrev Cont (α β : Type) := List (List α) → List α → List α → Option β

/-- The runs of a class at the head of the input, the longest one first. -/
def starExec (p : α → Bool) (k : List α → List α → Option β) : List α → Option β
  | [] => k [] []
  | c :: t => if p c then (starExec p (fun w u => k (c :: w) u) t).or (k [] (c :: t)) else k [] (c :: t)

def exec : Re α → Cont α β → List α → Option β
  | .eps, k, s => k [] [] s
  | .cls p, k, s => match s with
    | [] => none
    | c :: t => if p c then k [] [c] t else none
  | .star p, k, s => starExec p (fun w u => k [] w u) s
  | .seq a b, k, s => exec a (fun ca wa t => exec b (fun cb wb u => k (ca ++ cb) (wa ++ wb) u) t) s
  | .alt a b, k, s => (exec a k s).or (exec b k s)
  | .grp a, k, s => exec a (fun ca w t => k (w :: ca) w t) s

def accept : Cont α (List (List α)) := fun caps _ rest => if rest.isEmpty then some caps else none

/-- The groups of the first match of the whole input. -/
def fullMatch (r : Re α) (s : List α) : Option (List (List α)) := r.exec accept s

def plus (p : α → Bool) : Re α := .seq (.cls p) (.star p)

/-- Any character, any number of times. -/
def anyStar : Re α := .star (fun _ => true)

def cat : List (Re α) → Re α
  | [] => .eps
  | [r] => r
  | r :: rs => .seq r (cat rs)

/-! ## One step of the search -/

section Step

variable (p : α → Bool) (a b : Re α) (k : Cont α β) (s : List α)

theorem starExec_cons (k : List α → List α → Option β) (c : α) (t : List α) : starExec p k (c :: t) =
    if p c then (starExec p (fun w u => k (c :: w) u) t).or (k [] (c :: t)) else k [] (c :: t) := rfl

theorem exec_cls_cons (c : α) (t : List α) : (cls p).exec k (c :: t) = if p c then k [] [c] t else none := rfl

theorem exec_star : (star p).exec k s = starExec p (fun w u => k [] w u) s := rfl

theorem exec_seq : (seq a b).exec k s =
    a.exec (fun ca wa t => b.exec (fun cb wb u => k (ca ++ cb) (wa ++ wb) u) t) s := rfl

theorem exec_alt : (alt a b).exec k s = (a.exec k s).or (b.exec k s) := rfl

theorem exec_grp : (grp a).exec k s = a.exec (fun ca w t => k (w :: ca) w t) s := rfl

theorem fullMatch_eq (r : Re α) : r.fullMatch s = r.exec accept s := rfl

end Step

/-! ## The star as one split -/

/-- **When what follows rejects every character of the class, only the longest run is left.** -/
theorem starExec_of_reject (p : α → Bool) : ∀ (s : List α) (k : List α → List α → Option β),
    (∀ w c t, p c = true → k w (c :: t) = none) → starExec p k s = k (s.takeWhile p) (s.dropWhile p)
  | [], _, _ => rfl
  | c :: t, k, hk => by
    rw [starExec_cons]
    by_cases hc : p c = true
    · rw [if_pos hc, hk [] c t hc, Option.or_none, List.takeWhile_cons_of_pos hc, List.dropWhile_cons_of_pos hc]
      exact starExec_of_reject p t _ (fun w d u hd => hk (c :: w) d u hd)
    · rw [if_neg hc, List.takeWhile_cons_of_neg hc, List.dropWhile_cons_of_neg hc]

/-- **When the longest run succeeds, it is the first one tried.** -/
theorem starExec_of_isSome (p : α → Bool) : ∀ (s : List α) (k : List α → List α → Option β),
    (k (s.takeWhile p) (s.dropWhile p)).isSome = true → starExec p k s = k (s.takeWhile p) (s.dropWhile p)
  | [], _, _ => rfl
  | c :: t, k, hk => by
    rw [starExec_cons]
    by_cases hc : p c = true
    · rw [List.takeWhile_cons_of_pos hc, List.dropWhile_cons_of_pos hc] at hk ⊢
      rw [if_pos hc, starExec_of_isSome p t (fun w u => k (c :: w) u) hk]
      obtain ⟨b, hb⟩ := Option.isSome_iff_exists.1 hk
      rw [hb]; rfl
    · rw [if_neg hc, List.takeWhile_cons_of_neg hc, List.dropWhile_cons_of_neg hc]

theorem starExec_of_none (p : α → Bool) : ∀ (t : List α) (k : List α → List α → Option β),
    (∀ v u, v ++ u = t → k v u = none) → starExec p k t = none
  | [], _, h => h [] [] rfl
  | c :: t, k, h => by
    have hrest : starExec p (fun v u => k (c :: v) u) t = none :=
      starExec_of_none p t _ fun v u hvu => h (c :: v) u (congrArg (c :: ·) hvu)
    rw [starExec_cons, hrest, h [] (c :: t) rfl]
    exact ite_self none

/-- **The last split at which what follows succeeds** is the one found: every longer run fails. -/
theorem starExec_append {p : α → Bool} {t : List α} {b : β} : ∀ {w : List α} {k : List α → List α → Option β},
    (∀ c ∈ w, p c = true) → k w t = some b → (∀ v u, v ++ u = t → v ≠ [] → k (w ++ v) u = none) →
      starExec p k (w ++ t) = some b
  | [], k, _, hk, hlong => by
    cases t with
    | nil => exact hk
    | cons c t =>
      have hrest : starExec p (fun v u => k (c :: v) u) t = none :=
        starExec_of_none p t _ fun v u hvu => hlong (c :: v) u (congrArg (c :: ·) hvu) (List.cons_ne_nil c v)
      rw [List.nil_append, starExec_cons, hrest, hk]
      exact ite_self _
  | c :: w, k, hw, hk, hlong => by
    have hrest : starExec p (fun v u => k (c :: v) u) (w ++ t) = some b :=
      starExec_append (fun d hd => hw d (by simp [hd])) hk fun v u hvu hv => hlong v u hvu hv
    rw [List.cons_append, starExec_cons, if_pos (hw c (by simp)), hrest]
    rfl

theorem starExec_map (f : β → γ) (p : α → Bool) : ∀ (s : List α) (k : List α → List α → Option β),
    starExec p (fun w u => (k w u).map f) s = (starExec p k s).map f
  | [], _ => rfl
  | c :: t, k => by
    rw [starExec_cons, starExec_cons]
    split
    · rw [starExec_map f p t (fun w u => k (c :: w) u)]
      cases starExec p (fun w u => k (c :: w) u) t <;> rfl
    · rfl

theorem exec_map (f : β → γ) : ∀ (r : Re α) (k : Cont α β) (s : List α),
    r.exec (fun c w u => (k c w u).map f) s = (r.exec k s).map f
  | .eps, _, _ => rfl
  | .cls p, k, [] => rfl
  | .cls p, k, c :: t => by rw [exec_cls_cons, exec_cls_cons]; split <;> rfl
  | .star p, k, s => starExec_map f p s _
  | .seq a b, k, s => by
    rw [exec_seq, exec_seq]
    rw [← exec_map f a]
    congr 1; funext ca wa t
    exact exec_map f b _ t
  | .alt a b, k, s => by
    rw [exec_alt, exec_alt, exec_map f a k s, exec_map f b k s]
    cases a.exec k s <;> rfl
  | .grp a, k, s => exec_map f a _ s

/-! ## Full matches, piece by piece -/

theorem exec_accept (r : Re α) (pre : List (List α)) (w₀ s : List α) :
    r.exec (fun cb wb u => accept (pre ++ cb) (w₀ ++ wb) u) s = (r.fullMatch s).map (pre ++ ·) := by
  unfold fullMatch
  rw [← exec_map]
  congr 1; funext cb wb u
  unfold accept
  split <;> rfl

theorem exec_accept_nil (r : Re α) (w₀ s : List α) :
    r.exec (fun cb wb u => accept cb (w₀ ++ wb) u) s = r.fullMatch s := by
  simpa using exec_accept r [] w₀ s

/-- An expression that no word starting with a character of the class can match. -/
def Rejects (r : Re α) (p : α → Bool) : Prop :=
  ∀ (k : Cont α (List (List α))) (c : α) (t : List α), p c = true → r.exec k (c :: t) = none

theorem rejects_cls {p q : α → Bool} (h : ∀ c, p c = true → q c = false) : Rejects (.cls q) p := by
  intro k c t hc
  simp [exec, h c hc]

theorem Rejects.seq {a : Re α} {p : α → Bool} (h : Rejects a p) (b : Re α) : Rejects (.seq a b) p :=
  fun _ c t hc => h _ c t hc

theorem Rejects.grp {a : Re α} {p : α → Bool} (h : Rejects a p) : Rejects (.grp a) p :=
  fun _ c t hc => h _ c t hc

theorem rejects_plus {p q : α → Bool} (h : ∀ c, p c = true → q c = false) : Rejects (plus q) p :=
  Rejects.seq (rejects_cls h) _

@[simp] theorem fullMatch_cls_seq (p : α → Bool) (r : Re α) (c : α) (t : List α) :
    (seq (.cls p) r).fullMatch (c :: t) = if p c then r.fullMatch t else none := by
  simp only [fullMatch_eq, exec_seq, exec_cls_cons, List.nil_append]
  split
  · exact exec_accept_nil r [c] t
  · rfl

@[simp] theorem fullMatch_grp_cls_seq (p : α → Bool) (r : Re α) (c : α) (t : List α) :
    (seq (.grp (.cls p)) r).fullMatch (c :: t) = if p c then (r.fullMatch t).map ([c] :: ·) else none := by
  simp only [fullMatch_eq, exec_seq, exec_grp, exec_cls_cons]
  split
  · exact exec_accept r [[c]] [c] t
  · rfl

theorem exec_plus (p : α → Bool) (k : Cont α β) (s : List α) (hk : ∀ w c t, p c = true → k [] w (c :: t) = none) :
    (plus p).exec k s = if s.takeWhile p = [] then none else k [] (s.takeWhile p) (s.dropWhile p) := by
  cases s with
  | nil => rfl
  | cons c t =>
    simp only [plus, exec_seq, exec_cls_cons, exec_star]
    by_cases hc : p c = true
    · rw [if_pos hc, List.takeWhile_cons_of_pos hc, List.dropWhile_cons_of_pos hc, if_neg (by simp)]
      exact starExec_of_reject p t _ (fun w d u hd => hk _ d u hd)
    · rw [if_neg hc, List.takeWhile_cons_of_neg hc, if_pos rfl]

theorem exec_plus_of_isSome (p : α → Bool) (k : Cont α β) (s : List α) (hs : s.takeWhile p ≠ [])
    (hk : (k [] (s.takeWhile p) (s.dropWhile p)).isSome = true) :
    (plus p).exec k s = k [] (s.takeWhile p) (s.dropWhile p) := by
  cases s with
  | nil => exact absurd rfl hs
  | cons c t =>
    have hc : p c = true := by
      by_contra hc
      exact hs (List.takeWhile_cons_of_neg hc)
    rw [List.takeWhile_cons_of_pos hc, List.dropWhile_cons_of_pos hc] at hk ⊢
    simp only [plus, exec_seq, exec_cls_cons, exec_star, if_pos hc]
    exact starExec_of_isSome p t _ hk

/-- **A run before something that rejects it** is the whole run. -/
theorem fullMatch_plus {p : α → Bool} {r : Re α} (hr : Rejects r p) (s : List α) :
    (seq (plus p) r).fullMatch s = if s.takeWhile p = [] then none else r.fullMatch (s.dropWhile p) := by
  simp only [fullMatch_eq, exec_seq]
  rw [exec_plus p _ s (fun w c t hc => hr _ c t hc)]
  simp only [List.nil_append, exec_accept_nil]
  rfl

theorem fullMatch_grp_plus {p : α → Bool} {r : Re α} (hr : Rejects r p) (s : List α) :
    (seq (.grp (plus p)) r).fullMatch s =
      if s.takeWhile p = [] then none else (r.fullMatch (s.dropWhile p)).map (s.takeWhile p :: ·) := by
  simp only [fullMatch_eq, exec_seq, exec_grp]
  rw [exec_plus p _ s (fun w c t hc => hr _ c t hc)]
  rw [exec_accept r [s.takeWhile p] (s.takeWhile p) (s.dropWhile p)]
  rfl

/-- **A run whose longest split succeeds** is that split. -/
theorem fullMatch_plus_first {p : α → Bool} {r : Re α} {s : List α} (hs : s.takeWhile p ≠ [])
    (hr : (r.fullMatch (s.dropWhile p)).isSome = true) :
    (seq (plus p) r).fullMatch s = r.fullMatch (s.dropWhile p) := by
  simp only [fullMatch_eq, exec_seq]
  rw [exec_plus_of_isSome p _ s hs] <;> simp only [List.nil_append, exec_accept_nil]
  · rfl
  · exact hr

theorem fullMatch_grp_plus_first {p : α → Bool} {r : Re α} {s : List α} (hs : s.takeWhile p ≠ [])
    (hr : (r.fullMatch (s.dropWhile p)).isSome = true) :
    (seq (.grp (plus p)) r).fullMatch s = (r.fullMatch (s.dropWhile p)).map (s.takeWhile p :: ·) := by
  have h := exec_accept r [s.takeWhile p] (s.takeWhile p) (s.dropWhile p)
  simp only [fullMatch_eq, exec_seq, exec_grp]
  rw [exec_plus_of_isSome p _ s hs]
  · exact h
  · rw [h]
    simpa using hr

theorem fullMatch_plus_none {p : α → Bool} (r : Re α) {s : List α} (hs : s.takeWhile p = []) :
    (seq (plus p) r).fullMatch s = none := by
  cases s with
  | nil => rfl
  | cons c t =>
    have hc : ¬ p c = true := fun hc => by rw [List.takeWhile_cons_of_pos hc] at hs; cases hs
    show (if p c then _ else none) = none
    exact if_neg hc

@[simp] theorem fullMatch_anyStar (s : List α) : (anyStar : Re α).fullMatch s = some [] := by
  have ht : s.takeWhile (fun _ => true) = s := takeWhile_all (fun _ _ => rfl)
  have hd : s.dropWhile (fun _ => true) = [] := List.dropWhile_eq_nil_iff.2 (fun _ _ => rfl)
  show starExec _ _ s = _
  rw [starExec_of_isSome] <;> rw [hd] <;> rfl

@[simp] theorem fullMatch_grp_anyStar (s : List α) : (grp anyStar : Re α).fullMatch s = some [s] := by
  have ht : s.takeWhile (fun _ => true) = s := takeWhile_all (fun _ _ => rfl)
  have hd : s.dropWhile (fun _ => true) = [] := List.dropWhile_eq_nil_iff.2 (fun _ _ => rfl)
  show starExec _ _ s = _
  rw [starExec_of_isSome] <;> rw [hd, ht] <;> rfl

/-- **A run before something that matches no shorter rest** ends where the longest rest that matches starts. -/
theorem fullMatch_grp_star_last {p : α → Bool} {r : Re α} {w t : List α} {caps : List (List α)} (hw : ∀ c ∈ w, p c = true)
    (ht : r.fullMatch t = some caps) (hlong : ∀ u, u <:+ t → u ≠ t → r.fullMatch u = none) :
    (seq (.grp (.star p)) r).fullMatch (w ++ t) = some (w :: caps) := by
  simp only [fullMatch_eq, exec_seq, exec_grp, exec_star]
  refine starExec_append hw ?_ fun v u hvu hv => ?_
  · rw [exec_accept r [w] w t, ht]
    rfl
  · rw [exec_accept r [w ++ v] (w ++ v) u, hlong u ⟨v, hvu⟩ fun hu => hv ?_]
    · rfl
    · rw [hu] at hvu
      exact List.append_left_eq_self.1 hvu

theorem fullMatch_grp_alt_seq (a b r : Re α) (s : List α) :
    (seq (.grp (.alt a b)) r).fullMatch s = ((seq (.grp a) r).fullMatch s).or ((seq (.grp b) r).fullMatch s) := rfl

/-! ## On an input already split into a word and the rest -/

theorem fullMatch_plus_word {p : α → Bool} {r : Re α} (hr : Rejects r p) {w t : List α} (hne : w ≠ [])
    (hw : ∀ c ∈ w, p c = true) (ht : ∀ c ∈ t.head?, p c = false) :
    (seq (plus p) r).fullMatch (w ++ t) = r.fullMatch t := by
  rw [fullMatch_plus hr, takeWhile_append_stop hw ht, dropWhile_append_stop hw ht, if_neg hne]

theorem fullMatch_grp_plus_word {p : α → Bool} {r : Re α} (hr : Rejects r p) {w t : List α} (hne : w ≠ [])
    (hw : ∀ c ∈ w, p c = true) (ht : ∀ c ∈ t.head?, p c = false) :
    (seq (.grp (plus p)) r).fullMatch (w ++ t) = (r.fullMatch t).map (w :: ·) := by
  rw [fullMatch_grp_plus hr, takeWhile_append_stop hw ht, dropWhile_append_stop hw ht, if_neg hne]

theorem fullMatch_grp_plus_word_first {p : α → Bool} {r : Re α} {w t : List α} (hne : w ≠ []) (hw : ∀ c ∈ w, p c = true)
    (ht : ∀ c ∈ t.head?, p c = false) (hr : (r.fullMatch t).isSome = true) :
    (seq (.grp (plus p)) r).fullMatch (w ++ t) = (r.fullMatch t).map (w :: ·) := by
  have htake := takeWhile_append_stop hw ht
  have hdrop := dropWhile_append_stop hw ht
  rw [fullMatch_grp_plus_first (by rwa [htake]) (by rwa [hdrop]), htake, hdrop]

theorem fullMatch_grp_plus_none {p : α → Bool} (r : Re α) {s : List α} (hs : ∀ c ∈ s.head?, p c = false) :
    (seq (.grp (plus p)) r).fullMatch s = none := by
  cases s with
  | nil => rfl
  | cons c t =>
    show (if p c then _ else none) = none
    exact if_neg (by simpa using hs c rfl)

/-! ## On any input -/

theorem Rejects.head {r : Re α} {p : α → Bool} (h : Rejects r p) {t : List α} {caps : List (List α)}
    (ht : r.fullMatch t = some caps) : ∀ c ∈ t.head?, p c = false := by
  intro c hc
  cases t with
  | nil => cases hc
  | cons d t =>
    cases hc
    by_contra hp
    have hnone : r.fullMatch (c :: t) = none := h accept c t (by simpa using hp)
    rw [hnone] at ht
    cases ht

/-- A run of the class that is not empty. -/
def IsRun (p : α → Bool) (w : List α) : Prop := w ≠ [] ∧ ∀ c ∈ w, p c = true

theorem isRun_takeWhile {p : α → Bool} {s : List α} (h : s.takeWhile p ≠ []) : IsRun p (s.takeWhile p) :=
  ⟨h, fun _ hc => List.mem_takeWhile_imp hc⟩

theorem fullMatch_plus_iff {p : α → Bool} {r : Re α} (hr : Rejects r p) {s : List α} {caps : List (List α)} :
    (seq (plus p) r).fullMatch s = some caps ↔ ∃ w t, s = w ++ t ∧ IsRun p w ∧ r.fullMatch t = some caps := by
  constructor
  · intro h
    rw [fullMatch_plus hr] at h
    split at h
    · cases h
    · next hne => exact ⟨_, _, List.takeWhile_append_dropWhile.symm, isRun_takeWhile hne, h⟩
  · rintro ⟨w, t, rfl, ⟨hne, hw⟩, ht⟩
    rw [fullMatch_plus_word hr hne hw (hr.head ht), ht]

/-- **A captured run before something that rejects it** is one way to split the input. -/
theorem fullMatch_grp_plus_iff {p : α → Bool} {r : Re α} (hr : Rejects r p) {s : List α} {caps : List (List α)} :
    (seq (.grp (plus p)) r).fullMatch s = some caps ↔
      ∃ w t caps', s = w ++ t ∧ caps = w :: caps' ∧ IsRun p w ∧ r.fullMatch t = some caps' := by
  constructor
  · intro h
    rw [fullMatch_grp_plus hr] at h
    split at h
    · cases h
    · next hne =>
      obtain ⟨caps', ht, rfl⟩ := Option.map_eq_some_iff.1 h
      exact ⟨_, _, caps', List.takeWhile_append_dropWhile.symm, rfl, isRun_takeWhile hne, ht⟩
  · rintro ⟨w, t, caps', rfl, rfl, ⟨hne, hw⟩, ht⟩
    rw [fullMatch_grp_plus_word hr hne hw (hr.head ht), ht]
    rfl

theorem head_of_takeWhile_nil {p : α → Bool} {s : List α} (h : s.takeWhile p = []) : ∀ c ∈ s.head?, p c = false := by
  intro c hc
  cases s with
  | nil => cases hc
  | cons d t =>
    cases hc
    by_contra hp
    rw [List.takeWhile_cons_of_pos (by simpa using hp)] at h
    cases h

theorem head_dropWhile {p : α → Bool} {s : List α} : ∀ c ∈ (s.dropWhile p).head?, p c = false := by
  intro c hc
  have hstop := List.head?_dropWhile_not p s
  rw [hc] at hstop
  simpa using hstop

/-- **A captured run before anything** is the longest one. -/
theorem fullMatch_grp_plus_anyStar_iff {p : α → Bool} {s : List α} {caps : List (List α)} :
    (seq (.grp (plus p)) anyStar).fullMatch s = some caps ↔
      ∃ w t, s = w ++ t ∧ caps = [w] ∧ IsRun p w ∧ ∀ c ∈ t.head?, p c = false := by
  constructor
  · intro h
    by_cases hne : s.takeWhile p = []
    · rw [fullMatch_grp_plus_none anyStar (head_of_takeWhile_nil hne)] at h
      cases h
    · rw [fullMatch_grp_plus_first hne (by simp), fullMatch_anyStar] at h
      exact ⟨_, _, List.takeWhile_append_dropWhile.symm, (Option.some.inj h).symm, isRun_takeWhile hne, head_dropWhile⟩
  · rintro ⟨w, t, rfl, rfl, ⟨hne, hw⟩, ht⟩
    rw [fullMatch_grp_plus_word_first hne hw ht (by simp), fullMatch_anyStar]
    rfl

theorem fullMatch_star_iff {q : α → Bool} {s : List α} {caps : List (List α)} :
    (star q).fullMatch s = some caps ↔ caps = [] ∧ ∀ c ∈ s, q c = true := by
  have hsplit : (star q).fullMatch s = accept [] (s.takeWhile q) (s.dropWhile q) :=
    starExec_of_reject q s _ fun w c t _ => rfl
  rw [hsplit, ← List.dropWhile_eq_nil_iff]
  cases s.dropWhile q with
  | nil => exact ⟨fun h => ⟨(Option.some.inj h).symm, rfl⟩, fun ⟨h, _⟩ => by rw [h]; rfl⟩
  | cons c t => exact ⟨fun h => (by cases h), fun ⟨_, h⟩ => (by cases h)⟩

/-- **A captured run before a run of another class** that ends the input. -/
theorem fullMatch_grp_plus_star_iff {p q : α → Bool} (hpq : ∀ c, p c = true → q c = false) {s : List α}
    {caps : List (List α)} : (seq (.grp (plus p)) (star q)).fullMatch s = some caps ↔
      ∃ w t, s = w ++ t ∧ caps = [w] ∧ IsRun p w ∧ ∀ c ∈ t, q c = true := by
  have hstop : ∀ {t : List α}, (∀ c ∈ t, q c = true) → ∀ c ∈ t.head?, p c = false := fun ht c hc => by
    by_contra hp
    have hq := ht c (List.mem_of_mem_head? hc)
    rw [hpq c (by simpa using hp)] at hq
    cases hq
  have hsplit : (seq (.grp (plus p)) (star q)).fullMatch s =
      if s.takeWhile p = [] then none else ((star q).fullMatch (s.dropWhile p)).map (s.takeWhile p :: ·) := by
    simp only [fullMatch_eq, exec_seq, exec_grp]
    rw [exec_plus p _ s fun w c t hc => ?_]
    · rw [exec_accept (star q) [s.takeWhile p] (s.takeWhile p) (s.dropWhile p)]
      rfl
    · rw [exec_accept (star q) [w] w (c :: t), Option.map_eq_none_iff, Option.eq_none_iff_forall_ne_some]
      intro caps' h
      have hq := (fullMatch_star_iff.1 h).2 c List.mem_cons_self
      rw [hpq c hc] at hq
      cases hq
  constructor
  · intro h
    rw [hsplit] at h
    split at h
    · cases h
    · next hne =>
      obtain ⟨caps', ht, rfl⟩ := Option.map_eq_some_iff.1 h
      obtain ⟨rfl, hrest⟩ := fullMatch_star_iff.1 ht
      exact ⟨_, _, List.takeWhile_append_dropWhile.symm, rfl, isRun_takeWhile hne, hrest⟩
  · rintro ⟨w, t, rfl, rfl, ⟨hne, hw⟩, ht⟩
    have hmatch : (star q).fullMatch t = some [] := fullMatch_star_iff.2 ⟨rfl, ht⟩
    rw [fullMatch_grp_plus_word_first hne hw (hstop ht) (by rw [hmatch]; rfl), hmatch]
    rfl

theorem fullMatch_grp_cls_iff {p : α → Bool} {r : Re α} {s : List α} {caps : List (List α)} :
    (seq (.grp (.cls p)) r).fullMatch s = some caps ↔
      ∃ c t caps', s = c :: t ∧ caps = [c] :: caps' ∧ p c = true ∧ r.fullMatch t = some caps' := by
  cases s with
  | nil => exact ⟨fun h => (by cases h), fun ⟨c, t, _, h, _⟩ => by cases h⟩
  | cons c t =>
    rw [fullMatch_grp_cls_seq]
    constructor
    · intro h
      split at h
      · next hc =>
        obtain ⟨caps', ht, rfl⟩ := Option.map_eq_some_iff.1 h
        exact ⟨c, t, caps', rfl, rfl, hc, ht⟩
      · cases h
    · rintro ⟨_, _, caps', ⟨rfl, rfl⟩, rfl, hc, ht⟩
      rw [if_pos hc, ht]
      rfl

/-- **A run before a captured rest** is the longest one. -/
theorem fullMatch_plus_grp_anyStar_iff {p : α → Bool} {s : List α} {caps : List (List α)} :
    (seq (plus p) (.grp anyStar)).fullMatch s = some caps ↔
      ∃ w t, s = w ++ t ∧ caps = [t] ∧ IsRun p w ∧ ∀ c ∈ t.head?, p c = false := by
  constructor
  · intro h
    by_cases hne : s.takeWhile p = []
    · rw [fullMatch_plus_none _ hne] at h
      cases h
    · rw [fullMatch_plus_first hne (by simp), fullMatch_grp_anyStar] at h
      exact ⟨_, _, List.takeWhile_append_dropWhile.symm, (Option.some.inj h).symm, isRun_takeWhile hne, head_dropWhile⟩
  · rintro ⟨w, t, rfl, rfl, ⟨hne, hw⟩, ht⟩
    have htake := takeWhile_append_stop hw ht
    have hdrop := dropWhile_append_stop hw ht
    rw [fullMatch_plus_first (by rwa [htake]) (by simp), hdrop, fullMatch_grp_anyStar]

/-- Among the rests of an input, the last one of a kind. -/
theorem exists_last_suffix (P : List α → Prop) : ∀ {s : List α}, (∃ u, u <:+ s ∧ P u) →
    ∃ t, t <:+ s ∧ P t ∧ ∀ u, u <:+ t → u ≠ t → ¬ P u
  | [], ⟨u, hu, hP⟩ => by
    obtain rfl := List.suffix_nil.1 hu
    exact ⟨[], List.suffix_rfl, hP, fun u hu hne => absurd (List.suffix_nil.1 hu) hne⟩
  | c :: s, ⟨u, hu, hP⟩ => by
    by_cases hrest : ∃ u, u <:+ s ∧ P u
    · obtain ⟨t, ht, hPt, hlast⟩ := exists_last_suffix P hrest
      exact ⟨t, ht.trans (List.suffix_cons c s), hPt, hlast⟩
    · rcases List.suffix_cons_iff.1 hu with rfl | hu
      · refine ⟨c :: s, List.suffix_rfl, hP, fun v hv hne hPv => ?_⟩
        exact hrest ⟨v, (List.suffix_cons_iff.1 hv).resolve_left hne, hPv⟩
      · exact absurd ⟨u, hu, hP⟩ hrest

/-- **A captured text before something** ends where the last rest that matches starts. -/
theorem fullMatch_grp_anyStar_seq_iff {r : Re α} {s : List α} {caps : List (List α)} :
    (seq (.grp anyStar) r).fullMatch s = some caps ↔
      ∃ w t caps', s = w ++ t ∧ caps = w :: caps' ∧ r.fullMatch t = some caps' ∧
        ∀ u, u <:+ t → u ≠ t → r.fullMatch u = none := by
  constructor
  · intro h
    by_cases hany : ∃ u, u <:+ s ∧ r.fullMatch u ≠ none
    · obtain ⟨t, ⟨w, rfl⟩, ht, hlast⟩ := exists_last_suffix (fun u => r.fullMatch u ≠ none) hany
      obtain ⟨caps', hcaps⟩ := Option.ne_none_iff_exists'.1 ht
      replace hlast : ∀ u, u <:+ t → u ≠ t → r.fullMatch u = none := fun u hu hne => not_not.1 (hlast u hu hne)
      have hmatch := fullMatch_grp_star_last (p := fun _ => true) (w := w) (fun _ _ => rfl) hcaps hlast
      exact ⟨w, t, caps', rfl, Option.some.inj (h.symm.trans hmatch), hcaps, hlast⟩
    · have hnone : (seq (.grp anyStar) r).fullMatch s = none := by
        simp only [fullMatch_eq, exec_seq, exec_grp, anyStar, exec_star]
        refine starExec_of_none _ s _ fun v u hvu => ?_
        have hu : r.fullMatch u = none := by
          by_contra hu
          exact hany ⟨u, ⟨v, hvu⟩, hu⟩
        rw [exec_accept r [v] v u, hu]
        rfl
      rw [hnone] at h
      cases h
  · rintro ⟨w, t, caps', rfl, rfl, ht, hlast⟩
    exact fullMatch_grp_star_last (fun _ _ => rfl) ht hlast

/-! ## Over characters -/

def chr (c : Char) : Re Char := .cls (· == c)

/-- A word, to be matched as it is. -/
def lit : List Char → Re Char
  | []     => .eps
  | c :: w => .seq (chr c) (lit w)

/-- `[[:digit:]]+`, `[[:xdigit:]]+`, `\s`. -/
def digits : Re Char := plus Char.isDigit
def xdigits : Re Char := plus isXdigit
def blank : Re Char := .cls isSpace

theorem rejects_chr {p : Char → Bool} {d : Char} (h : p d = false) : Rejects (chr d) p :=
  rejects_cls (fun c hc => by
    have : c ≠ d := by rintro rfl; rw [h] at hc; cases hc
    simpa using this)

theorem rejects_blank_isXdigit : Rejects blank isXdigit := rejects_cls (fun _ => isSpace_of_isXdigit)

theorem rejects_blank_isDigit : Rejects blank Char.isDigit := rejects_cls (fun _ => isSpace_of_isDigit)

theorem rejects_digits_isSpace : Rejects (grp digits) isSpace := (rejects_plus fun _ => isDigit_of_isSpace).grp

@[simp] theorem fullMatch_chr_seq (d : Char) (r : Re Char) (c : Char) (t : List Char) :
    (seq (chr d) r).fullMatch (c :: t) = if c = d then r.fullMatch t else none := by
  simp [chr]

@[simp] theorem fullMatch_blank_seq (r : Re Char) (c : Char) (t : List Char) :
    (seq blank r).fullMatch (c :: t) = if isSpace c then r.fullMatch t else none := fullMatch_cls_seq ..

theorem fullMatch_chr_iff {d : Char} {r : Re Char} {s : List Char} {caps : List (List Char)} :
    (seq (chr d) r).fullMatch s = some caps ↔ ∃ t, s = d :: t ∧ r.fullMatch t = some caps := by
  cases s with
  | nil => exact ⟨fun h => (by cases h), fun ⟨t, h, _⟩ => by cases h⟩
  | cons c t =>
    rw [fullMatch_chr_seq]
    split
    · next h => simp [h]
    · next h => simp [h]

theorem fullMatch_blank_iff {r : Re Char} {s : List Char} {caps : List (List Char)} :
    (seq blank r).fullMatch s = some caps ↔ ∃ c t, s = c :: t ∧ isSpace c = true ∧ r.fullMatch t = some caps := by
  cases s with
  | nil => exact ⟨fun h => (by cases h), fun ⟨c, t, h, _⟩ => by cases h⟩
  | cons c t =>
    rw [fullMatch_blank_seq]
    split
    · next h => simp [h]
    · next h => simp [h]

theorem exec_lit : ∀ (w : List Char) (k : Cont Char β) (s : List Char),
    (lit w).exec k s = if w <+: s then k [] w (s.drop w.length) else none
  | [], k, s => (if_pos List.nil_prefix).symm
  | c :: w, k, [] => (if_neg (by simp)).symm
  | c :: w, k, d :: s => by
    rw [show lit (c :: w) = seq (chr c) (lit w) from rfl, exec_seq, chr, exec_cls_cons]
    by_cases h : d = c
    · subst h
      rw [if_pos (by simp), exec_lit w _ s]
      simp [List.cons_prefix_cons]
    · rw [if_neg (by simpa using h), if_neg fun hp => h (List.cons_prefix_cons.1 hp).1.symm]

theorem fullMatch_grp_lit_seq (w : List Char) (r : Re Char) (s : List Char) : (seq (.grp (lit w)) r).fullMatch s =
    if w <+: s then (r.fullMatch (s.drop w.length)).map (w :: ·) else none := by
  simp only [fullMatch_eq, exec_seq, exec_grp, exec_lit]
  split
  · exact exec_accept r [w] w _
  · rfl

end Re

end SysInfo
