import SysInfo.IoRates
/-!
# IoClock — rates under a clock that is set back

A rate divides an unsigned difference of bytes by a difference of two readings of `std::chrono::system_clock`, tested
only against zero: when the clock has gone back since the baseline and bytes were added, the rate is negative.
`ClockRun.sound_iff`: no other refresh returns a wrong sign or a zero without a reason.
-/
namespace SysInfo

open Effects ProcessInfo

/-- A run of refreshes of one metric each, of a pid that has no entry, under any clock. -/
structure ClockRun where
  pid     : Int32
  world   : World
  cycles  : List (Cycle pid)
  single  : ∀ c ∈ cycles, ∃ m, c.calls = .one m
  live    : ∀ c ∈ cycles, Live world c
  noEntry : world.static.mapPidOldstate pid = none
  grows   : cycles.Pairwise fun c d => ∀ m, c.bytes m ≤ d.bytes m

section Sign

variable {pid : Int32} (m : IoMetric) {j c : Cycle pid}

/-- A rate at the refresh `c` of a metric, taken since `j` or at the first refresh of the pid: it is not negative, and
zero only if no bytes were added or no time has passed since. -/
def SoundRate (c : Cycle pid) (v : Rat) : Option (Cycle pid) → Prop
  | none   => 0 ≤ v
  | some j => 0 ≤ v ∧ (v = 0 → j.bytes m = c.bytes m ∨ j.now = c.now)

/-- **The sign of a rate**: it is sound exactly when the clock has not gone back, or nothing was added. -/
theorem soundRate_rateSince_iff (h : j.bytes m ≤ c.bytes m) :
    SoundRate m c (rateSince m c.sample (some j.sample)) (some j) ↔ j.now ≤ c.now ∨ j.bytes m = c.bytes m := by
  rw [rateSince_of_le m h, SoundRate]
  have hbytes : (0 : Rat) ≤ (c.bytes m : Rat) - j.bytes m := sub_nonneg.2 (by exact_mod_cast h)
  rcases lt_trichotomy j.now c.now with hlt | heq | hgt
  · have htime : (0 : Rat) < ((c.now : Rat) - j.now) / 10 ^ 9 := by
      have : (0 : Rat) < (c.now : Rat) - j.now := by exact_mod_cast Int.sub_pos.2 hlt
      positivity
    rw [if_neg (Int.ne_of_gt hlt)]
    exact ⟨fun _ => .inl (Int.le_of_lt hlt),
      fun _ => ⟨div_nonneg hbytes (le_of_lt htime), fun hz => .inl ((exactRate_eq_zero_iff m hlt).1 hz)⟩⟩
  · rw [if_pos heq.symm]
    exact ⟨fun _ => .inl (Int.le_of_eq heq), fun _ => ⟨le_refl 0, fun _ => .inr heq⟩⟩
  · have htime : ((c.now : Rat) - j.now) / 10 ^ 9 < 0 := by
      have : (c.now : Rat) - j.now < 0 := by exact_mod_cast Int.sub_neg_of_lt hgt
      exact div_neg_of_neg_of_pos this (by positivity)
    rw [if_neg (Int.ne_of_lt hgt), or_iff_right (Int.not_le.2 hgt)]
    constructor
    · rintro ⟨hnonneg, -⟩
      by_contra hne
      have hadded : (0 : Rat) < (c.bytes m : Rat) - j.bytes m := sub_pos.2 (by exact_mod_cast Nat.lt_of_le_of_ne h hne)
      exact absurd hnonneg (not_le.2 (div_neg_of_pos_of_neg hadded htime))
    · intro heq
      rw [exactRate, heq, sub_self, zero_div]
      exact ⟨le_refl 0, fun _ => .inl rfl⟩

/-- The baseline after a run of refreshes is the sample of the last one. -/
theorem foldl_next : ∀ (cs : List (Cycle pid)) (base : Option IoStat), (∀ c ∈ cs, ∃ m, c.calls = .one m) →
    cs.foldl Cycle.next base = cs.getLast?.elim base fun j => some j.sample
  | [], _, _ => rfl
  | [c], base, h => by
    obtain ⟨m, hm⟩ := h c (by simp)
    rw [List.foldl_cons, List.foldl_nil, Cycle.next, hm, Calls.metrics_one, if_neg (List.cons_ne_nil m [])]
    rfl
  | c :: d :: cs, base, h => by
    rw [List.foldl_cons, foldl_next (d :: cs) _ fun e he => h e (List.mem_cons_of_mem c he), List.getLast?_cons_cons,
      List.getLast?_cons]
    rfl

end Sign

namespace ClockRun

/-- **Rates are never negative**: at every refresh of the run the call returns a sound rate. -/
def Sound (r : ClockRun) : Prop :=
  ∀ cs c ds m, r.cycles = cs ++ c :: ds → c.calls = .one m →
    ∃ v : Rat, (World.run (afterAll r.world cs) c.ops).2 =
        none :: c.calls.usages.map (fun u => some ⟨.usage u, .ok (u.combine fun _ => v)⟩) ∧
      SoundRate m c v cs.getLast?

/-- At every refresh the clock has not gone back since the one before, or nothing was added since. -/
def Forward (r : ClockRun) : Prop :=
  ∀ cs j c ds m, r.cycles = cs ++ j :: c :: ds → c.calls = .one m → j.now ≤ c.now ∨ j.bytes m = c.bytes m

variable {r : ClockRun} {cs ds : List (Cycle r.pid)} {c : Cycle r.pid} {m : IoMetric}

/-- **What a refresh of the run returns**: the rate since the refresh before it. -/
theorem answers (hsplit : r.cycles = cs ++ c :: ds) (hm : c.calls = .one m) :
    (World.run (afterAll r.world cs) c.ops).2 = none :: c.calls.usages.map fun u =>
      some ⟨.usage u, .ok (u.combine fun _ => rateSince m c.sample (cs.getLast?.map Cycle.sample))⟩ := by
  have hmem : ∀ d ∈ cs, d ∈ r.cycles := fun d hd => by rw [hsplit]; exact List.mem_append_left _ hd
  obtain ⟨hbase, hlive⟩ := base_afterAll cs r.world fun d hd => r.live d (hmem d hd)
  have hworld : r.world.base r.pid = none := by rw [World.base, r.noEntry]; rfl
  rw [Cycle.answers (hlive c (r.live c (by rw [hsplit]; simp))), hbase, hworld,
    foldl_next cs none fun d hd => r.single d (hmem d hd)]
  refine congrArg (none :: ·) (List.map_congr_left fun u hu => ?_)
  rw [Usage.combine_congr fun m' hm' => ?_]
  have hone : m' = m := by
    have hmetrics : m' ∈ c.calls.metrics := List.mem_flatMap.2 ⟨u, hu, hm'⟩
    rw [hm, Calls.metrics_one, List.mem_singleton] at hmetrics
    exact hmetrics
  rw [hone, Cycle.rate, hm, Calls.metrics_one, if_pos (by simp), if_neg (by simp), Option.getD_some]
  cases cs.getLast? <;> rfl

/-- The value of an answer is the rate. -/
theorem value_eq {v v' : Rat} (hm : c.calls = .one m)
    (h : (none : Answer) :: c.calls.usages.map (fun u => some ⟨.usage u, .ok (u.combine fun _ => v)⟩) =
      none :: c.calls.usages.map fun u => some ⟨.usage u, .ok (u.combine fun _ => v')⟩) : v = v' := by
  rw [hm] at h
  cases m <;> simpa [Calls.usages, Usage.combine] using h

theorem bytes_le {j : Cycle r.pid} (hsplit : r.cycles = cs ++ j :: c :: ds) : j.bytes m ≤ c.bytes m := by
  have hgrows := r.grows
  rw [hsplit] at hgrows
  exact (List.pairwise_cons.1 (List.pairwise_append.1 hgrows).2.1).1 c (by simp) m

theorem Sound.forward (h : r.Sound) : r.Forward := by
  intro cs j c ds m hsplit hm
  have hsplit' : r.cycles = (cs ++ [j]) ++ c :: ds := by rw [hsplit, List.append_assoc]; rfl
  obtain ⟨v, hv, hsound⟩ := h (cs ++ [j]) c ds m hsplit' hm
  have hvalue := value_eq hm (hv.symm.trans (answers hsplit' hm))
  rw [List.getLast?_append, List.getLast?_singleton, Option.some_or] at hvalue hsound
  rw [hvalue] at hsound
  exact (soundRate_rateSince_iff m (bytes_le hsplit)).1 hsound

theorem Forward.sound (h : r.Forward) : r.Sound := by
  intro cs c ds m hsplit hm
  refine ⟨_, answers hsplit hm, ?_⟩
  rcases List.eq_nil_or_concat cs with rfl | ⟨cs, j, rfl⟩
  · exact le_of_eq (rateSince_none m c.sample).symm
  · rw [List.concat_eq_append] at hsplit ⊢
    have hsplit' : r.cycles = cs ++ j :: c :: ds := by rw [hsplit, List.append_assoc]; rfl
    rw [List.getLast?_append, List.getLast?_singleton, Option.some_or]
    exact (soundRate_rateSince_iff m (bytes_le hsplit')).2 (h cs j c ds m hsplit' hm)

/-- **The rates of a run are sound exactly when the clock does not go back while bytes are added.** -/
theorem sound_iff (r : ClockRun) : r.Sound ↔ r.Forward := ⟨Sound.forward, Forward.sound⟩

/-- A byte is read between two refreshes, and the clock set back by a second. -/
def setBack : ClockRun where
  pid := 1
  world := ⟨fun _ => some (construct .zeroed 1), { Static.initial with nbCore := some 4 }⟩
  cycles := [⟨0, .one .read, Sys.small (.init 0 0) (.bytes 0 0) 0 (10 ^ 9), .bytes 0 0, rfl⟩,
    ⟨0, .one .read, Sys.small (.init 0 0) (.bytes 1 1) 0 0, .bytes 1 1, rfl⟩]
  single := by simp
  live c _ := ⟨_, rfl, Belongs.construct _ _⟩
  noEntry := rfl
  grows := by
    refine List.pairwise_pair.2 fun m => ?_
    cases m <;> decide

/-- The second refresh returns minus one byte a second. -/
theorem not_sound_setBack : ¬ setBack.Sound := fun h => by
  have hforward := h.forward [] _ _ [] .read rfl rfl
  exact absurd hforward (by decide)

end ClockRun

end SysInfo
