import SysInfo.ProcConnector
import SysInfo.Text
/-!
# ProcEvents — what the callbacks of a connector are given

`processEvent` looks at the result of `recv` only to see whether it is `-1`, and hands `nlcn_msg.proc_ev` to every
subscriber.  `nlcn_msg` is a local that nothing initialises: past the end of the datagram it holds what the stack held.

`made` is what one run of `processEvent` calls and `due` what it should; the loop does what its body does until `recv`
fails (`run_listenBlock`), so the sequences of calls agree at every point of a run exactly when each run of the body does.
-/
namespace SysInfo
namespace ProcConnector

open Effects

variable {κ : Type} {m : NlcnMsg} (sys : NetSys)

/-- `recv` fails, other than by being interrupted, and the loop ends. -/
def Frame.fatal (f : Frame m) : Bool :=
  match f.recv with
  | .datagram _ _ => false
  | .failed e     => e ≠ EINTR

/-- The frame has a datagram that contains the whole `proc_event`, or none. -/
def Frame.whole (f : Frame m) : Bool :=
  match f.recv with
  | .datagram bytes _ => m.offset + m.procEv ≤ bytes.length
  | .failed _         => true

/-- The calls of callbacks that `processEvent` makes. -/
def made (subs : List κ) (f : Frame m) : List (κ × List UInt8) :=
  match f.recv with
  | .datagram bytes _ => subs.map fun c => (c, m.event (bytes ++ f.stack.drop bytes.length))
  | .failed _         => []

/-- The calls it should make: for a datagram that contains the whole `proc_event` and for nothing else, one to each
subscriber in the order of registration, with the bytes of that datagram. -/
def due (subs : List κ) (f : Frame m) : List (κ × List UInt8) :=
  match f.recv with
  | .datagram bytes _ => if m.offset + m.procEv ≤ bytes.length then subs.map fun c => (c, m.event bytes) else []
  | .failed _         => []

/-- Callbacks are registered and the connector listens, for as long as `fs`. -/
def heard (s : Conn κ) (subs : List κ) (fs : List (Frame m)) : Conn κ :=
  state ((subs.forM addCallback >>= fun _ => listen sys true fs).run s)

/-- **Events are delivered as received**: at every point of the run the calls made so far are those due so far. -/
def Delivers (s : Conn κ) (subs : List κ) (fs : List (Frame m)) : Prop :=
  ∀ seen, seen <+: fs → (heard sys s subs seen).host.invoked =
    s.host.invoked ++ (seen.takeWhile (!·.fatal)).flatMap (due (s.obj.mSubscribers ++ subs))

theorem event_append {bytes : List UInt8} (junk : List UInt8) (h : m.offset + m.procEv ≤ bytes.length) :
    m.event (bytes ++ junk) = m.event bytes := by
  have hoff : m.offset ≤ bytes.length := by omega
  have hrest : m.procEv ≤ (bytes.drop m.offset).length := by rw [List.length_drop]; omega
  rw [NlcnMsg.event, List.drop_append_of_le_length hoff, List.take_append_of_le_length hrest]
  rfl

/-- **One run of the body**: it makes the calls due exactly when there is nobody to call or the datagram is whole. -/
theorem made_eq_due_iff (subs : List κ) (f : Frame m) : made subs f = due subs f ↔ subs = [] ∨ f.whole = true := by
  unfold made due Frame.whole
  cases f.recv with
  | failed e => simp
  | datagram bytes fits =>
    by_cases h : m.offset + m.procEv ≤ bytes.length
    · simp [h, event_append]
    · simp [h]

/-! ## The loop -/

theorem run_callbacks (ev : List UInt8) : ∀ (subs : List κ) (s : Conn κ),
    (subs.forM fun c => (modify fun s => { s with host.invoked := s.host.invoked ++ [(c, ev)] } : Code κ Unit)).run s =
      .ok () { s with host.invoked := s.host.invoked ++ subs.map fun c => (c, ev) }
  | [], s => by simp
  | c :: subs, s => by
    refine (run_callbacks ev subs { s with host.invoked := s.host.invoked ++ [(c, ev)] }).trans ?_
    simp

theorem run_addCallbacks : ∀ (subs : List κ) (s : Conn κ), (subs.forM addCallback).run s =
    .ok () { s with obj.mSubscribers := s.obj.mSubscribers ++ subs }
  | [], s => by simp
  | c :: subs, s => by
    refine (run_addCallbacks subs { s with obj.mSubscribers := s.obj.mSubscribers ++ [c] }).trans ?_
    simp

/-- The step: `processEvent` ends the loop, or makes its calls and keeps the subscribers. -/
theorem run_processEvent (f : Frame m) (s : Conn κ) :
    (f.fatal = true ∧ ∃ e t, (processEvent sys f).run s = .error e t ∧ t.host.invoked = s.host.invoked) ∨
    (f.fatal = false ∧ ∃ t, (processEvent sys f).run s = .ok () t ∧ t.obj = s.obj ∧
      t.host.invoked = s.host.invoked ++ made s.obj.mSubscribers f) := by
  unfold Frame.fatal processEvent made
  cases f.recv with
  | failed e =>
    by_cases he : e = EINTR
    · exact .inr ⟨by simp [he], { s with host.errno := e }, by simp [he], rfl, (List.append_nil _).symm⟩
    · exact .inl ⟨by simp [he], sys.strerror e, { s with host.errno := e }, by simp [he, throwErrno], rfl⟩
  | datagram bytes fits =>
    exact .inr ⟨rfl, _, run_callbacks (m.event (bytes ++ f.stack.drop bytes.length)) s.obj.mSubscribers s, rfl, rfl⟩

/-- **The run**: the loop makes the calls of its body, until it throws. -/
theorem run_listenBlock : ∀ (fs : List (Frame m)) (s : Conn κ),
    (state ((listenBlock sys fs).run s)).host.invoked =
      s.host.invoked ++ (fs.takeWhile (!·.fatal)).flatMap (made s.obj.mSubscribers)
  | [], s => (List.append_nil _).symm
  | f :: fs, s => by
    rw [listenBlock, run_forM_cons, EStateM.run_bind]
    rcases run_processEvent sys f s with ⟨hf, e, t, ht, hsame⟩ | ⟨hf, t, ht, hobj, hmade⟩
    · rw [ht, List.takeWhile_cons_of_neg (by simp [hf])]
      exact hsame.trans (List.append_nil _).symm
    · rw [ht, List.takeWhile_cons_of_pos (by simp [hf]), List.flatMap_cons, ← List.append_assoc, ← hmade, ← hobj]
      exact run_listenBlock fs t

theorem invoked_heard (s : Conn κ) (subs : List κ) (fs : List (Frame m)) : (heard sys s subs fs).host.invoked =
    s.host.invoked ++ (fs.takeWhile (!·.fatal)).flatMap (made (s.obj.mSubscribers ++ subs)) := by
  rw [heard, EStateM.run_bind, run_addCallbacks]
  exact run_listenBlock sys fs _

/-! ## The calls made and the calls due -/

theorem takeWhile_prefix_takeWhile {α : Type*} (p : α → Bool) {l l' : List α} (h : l <+: l') :
    l.takeWhile p <+: l'.takeWhile p := by
  obtain ⟨post, rfl⟩ := h
  rw [List.takeWhile_append]
  split
  · exact (List.takeWhile_prefix p).trans (List.prefix_append _ _)
  · exact List.prefix_rfl

/-- Two sequences of events agree at every point of a run exactly when each of its elements gives the same events. -/
theorem forall_prefix_flatMap_eq_iff {α β : Type*} {f g : α → List β} {l : List α} :
    (∀ seen, seen <+: l → seen.flatMap f = seen.flatMap g) ↔ ∀ a ∈ l, f a = g a := by
  constructor
  · intro h a ha
    obtain ⟨pre, post, rfl⟩ := List.append_of_mem ha
    have hpre := h pre (List.prefix_append pre (a :: post))
    have hnext := h (pre ++ [a]) ⟨post, by simp⟩
    rw [List.flatMap_append, List.flatMap_append, hpre] at hnext
    simpa using hnext
  · intro h seen hseen
    exact List.flatMap_congr fun a ha => h a (hseen.subset ha)

/-- **Events are delivered as received** exactly when there is nobody to call, or every datagram received before `recv`
fails contains the whole `proc_event`. -/
theorem delivers_iff (s : Conn κ) (subs : List κ) (fs : List (Frame m)) : Delivers sys s subs fs ↔
    s.obj.mSubscribers ++ subs = [] ∨ ∀ f ∈ fs.takeWhile (!·.fatal), f.whole = true := by
  have hpoints : Delivers sys s subs fs ↔ ∀ seen, seen <+: fs.takeWhile (!·.fatal) →
      seen.flatMap (made (s.obj.mSubscribers ++ subs)) = seen.flatMap (due (s.obj.mSubscribers ++ subs)) := by
    unfold Delivers
    simp only [invoked_heard, List.append_cancel_left_eq]
    constructor
    · intro h seen hseen
      have hall : seen.takeWhile (!·.fatal) = seen :=
        takeWhile_all fun f hf => List.mem_takeWhile_imp (p := fun f : Frame m => !f.fatal) (hseen.subset hf)
      have hsame := h seen (hseen.trans (List.takeWhile_prefix _))
      rwa [hall] at hsame
    · intro h seen hseen
      exact h _ (takeWhile_prefix_takeWhile _ hseen)
  rw [hpoints, forall_prefix_flatMap_eq_iff]
  simp only [made_eq_due_iff]
  constructor
  · intro h
    by_cases hsubs : s.obj.mSubscribers ++ subs = []
    · exact .inl hsubs
    · exact .inr fun f hf => (h f hf).resolve_left hsubs
  · rintro (hsubs | hwhole) f hf
    · exact .inl hsubs
    · exact .inr (hwhole f hf)

/-- The failing input: a whole datagram, then an empty one that is received over what the first left on the stack. -/
def staleFrames : List (Frame ⟨16, 20, 40, 0⟩) :=
  [⟨List.replicate 76 0, rfl, .datagram (List.replicate 76 7) (by decide)⟩,
   ⟨List.replicate 76 7, rfl, .datagram [] (by decide)⟩]

/-- The empty datagram repeats the event before it. -/
theorem not_delivers_stale :
    ¬ Delivers (granting ⟨40, 0⟩) (⟨⟨3, none, []⟩, {}⟩ : Conn Unit) [()] staleFrames := by
  intro h
  exact absurd (h staleFrames List.prefix_rfl) (by decide)

end ProcConnector
end SysInfo
