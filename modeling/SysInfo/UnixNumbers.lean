import Mathlib.Data.List.Forall2
import SysInfo.Sockets
/-!
# UnixNumbers — the bases of `/proc/net/unix`

The kernel prints the columns before the inode in base 16, and `getSocketUNIX` converts only the first of them so: the
other four go through `std::stoi` in base 10, and an inode from `2 ^ 31` on ends the listing.  The numbers of the accepted
rows come back exactly when those four are below 10 and the inode fits an `int` (`getSocketUNIX_decodes_iff`).
-/
namespace SysInfo

open IStream Re

namespace UnixRow

/-- The record holds the numbers that the row's digits denote. -/
def Decoded (s : UnixRow) (rec : UnixSocket) : Prop :=
  rec.refCount = s.refCount ∧ rec.protocol = s.protocol ∧ rec.flags = s.flags ∧ rec.type = s.type ∧
    rec.state = s.state ∧ rec.inode % 2 ^ 32 = s.inode % 2 ^ 32

/-- The numbers that look the same in base 10 and base 16, and an inode that is an `int`. -/
def Plain (s : UnixRow) : Prop :=
  s.protocol < 10 ∧ s.flags < 10 ∧ s.type < 10 ∧ s.state < 10 ∧ s.inode < 2 ^ 31

instance (s : UnixRow) : Decidable s.Plain := inferInstanceAs (Decidable (_ ∧ _ ∧ _ ∧ _ ∧ _))

/-- **Hexadecimal digits read in base 10** denote the same number only when it has one digit. -/
theorem readDigits_hexPad_eq_iff {w n : Nat} (hd : ∀ c ∈ hexPad w n, c.isDigit = true) :
    readDigits 10 (hexPad w n) = n ↔ n < 10 := by
  constructor
  · intro h
    have hten := (readDigits_takeWhile_isDigit (s := hexPad w n) fun _ => isXdigit_of_mem_hexPad).2
    rw [takeWhile_all hd, readDigits_hexPad] at hten
    exact (hten h).1
  · intro hlt
    obtain ⟨ds, d, hds⟩ : ∃ ds d, hexPad w n = ds ++ [d] :=
      ⟨_, _, (List.dropLast_concat_getLast (hexPad_ne_nil w n)).symm⟩
    have h16 := readDigits_hexPad w n
    rw [hds] at hd h16 ⊢
    have hle := (readDigits_takeWhile_isDigit (s := ds) fun c hc => isXdigit_of_isDigit (hd c (by simp [hc]))).1
    rw [takeWhile_all fun c hc => hd c (by simp [hc])] at hle
    rw [readDigits_append] at h16 ⊢
    omega

theorem decoded_record_iff {s : UnixRow} (h : s.Accepted) :
    s.Decoded s.record ↔ s.protocol < 10 ∧ s.flags < 10 ∧ s.type < 10 ∧ s.state < 10 := by
  have hc := h.2.2
  simp only [columns, List.mem_cons, List.not_mem_nil, or_false, forall_eq_or_imp, forall_eq] at hc
  obtain ⟨-, h2, h3, h4, h5⟩ := hc
  simp only [Decoded, record, Nat.cast_inj, readDigits_hexPad_eq_iff h2, readDigits_hexPad_eq_iff h3,
    readDigits_hexPad_eq_iff h4, readDigits_hexPad_eq_iff h5]
  constructor
  · rintro ⟨-, hp, hf, ht, hs, -⟩
    exact ⟨hp, hf, ht, hs⟩
  · rintro ⟨hp, hf, ht, hs⟩
    exact ⟨trivial, hp, hf, ht, hs, trivial⟩

end UnixRow

/-! ## The table -/

/-- A loop that returns has thrown at no line. -/
theorem ok_of_pushLoop {β : Type} {f : List Char → Except Exn (Option β)} : ∀ {ls : List (List Char)} {acc rs : List β},
    pushLoop f acc ls = .ok rs → ∀ l ∈ ls, ∃ r, f l = .ok r
  | [], _, _, _, l, hl => absurd hl List.not_mem_nil
  | m :: ls, acc, rs, h, l, hl => by
    unfold pushLoop at h
    cases hm : f m with
    | error e => rw [hm] at h; cases h
    | ok r =>
      rcases List.mem_cons.1 hl with rfl | hl
      · exact ⟨r, hm⟩
      · cases r with
        | none => rw [hm] at h; exact ok_of_pushLoop h l hl
        | some rec => rw [hm] at h; exact ok_of_pushLoop h l hl

/-- The inode of every accepted row fits an `int` when the listing returns. -/
theorem inode_lt_of_getSocketUNIX {rows : List UnixRow} {recs : List UnixSocket}
    (h : getSocketUNIX (some (unixTable rows)) = .ok recs) : ∀ s ∈ rows, s.Accepted → s.inode < 2 ^ 31 := by
  intro s hs hacc
  unfold getSocketUNIX at h
  rw [openFile, getlines_ofText, splitLines_unixTable] at h
  obtain ⟨r, hr⟩ := ok_of_pushLoop h s.line (List.mem_cons_of_mem _ (List.mem_map_of_mem hs))
  rw [s.unixLine_line, if_pos hacc] at hr
  by_contra hi
  rw [if_neg hi] at hr
  cases hr

/-- **`getSocketUNIX` decodes the table**: it does not throw, and the records hold the numbers of the accepted rows. -/
def DecodesUnix (rows : List UnixRow) : Prop :=
  ∃ recs, getSocketUNIX (some (unixTable rows)) = .ok recs ∧
    List.Forall₂ UnixRow.Decoded (rows.filter (fun s => decide s.Accepted)) recs

theorem DecodesUnix.plain {rows : List UnixRow} (h : DecodesUnix rows) : ∀ s ∈ rows, s.Accepted → s.Plain := by
  intro s hs hacc
  obtain ⟨recs, hr, hdec⟩ := h
  have hinode := inode_lt_of_getSocketUNIX hr
  rw [getSocketUNIX_table hinode] at hr
  cases hr
  rw [List.forall₂_map_right_iff, List.forall₂_same] at hdec
  have hrow := (UnixRow.decoded_record_iff hacc).1 (hdec s (List.mem_filter.2 ⟨hs, by simpa using hacc⟩))
  exact ⟨hrow.1, hrow.2.1, hrow.2.2.1, hrow.2.2.2, hinode s hs hacc⟩

/-- **`getSocketUNIX` decodes the table exactly when every accepted row is plain.** -/
theorem getSocketUNIX_decodes_iff (rows : List UnixRow) : DecodesUnix rows ↔ ∀ s ∈ rows, s.Accepted → s.Plain := by
  constructor
  · exact DecodesUnix.plain
  · intro h
    refine ⟨_, getSocketUNIX_table fun s hs hacc => (h s hs hacc).2.2.2.2, ?_⟩
    rw [List.forall₂_map_right_iff, List.forall₂_same]
    intro s hs
    obtain ⟨hs, hacc⟩ := List.mem_filter.1 hs
    obtain ⟨hp, hf, ht, hst, -⟩ := h s hs (of_decide_eq_true hacc)
    exact (UnixRow.decoded_record_iff (of_decide_eq_true hacc)).2 ⟨hp, hf, ht, hst⟩

/-- A listening socket: the flag `0x10000` is read as ten thousand. -/
def listeningRow : UnixRow where
  address := "ffff9a3b41d2c000".toList
  refCount := 2
  protocol := 0
  flags := 0x10000
  type := 1
  state := 1
  inode := 29692
  width := 5
  path := some "@/tmp/.ICE-unix/3006".toList
  addressHex := ⟨by decide, List.all_eq_true.1 (by decide : "ffff9a3b41d2c000".toList.all isXdigit = true)⟩
  refCountLt := by decide
  protocolLt := by decide
  flagsLt := by decide
  typeLt := by decide
  stateLt := by decide
  inodeLt := by decide
  oneLine := by decide

theorem not_decodes_listening : ¬ DecodesUnix [listeningRow] := fun h => by
  have hplain := h.plain listeningRow (by simp) (by decide)
  exact absurd hplain.2.1 (by decide)

end SysInfo
