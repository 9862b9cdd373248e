import SysInfo.Sockets
/-!
# TcpAddress — the addresses of `getSocketTCP`

`/proc/net/tcp` prints the word that the four bytes of an address make on a little-endian host; the code reverses it
with `htonl` and lets `inet_ntoa` print its bytes in memory order.  `tcpDecoded_iff`: that is the address when it reads
the same in both directions.
-/
namespace SysInfo

open IStream

/-- The bytes of an address, in the order of the network and of the memory. -/
structure Ipv4 where
  a : UInt8
  b : UInt8
  c : UInt8
  d : UInt8
deriving Repr, DecidableEq

namespace Ipv4

/-- `a.b.c.d` -/
def text (x : Ipv4) : List Char :=
  decimal x.a.toNat ++ '.' :: decimal x.b.toNat ++ '.' :: decimal x.c.toNat ++ '.' :: decimal x.d.toNat

/-- The four bytes, loaded from memory on a little-endian host. -/
def word (x : Ipv4) : UInt32 :=
  x.a.toUInt32 ||| (x.b.toUInt32 <<< 8) ||| (x.c.toUInt32 <<< 16) ||| (x.d.toUInt32 <<< 24)

def reverse (x : Ipv4) : Ipv4 := ⟨x.d, x.c, x.b, x.a⟩

def Symmetric (x : Ipv4) : Prop := x.a = x.d ∧ x.b = x.c

theorem toNat_or_shiftLeft (lo : UInt32) (n : UInt8) {k : Nat} (hk : k + 8 ≤ 32) (hlo : lo.toNat < 2 ^ k) :
    (lo ||| n.toUInt32 <<< (UInt32.ofNat k)).toNat = lo.toNat + 2 ^ k * n.toNat := by
  have hlt : n.toNat * 2 ^ k < 2 ^ 32 := by
    calc n.toNat * 2 ^ k < 2 ^ 8 * 2 ^ k := Nat.mul_lt_mul_of_pos_right n.toNat_lt (Nat.two_pow_pos k)
      _ = 2 ^ (k + 8) := by rw [← Nat.pow_add, Nat.add_comm]
      _ ≤ 2 ^ 32 := Nat.pow_le_pow_right (by decide) hk
  have hsh : (n.toUInt32 <<< UInt32.ofNat k).toNat = n.toNat <<< k := by
    simp only [UInt32.toNat_shiftLeft, UInt8.toNat_toUInt32, UInt32.toNat_ofNat']
    rw [Nat.mod_eq_of_lt (a := k) (by omega), Nat.mod_eq_of_lt (a := k) (by omega), Nat.shiftLeft_eq,
      Nat.mod_eq_of_lt hlt]
  rw [UInt32.toNat_or, hsh, Nat.or_comm, ← Nat.shiftLeft_add_eq_or_of_lt hlo, Nat.shiftLeft_eq, Nat.add_comm,
    Nat.mul_comm]

/-- **The word as a number**, its digits in base 256 the bytes. -/
theorem toNat_word (x : Ipv4) :
    x.word.toNat = x.a.toNat + 2 ^ 8 * x.b.toNat + 2 ^ 16 * x.c.toNat + 2 ^ 24 * x.d.toNat := by
  have ha := x.a.toNat_lt
  have hb := x.b.toNat_lt
  have hc := x.c.toNat_lt
  have h₁ := toNat_or_shiftLeft x.a.toUInt32 x.b (k := 8) (by decide) (by simpa using ha)
  rw [UInt8.toNat_toUInt32] at h₁
  have h₂ := toNat_or_shiftLeft _ x.c (k := 16) (by decide) (by rw [h₁]; omega)
  rw [h₁] at h₂
  have h₃ := toNat_or_shiftLeft _ x.d (k := 24) (by decide) (by rw [h₂]; omega)
  rw [h₂] at h₃
  exact h₃

theorem and_ff (n : Nat) : n &&& 0xff = n % 2 ^ 8 := Nat.and_two_pow_sub_one_eq_mod n 8

theorem and_ff00 (n : Nat) : n &&& 0xff00 = n / 2 ^ 8 % 2 ^ 8 * 2 ^ 8 := by
  rw [← and_ff, ← Nat.shiftRight_eq_div_pow, ← Nat.shiftLeft_eq, show 0xff00 = 0xff <<< 8 from rfl]
  apply Nat.eq_of_testBit_eq
  intro i
  simp only [Nat.testBit_and, Nat.testBit_shiftLeft, Nat.testBit_shiftRight]
  by_cases hi : 8 ≤ i <;> simp [hi]

theorem htonl_word (x : Ipv4) : htonl x.word = x.reverse.word := by
  have hx := x.toNat_word
  have ha := x.a.toNat_lt
  have hb := x.b.toNat_lt
  have hc := x.c.toNat_lt
  have hd := x.d.toNat_lt
  have h₀ : x.word <<< 24 = x.a.toUInt32 <<< 24 := by
    apply UInt32.toNat_inj.1
    simp only [UInt32.toNat_shiftLeft, UInt8.toNat_toUInt32, UInt32.reduceToNat, Nat.reduceMod, Nat.shiftLeft_eq, hx]
    omega
  have h₁ : (x.word &&& (0xff00 : UInt32)) <<< 8 = x.b.toUInt32 <<< 16 := by
    apply UInt32.toNat_inj.1
    simp only [UInt32.toNat_shiftLeft, UInt32.toNat_and, UInt8.toNat_toUInt32, UInt32.reduceToNat, Nat.reduceMod,
      Nat.shiftLeft_eq, and_ff00, hx]
    omega
  have h₂ : (x.word >>> 8) &&& (0xff00 : UInt32) = x.c.toUInt32 <<< 8 := by
    apply UInt32.toNat_inj.1
    simp only [UInt32.toNat_and, UInt32.toNat_shiftRight, UInt32.toNat_shiftLeft, UInt8.toNat_toUInt32,
      UInt32.reduceToNat, Nat.reduceMod, Nat.shiftRight_eq_div_pow, Nat.shiftLeft_eq, and_ff00, hx]
    omega
  have h₃ : x.word >>> 24 = x.d.toUInt32 := by
    apply UInt32.toNat_inj.1
    simp only [UInt32.toNat_shiftRight, UInt8.toNat_toUInt32, UInt32.reduceToNat, Nat.reduceMod,
      Nat.shiftRight_eq_div_pow, hx]
    omega
  rw [htonl, h₀, h₁, h₂, h₃, word, reverse]
  simp only [UInt32.or_comm, UInt32.or_assoc]

theorem toNat_byte (w k : UInt32) (hk : k.toNat < 32) :
    ((w >>> k) &&& (0xff : UInt32)).toNat = w.toNat / 2 ^ k.toNat % 2 ^ 8 := by
  rw [UInt32.toNat_and, UInt32.toNat_shiftRight, Nat.mod_eq_of_lt hk, Nat.shiftRight_eq_div_pow]
  exact and_ff _

/-- **`inet_ntoa` prints the bytes in memory order.** -/
theorem inetNtoa_word (x : Ipv4) : inetNtoa x.word = x.text := by
  have hx := x.toNat_word
  have ha := x.a.toNat_lt
  have hb := x.b.toNat_lt
  have hc := x.c.toNat_lt
  have hd := x.d.toNat_lt
  have h₀ : x.word.toNat / 2 ^ (0 : UInt32).toNat % 2 ^ 8 = x.a.toNat := by
    simp only [hx, UInt32.reduceToNat]; omega
  have h₁ : x.word.toNat / 2 ^ (8 : UInt32).toNat % 2 ^ 8 = x.b.toNat := by
    simp only [hx, UInt32.reduceToNat]; omega
  have h₂ : x.word.toNat / 2 ^ (16 : UInt32).toNat % 2 ^ 8 = x.c.toNat := by
    simp only [hx, UInt32.reduceToNat]; omega
  have h₃ : x.word.toNat / 2 ^ (24 : UInt32).toNat % 2 ^ 8 = x.d.toNat := by
    simp only [hx, UInt32.reduceToNat]; omega
  simp only [inetNtoa]
  rw [toNat_byte _ _ (by decide), toNat_byte _ _ (by decide), toNat_byte _ _ (by decide), toNat_byte _ _ (by decide),
    h₀, h₁, h₂, h₃, text]

theorem decimal_dot_inj {n m : Nat} {s t : List Char} (h : decimal n ++ '.' :: s = decimal m ++ '.' :: t) :
    n = m ∧ s = t := by
  have hdig : ∀ k, ∀ c ∈ decimal k, c.isDigit = true := fun k c hc => isDigit_of_mem_decimal hc
  have hstop : ∀ u : List Char, ∀ c ∈ ('.' :: u).head?, c.isDigit = false := fun u c hc => by cases hc; decide
  have htake := congrArg (List.takeWhile Char.isDigit) h
  have hdrop := congrArg (List.dropWhile Char.isDigit) h
  rw [takeWhile_append_stop (hdig n) (hstop s), takeWhile_append_stop (hdig m) (hstop t)] at htake
  rw [dropWhile_append_stop (hdig n) (hstop s), dropWhile_append_stop (hdig m) (hstop t)] at hdrop
  refine ⟨?_, (List.cons.inj hdrop).2⟩
  rw [← readDigits_decimal n, htake, readDigits_decimal]

theorem text_injective {x y : Ipv4} (h : x.text = y.text) : x = y := by
  obtain ⟨a, b, c, d⟩ := x
  obtain ⟨a', b', c', d'⟩ := y
  simp only [text, List.append_assoc, List.cons_append] at h
  obtain ⟨ha, h⟩ := decimal_dot_inj h
  obtain ⟨hb, h⟩ := decimal_dot_inj h
  obtain ⟨hc, h⟩ := decimal_dot_inj h
  have hd : d.toNat = d'.toNat := by rw [← readDigits_decimal d.toNat, h, readDigits_decimal]
  rw [UInt8.toNat_inj.1 ha, UInt8.toNat_inj.1 hb, UInt8.toNat_inj.1 hc, UInt8.toNat_inj.1 hd]

theorem inetNtoa_htonl_eq_text_iff (x : Ipv4) : inetNtoa (htonl x.word) = x.text ↔ x.Symmetric := by
  rw [htonl_word, inetNtoa_word]
  constructor
  · intro h
    have hx := text_injective h
    exact ⟨(congrArg Ipv4.a hx).symm, (congrArg Ipv4.b hx).symm⟩
  · rintro ⟨had, hbc⟩
    rw [reverse, text, text, had, hbc]

end Ipv4

/-- A socket, and the columns the code does not read. -/
structure TcpBound where
  localAddress : Ipv4
  localPort    : UInt16
  remAddress   : Ipv4
  remPort      : UInt16
  columns      : List Char
  oneLine      : '\n' ∉ columns

namespace TcpBound

def entry (s : TcpBound) : TcpEntry :=
  ⟨s.localAddress.word, s.localPort, s.remAddress.word, s.remPort, s.columns, s.oneLine⟩

structure Decoded (s : TcpBound) (rec : TcpSocket) : Prop where
  localAddress : rec.localAddress = s.localAddress.text
  localPort    : rec.localPort = s.localPort.toNat
  remAddress   : rec.remAddress = s.remAddress.text
  remPort      : rec.remPort = s.remPort.toNat

theorem decoded_record_iff (s : TcpBound) (slot : Nat) :
    s.Decoded (s.entry.record slot) ↔ s.localAddress.Symmetric ∧ s.remAddress.Symmetric := by
  rw [← Ipv4.inetNtoa_htonl_eq_text_iff, ← Ipv4.inetNtoa_htonl_eq_text_iff]
  exact ⟨fun h => ⟨h.localAddress, h.remAddress⟩, fun ⟨hl, hr⟩ => ⟨hl, rfl, hr, rfl⟩⟩

end TcpBound

/-- Every record returned is that of its socket. -/
def TcpDecoded (socks : List TcpBound) : Prop :=
  ∀ pad, ∃ recs, getSocketTCP (some (tcpFile pad (socks.map TcpBound.entry))) = .ok recs ∧
    ∀ (i : Nat) (s : TcpBound) (rec : TcpSocket), socks[i]? = some s → recs[i]? = some rec → s.Decoded rec

/-- **The addresses are decoded exactly when** those of the accepted lines, the first thousand, are symmetric. -/
theorem tcpDecoded_iff (socks : List TcpBound) :
    TcpDecoded socks ↔ ∀ s ∈ socks.take 1000, s.localAddress.Symmetric ∧ s.remAddress.Symmetric := by
  -- the record of a socket among the first thousand
  have hrec : ∀ (i : Nat) (s : TcpBound), (socks.take 1000)[i]? = some s →
      ((((socks.map TcpBound.entry).take 1000).zipIdx).map (fun p => p.1.record p.2))[i]? = some (s.entry.record i) := by
    intro i s hs
    rw [List.getElem?_map, List.getElem?_zipIdx, ← List.map_take, List.getElem?_map, hs]
    simp
  constructor
  · intro h s hs
    obtain ⟨recs, hrun, hall⟩ := h 0
    rw [getSocketTCP_eq] at hrun
    cases hrun
    obtain ⟨i, hi⟩ := List.mem_iff_getElem?.1 hs
    have hsock : socks[i]? = some s := by
      rw [List.getElem?_take] at hi
      split at hi
      · exact hi
      · cases hi
    exact (s.decoded_record_iff i).1 (hall i s _ hsock (hrec i s hi))
  · intro h pad
    refine ⟨_, getSocketTCP_eq pad _, fun i s rec hs hr => ?_⟩
    have hi : i < 1000 := by
      have hlt := (List.getElem?_eq_some_iff.1 hr).1
      simp only [List.length_map, List.length_zipIdx, List.length_take] at hlt
      omega
    have htake : (socks.take 1000)[i]? = some s := by rw [List.getElem?_take, if_pos hi, hs]
    rw [hrec i s htake] at hr
    cases hr
    exact (s.decoded_record_iff i).2 (h s (List.mem_iff_getElem?.2 ⟨i, htake⟩))

/-- A socket of 127.0.0.1: the record says 1.0.0.127. -/
theorem not_tcpDecoded_loopback : ¬ TcpDecoded [⟨⟨127, 0, 0, 1⟩, 22, ⟨0, 0, 0, 0⟩, 0, [], by simp⟩] := by
  intro h
  obtain ⟨recs, hrun, hall⟩ := h 0
  rw [getSocketTCP_eq] at hrun
  cases hrun
  exact absurd (hall 0 _ _ rfl rfl).localAddress (by decide)

end SysInfo
