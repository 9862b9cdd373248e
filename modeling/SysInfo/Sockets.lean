import SysInfo.Regex
import SysInfo.Stream
/-!
# Sockets — `getSocketTCP` and `getSocketUNIX`

Both read a `/proc/net` table line by line and keep the lines their regular expression accepts; a line it does not
accept is dropped without a word.  So each table is complete exactly when every line of it is accepted:
`getSocketTCP_complete_iff` (the blank before the slot number) and `getSocketUNIX_complete_iff` (a path, five digits of
inode, decimal columns).
-/
namespace SysInfo

open IStream

/-- `while (getline(...)) { ... push_back(...) }`: `f` throws, skips the line, or pushes a record. -/
def pushLoop {β : Type} (f : List Char → Except Exn (Option β)) (acc : List β) : List (List Char) → Except Exn (List β)
  | [] => .ok acc
  | l :: ls =>
    match f l with
    | .error e       => .error e
    | .ok none       => pushLoop f acc ls
    | .ok (some rec) => pushLoop f (acc ++ [rec]) ls

theorem pushLoop_cons_none {β : Type} {f : List Char → Except Exn (Option β)} {l : List Char} (h : f l = .ok none)
    (acc : List β) (ls : List (List Char)) : pushLoop f acc (l :: ls) = pushLoop f acc ls := by
  rw [pushLoop, h]

/-- **A table whose every row is taken or dropped**: the loop keeps the records of the rows taken, in order. -/
theorem pushLoop_map {α β : Type} {f : List Char → Except Exn (Option β)} {line : α → List Char} {g : α → Option β} :
    ∀ (rows : List α) (acc : List β), (∀ a ∈ rows, f (line a) = .ok (g a)) →
      pushLoop f acc (rows.map line) = .ok (acc ++ rows.filterMap g)
  | [], acc, _ => by simp [pushLoop]
  | a :: rows, acc, h => by
    have ha := h a (by simp)
    have ih := fun acc => pushLoop_map rows acc (fun b hb => h b (by simp [hb]))
    rw [List.map_cons]
    unfold pushLoop
    rw [ha]
    cases hg : g a with
    | none => simp only [ih, List.filterMap_cons, hg]
    | some rec => simp only [ih, List.filterMap_cons, hg, List.append_assoc, List.singleton_append]

theorem filterMap_ite {α β : Type} (P : α → Prop) [DecidablePred P] (f : α → β) (l : List α) :
    l.filterMap (fun a => if P a then some (f a) else none) = (l.filter fun a => decide (P a)).map f := by
  rw [← List.filterMap_eq_map, List.filterMap_filter]
  simp only [decide_eq_true_eq, Function.comp_apply]

/-! ## Addresses -/

/-- `htonl` on a little-endian host. -/
def htonl (x : UInt32) : UInt32 :=
  (x <<< 24) ||| ((x &&& (0xff00 : UInt32)) <<< 8) ||| ((x >>> 8) &&& (0xff00 : UInt32)) ||| (x >>> 24)

/-- `inet_ntoa`: the four bytes of `s_addr` in memory order, on a little-endian host. -/
def inetNtoa (a : UInt32) : List Char :=
  let byte (k : UInt32) := decimal ((a >>> k) &&& (0xff : UInt32)).toNat
  byte 0 ++ '.' :: byte 8 ++ '.' :: byte 16 ++ '.' :: byte 24

/-! ## `getSocketTCP` -/

/-- `tcp_socket_t`, with the members the code fills. -/
structure TcpSocket where
  num          : Int
  localAddress : List Char
  localPort    : Int
  remAddress   : List Char
  remPort      : Int
deriving Repr, DecidableEq

open Re

/-- `^\s+([[:digit:]]+):\s([[:xdigit:]]+):([[:xdigit:]]+)\s([[:xdigit:]]+):([[:xdigit:]]+).*$` -/
def regexTcp : Re Char :=
  cat [plus isSpace, grp digits, chr ':', blank, grp xdigits, chr ':', grp xdigits, blank, grp xdigits, chr ':',
    grp xdigits, anyStar]

/-- One line of `/proc/net/tcp`. -/
def tcpLine (line : List Char) : Except Exn (Option TcpSocket) :=
  match regexTcp.fullMatch line with
  | some [m1, m2, m3, m4, m5] => do
    let num ← stoi 10 m1
    let localAddr ← stol 16 m2
    let localPort ← stoi 16 m3
    let remAddr ← stol 16 m4
    let remPort ← stoi 16 m5
    return some {
      num := num
      localAddress := inetNtoa (htonl (UInt32.ofInt localAddr))
      localPort := localPort
      remAddress := inetNtoa (htonl (UInt32.ofInt remAddr))
      remPort := remPort }
  | _ => return none

/-- `getSocketTCP`, given the contents of `/proc/net/tcp`. -/
def getSocketTCP (file : Option (List Char)) : Except Exn (List TcpSocket) :=
  pushLoop tcpLine [] (getlines '\n' (openFile file))

/-! ### The kernel's table -/

/-- A TCP socket as `/proc/net/tcp` shows it: the address words as they are printed, and the columns after them. -/
structure TcpEntry where
  localAddress : UInt32
  localPort    : UInt16
  remAddress   : UInt32
  remPort      : UInt16
  columns      : List Char
  oneLine      : '\n' ∉ columns

def tcpHeader : List Char :=
  "  sl  local_address rem_address   st tx_queue rx_queue tr tm->when retrnsmt   uid  timeout inode".toList

def TcpEntry.show (s : TcpEntry) : List Char :=
  hexPad 8 s.localAddress.toNat ++ (':' :: (hexPad 4 s.localPort.toNat ++ (' ' :: (hexPad 8 s.remAddress.toNat ++
    (':' :: (hexPad 4 s.remPort.toNat ++ (' ' :: s.columns)))))))

/-- `%4d: ` and the columns. -/
def TcpEntry.line (slot : Nat) (s : TcpEntry) : List Char :=
  (decimal slot).leftpad 4 ' ' ++ (':' :: ' ' :: s.show)

def tcpLines : Nat → List TcpEntry → List (List Char)
  | _, []      => []
  | i, s :: ss => s.line i :: tcpLines (i + 1) ss

def tcpFile (pad : Nat) (socks : List TcpEntry) : List Char :=
  unlines '\n' ((tcpHeader ++ List.replicate pad ' ') :: tcpLines 0 socks)

def TcpEntry.record (slot : Nat) (s : TcpEntry) : TcpSocket where
  num := slot
  localAddress := inetNtoa (htonl s.localAddress)
  localPort := s.localPort.toNat
  remAddress := inetNtoa (htonl s.remAddress)
  remPort := s.remPort.toNat

theorem newline_notMem_padded (w n : Nat) : '\n' ∉ (decimal n).leftpad w ' ' := fun h => by
  rcases mem_leftpad h with h | h
  · exact absurd h (by decide)
  · exact newline_notMem_decimal n h

theorem TcpEntry.newline_notMem_line (s : TcpEntry) (slot : Nat) : '\n' ∉ s.line slot := by
  simp only [line, TcpEntry.show, List.mem_append, List.mem_cons, not_or]
  refine ⟨newline_notMem_padded _ _, by decide, by decide, newline_notMem_hexPad _ _, by decide,
    newline_notMem_hexPad _ _, by decide, newline_notMem_hexPad _ _, by decide, newline_notMem_hexPad _ _, by decide,
    s.oneLine⟩

theorem newline_notMem_tcpLines : ∀ (socks : List TcpEntry) (i : Nat), ∀ l ∈ tcpLines i socks, '\n' ∉ l
  | [], _, l, h => by cases h
  | s :: ss, i, l, h => by
    rcases List.mem_cons.1 h with rfl | h
    · exact s.newline_notMem_line i
    · exact newline_notMem_tcpLines ss (i + 1) l h

theorem stoi_hexPad {w n : Nat} (h : n < 2 ^ 31) : stoi 16 (hexPad w n) = .ok (n : Int) := by
  have := stoN_of_digits (-2 ^ 31) (2 ^ 31 - 1) 16 (hexPad_ne_nil w n)
    (fun c hc => isXdigit_of_mem_hexPad hc) (by decide) (by rw [readDigits_hexPad]; omega)
  rwa [readDigits_hexPad] at this

theorem stol_hexPad {w n : Nat} (h : n < 2 ^ 63) : stol 16 (hexPad w n) = .ok (n : Int) := by
  have := stoN_of_digits (-2 ^ 63) (2 ^ 63 - 1) 16 (hexPad_ne_nil w n)
    (fun c hc => isXdigit_of_mem_hexPad hc) (by decide) (by rw [readDigits_hexPad]; omega)
  rwa [readDigits_hexPad] at this

/-- The groups of the address columns: every run of hex digits ends where its column does. -/
theorem fullMatch_show (s : TcpEntry) :
    (cat [grp xdigits, chr ':', grp xdigits, blank, grp xdigits, chr ':', grp xdigits, anyStar]).fullMatch s.show =
      some [hexPad 8 s.localAddress.toNat, hexPad 4 s.localPort.toNat, hexPad 8 s.remAddress.toNat,
        hexPad 4 s.remPort.toNat] := by
  have hcolon : ∀ r : Re Char, Rejects (seq (chr ':') r) isXdigit := fun r => (rejects_chr (by decide)).seq r
  have hblank : ∀ r : Re Char, Rejects (seq blank r) isXdigit := fun r => rejects_blank_isXdigit.seq r
  have hstop : ∀ (c : Char) (t : List Char), isXdigit c = false → ∀ d ∈ (c :: t).head?, isXdigit d = false :=
    fun c t hc d hd => by cases hd; exact hc
  have hlast : (seq (grp (plus isXdigit)) anyStar).fullMatch (hexPad 4 s.remPort.toNat ++ ' ' :: s.columns) =
      some [hexPad 4 s.remPort.toNat] := by
    have ht := takeWhile_append_stop (p := isXdigit) (fun _ hc => isXdigit_of_mem_hexPad (w := 4) (n := s.remPort.toNat) hc)
      (hstop ' ' s.columns (by decide))
    rw [fullMatch_grp_plus_first (by rw [ht]; exact hexPad_ne_nil _ _) (by simp), ht]
    simp
  simp only [cat, TcpEntry.show, xdigits]
  rw [fullMatch_grp_plus_word (hcolon _) (hexPad_ne_nil _ _) (fun _ => isXdigit_of_mem_hexPad)
      (hstop ':' _ (by decide)), fullMatch_chr_seq, if_pos rfl,
    fullMatch_grp_plus_word (hblank _) (hexPad_ne_nil _ _) (fun _ => isXdigit_of_mem_hexPad)
      (hstop ' ' _ (by decide)), fullMatch_blank_seq, if_pos (by decide),
    fullMatch_grp_plus_word (hcolon _) (hexPad_ne_nil _ _) (fun _ => isXdigit_of_mem_hexPad)
      (hstop ':' _ (by decide)), fullMatch_chr_seq, if_pos rfl, hlast]
  rfl

/-- **A line whose slot number is short of its four columns is accepted**, and gives the socket's record. -/
theorem tcpLine_of_lt (s : TcpEntry) {slot : Nat} (h : slot < 1000) : tcpLine (s.line slot) = .ok (some (s.record slot)) := by
  have hlen : (decimal slot).length ≤ 3 := (Nat.length_toDigits_le_iff (by decide) (by decide)).2 h
  have hpad : List.replicate (4 - (decimal slot).length) ' ' ≠ [] := by
    rw [Ne, List.replicate_eq_nil_iff]; omega
  have hsp : ∀ c ∈ List.replicate (4 - (decimal slot).length) ' ', isSpace c = true := fun c hc => by
    rw [List.eq_of_mem_replicate hc]; decide
  have hdig : ∀ c ∈ (decimal slot ++ (':' :: ' ' :: s.show)).head?, isSpace c = false := fun c hc => by
    obtain ⟨d, w, hw⟩ := List.exists_cons_of_ne_nil (decimal_ne_nil slot)
    rw [hw] at hc
    cases hc
    exact isSpace_of_isDigit (isDigit_of_mem_decimal (n := slot) (by rw [hw]; simp))
  have hm : regexTcp.fullMatch (s.line slot) = some [decimal slot, hexPad 8 s.localAddress.toNat,
      hexPad 4 s.localPort.toNat, hexPad 8 s.remAddress.toNat, hexPad 4 s.remPort.toNat] := by
    have hshow := fullMatch_show s
    simp only [cat] at hshow
    simp only [regexTcp, cat, TcpEntry.line, List.leftpad, List.append_assoc]
    rw [fullMatch_plus_word (rejects_digits_isSpace.seq _) hpad hsp hdig,
      digits, fullMatch_grp_plus_word ((rejects_chr (by decide)).seq _) (decimal_ne_nil _)
        (fun _ => isDigit_of_mem_decimal) (fun c hc => by cases hc; decide),
      fullMatch_chr_seq, if_pos rfl, fullMatch_blank_seq, if_pos (by decide), hshow]
    rfl
  have hla := s.localAddress.toNat_lt
  have hlp := s.localPort.toNat_lt
  have hra := s.remAddress.toNat_lt
  have hrp := s.remPort.toNat_lt
  have e32 : ∀ a : UInt32, UInt32.ofInt (a.toNat : Int) = a := CType.uint.ofInt_toInt
  simp only [tcpLine, hm]
  rw [stoi_decimal (by omega), stol_hexPad (by omega), stoi_hexPad (by omega), stol_hexPad (by omega),
    stoi_hexPad (by omega)]
  simp only [bind, Except.bind, pure, Except.pure, TcpEntry.record, e32]

/-- **A slot number of four digits or more leaves no blank before it**, and the line is dropped. -/
theorem tcpLine_of_ge (s : TcpEntry) {slot : Nat} (h : 1000 ≤ slot) : tcpLine (s.line slot) = .ok none := by
  have hlen : ¬ (decimal slot).length ≤ 3 := fun hl =>
    absurd ((Nat.length_toDigits_le_iff (by decide) (by decide)).1 hl) (by omega)
  have hpad : List.replicate (4 - (decimal slot).length) ' ' = [] := by
    rw [List.replicate_eq_nil_iff]; omega
  obtain ⟨d, w, hw⟩ := List.exists_cons_of_ne_nil (decimal_ne_nil slot)
  have hd : isSpace d = false := isSpace_of_isDigit (isDigit_of_mem_decimal (n := slot) (by rw [hw]; simp))
  have hline : s.line slot = d :: (w ++ ':' :: ' ' :: s.show) := by
    rw [TcpEntry.line, List.leftpad, hpad, hw]; rfl
  have hm : regexTcp.fullMatch (s.line slot) = none := by
    rw [hline]
    exact fullMatch_plus_none _ (List.takeWhile_cons_of_neg (by simp [hd]))
  simp only [tcpLine, hm]
  rfl

theorem tcpLine_header (pad : Nat) : tcpLine (tcpHeader ++ List.replicate pad ' ') = .ok none := by
  have hm : regexTcp.fullMatch (tcpHeader ++ List.replicate pad ' ') = none := by
    simp only [regexTcp, cat]
    rw [fullMatch_plus (rejects_digits_isSpace.seq _)]
    split
    · rfl
    · rw [show (tcpHeader ++ List.replicate pad ' ').dropWhile isSpace =
        tcpHeader.dropWhile isSpace ++ List.replicate pad ' ' from rfl]
      rw [digits, fullMatch_grp_plus ((rejects_chr (by decide)).seq _)]
      exact if_pos rfl
  simp only [tcpLine, hm]
  rfl

/-- A line is taken exactly when a blank is left before its slot number. -/
theorem tcpLine_line (s : TcpEntry) (slot : Nat) :
    tcpLine (s.line slot) = .ok (if slot < 1000 then some (s.record slot) else none) := by
  by_cases h : slot < 1000
  · rw [tcpLine_of_lt s h, if_pos h]
  · rw [tcpLine_of_ge s (by omega), if_neg h]

theorem tcpLines_eq_map : ∀ (i : Nat) (socks : List TcpEntry),
    tcpLines i socks = (socks.zipIdx i).map fun p => p.1.line p.2
  | _, [] => rfl
  | i, s :: ss => by rw [tcpLines, tcpLines_eq_map (i + 1) ss, List.zipIdx_cons, List.map_cons]

theorem filterMap_slots : ∀ (socks : List TcpEntry) (i : Nat),
    (socks.zipIdx i).filterMap (fun p => if p.2 < 1000 then some (p.1.record p.2) else none) =
      ((socks.take (1000 - i)).zipIdx i).map fun p => p.1.record p.2
  | [], i => by simp
  | s :: ss, i => by
    rw [List.zipIdx_cons, List.filterMap_cons, filterMap_slots ss (i + 1)]
    by_cases hi : i < 1000
    · rw [if_pos hi, show 1000 - i = (1000 - (i + 1)) + 1 by omega, List.take_succ_cons, List.zipIdx_cons, List.map_cons]
    · rw [if_neg hi, show 1000 - i = 0 by omega, show 1000 - (i + 1) = 0 by omega]
      simp

/-- **The table is cut at a thousand slots**, whatever its length. -/
theorem getSocketTCP_eq (pad : Nat) (socks : List TcpEntry) :
    getSocketTCP (some (tcpFile pad socks)) = .ok (((socks.take 1000).zipIdx).map (fun p => p.1.record p.2)) := by
  have hhead : '\n' ∉ tcpHeader ++ List.replicate pad ' ' := by
    rw [List.mem_append, not_or]
    exact ⟨by decide, fun h => absurd (List.eq_of_mem_replicate h) (by decide)⟩
  have hlines : splitLines '\n' (tcpFile pad socks) = (tcpHeader ++ List.replicate pad ' ') :: tcpLines 0 socks :=
    splitLines_unlines '\n' _ (List.forall_mem_cons.2 ⟨hhead, newline_notMem_tcpLines socks 0⟩)
  unfold getSocketTCP
  rw [openFile, getlines_ofText, hlines, pushLoop_cons_none (tcpLine_header pad), tcpLines_eq_map,
    pushLoop_map _ _ fun p _ => tcpLine_line p.1 p.2, List.nil_append, filterMap_slots]

/-- **No socket lost**: one record per socket, in order, with its slot number and its ports. -/
def TcpComplete (socks : List TcpEntry) (r : Except Exn (List TcpSocket)) : Prop :=
  ∃ recs, r = .ok recs ∧ recs.length = socks.length ∧
    ∀ (i : Nat) (rec : TcpSocket) (s : TcpEntry), recs[i]? = some rec → socks[i]? = some s →
      rec.num = i ∧ rec.localPort = s.localPort.toNat ∧ rec.remPort = s.remPort.toNat

/-- **`getSocketTCP` loses no socket exactly when there are at most a thousand.** -/
theorem getSocketTCP_complete_iff (pad : Nat) (socks : List TcpEntry) :
    TcpComplete socks (getSocketTCP (some (tcpFile pad socks))) ↔ socks.length ≤ 1000 := by
  rw [getSocketTCP_eq]
  constructor
  · rintro ⟨recs, hr, hlen, -⟩
    cases hr
    simp only [List.length_map, List.length_zipIdx, List.length_take] at hlen
    omega
  · intro hn
    refine ⟨_, rfl, ?_, ?_⟩
    · simp only [List.length_map, List.length_zipIdx, List.length_take]
      omega
    · intro i rec s hrec hs
      rw [List.take_of_length_le hn, List.getElem?_map, List.getElem?_zipIdx, hs] at hrec
      simp only [Option.map_some, Option.some.injEq, Nat.zero_add] at hrec
      subst hrec
      exact ⟨rfl, rfl, rfl⟩

/-- The thousand and first listening socket is missing from the list. -/
theorem getSocketTCP_loses_slot_1000 :
    ¬ TcpComplete (List.replicate 1001 ⟨0, 22, 0, 0, [], by simp⟩)
      (getSocketTCP (some (tcpFile 0 (List.replicate 1001 ⟨0, 22, 0, 0, [], by simp⟩)))) := by
  rw [getSocketTCP_eq]
  rintro ⟨recs, hr, hlen, -⟩
  cases hr
  simp only [List.length_map, List.length_zipIdx, List.length_take, List.length_replicate] at hlen
  omega

/-! ## `getSocketUNIX` -/

/-- `unix_socket_t`. -/
structure UnixSocket where
  num      : List Char
  refCount : Int
  protocol : Int
  flags    : Int
  type     : Int
  state    : Int
  inode    : Int
  path     : List Char
deriving Repr, DecidableEq

/-- `^([[:xdigit:]]+):\s([[:digit:]]+)\s([[:digit:]]+)\s([[:digit:]]+)\s([[:digit:]]+)\s([[:digit:]]+)\s([[:digit:]]+)\s(.*)$` -/
def regexUnix : Re Char :=
  cat [grp xdigits, chr ':', blank, grp digits, blank, grp digits, blank, grp digits, blank, grp digits, blank,
    grp digits, blank, grp digits, blank, grp anyStar]

/-- One line of `/proc/net/unix`. -/
def unixLine (line : List Char) : Except Exn (Option UnixSocket) :=
  match regexUnix.fullMatch line with
  | some [m1, m2, m3, m4, m5, m6, m7, m8] => do
    let refCount ← stoi 16 m2
    let protocol ← stoi 10 m3
    let flags ← stoi 10 m4
    let type ← stoi 10 m5
    let state ← stoi 10 m6
    let inode ← stoi 10 m7
    return some {
      num := m1, refCount := refCount, protocol := protocol, flags := flags, type := type, state := state,
      inode := inode, path := m8 }
  | _ => return none

/-- `getSocketUNIX`, given the contents of `/proc/net/unix`. -/
def getSocketUNIX (file : Option (List Char)) : Except Exn (List UnixSocket) :=
  pushLoop unixLine [] (getlines '\n' (openFile file))

/-! ### The kernel's table -/

/-- A row of `/proc/net/unix`; `width` is that of the inode column. -/
structure UnixRow where
  address    : List Char
  refCount   : Nat
  protocol   : Nat
  flags      : Nat
  type       : Nat
  state      : Nat
  inode      : Nat
  width      : Nat
  path       : Option (List Char)
  addressHex : address ≠ [] ∧ ∀ c ∈ address, isXdigit c = true
  refCountLt : refCount < 2 ^ 31
  protocolLt : protocol < 16 ^ 8
  flagsLt    : flags < 16 ^ 8
  typeLt     : type < 16 ^ 4
  stateLt    : state < 16 ^ 2
  inodeLt    : inode < 2 ^ 32
  oneLine    : ∀ p ∈ path, '\n' ∉ p

def unixHeader : List Char := "Num       RefCount Protocol Flags    Type St Inode Path".toList

/-- A blank and the path, if there is one. -/
def pathColumn : Option (List Char) → List Char
  | none   => []
  | some p => ' ' :: p

theorem all_isDigit_iff {ws : List (List Char)} :
    (ws.all fun w => w.all Char.isDigit) = true ↔ ∀ w ∈ ws, ∀ c ∈ w, c.isDigit = true := by
  simp only [List.all_eq_true]

namespace UnixRow

def columns (s : UnixRow) : List (List Char) :=
  [hexPad 8 s.refCount, hexPad 8 s.protocol, hexPad 8 s.flags, hexPad 4 s.type, hexPad 2 s.state]

def line (s : UnixRow) : List Char :=
  s.address ++ (':' :: ' ' :: (s.columns.flatMap (· ++ [' ']) ++
    ((decimal s.inode).leftpad s.width ' ' ++ pathColumn s.path)))

/-- **What the code's expression asks of a row**: a path, an inode that fills its column, and no hexadecimal letter in the
columns it reads as decimal digits. -/
def Accepted (s : UnixRow) : Prop :=
  s.path.isSome = true ∧ s.width ≤ (decimal s.inode).length ∧ ∀ w ∈ s.columns, ∀ c ∈ w, c.isDigit = true

instance (s : UnixRow) : Decidable s.Accepted :=
  decidable_of_iff _ (and_congr_right fun _ => and_congr_right fun _ => all_isDigit_iff)

/-- The columns after the first are read in base 10. -/
def record (s : UnixRow) : UnixSocket where
  num := s.address
  refCount := s.refCount
  protocol := readDigits 10 (hexPad 8 s.protocol)
  flags := readDigits 10 (hexPad 8 s.flags)
  type := readDigits 10 (hexPad 4 s.type)
  state := readDigits 10 (hexPad 2 s.state)
  inode := s.inode
  path := s.path.getD []

end UnixRow

def unixTable (rows : List UnixRow) : List Char := unlines '\n' (unixHeader :: rows.map UnixRow.line)

theorem fullMatch_digits_blank {w : List Char} (hne : w ≠ []) (hw : ∀ c ∈ w, isXdigit c = true) (r : Re Char)
    (t : List Char) : (seq (grp digits) (seq blank r)).fullMatch (w ++ ' ' :: t) =
      if w.all Char.isDigit then (r.fullMatch t).map (w :: ·) else none := by
  have hb : Rejects (seq blank r) Char.isDigit := rejects_blank_isDigit.seq r
  by_cases hd : w.all Char.isDigit = true
  · rw [if_pos hd, digits, fullMatch_grp_plus_word hb hne (List.all_eq_true.1 hd) (fun c hc => by cases hc; decide), fullMatch_blank_seq,
      if_pos (by decide)]
  · rw [if_neg hd, digits, fullMatch_grp_plus hb]
    -- the run of digits stops at a letter, which is not a blank
    obtain ⟨c, u, hu⟩ : ∃ c u, w.dropWhile Char.isDigit = c :: u := by
      cases h : w.dropWhile Char.isDigit with
      | nil => exact absurd (List.all_eq_true.2 (List.dropWhile_eq_nil_iff.1 h)) hd
      | cons c u => exact ⟨c, u, rfl⟩
    have hc : isSpace c = false := isSpace_of_isXdigit (hw c
      ((List.dropWhile_suffix _).mem (by rw [hu]; simp)))
    have hdrop : (w ++ ' ' :: t).dropWhile Char.isDigit = c :: (u ++ ' ' :: t) := by
      rw [List.dropWhile_append, hu]; rfl
    split
    · rfl
    · rw [hdrop, fullMatch_blank_seq, if_neg (by simp [hc])]
      rfl

/-- `([[:digit:]]+)\s`, `n` times, before the rest. -/
def Re.digitColumns (r : Re Char) : Nat → Re Char
  | 0     => r
  | n + 1 => seq (grp digits) (seq blank (digitColumns r n))

/-- **A row of hexadecimal columns read as decimal digits**: all of them, or nothing. -/
theorem fullMatch_digitColumns (r : Re Char) (t : List Char) : ∀ (ws : List (List Char)),
    (∀ w ∈ ws, w ≠ [] ∧ ∀ c ∈ w, isXdigit c = true) →
    (r.digitColumns ws.length).fullMatch (ws.flatMap (· ++ [' ']) ++ t) =
      if ws.all fun w => w.all Char.isDigit then (r.fullMatch t).map (ws ++ ·) else none
  | [], _ => by simp [digitColumns]
  | w :: ws, h => by
    have hw := h w (by simp)
    have ih := fullMatch_digitColumns r t ws (fun v hv => h v (by simp [hv]))
    simp only [List.length_cons, digitColumns, List.flatMap_cons, List.append_assoc, List.nil_append,
      List.cons_append]
    rw [fullMatch_digits_blank hw.1 hw.2, ih, List.all_cons]
    cases w.all Char.isDigit with
    | false => rfl
    | true =>
      cases ws.all fun v => v.all Char.isDigit with
      | false => rfl
      | true => exact Option.map_map ..

theorem fullMatch_inode_path (width inode : Nat) (path : Option (List Char)) :
    (cat [grp digits, blank, grp anyStar]).fullMatch ((decimal inode).leftpad width ' ' ++ pathColumn path) =
      if width ≤ (decimal inode).length then path.map (fun p => [decimal inode, p]) else none := by
  have hb : Rejects (seq blank (grp anyStar)) Char.isDigit := rejects_blank_isDigit.seq _
  simp only [cat, List.leftpad]
  by_cases hi : width ≤ (decimal inode).length
  · rw [if_pos hi, List.replicate_eq_nil_iff _ |>.2 (by omega), List.nil_append, digits,
      fullMatch_grp_plus_word hb (decimal_ne_nil _) (fun _ => isDigit_of_mem_decimal) (fun c hc => by
        cases path with
        | none => cases hc
        | some p => cases hc; decide)]
    cases path with
    | none => rfl
    | some p => simp [pathColumn, fullMatch_blank_seq, show isSpace ' ' = true by decide]
  · rw [if_neg hi, show width - (decimal inode).length = (width - (decimal inode).length - 1) + 1 by omega,
      List.replicate_succ, digits, fullMatch_grp_plus hb]
    exact if_pos rfl

/-- **The expression on a row of the table**: the path is there, the inode fills its column and the five columns before
it hold decimal digits only; or the row is dropped. -/
theorem fullMatch_unixRow {address : List Char} (hne : address ≠ []) (hhex : ∀ c ∈ address, isXdigit c = true)
    (ws : List (List Char)) (hlen : ws.length = 5) (hws : ∀ w ∈ ws, w ≠ [] ∧ ∀ c ∈ w, isXdigit c = true)
    (width inode : Nat) (path : Option (List Char)) :
    regexUnix.fullMatch (address ++ (':' :: ' ' :: (ws.flatMap (· ++ [' ']) ++
        ((decimal inode).leftpad width ' ' ++ pathColumn path)))) =
      if path.isSome = true ∧ width ≤ (decimal inode).length ∧ (ws.all fun w => w.all Char.isDigit) = true
        then some (address :: (ws ++ [decimal inode, path.getD []])) else none := by
  have hcols := fullMatch_digitColumns (cat [grp digits, blank, grp anyStar])
    ((decimal inode).leftpad width ' ' ++ pathColumn path) ws hws
  rw [fullMatch_inode_path, hlen] at hcols
  simp only [regexUnix, cat]
  rw [xdigits, fullMatch_grp_plus_word ((rejects_chr (by decide)).seq _) hne hhex (fun c hc => by cases hc; decide),
    fullMatch_chr_seq, if_pos rfl, fullMatch_blank_seq, if_pos (by decide)]
  refine (congrArg (Option.map (address :: ·)) hcols).trans ?_
  by_cases hi : width ≤ (decimal inode).length
  · rw [if_pos hi]
    cases path with
    | none => simp
    | some p =>
      by_cases hd : (ws.all fun w => w.all Char.isDigit) = true
      · rw [if_pos hd, if_pos ⟨rfl, hi, hd⟩]
        rfl
      · rw [if_neg hd, if_neg fun h => hd h.2.2]
        rfl
  · rw [if_neg hi, if_neg (fun h => hi h.2.1 : ¬ (path.isSome = true ∧ _ ∧ _)), Option.map_none, ite_self]
    rfl

theorem stoi_column {w n : Nat} (hw : 0 < w) (hw8 : w ≤ 8) (hn : n < 16 ^ w) (hd : ∀ c ∈ hexPad w n, c.isDigit = true) :
    stoi 10 (hexPad w n) = .ok (readDigits 10 (hexPad w n) : Int) := by
  have h := readDigits_lt hd
  rw [length_hexPad hw hn] at h
  have h8 : 10 ^ w ≤ 10 ^ 8 := Nat.pow_le_pow_right (by decide) hw8
  exact stoN_of_digits _ _ 10 (hexPad_ne_nil w n) (fun c hc => isBaseDigit_of_isDigit (hd c hc)) (by decide) (by omega)

theorem stoi_decimal_ge {n : Nat} (h : 2 ^ 31 ≤ n) : stoi 10 (decimal n) = .error .outOfRange := by
  have hstrtol := strtol_of_digits 10 (decimal_ne_nil n) fun c hc => isBaseDigit_of_isDigit (isDigit_of_mem_decimal hc)
  rw [readDigits_decimal] at hstrtol
  rw [stoi, stoN, hstrtol]
  exact if_neg (by omega)

namespace UnixRow

theorem columns_xdigit (s : UnixRow) : ∀ w ∈ s.columns, w ≠ [] ∧ ∀ c ∈ w, isXdigit c = true := by
  intro w hw
  simp only [columns, List.mem_cons, List.not_mem_nil, or_false] at hw
  rcases hw with rfl | rfl | rfl | rfl | rfl <;> exact ⟨hexPad_ne_nil _ _, fun _ => isXdigit_of_mem_hexPad⟩

theorem newline_notMem_columns (s : UnixRow) : '\n' ∉ s.columns.flatMap (· ++ [' ']) := fun hmem => by
  obtain ⟨w, hw, hm⟩ := List.mem_flatMap.1 hmem
  rcases List.mem_append.1 hm with hm | hm
  · exact newline_notMem_of_isXdigit (s.columns_xdigit w hw).2 hm
  · exact absurd hm (by decide)

theorem newline_notMem_line (s : UnixRow) : '\n' ∉ s.line := by
  have hpath : '\n' ∉ pathColumn s.path := by
    cases hp : s.path with
    | none => simp [pathColumn]
    | some p => simpa [pathColumn] using s.oneLine p hp
  simp only [line, List.mem_append, List.mem_cons, not_or]
  exact ⟨newline_notMem_of_isXdigit s.addressHex.2, by decide, by decide, s.newline_notMem_columns,
    newline_notMem_padded _ _, hpath⟩

/-- **The expression accepts exactly the accepted rows.** -/
theorem fullMatch_line (s : UnixRow) : regexUnix.fullMatch s.line =
    if s.Accepted then some (s.address :: (s.columns ++ [decimal s.inode, s.path.getD []])) else none := by
  have hrow := fullMatch_unixRow s.addressHex.1 s.addressHex.2 s.columns rfl s.columns_xdigit s.width s.inode s.path
  exact hrow.trans (if_congr (and_congr_right fun _ => and_congr_right fun _ => all_isDigit_iff) rfl rfl)

/-- **An accepted row is read in base 10**, or throws at its inode. -/
theorem unixLine_line (s : UnixRow) :
    unixLine s.line =
      if s.Accepted then (if s.inode < 2 ^ 31 then .ok (some s.record) else .error .outOfRange) else .ok none := by
  have hm := s.fullMatch_line
  by_cases h : s.Accepted
  · rw [if_pos h] at hm ⊢
    have hc := h.2.2
    simp only [columns, List.mem_cons, List.not_mem_nil, or_false, forall_eq_or_imp, forall_eq] at hc
    obtain ⟨-, h2, h3, h4, h5⟩ := hc
    simp only [columns, List.cons_append, List.nil_append] at hm
    simp only [unixLine, hm]
    rw [stoi_hexPad s.refCountLt, stoi_column (by decide) (by decide) s.protocolLt h2,
      stoi_column (by decide) (by decide) s.flagsLt h3, stoi_column (by decide) (by decide) s.typeLt h4,
      stoi_column (by decide) (by decide) s.stateLt h5]
    by_cases hi : s.inode < 2 ^ 31
    · rw [if_pos hi, stoi_decimal hi]
      rfl
    · rw [if_neg hi, stoi_decimal_ge (by omega)]
      rfl
  · rw [if_neg h] at hm ⊢
    simp only [unixLine, hm]
    rfl

end UnixRow

theorem splitLines_unixTable (rows : List UnixRow) :
    splitLines '\n' (unixTable rows) = unixHeader :: rows.map UnixRow.line :=
  splitLines_unlines '\n' _ (List.forall_mem_cons.2 ⟨by decide, List.forall_mem_map.2 fun s _ => s.newline_notMem_line⟩)

/-- **The records of the accepted rows**, when each inode fits an `int`. -/
theorem getSocketUNIX_table {rows : List UnixRow} (h : ∀ s ∈ rows, s.Accepted → s.inode < 2 ^ 31) :
    getSocketUNIX (some (unixTable rows)) = .ok ((rows.filter (fun s => decide s.Accepted)).map UnixRow.record) := by
  have hline : ∀ s ∈ rows, unixLine s.line = .ok (if s.Accepted then some s.record else none) := by
    intro s hs
    rw [s.unixLine_line]
    by_cases hacc : s.Accepted
    · rw [if_pos hacc, if_pos (h s hs hacc), if_pos hacc]
    · rw [if_neg hacc, if_neg hacc]
  unfold getSocketUNIX
  rw [openFile, getlines_ofText, splitLines_unixTable, pushLoop_cons_none rfl, pushLoop_map _ _ hline, List.nil_append,
    filterMap_ite]

/-! ### Sockets -/

/-- A UNIX socket as `/proc/net/unix` shows it; only a bound one has a path. -/
structure UnixEntry where
  address    : List Char
  refCount   : Nat
  protocol   : UInt32
  flags      : UInt32
  type       : UInt16
  state      : UInt8
  inode      : Nat
  path       : Option (List Char)
  addressHex : address ≠ [] ∧ ∀ c ∈ address, isXdigit c = true
  refCountLt : refCount < 2 ^ 31
  inodeLt    : inode < 2 ^ 31
  oneLine    : ∀ p ∈ path, '\n' ∉ p

namespace UnixEntry

/-- The row: `%5lu` for the inode. -/
def row (s : UnixEntry) : UnixRow where
  address := s.address
  refCount := s.refCount
  protocol := s.protocol.toNat
  flags := s.flags.toNat
  type := s.type.toNat
  state := s.state.toNat
  inode := s.inode
  width := 5
  path := s.path
  addressHex := s.addressHex
  refCountLt := s.refCountLt
  protocolLt := s.protocol.toNat_lt
  flagsLt := s.flags.toNat_lt
  typeLt := s.type.toNat_lt
  stateLt := s.state.toNat_lt
  inodeLt := s.inodeLt.trans (by decide)
  oneLine := s.oneLine

def line (s : UnixEntry) : List Char := s.row.line

/-- What the code's expression asks of a socket: the inode has the five digits of its column. -/
def Accepted (s : UnixEntry) : Prop :=
  s.path.isSome = true ∧ 10000 ≤ s.inode ∧ ∀ w ∈ s.row.columns, ∀ c ∈ w, c.isDigit = true

instance (s : UnixEntry) : Decidable s.Accepted := inferInstanceAs (Decidable (_ ∧ _ ∧ _))

theorem accepted_row (s : UnixEntry) : s.row.Accepted ↔ s.Accepted := by
  have hwidth : 5 ≤ (decimal s.inode).length ↔ 10000 ≤ s.inode := by
    have hlen : (decimal s.inode).length ≤ 4 ↔ s.inode < 10000 := Nat.length_toDigits_le_iff (by decide) (by decide)
    omega
  exact and_congr_right fun _ => and_congr hwidth Iff.rfl

end UnixEntry

def unixFile (socks : List UnixEntry) : List Char := unlines '\n' (unixHeader :: socks.map UnixEntry.line)

/-- **The list holds the records of the accepted sockets.** -/
theorem getSocketUNIX_eq (socks : List UnixEntry) : getSocketUNIX (some (unixFile socks)) =
    .ok ((socks.filter (fun s => decide s.Accepted)).map fun s => s.row.record) := by
  have hfile : unixFile socks = unixTable (socks.map UnixEntry.row) := by
    rw [unixFile, unixTable, List.map_map]
    rfl
  have hinode : ∀ r ∈ socks.map UnixEntry.row, r.Accepted → r.inode < 2 ^ 31 :=
    List.forall_mem_map.2 fun s _ _ => s.inodeLt
  have haccepted : (fun r : UnixRow => decide r.Accepted) ∘ UnixEntry.row = fun s => decide s.Accepted :=
    funext fun s => decide_eq_decide.2 s.accepted_row
  rw [hfile, getSocketUNIX_table hinode, List.filter_map, haccepted, List.map_map]
  rfl

/-- **No socket lost**: one record per socket, in file order, with its inode and its path. -/
def UnixComplete (socks : List UnixEntry) (r : Except Exn (List UnixSocket)) : Prop :=
  ∃ recs, r = .ok recs ∧
    recs.map (fun rec => (rec.inode, rec.path)) = socks.map (fun s => ((s.inode : Int), s.path.getD []))

/-- **`getSocketUNIX` loses no socket exactly when every socket is accepted.** -/
theorem getSocketUNIX_complete_iff (socks : List UnixEntry) :
    UnixComplete socks (getSocketUNIX (some (unixFile socks))) ↔ ∀ s ∈ socks, s.Accepted := by
  rw [getSocketUNIX_eq]
  constructor
  · rintro ⟨recs, hr, hmap⟩
    cases hr
    have hlen := congrArg List.length hmap
    simp only [List.length_map] at hlen
    simpa using List.filter_eq_self.1 (List.filter_sublist.eq_of_length hlen)
  · intro h
    refine ⟨_, rfl, ?_⟩
    rw [List.filter_eq_self.2 (fun s hs => by simpa using h s hs), List.map_map]
    rfl

/-- An unnamed socket: three references, an inode of five digits. -/
def unnamedSocket : UnixEntry where
  address := "ffff8800c6110000".toList
  refCount := 3
  protocol := 0
  flags := 0
  type := 1
  state := 3
  inode := 29692
  path := none
  addressHex := ⟨by decide, List.all_eq_true.1 (by decide : "ffff8800c6110000".toList.all isXdigit = true)⟩
  refCountLt := by decide
  inodeLt := by decide
  oneLine := by simp

theorem getSocketUNIX_loses_unnamed :
    ¬ UnixComplete [unnamedSocket] (getSocketUNIX (some (unixFile [unnamedSocket]))) := by
  rw [getSocketUNIX_eq]
  rintro ⟨recs, hr, hmap⟩
  have h : ¬ unnamedSocket.Accepted := fun h => absurd h.1 (by decide)
  cases hr
  simp [h] at hmap

end SysInfo
