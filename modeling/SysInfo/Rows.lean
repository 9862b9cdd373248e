import SysInfo.Sockets
/-!
# Rows — the socket tables on every text

What `getSocketUNIX` and `getSocketTCP` do with a text nobody promises anything about.  A row is a line that has the
columns their expressions ask for; the list holds the record of every row of the text, in order, and of nothing else
(`getSocketUNIX_rows`, `getSocketTCP_rows`).  The only way to throw is a row with a number that its type does not hold,
and then the rows before it are lost with it.
-/
namespace SysInfo

open IStream Re

/-! ## The rows of a text -/

section Rows

variable {ρ β : Type} {line : ρ → List Char}

/-- The lines of a text that show a row, in order. -/
inductive Rows (line : ρ → List Char) : List (List Char) → List ρ → Prop
  | nil : Rows line [] []
  | row (r : ρ) {ls : List (List Char)} {rs : List ρ} (h : Rows line ls rs) : Rows line (line r :: ls) (r :: rs)
  | other {l : List Char} {ls : List (List Char)} {rs : List ρ} (hl : ∀ r, line r ≠ l) (h : Rows line ls rs) :
    Rows line (l :: ls) rs

theorem Rows.exists (line : ρ → List Char) : ∀ ls : List (List Char), ∃ rs, Rows line ls rs
  | [] => ⟨[], .nil⟩
  | l :: ls => by
    obtain ⟨rs, h⟩ := Rows.exists line ls
    by_cases hl : ∃ r, line r = l
    · obtain ⟨r, rfl⟩ := hl
      exact ⟨r :: rs, .row r h⟩
    · exact ⟨rs, .other (fun r hr => hl ⟨r, hr⟩) h⟩

theorem Rows.of_map (line : ρ → List Char) : ∀ rs : List ρ, Rows line (rs.map line) rs
  | []      => .nil
  | r :: rs => .row r (Rows.of_map line rs)

variable {f : List Char → Except Exn (Option β)} {record : ρ → β} {InRange : ρ → Prop} [DecidablePred InRange] {e : Exn}

/-- **A loop that takes rows and drops the other lines** keeps the records of the rows, or throws at a row. -/
theorem pushLoop_rows (hrow : ∀ r, f (line r) = if InRange r then .ok (some (record r)) else .error e)
    (hother : ∀ l, (∀ r, line r ≠ l) → f l = .ok none) {ls : List (List Char)} {rs : List ρ} (h : Rows line ls rs) :
    ∀ acc, pushLoop f acc ls = if ∀ r ∈ rs, InRange r then .ok (acc ++ rs.map record) else .error e := by
  induction h with
  | nil => exact fun acc => by simp [pushLoop]
  | @row r ls rs h ih =>
    intro acc
    rw [pushLoop, hrow r]
    by_cases hr : InRange r
    · rw [if_pos hr]
      dsimp only
      rw [ih, List.append_assoc]
      exact if_congr (by simp [hr]) rfl rfl
    · rw [if_neg hr, if_neg fun hall => hr (hall r List.mem_cons_self)]
  | other hl h ih =>
    intro acc
    rw [pushLoop_cons_none (hother _ hl), ih]

end Rows

/-! ## Numbers in columns -/

theorem stoN_of_run (lo hi : Int) (base : Nat) {w : List Char} (hw : IsRun (isBaseDigit base) w) (hlo : lo ≤ 0) :
    stoN lo hi base w = if (readDigits base w : Int) ≤ hi then .ok (readDigits base w : Int) else .error .outOfRange := by
  rw [stoN, strtol_of_digits base hw.1 hw.2]
  exact if_congr ⟨fun h => h.2, fun h => ⟨by omega, h⟩⟩ rfl rfl

theorem isRun_isBaseDigit (base : Nat) {w : List Char} (hw : IsRun Char.isDigit w) : IsRun (isBaseDigit base) w :=
  ⟨hw.1, fun c hc => isBaseDigit_of_isDigit (hw.2 c hc)⟩

/-- `std::stoi` on a column of digits. -/
theorem stoi_of_run (base : Nat) {w : List Char} (hw : IsRun (isBaseDigit base) w) :
    stoi base w = if readDigits base w < 2 ^ 31 then .ok (readDigits base w : Int) else .error .outOfRange := by
  rw [stoi, stoN_of_run _ _ base hw (by decide)]
  exact if_congr (by omega) rfl rfl

theorem stol_of_run (base : Nat) {w : List Char} (hw : IsRun (isBaseDigit base) w) :
    stol base w = if readDigits base w < 2 ^ 63 then .ok (readDigits base w : Int) else .error .outOfRange := by
  rw [stol, stoN_of_run _ _ base hw (by decide)]
  exact if_congr (by omega) rfl rfl

theorem ite_error_bind {α β : Type} {P : Prop} [Decidable P] (a : α) (e : Exn) (k : α → Except Exn β) :
    ((if P then .ok a else .error e : Except Exn α) >>= k) = if P then k a else .error e := by
  split <;> rfl

/-- A column and the blank behind it. -/
theorem fullMatch_column_blank_iff {p : Char → Bool} (hp : Rejects blank p) {r : Re Char} {s : List Char}
    {caps : List (List Char)} : (seq (grp (plus p)) (seq blank r)).fullMatch s = some caps ↔
      ∃ w c t caps', s = w ++ c :: t ∧ caps = w :: caps' ∧ IsRun p w ∧ isSpace c = true ∧ r.fullMatch t = some caps' := by
  rw [fullMatch_grp_plus_iff (hp.seq r)]
  simp only [fullMatch_blank_iff]
  constructor
  · rintro ⟨w, _, caps', rfl, rfl, hw, c, t, rfl, hc, ht⟩
    exact ⟨w, c, t, caps', rfl, rfl, hw, hc, ht⟩
  · rintro ⟨w, c, t, caps', rfl, rfl, hw, hc, ht⟩
    exact ⟨w, _, caps', rfl, rfl, hw, c, t, rfl, hc, ht⟩

/-- A column and the colon behind it. -/
theorem fullMatch_column_colon_iff {p : Char → Bool} (hp : p ':' = false) {r : Re Char} {s : List Char}
    {caps : List (List Char)} : (seq (grp (plus p)) (seq (chr ':') r)).fullMatch s = some caps ↔
      ∃ w t caps', s = w ++ ':' :: t ∧ caps = w :: caps' ∧ IsRun p w ∧ r.fullMatch t = some caps' := by
  rw [fullMatch_grp_plus_iff ((rejects_chr hp).seq r)]
  simp only [fullMatch_chr_iff]
  constructor
  · rintro ⟨w, _, caps', rfl, rfl, hw, t, rfl, ht⟩
    exact ⟨w, t, caps', rfl, rfl, hw, ht⟩
  · rintro ⟨w, t, caps', rfl, rfl, hw, ht⟩
    exact ⟨w, _, caps', rfl, rfl, hw, t, rfl, ht⟩

/-! ## Rows of `/proc/net/unix` -/

/-- A line with the columns of a UNIX socket: a hexadecimal one, six decimal ones and whatever follows the last blank. -/
structure UnixSocketRow where
  num      : List Char
  refCount : List Char
  protocol : List Char
  flags    : List Char
  type     : List Char
  state    : List Char
  inode    : List Char
  path     : List Char
  gap0     : Char
  gap1     : Char
  gap2     : Char
  gap3     : Char
  gap4     : Char
  gap5     : Char
  gap6     : Char
  numHex   : IsRun isXdigit num
  decimals : ∀ w ∈ [refCount, protocol, flags, type, state, inode], IsRun Char.isDigit w
  blanks   : ∀ c ∈ [gap0, gap1, gap2, gap3, gap4, gap5, gap6], isSpace c = true

namespace UnixSocketRow

variable (r : UnixSocketRow)

def line : List Char :=
  r.num ++ ':' :: r.gap0 :: (r.refCount ++ r.gap1 :: (r.protocol ++ r.gap2 :: (r.flags ++ r.gap3 :: (r.type ++
    r.gap4 :: (r.state ++ r.gap5 :: (r.inode ++ r.gap6 :: r.path))))))

/-- What the columns are read as: the first decimal one in base sixteen. -/
def numbers : List Nat :=
  [readDigits 16 r.refCount, readDigits 10 r.protocol, readDigits 10 r.flags, readDigits 10 r.type,
    readDigits 10 r.state, readDigits 10 r.inode]

/-- Every number is an `int`. -/
def InRange : Prop := ∀ n ∈ r.numbers, n < 2 ^ 31

instance : DecidablePred InRange := fun r => inferInstanceAs (Decidable (∀ n ∈ r.numbers, n < 2 ^ 31))

def record : UnixSocket where
  num := r.num
  refCount := readDigits 16 r.refCount
  protocol := readDigits 10 r.protocol
  flags := readDigits 10 r.flags
  type := readDigits 10 r.type
  state := readDigits 10 r.state
  inode := readDigits 10 r.inode
  path := r.path

def groups : List (List Char) := [r.num, r.refCount, r.protocol, r.flags, r.type, r.state, r.inode, r.path]

end UnixSocketRow

/-- **The expression accepts the rows**, and nothing else. -/
theorem fullMatch_regexUnix_iff {s : List Char} {caps : List (List Char)} :
    regexUnix.fullMatch s = some caps ↔ ∃ r : UnixSocketRow, s = r.line ∧ caps = r.groups := by
  have hcolon : isXdigit ':' = false := by decide
  simp only [regexUnix, cat, xdigits, digits, fullMatch_column_colon_iff hcolon, fullMatch_blank_iff,
    fullMatch_column_blank_iff rejects_blank_isDigit, fullMatch_grp_anyStar]
  constructor
  · rintro ⟨num, _, _, rfl, rfl, hnum, c0, _, rfl, h0, w1, c1, _, _, rfl, rfl, hw1, h1, w2, c2, _, _, rfl, rfl, hw2, h2,
      w3, c3, _, _, rfl, rfl, hw3, h3, w4, c4, _, _, rfl, rfl, hw4, h4, w5, c5, _, _, rfl, rfl, hw5, h5,
      w6, c6, path, _, rfl, rfl, hw6, h6, hpath⟩
    obtain rfl := Option.some.inj hpath
    refine ⟨⟨num, w1, w2, w3, w4, w5, w6, path, c0, c1, c2, c3, c4, c5, c6, hnum, ?_, ?_⟩, rfl, rfl⟩
    · simp only [List.forall_mem_cons]
      exact ⟨hw1, hw2, hw3, hw4, hw5, hw6, fun w hw => absurd hw List.not_mem_nil⟩
    · simp only [List.forall_mem_cons]
      exact ⟨h0, h1, h2, h3, h4, h5, h6, fun c hc => absurd hc List.not_mem_nil⟩
  · rintro ⟨r, rfl, rfl⟩
    have hd := r.decimals
    have hb := r.blanks
    simp only [List.forall_mem_cons] at hd hb
    obtain ⟨hw1, hw2, hw3, hw4, hw5, hw6, -⟩ := hd
    obtain ⟨h0, h1, h2, h3, h4, h5, h6, -⟩ := hb
    exact ⟨r.num, _, _, rfl, rfl, r.numHex, _, _, rfl, h0, r.refCount, _, _, _, rfl, rfl, hw1, h1,
      r.protocol, _, _, _, rfl, rfl, hw2, h2, r.flags, _, _, _, rfl, rfl, hw3, h3,
      r.type, _, _, _, rfl, rfl, hw4, h4, r.state, _, _, _, rfl, rfl, hw5, h5,
      r.inode, _, _, _, rfl, rfl, hw6, h6, rfl⟩

theorem UnixSocketRow.unixLine_line (r : UnixSocketRow) :
    unixLine r.line = if r.InRange then .ok (some r.record) else .error .outOfRange := by
  have hm : regexUnix.fullMatch r.line = some r.groups := fullMatch_regexUnix_iff.2 ⟨r, rfl, rfl⟩
  have hd := r.decimals
  simp only [List.forall_mem_cons] at hd
  obtain ⟨hw1, hw2, hw3, hw4, hw5, hw6, -⟩ := hd
  have h16 : IsRun (isBaseDigit 16) r.refCount := ⟨hw1.1, fun c hc => isXdigit_of_isDigit (hw1.2 c hc)⟩
  simp only [UnixSocketRow.groups] at hm
  simp only [unixLine, hm, stoi_of_run 16 h16, stoi_of_run 10 (isRun_isBaseDigit 10 hw2),
    stoi_of_run 10 (isRun_isBaseDigit 10 hw3), stoi_of_run 10 (isRun_isBaseDigit 10 hw4),
    stoi_of_run 10 (isRun_isBaseDigit 10 hw5), stoi_of_run 10 (isRun_isBaseDigit 10 hw6)]
  simp only [ite_error_bind, ← ite_and]
  refine if_congr ?_ rfl rfl
  simp only [InRange, numbers, List.forall_mem_cons, List.not_mem_nil, false_implies, implies_true, and_true]

theorem unixLine_other {l : List Char} (h : ∀ r : UnixSocketRow, r.line ≠ l) : unixLine l = .ok none := by
  have hm : regexUnix.fullMatch l = none := by
    rw [Option.eq_none_iff_forall_ne_some]
    intro caps hcaps
    obtain ⟨r, rfl, -⟩ := fullMatch_regexUnix_iff.1 hcaps
    exact h r rfl
  simp only [unixLine, hm]
  rfl

/-- **`getSocketUNIX` on any text**: the records of its rows, in order, and of nothing else; or it throws because one of
them has a number that is no `int`. -/
theorem getSocketUNIX_rows (text : List Char) : ∃ rows, Rows UnixSocketRow.line (splitLines '\n' text) rows ∧
    getSocketUNIX (some text) =
      if ∀ r ∈ rows, r.InRange then .ok (rows.map UnixSocketRow.record) else .error .outOfRange := by
  obtain ⟨rows, hrows⟩ := Rows.exists UnixSocketRow.line (splitLines '\n' text)
  exact ⟨rows, hrows, pushLoop_rows UnixSocketRow.unixLine_line (fun _ => unixLine_other) hrows []⟩

/-! ## Rows of `/proc/net/tcp` -/

/-- A line with the columns of a TCP socket, behind at least one blank.  Whatever follows the last port is no digit of
it. -/
structure TcpRow where
  indent       : List Char
  slot         : List Char
  localAddress : List Char
  localPort    : List Char
  remAddress   : List Char
  remPort      : List Char
  rest         : List Char
  gap0         : Char
  gap1         : Char
  indented     : IsRun isSpace indent
  decimal      : IsRun Char.isDigit slot
  hex          : ∀ w ∈ [localAddress, localPort, remAddress, remPort], IsRun isXdigit w
  stop         : ∀ c ∈ rest.head?, isXdigit c = false
  blanks       : ∀ c ∈ [gap0, gap1], isSpace c = true

namespace TcpRow

variable (r : TcpRow)

def line : List Char :=
  r.indent ++ (r.slot ++ ':' :: r.gap0 :: (r.localAddress ++ ':' :: (r.localPort ++ r.gap1 :: (r.remAddress ++
    ':' :: (r.remPort ++ r.rest)))))

/-- The slot and the ports are an `int`, the addresses a `long`. -/
def InRange : Prop :=
  readDigits 10 r.slot < 2 ^ 31 ∧ readDigits 16 r.localAddress < 2 ^ 63 ∧ readDigits 16 r.localPort < 2 ^ 31 ∧
    readDigits 16 r.remAddress < 2 ^ 63 ∧ readDigits 16 r.remPort < 2 ^ 31

instance : DecidablePred InRange := fun _ => inferInstanceAs (Decidable (_ ∧ _ ∧ _ ∧ _ ∧ _))

/-- The last 32 bits of a hexadecimal column, as an address. -/
def address (w : List Char) : List Char := inetNtoa (htonl (UInt32.ofInt (readDigits 16 w)))

def record : TcpSocket where
  num := readDigits 10 r.slot
  localAddress := address r.localAddress
  localPort := readDigits 16 r.localPort
  remAddress := address r.remAddress
  remPort := readDigits 16 r.remPort

def groups : List (List Char) := [r.slot, r.localAddress, r.localPort, r.remAddress, r.remPort]

end TcpRow

theorem fullMatch_regexTcp_iff {s : List Char} {caps : List (List Char)} :
    regexTcp.fullMatch s = some caps ↔ ∃ r : TcpRow, s = r.line ∧ caps = r.groups := by
  have hx : isXdigit ':' = false := by decide
  have hd : Char.isDigit ':' = false := by decide
  simp only [regexTcp, cat]
  rw [fullMatch_plus_iff (rejects_digits_isSpace.seq _)]
  simp only [xdigits, digits, fullMatch_column_colon_iff hd, fullMatch_column_colon_iff hx, fullMatch_blank_iff,
    fullMatch_column_blank_iff rejects_blank_isXdigit, fullMatch_grp_plus_anyStar_iff]
  constructor
  · rintro ⟨indent, _, rfl, hin, slot, _, _, rfl, rfl, hslot, c0, _, rfl, h0, la, _, _, rfl, rfl, hla, lp, c1, _, _,
      rfl, rfl, hlp, h1, ra, _, _, rfl, rfl, hra, rp, rest, rfl, rfl, hrp, hstop⟩
    refine ⟨⟨indent, slot, la, lp, ra, rp, rest, c0, c1, hin, hslot, ?_, hstop, ?_⟩, rfl, rfl⟩
    · simp only [List.forall_mem_cons]
      exact ⟨hla, hlp, hra, hrp, fun w hw => absurd hw List.not_mem_nil⟩
    · simp only [List.forall_mem_cons]
      exact ⟨h0, h1, fun c hc => absurd hc List.not_mem_nil⟩
  · rintro ⟨r, rfl, rfl⟩
    have hh := r.hex
    have hb := r.blanks
    simp only [List.forall_mem_cons] at hh hb
    obtain ⟨hla, hlp, hra, hrp, -⟩ := hh
    obtain ⟨h0, h1, -⟩ := hb
    exact ⟨r.indent, _, rfl, r.indented, r.slot, _, _, rfl, rfl, r.decimal, _, _, rfl, h0, r.localAddress, _, _,
      rfl, rfl, hla, r.localPort, _, _, _, rfl, rfl, hlp, h1, r.remAddress, _, _, rfl, rfl, hra, r.remPort, _,
      rfl, rfl, hrp, r.stop⟩

theorem TcpRow.tcpLine_line (r : TcpRow) :
    tcpLine r.line = if r.InRange then .ok (some r.record) else .error .outOfRange := by
  have hm : regexTcp.fullMatch r.line = some r.groups := fullMatch_regexTcp_iff.2 ⟨r, rfl, rfl⟩
  have hh := r.hex
  simp only [List.forall_mem_cons] at hh
  obtain ⟨hla, hlp, hra, hrp, -⟩ := hh
  have h16 : ∀ {w : List Char}, IsRun isXdigit w → IsRun (isBaseDigit 16) w := fun h => h
  simp only [TcpRow.groups] at hm
  simp only [tcpLine, hm, stoi_of_run 10 (isRun_isBaseDigit 10 r.decimal), stol_of_run 16 (h16 hla),
    stoi_of_run 16 (h16 hlp), stol_of_run 16 (h16 hra), stoi_of_run 16 (h16 hrp), ite_error_bind, ← ite_and]
  exact if_congr Iff.rfl rfl rfl

theorem tcpLine_other {l : List Char} (h : ∀ r : TcpRow, r.line ≠ l) : tcpLine l = .ok none := by
  have hm : regexTcp.fullMatch l = none := by
    rw [Option.eq_none_iff_forall_ne_some]
    intro caps hcaps
    obtain ⟨r, rfl, -⟩ := fullMatch_regexTcp_iff.1 hcaps
    exact h r rfl
  simp only [tcpLine, hm]
  rfl

/-- **`getSocketTCP` on any text**: the records of its rows, in order, and of nothing else; or it throws because one of
them has a number that its type does not hold. -/
theorem getSocketTCP_rows (text : List Char) : ∃ rows, Rows TcpRow.line (splitLines '\n' text) rows ∧
    getSocketTCP (some text) = if ∀ r ∈ rows, r.InRange then .ok (rows.map TcpRow.record) else .error .outOfRange := by
  obtain ⟨rows, hrows⟩ := Rows.exists TcpRow.line (splitLines '\n' text)
  exact ⟨rows, hrows, pushLoop_rows TcpRow.tcpLine_line (fun _ => tcpLine_other) hrows []⟩

end SysInfo
