import ChxSql.Mysql.LengthEncoded

namespace ChxSql.Mysql

open Incremental

-- The cells of a row: a cell without a value is NULL.
abbrev Row := List (Option Bytes)

namespace ResultsetPacket

-- The stages of the parser. The string parser is always a new one when a cell begins.
inductive Stage where
  | guess
  | lncStr (parser : LengthEncodedString Bytes)
  deriving DecidableEq

structure Parser where
  stage      : Stage := .guess
  columnData : Row   := []
  deriving DecidableEq

namespace Parser

def turn (columnN : Nat) (p : Parser) (bs : Bytes) : Turn Byte Parser Row PayloadFailure :=
  if p.columnData.length ≠ columnN then
    match p.stage with
    | .guess =>
      match bs with
      | []              => .more p []
      | firstByte :: bs =>
        if firstByte = 0xfb then
          .goto { p with columnData := p.columnData ++ [none] } bs
        else
          .goto { p with stage := .lncStr (.len {}) } (firstByte :: bs)
    | .lncStr parser =>
      (parser.parse bs).turn ({ p with stage := .lncStr · }) fun v bs =>
        .goto ⟨.guess, p.columnData ++ [some v]⟩ bs
  else
    .done p.columnData bs

-- A string that has not begun yet reads something before it is done.
def rank (p : Parser) : Nat :=
  match p.stage with
  | .guess         => 1
  | .lncStr parser => if parser = .len {} then 0 else 2

variable {columnN : Nat}

theorem turn_progress {p p' : Parser} {bs r} (h : p.turn columnN bs = .goto p' r) :
    r.length * 3 + p'.rank < bs.length * 3 + p.rank := by
  have ⟨stage, columnData⟩ := p
  simp only [turn] at h
  split at h
  case isFalse => cases h
  case isTrue =>
    cases stage <;> dsimp only at h
    case guess =>
      cases bs <;> dsimp only at h
      case nil  => cases h
      case cons => split at h <;> cases h <;> simp [rank]
    case lncStr parser =>
      cases hp : parser.parse bs <;> simp only [hp, Step.turn, reduceCtorEq] at h
      cases h
      by_cases hl : parser = .len {}
      case pos => subst hl; have := LengthEncodedString.parse_lt hp; simp [rank]; omega
      case neg => have := LengthEncodedString.shrinks.length_le hp; simp [rank, hl]; omega

def loop (columnN : Nat) : Loop Byte Parser Row PayloadFailure where
  body     := turn columnN
  weight   := 3
  rank     := rank
  progress := turn_progress

def parse (columnN : Nat) (p : Parser) (bs : Bytes) : Step Byte Parser Row PayloadFailure :=
  (loop columnN).run p bs

theorem parse_goto {p p' : Parser} {bs r} (h : p.turn columnN bs = .goto p' r) :
    p.parse columnN bs = p'.parse columnN r :=
  Loop.run_goto h

theorem parse_done {p : Parser} {bs row r} (h : p.turn columnN bs = .done row r) :
    p.parse columnN bs = .done row r :=
  Loop.run_done h

theorem turn_fail {p : Parser} {bs e r} (h : p.turn columnN bs = .fail e r) : e = .malformed := by
  have ⟨stage, columnData⟩ := p
  simp only [turn] at h
  split at h
  case isFalse => cases h
  case isTrue =>
    cases stage <;> dsimp only at h
    case guess =>
      cases bs <;> dsimp only at h
      case nil  => cases h
      case cons => split at h <;> cases h
    case lncStr parser =>
      cases hp : parser.parse bs <;> simp only [hp, Step.turn, reduceCtorEq] at h
      cases h
      exact LengthEncodedString.parse_fail hp

theorem parse_fail {p : Parser} {bs e r} (h : p.parse columnN bs = .fail e r) : e = .malformed :=
  Loop.run_fails (I := fun _ => True) (Q := (· = .malformed)) (fun _ _ => trivial)
    (fun _ => turn_fail) trivial h

theorem turn_done {p : Parser} {bs row r} (h : p.turn columnN bs = .done row r) :
    row = p.columnData ∧ r = bs ∧ row.length = columnN := by
  have ⟨stage, columnData⟩ := p
  simp only [turn] at h
  split at h
  case isFalse hn => cases h; exact ⟨rfl, rfl, not_not.mp hn⟩
  case isTrue =>
    cases stage <;> dsimp only at h
    case guess =>
      cases bs <;> dsimp only at h
      case nil  => cases h
      case cons => split at h <;> cases h
    case lncStr parser =>
      cases hp : parser.parse bs <;> simp only [hp, Step.turn, reduceCtorEq] at h

-- A row that is done has the number of cells that was asked for.
theorem parse_length {p : Parser} {bs row r} (h : p.parse columnN bs = .done row r) :
    row.length = columnN := by
  suffices hq : ∀ row r, p.parse columnN bs = .done row r → row.length = columnN from hq row r h
  refine (loop columnN).run_induction (P := fun _ _ => True)
    (Q := fun st => ∀ row r, st = .done row r → row.length = columnN)
    (fun _ _ => trivial) (fun _ _ => nofun) (fun _ hd _ _ he => ?_) (fun _ _ => nofun) trivial
  cases he
  exact (turn_done hd).2.2

theorem turn_extends (p : Parser) (xs ys : Bytes) : (p.turn columnN xs).Extends (fun _ => True)
    (turn columnN) ys (p.turn columnN (xs ++ ys)) := by
  have ⟨stage, columnData⟩ := p
  simp only [turn]
  split
  case isFalse => exact .done
  case isTrue h =>
    cases stage <;> dsimp only
    case guess =>
      cases xs
      case nil => exact .of_eq_more trivial (by simp [turn, h])
      case cons =>
        simp only [List.cons_append]
        split <;> exact .goto trivial
    case lncStr =>
      exact (LengthEncodedString.resumable.extend trivial xs ys).turn (fun _ _ => trivial)
        (fun _ _ => if_pos h) (fun _ _ => .goto trivial)

theorem resumable : Resumable (parse columnN) :=
  Loop.resumable turn_extends

end Parser

def encodeCell : Option Bytes → Bytes
  | none   => [0xfb]
  | some v => lenencStr v

def encode (row : Row) : Bytes :=
  row.flatMap encodeCell

-- What the first byte of a row with cells tells.
structure Head (bs : Bytes) : Prop where
  ne_nil : bs ≠ []
  ne_err : bs.headI ≠ 0xff
  large  : bs.headI = 0xfe → 2 ^ 24 ≤ bs.length

theorem encode_head {row : Row} (h : row ≠ []) : Head (encode row) := by
  cases row
  case nil => exact absurd rfl h
  case cons cell row =>
    cases cell
    case none => exact ⟨by simp [encode, encodeCell], by simp [encode, encodeCell], by simp [encode, encodeCell]⟩
    case some v =>
      have ⟨b, bs, hb, head⟩ := lenencInteger_head v.length
      have he : encode (some v :: row) = b :: (bs ++ v ++ encode row) := by
        simp [encode, encodeCell, lenencStr, hb]
      rw [he]
      refine ⟨List.cons_ne_nil _ _, head.ne_err, fun h => (head.large h).trans ?_⟩
      simp only [List.length_cons, List.length_append]
      omega

-- Reading one cell, when the ones before it have been read.
theorem parse_cell {columnN : Nat} {cells : Row} {cell : Option Bytes} (rest : Bytes)
    (hn : cells.length ≠ columnN) (hc : (encodeCell cell).length < 2 ^ 31) :
    (⟨.guess, cells⟩ : Parser).parse columnN (encodeCell cell ++ rest) =
      (⟨.guess, cells ++ [cell]⟩ : Parser).parse columnN rest := by
  cases cell
  case none => exact Parser.parse_goto (by simp [Parser.turn, hn, encodeCell])
  case some v =>
    have ⟨b, bs, hb, head⟩ := lenencInteger_head v.length
    have hv : v.length < 2 ^ 31 := by
      rw [encodeCell, length_lenencStr] at hc
      omega
    have hs := LengthEncodedString.parse_lenencStr (C := Bytes) hv rest
    simp only [encodeCell, lenencStr, hb, List.cons_append] at hs ⊢
    rw [Parser.parse_goto (by simp only [Parser.turn, if_pos hn, if_neg head.ne_null]; rfl),
      Parser.parse_goto (by simp only [Parser.turn, if_pos hn, hs, Step.turn]; rfl)]
    rfl

-- The induction is on the cells that are still to come.
theorem parse_cells (cells : Row) {row : Row} (rest : Bytes) (h : (encode row).length < 2 ^ 31) :
    (⟨.guess, cells⟩ : Parser).parse (cells.length + row.length) (encode row ++ rest) =
      .done (cells ++ row) rest := by
  induction row generalizing cells
  case nil => exact Parser.parse_done (by simp [Parser.turn, encode])
  case cons cell row ih =>
    simp only [encode, List.flatMap_cons, List.length_append] at h
    have ih := ih (cells ++ [cell]) (by rw [encode]; omega)
    have hl : cells.length + (cell :: row).length = (cells ++ [cell]).length + row.length := by
      simp only [List.length_cons, List.length_append, List.length_nil]
      omega
    rw [encode, List.flatMap_cons, List.append_assoc, parse_cell _ (by simp) (by omega), hl, ← encode,
      ih, List.append_assoc, List.singleton_append]

theorem parse_encode {row : Row} (h : (encode row).length < 2 ^ 31) (rest : Bytes) :
    ({} : Parser).parse row.length (encode row ++ rest) = .done row rest := by
  simpa using parse_cells [] rest h

end ResultsetPacket

end ChxSql.Mysql
