import ChxSql.Incremental.Reading
import ChxSql.Mysql.ComQuery

namespace ChxSql.Mysql

open Incremental

namespace ResultsetPacket

-- The bytes that hold the cells of a row: a cell is the byte 0xfb, or it has a length and as many
-- bytes as that says.
inductive Cells : Row → Bytes → Prop where
  | nil : Cells [] []
  | null {row bs} : Cells row bs → Cells (none :: row) (0xfb :: bs)
  | str {row bs pre} {v : Bytes} : ({} : LengthEncodedInteger).parse pre = .done v.length [] →
      Cells row bs → Cells (some v :: row) (pre ++ (v ++ bs))

namespace Parser

variable {n : Nat} {cells row : Row} {bs rest : Bytes}

theorem length_head {pre : Bytes} {k : Nat} (h : ({} : LengthEncodedInteger).parse pre = .done k []) :
    ∃ b bs, pre = b :: bs ∧ b ≠ 0xfb := by
  cases pre
  case nil => cases h
  case cons b bs =>
    refine ⟨b, bs, rfl, ?_⟩
    rintro rfl
    cases h

theorem parse_str {pre v : Bytes} (h : ({} : LengthEncodedInteger).parse pre = .done v.length [])
    (rest : Bytes) : (.len {} : LengthEncodedString Bytes).parse (pre ++ (v ++ rest)) = .done v rest := by
  have hp := LengthEncodedInteger.resumable.stays trivial h (v ++ rest)
  rw [LengthEncodedString.parse, hp, Step.andThen, List.nil_append, LengthEncodedString.parseStr,
    Sized.parse_full, Step.andThen, Container.insert_empty_bytes]

-- The induction is on the cells. The ones that have been read before are in front of them.
theorem parse_of_cells (h : Cells row bs) (hn : cells.length + row.length ≤ n) (rest : Bytes) :
    (⟨.guess, cells⟩ : Parser).parse n (bs ++ rest) = (⟨.guess, cells ++ row⟩ : Parser).parse n rest := by
  induction h generalizing cells <;> simp only [List.length_nil, List.length_cons] at hn
  case nil => rw [List.append_nil, List.nil_append]
  case null row bs _ ih =>
    have hc : cells.length ≠ n := by omega
    have hg : turn n ⟨.guess, cells⟩ (0xfb :: bs ++ rest) = .goto ⟨.guess, cells ++ [none]⟩ (bs ++ rest) := by
      simp [turn, hc]
    rw [parse_goto hg, ih (by simp; omega), List.append_assoc, List.singleton_append]
  case str row bs pre v hl _ ih =>
    have hc : cells.length ≠ n := by omega
    obtain ⟨b, pre', hb, hne⟩ := length_head hl
    have hs := parse_str hl (bs ++ rest)
    rw [← List.append_assoc v] at hs
    have hl : turn n ⟨.guess, cells⟩ (pre ++ (v ++ bs ++ rest)) =
        .goto ⟨.lncStr (.len {}), cells⟩ (pre ++ (v ++ bs ++ rest)) := by
      simp only [hb, List.cons_append, turn, if_pos hc, if_neg hne]
    have hg : turn n ⟨.lncStr (.len {}), cells⟩ (pre ++ (v ++ bs ++ rest)) =
        .goto ⟨.guess, cells ++ [some v]⟩ (bs ++ rest) := by
      simp only [turn, if_pos hc, hs, Step.turn]
    rw [List.append_assoc, parse_goto hl, parse_goto hg, ih (by simp; omega), List.append_assoc,
      List.singleton_append]

theorem parse_full (hc : cells.length = n) (bs : Bytes) :
    (⟨.guess, cells⟩ : Parser).parse n bs = .done cells bs :=
  parse_done (by simp [turn, hc])

-- What a string that is done has read.
theorem exists_of_parse_str {v : Bytes} (h : (.len {} : LengthEncodedString Bytes).parse bs = .done v rest) :
    ∃ pre, bs = pre ++ (v ++ rest) ∧ ({} : LengthEncodedInteger).parse pre = .done v.length [] := by
  cases hp : ({} : LengthEncodedInteger).parse bs <;>
    simp only [LengthEncodedString.parse, hp, Step.andThen, reduceCtorEq] at h
  case done k r =>
    obtain ⟨pre, hb, hl⟩ := LengthEncodedInteger.exists_of_parse hp
    cases hs : (({ targetLength := k } : Sized Bytes).parse r : Step _ _ _ PayloadFailure) <;>
      simp only [LengthEncodedString.parseStr, hs, Step.andThen, reduceCtorEq] at h
    cases h
    obtain ⟨hr, hv⟩ := Sized.parse_done hs
    exact ⟨pre, by rw [hb, hr], by rw [hl, hv]⟩

-- The places between and at the beginning of cells.
def AtCell (p : Parser) : Prop :=
  p.stage = .guess ∨ p.stage = .lncStr (.len {})

-- The induction is on the turns of the parser.
theorem cells_of_parse {p : Parser} (hp : p.AtCell) (h : p.parse n bs = .done row rest) :
    ∃ cells pre, row = p.columnData ++ cells ∧ bs = pre ++ rest ∧ Cells cells pre := by
  induction p, bs using Loop.run.induct (l := loop n)
  case case2 hb => rw [parse, Loop.run_more hb] at h; cases h
  case case4 hb => rw [parse, Loop.run_fail hb] at h; cases h
  case case3 p bs row' rest' hb =>
    rw [parse_done hb, Step.done.injEq] at h
    obtain ⟨hr, hs, _⟩ := turn_done hb
    exact ⟨[], [], by simp [← h.1, hr], by simp [← h.2, hs], .nil⟩
  case case1 p bs p' bs' hb ih =>
    rw [parse_goto hb] at h
    obtain ⟨stage, columnData⟩ := p
    simp only [loop, turn] at hb
    split at hb
    case isFalse => cases hb
    case isTrue =>
      cases stage <;> dsimp only at hb
      case guess =>
        cases bs <;> dsimp only at hb
        case nil => cases hb
        case cons b bs =>
          split at hb
          case isTrue hn =>
            cases hb
            obtain ⟨cells, pre, hr, he, hc⟩ := ih (.inl rfl) h
            exact ⟨none :: cells, b :: pre, by rw [hr]; simp, by rw [he]; rfl, hn ▸ .null hc⟩
          case isFalse =>
            cases hb
            exact ih (.inr rfl) h
      case lncStr parser =>
        obtain hp | hp := hp <;> cases hp
        cases hs : (.len {} : LengthEncodedString Bytes).parse bs <;>
          simp only [hs, Step.turn, reduceCtorEq] at hb
        cases hb
        obtain ⟨pre, he, hl⟩ := exists_of_parse_str hs
        obtain ⟨cells, pre', hr, he', hc⟩ := ih (.inl rfl) h
        refine ⟨some _ :: cells, pre ++ (_ ++ pre'), by rw [hr]; simp, ?_, .str hl hc⟩
        rw [he, he']
        simp only [List.append_assoc]

-- Exactly the rows of `n` cells are read.
theorem parse_done_iff : ({} : Parser).parse n bs = .done row rest ↔
    ∃ pre, bs = pre ++ rest ∧ Cells row pre ∧ row.length = n := by
  constructor <;> intro h
  case mp =>
    have ⟨cells, pre, hr, he, hc⟩ := cells_of_parse (.inl rfl) h
    rw [List.nil_append] at hr
    exact ⟨pre, he, hr ▸ hc, parse_length h⟩
  case mpr =>
    obtain ⟨pre, rfl, hc, hl⟩ := h
    rw [parse_of_cells hc (by simp [hl]), List.nil_append, parse_full hl]

theorem parse_whole (hc : Cells row bs) (hl : row.length = n) : ({} : Parser).parse n bs = .done row [] :=
  parse_done_iff.mpr ⟨bs, (List.append_nil bs).symm, hc, hl⟩

-- No length begins with the byte 0xff.
theorem parse_malformed {pre : Bytes} (hc : Cells row pre) (hl : row.length < n) (bs : Bytes) :
    ({} : Parser).parse n (pre ++ 0xff :: bs) = .fail .malformed bs := by
  have hg : turn n ⟨.guess, row⟩ (0xff :: bs) = .goto ⟨.lncStr (.len {}), row⟩ (0xff :: bs) := by
    simp [turn, hl.ne]
  have hm : turn n ⟨.lncStr (.len {}), row⟩ (0xff :: bs) = .fail .malformed bs := by
    simp only [turn, ne_eq, hl.ne, not_false_iff, if_true]
    rfl
  rw [parse_of_cells hc (by simpa using hl.le), List.nil_append, parse_goto hg]
  exact Loop.run_fail hm

end Parser

end ResultsetPacket

namespace ComQuery

open BasicPacket ResultsetPacket

-- Reading a row, with some of its cells in the parser, and having read one.
def State.reading (s : State) (parser : ResultsetPacket.Parser) : State :=
  { s with stage := .s2ResultSet, payloadParser := .resultset parser }

def State.appendRow (s : State) (row : Row) : State :=
  { s with
    resultSet.rows := s.resultSet.rows ++ [row]
    payloadParser  := .resultset {}
    stage          := .s2ResultSetRowGuess }

section

variable {s : State} {row : Row}

@[simp] theorem State.appendRow_nextSequenceId : (s.appendRow row).nextSequenceId = s.nextSequenceId := rfl
@[simp] theorem State.appendRow_columnCount : (s.appendRow row).columnCount = s.columnCount := rfl
@[simp] theorem State.appendRow_names : (s.appendRow row).resultSet.names = s.resultSet.names := rfl
@[simp] theorem State.appendRow_rows : (s.appendRow row).resultSet.rows = s.resultSet.rows ++ [row] := rfl

end

abbrev Fed := Step Byte (BasicPacket State) State (PacketResult × State) × List Bytes

-- What comes of a payload, given what the parser of the row makes of it.
def FedRow (s : State) (fed : Fed) : Step Byte ResultsetPacket.Parser Row PayloadFailure → Prop
  | .done row []       => fed = (.more { impl := s.appendRow row } [], [])
  | .done row (_ :: _) => ∃ r unfed, fed = (.fail (.trailingData, s.appendRow row) r, unfed)
  | .more parser _     => ∃ r unfed, fed = (.fail (.incomplete, s.reading parser) r, unfed)
  | .fail _ _          => ∃ r unfed, fed = (.fail (.malformed, s.reading {}) r, unfed)

variable {clientCap : UInt32} {s : State} {len : Nat}

theorem turn_reading (clientCap : UInt32) (s : State) (len : Nat) (parser : ResultsetPacket.Parser)
    {c : Bytes} (hc : c ≠ []) (bs : Bytes) :
    turn (impl clientCap) ⟨.payload len (c ++ bs).length, s.reading parser⟩ c =
      onPart len bs.length (PayloadResult.ofStep (parser.parse s.columnCount c) .success s.reading
        s.appendRow (s.reading {})) [] := by
  rw [turn_payload hc, List.take_of_length_le (by simp), List.drop_of_length_le (by simp),
    List.length_append, Nat.add_sub_cancel_left]
  rfl

-- The chunk with the last byte of the payload.
theorem feed_lastChunk (parser : ResultsetPacket.Parser) {c : Bytes} {cs : List Bytes} (hc : c ≠ [])
    (hf : cs.flatten = []) :
    FedRow s (Incremental.feed (BasicPacket.feed (impl clientCap)) ⟨.payload len c.length, s.reading parser⟩
      (c :: cs)) (parser.parse s.columnCount c) := by
  have ht := turn_reading clientCap s len parser hc []
  rw [List.append_nil, List.length_nil] at ht
  cases hp : parser.parse s.columnCount c <;> rw [hp] at ht <;> rw [Incremental.feed]
  case more p r => rw [feed_fail ht]; exact ⟨_, _, rfl⟩
  case done row r =>
    cases r
    case nil  => rw [feed_goto ht, feed_nil]; exact feed_nils feed_nil hf
    case cons => rw [feed_fail ht]; exact ⟨_, _, rfl⟩
  case fail e r =>
    cases Parser.parse_fail hp
    rw [feed_fail ht]
    exact ⟨_, _, rfl⟩

-- The induction is on the chunks of the payload.
theorem feed_row (clientCap : UInt32) (s : State) (len : Nat) (parser : ResultsetPacket.Parser)
    {cs : List Bytes} (h : cs.flatten ≠ []) : FedRow s (Incremental.feed (BasicPacket.feed (impl clientCap))
      ⟨.payload len cs.flatten.length, s.reading parser⟩ cs) (parser.parse s.columnCount cs.flatten) := by
  induction cs generalizing parser
  case nil => exact absurd rfl h
  case cons c cs ih =>
    rw [List.flatten_cons] at h ⊢
    by_cases hc : c = []
    case pos =>
      rw [hc, List.nil_append] at h ⊢
      rw [Incremental.feed, feed_nil]
      exact ih parser h
    by_cases hf : cs.flatten = []
    case pos =>
      rw [hf, List.append_nil]
      exact feed_lastChunk parser hc hf
    case neg =>
      have ht := turn_reading clientCap s len parser hc cs.flatten
      have hl : ¬cs.flatten.length = 0 := mt List.length_eq_zero_iff.mp hf
      cases hp : parser.parse s.columnCount c <;> rw [hp] at ht
      case more p r =>
        rw [Parser.resumable.exhausts trivial hp] at hp
        rw [Parser.resumable.resumes trivial hp]
        simp only [PayloadResult.ofStep, onPart, if_neg hl] at ht
        rw [Incremental.feed, BasicPacket.feed, Loop.run_more ht]
        exact ih p hf
      case done row r =>
        obtain ⟨b, bs, hb⟩ := List.exists_cons_of_ne_nil (List.append_ne_nil_of_right_ne_nil r hf)
        rw [Parser.resumable.stays trivial hp, hb]
        cases r <;> simp only [PayloadResult.ofStep, onPart, if_neg hl] at ht
        all_goals
          rw [Incremental.feed, feed_fail ht]
          exact ⟨_, _, rfl⟩
      case fail e r =>
        cases Parser.parse_fail hp
        obtain ⟨r', hr⟩ := Parser.resumable.fails trivial hp cs.flatten
        rw [hr, Incremental.feed, feed_fail ht]
        exact ⟨_, _, rfl⟩

-- A row is added only by a parser that is done at the end of the payload.
theorem FedRow.eq_more_iff {fed : Fed} {step : Step Byte ResultsetPacket.Parser Row PayloadFailure}
    {s' : State} (h : FedRow s fed step) :
    fed = (.more { impl := s' } [], []) ↔ ∃ row, step = .done row [] ∧ s' = s.appendRow row := by
  constructor
  case mp =>
    rintro rfl
    cases step
    case more | fail => obtain ⟨_, _, h⟩ := h; cases h
    case done row r =>
      cases r
      case cons => obtain ⟨_, _, h⟩ := h; cases h
      case nil  => cases h; exact ⟨row, rfl, rfl⟩
  case mpr =>
    rintro ⟨row, rfl, rfl⟩
    exact h

-- What comes of a payload in which a row of as many cells as there are columns is expected.
structure ReadsRow (s : State) (payload : Bytes) (fed : Fed) : Prop where
  accepts      : ∀ s', fed = (.more { impl := s' } [], []) ↔
    ∃ row, Cells row payload ∧ row.length = s.columnCount ∧ s' = s.appendRow row
  incomplete   : ∀ row bs, Cells row (payload ++ bs) → row.length = s.columnCount → bs ≠ [] →
    (outcome fed.1).1 = .incomplete
  trailingData : ∀ row pre bs, Cells row pre → row.length = s.columnCount → payload = pre ++ bs → bs ≠ [] →
    (outcome fed.1).1 = .trailingData
  malformed    : ∀ row pre bs, Cells row pre → row.length < s.columnCount → payload = pre ++ 0xff :: bs →
    (outcome fed.1).1 = .malformed

-- For each number of columns, each payload and each way to cut it into chunks.
theorem feed_readsRow (clientCap : UInt32) (s : State) (cs : List Bytes) (h : cs.flatten ≠ []) :
    ReadsRow s cs.flatten (Incremental.feed (BasicPacket.feed (impl clientCap))
      ⟨.payload cs.flatten.length cs.flatten.length, s.reading {}⟩ cs) := by
  have hf := feed_row clientCap s cs.flatten.length {} h
  constructor
  case accepts =>
    intro s'
    rw [hf.eq_more_iff]
    constructor
    case mp =>
      rintro ⟨row, hp, rfl⟩
      have ⟨pre, he, hc, hl⟩ := Parser.parse_done_iff.mp hp
      rw [List.append_nil] at he
      exact ⟨row, he ▸ hc, hl, rfl⟩
    case mpr =>
      rintro ⟨row, hc, hl, rfl⟩
      exact ⟨row, Parser.parse_whole hc hl, rfl⟩
  case incomplete =>
    intro row bs hc hl hb
    have ⟨p, hm, _⟩ := Parser.resumable.more_of_done trivial (Parser.parse_whole hc hl) hb
    rw [hm] at hf
    have ⟨_, _, hf⟩ := hf
    rw [hf]
    rfl
  case trailingData =>
    intro row pre bs hc hl he hb
    have hp := Parser.parse_done_iff.mpr ⟨pre, he, hc, hl⟩
    have ⟨b, bs', hb⟩ := List.exists_cons_of_ne_nil hb
    rw [hp, hb] at hf
    have ⟨_, _, hf⟩ := hf
    rw [hf]
    rfl
  case malformed =>
    intro row pre bs hc hl he
    have hp := Parser.parse_malformed hc hl bs
    rw [← he] at hp
    rw [hp] at hf
    have ⟨_, _, hf⟩ := hf
    rw [hf]
    rfl

theorem feed_readsRow_two : ReadsRow { columnCount := 2 } [0xfb, 1, 97]
    (Incremental.feed (BasicPacket.feed (impl 0))
      ⟨.payload 3 3, State.reading { columnCount := 2 } {}⟩ [[0xfb], [1, 97]]) :=
  feed_readsRow 0 { columnCount := 2 } [[0xfb], [1, 97]] (by decide)

end ComQuery

end ChxSql.Mysql
