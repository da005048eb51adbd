import ChxSql.Mysql.LengthEncoded

namespace ChxSql.Mysql

open Incremental

-- `ColumnDefinition41_Packet`
structure ColumnDefinition41Packet where
  name         : Bytes  := []
  characterSet : UInt16 := 0
  columnLength : UInt32 := 0
  type         : UInt8  := 0
  flags        : UInt16 := 0
  decimals     : UInt8  := 0
  deriving DecidableEq

namespace ColumnDefinition41Packet

-- The stages of the parser, each with the alternative of `__M_parsers` that it uses.
inductive Stage where
  | catalog                   (parser : LengthEncodedString Bytes)
  | schema                    (parser : LengthEncodedString NopContainer)
  | table                     (parser : LengthEncodedString NopContainer)
  | orgTable                  (parser : LengthEncodedString NopContainer)
  | name                      (parser : LengthEncodedString Bytes)
  | orgName                   (parser : LengthEncodedString NopContainer)
  | lengthOfFixedLengthFields (parser : FixedLengthInteger 1)
  | characterSet              (parser : FixedLengthInteger 2)
  | columnLength              (parser : FixedLengthInteger 4)
  | type                      (parser : FixedLengthInteger 1)
  | flags                     (parser : FixedLengthInteger 2)
  | decimals                  (parser : FixedLengthInteger 1)
  | unusedNotInDoc            (parser : FixedLengthInteger 2)
  deriving DecidableEq

structure Parser where
  stage  : Stage := .catalog (.len {})
  result : ColumnDefinition41Packet := {}
  deriving DecidableEq

-- The bytes of "def".
def catalogName : Bytes := [100, 101, 102]

namespace Parser

def turn (p : Parser) (bs : Bytes) : Turn Byte Parser ColumnDefinition41Packet PayloadFailure :=
  match p.stage with
  | .catalog parser =>
    (parser.parse bs).turn ({ p with stage := .catalog · }) fun val bs =>
      if val = catalogName then .goto { p with stage := .schema (.len {}) } bs else .fail .malformed bs
  | .schema parser =>
    (parser.parse bs).turn ({ p with stage := .schema · }) fun _ bs =>
      .goto { p with stage := .table (.len {}) } bs
  | .table parser =>
    (parser.parse bs).turn ({ p with stage := .table · }) fun _ bs =>
      .goto { p with stage := .orgTable (.len {}) } bs
  | .orgTable parser =>
    (parser.parse bs).turn ({ p with stage := .orgTable · }) fun _ bs =>
      .goto { p with stage := .name (.len {}) } bs
  | .name parser =>
    (parser.parse bs).turn ({ p with stage := .name · }) fun v bs =>
      .goto ⟨.orgName (.len {}), { p.result with name := v }⟩ bs
  | .orgName parser =>
    (parser.parse bs).turn ({ p with stage := .orgName · }) fun _ bs =>
      .goto { p with stage := .lengthOfFixedLengthFields {} } bs
  | .lengthOfFixedLengthFields parser =>
    (parser.parse bs).turn ({ p with stage := .lengthOfFixedLengthFields · }) fun v bs =>
      if v = 0x0c then .goto { p with stage := .characterSet {} } bs else .fail .malformed bs
  | .characterSet parser =>
    (parser.parse bs).turn ({ p with stage := .characterSet · }) fun v bs =>
      .goto ⟨.columnLength {}, { p.result with characterSet := .ofNat v }⟩ bs
  | .columnLength parser =>
    (parser.parse bs).turn ({ p with stage := .columnLength · }) fun v bs =>
      .goto ⟨.type {}, { p.result with columnLength := .ofNat v }⟩ bs
  | .type parser =>
    (parser.parse bs).turn ({ p with stage := .type · }) fun v bs =>
      .goto ⟨.flags {}, { p.result with type := .ofNat v }⟩ bs
  | .flags parser =>
    (parser.parse bs).turn ({ p with stage := .flags · }) fun v bs =>
      .goto ⟨.decimals {}, { p.result with flags := .ofNat v }⟩ bs
  | .decimals parser =>
    (parser.parse bs).turn ({ p with stage := .decimals · }) fun v bs =>
      .goto ⟨.unusedNotInDoc {}, { p.result with decimals := .ofNat v }⟩ bs
  | .unusedNotInDoc parser =>
    (parser.parse bs).turn ({ p with stage := .unusedNotInDoc · }) fun _ bs => .done p.result bs

-- The number of the stages that are still to come.
def rank (p : Parser) : Nat :=
  match p.stage with
  | .catalog _                   => 12
  | .schema _                    => 11
  | .table _                     => 10
  | .orgTable _                  => 9
  | .name _                      => 8
  | .orgName _                   => 7
  | .lengthOfFixedLengthFields _ => 6
  | .characterSet _              => 5
  | .columnLength _              => 4
  | .type _                      => 3
  | .flags _                     => 2
  | .decimals _                  => 1
  | .unusedNotInDoc _            => 0

theorem turn_suffix (p : Parser) (bs : Bytes) : (p.turn bs).rest <:+ bs := by
  have ⟨stage, result⟩ := p
  cases stage <;> simp only [turn]
  case catalog | lengthOfFixedLengthFields =>
    refine Step.rest_turn_suffix ?_ fun _ r => by split <;> exact List.suffix_refl r
    first | exact LengthEncodedString.shrinks .. | exact FixedLengthInteger.shrinks ..
  all_goals
    refine Step.rest_turn_suffix ?_ fun _ r => List.suffix_refl r
    first | exact LengthEncodedString.shrinks .. | exact FixedLengthInteger.shrinks ..

theorem rank_turn {p p' : Parser} {bs r} (h : p.turn bs = .goto p' r) : p'.rank < p.rank := by
  have ⟨stage, result⟩ := p
  cases stage <;> simp only [turn] at h
  all_goals
    rename_i parser
    cases hp : parser.parse bs <;> simp only [hp, Step.turn, reduceCtorEq] at h
    try split at h
    all_goals
      cases h
      try simp [rank]

def loop : Loop Byte Parser ColumnDefinition41Packet PayloadFailure :=
  .ofRank turn rank turn_suffix rank_turn

def parse (p : Parser) (bs : Bytes) : Step Byte Parser ColumnDefinition41Packet PayloadFailure :=
  loop.run p bs

theorem parse_goto {p p' : Parser} {bs r} (h : p.turn bs = .goto p' r) : p.parse bs = p'.parse r :=
  Loop.run_goto h

theorem parse_done {p : Parser} {bs packet r} (h : p.turn bs = .done packet r) :
    p.parse bs = .done packet r :=
  Loop.run_done h

theorem turn_fail {p : Parser} {bs e r} (h : p.turn bs = .fail e r) : e = .malformed := by
  have ⟨stage, result⟩ := p
  cases stage <;> simp only [turn] at h
  all_goals
    rename_i parser
    cases hp : parser.parse bs <;> simp only [hp, Step.turn, reduceCtorEq] at h
    try split at h
    all_goals cases h
    all_goals first
      | rfl
      | exact LengthEncodedString.parse_fail hp
      | exact absurd hp FixedLengthInteger.parse_ne_fail

theorem parse_fail {p : Parser} {bs e r} (h : p.parse bs = .fail e r) : e = .malformed :=
  Loop.run_fails (I := fun _ => True) (Q := (· = .malformed)) (fun _ _ => trivial)
    (fun _ => turn_fail) trivial h

theorem turn_extends (p : Parser) (xs ys : Bytes) :
    (p.turn xs).Extends (fun _ => True) turn ys (p.turn (xs ++ ys)) := by
  have ⟨stage, result⟩ := p
  cases stage
  case catalog | schema | table | orgTable | name | orgName =>
    refine (LengthEncodedString.resumable.extend trivial xs ys).turn (fun _ _ => trivial)
      (fun _ _ => rfl) (fun _ _ => ?_)
    try split
    all_goals first | exact .goto trivial | exact .fail
  all_goals
    refine (FixedLengthInteger.resumable.extend trivial xs ys).turn (fun _ _ => trivial)
      (fun _ _ => rfl) (fun _ _ => ?_)
    try split
    all_goals first | exact .goto trivial | exact .done | exact .fail

theorem resumable : Resumable parse :=
  Loop.resumable turn_extends

end Parser

-- What a server says about a column. The parser drops the fields that are not in the packet.
structure Definition extends ColumnDefinition41Packet where
  schema         : Bytes  := []
  table          : Bytes  := []
  orgTable       : Bytes  := []
  orgName        : Bytes  := []
  unusedNotInDoc : UInt16 := 0
  deriving DecidableEq

namespace Definition

def encode (d : Definition) : Bytes :=
  lenencStr catalogName ++ (lenencStr d.schema ++ (lenencStr d.table ++ (lenencStr d.orgTable ++
    (lenencStr d.name ++ (lenencStr d.orgName ++ (toLittleEndian 1 0x0c ++
    (toLittleEndian 2 d.characterSet.toNat ++ (toLittleEndian 4 d.columnLength.toNat ++
    (toLittleEndian 1 d.type.toNat ++ (toLittleEndian 2 d.flags.toNat ++
    (toLittleEndian 1 d.decimals.toNat ++ toLittleEndian 2 d.unusedNotInDoc.toNat)))))))))))

theorem encode_ne_nil (d : Definition) : d.encode ≠ [] := by
  have ⟨_, _, hb, _⟩ := lenencInteger_head catalogName.length
  simp [encode, lenencStr, hb]

theorem parse_encode {d : Definition} (h : d.encode.length < 2 ^ 31) (ys : Bytes) :
    ({} : Parser).parse (d.encode ++ ys) = .done d.toColumnDefinition41Packet ys := by
  simp only [encode, List.length_append, length_lenencStr, toLittleEndian_length] at h
  have hc : catalogName.length < 2 ^ 31 := by decide
  have hs : d.schema.length < 2 ^ 31 := by omega
  have ht : d.table.length < 2 ^ 31 := by omega
  have hot : d.orgTable.length < 2 ^ 31 := by omega
  have hn : d.name.length < 2 ^ 31 := by omega
  have hon : d.orgName.length < 2 ^ 31 := by omega
  have hl {ys} : ({} : FixedLengthInteger 1).parse (toLittleEndian 1 0x0c ++ ys) = .done 0x0c ys :=
    FixedLengthInteger.parse_digits (by decide) (by decide) ys
  have hu := FixedLengthInteger.parse_uint16 d.unusedNotInDoc ys
  simp only [encode, List.append_assoc]
  rw [Parser.parse_goto (by simp only [Parser.turn, LengthEncodedString.parse_lenencStr hc, Step.turn]; rfl)]
  rw [Parser.parse_goto (by simp only [Parser.turn, LengthEncodedString.parse_lenencStr hs, Step.turn]; rfl)]
  rw [Parser.parse_goto (by simp only [Parser.turn, LengthEncodedString.parse_lenencStr ht, Step.turn]; rfl)]
  rw [Parser.parse_goto (by simp only [Parser.turn, LengthEncodedString.parse_lenencStr hot, Step.turn]; rfl)]
  rw [Parser.parse_goto (by simp only [Parser.turn, LengthEncodedString.parse_lenencStr hn, Step.turn]; rfl)]
  rw [Parser.parse_goto (by simp only [Parser.turn, LengthEncodedString.parse_lenencStr hon, Step.turn]; rfl)]
  rw [Parser.parse_goto (by simp only [Parser.turn, hl, Step.turn]; rfl)]
  rw [Parser.parse_goto (by simp only [Parser.turn, FixedLengthInteger.parse_uint16, Step.turn]; rfl)]
  rw [Parser.parse_goto (by simp only [Parser.turn, FixedLengthInteger.parse_uint32, Step.turn]; rfl)]
  rw [Parser.parse_goto (by simp only [Parser.turn, FixedLengthInteger.parse_uint8, Step.turn]; rfl)]
  rw [Parser.parse_goto (by simp only [Parser.turn, FixedLengthInteger.parse_uint16, Step.turn]; rfl)]
  rw [Parser.parse_goto (by simp only [Parser.turn, FixedLengthInteger.parse_uint8, Step.turn]; rfl)]
  rw [Parser.parse_done (by simp only [Parser.turn, hu, Step.turn]; rfl)]
  simp only [UInt8.ofNat_toNat, UInt16.ofNat_toNat, FixedLengthInteger.ofNat_signExtend]
  rfl

end Definition

end ColumnDefinition41Packet

end ChxSql.Mysql
