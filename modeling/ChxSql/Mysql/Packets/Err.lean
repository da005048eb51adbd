import ChxSql.Mysql.BasicTypes

namespace ChxSql.Mysql

open Incremental

-- `ERR_Packet`
structure ErrPacket where
  errorCode    : UInt16 := 0
  sqlState     : Bytes  := []
  errorMessage : Bytes  := []
  deriving DecidableEq

namespace ErrPacket

-- The stages of the parser, each with the alternative of `__M_parsers` that it uses.
inductive Stage where
  | header    (parser : FixedLengthInteger 1)
  | errorCode (parser : FixedLengthInteger 2)
  | sqlStateMarker
  | sqlState  (parser : Filling Bytes 5)
  | errorMessage
  deriving DecidableEq

structure Parser where
  stage  : Stage := .header {}
  result : ErrPacket := {}
  deriving DecidableEq

namespace Parser

def turn (isFinal : Bool) (p : Parser) (bs : Bytes) : Turn Byte Parser ErrPacket PayloadFailure :=
  match p.stage with
  | .header parser =>
    (parser.parse bs).turn ({ p with stage := .header · }) fun v bs =>
      if v = 0xff then .goto { p with stage := .errorCode {} } bs else .fail .malformedHeader bs
  | .errorCode parser =>
    (parser.parse bs).turn ({ p with stage := .errorCode · }) fun v bs =>
      .goto ⟨.sqlStateMarker, { p.result with errorCode := .ofNat v }⟩ bs
  | .sqlStateMarker =>
    match bs with
    | []           => .more p []
    | marker :: bs =>
      -- The marker is '#'.
      if marker = 35 then .goto { p with stage := .sqlState {} } bs else .fail .malformed bs
  | .sqlState parser =>
    (parser.fill bs).turn ({ p with stage := .sqlState · }) fun v bs =>
      .goto ⟨.errorMessage, { p.result with sqlState := v }⟩ bs
  | .errorMessage =>
    let p := { p with result.errorMessage := p.result.errorMessage ++ bs }
    if isFinal then .done p.result [] else .more p []

def rank (p : Parser) : Nat :=
  match p.stage with
  | .header _       => 4
  | .errorCode _    => 3
  | .sqlStateMarker => 2
  | .sqlState _     => 1
  | .errorMessage   => 0

variable {isFinal : Bool}

theorem turn_suffix (p : Parser) (bs : Bytes) : (p.turn isFinal bs).rest <:+ bs := by
  have ⟨stage, result⟩ := p
  cases stage <;> simp only [turn]
  case header =>
    refine Step.rest_turn_suffix (FixedLengthInteger.shrinks _ bs) fun _ r => ?_
    split <;> exact List.suffix_refl r
  case errorCode => exact Step.rest_turn_suffix (FixedLengthInteger.shrinks _ bs) fun _ => List.suffix_refl
  case sqlState  => exact Step.rest_turn_suffix (Filling.shrinks _ bs) fun _ => List.suffix_refl
  case errorMessage => split <;> exact List.nil_suffix
  case sqlStateMarker =>
    cases bs
    case nil => exact List.nil_suffix
    case cons => dsimp only; split <;> exact List.suffix_cons ..

theorem rank_turn {p p' : Parser} {bs r} (h : p.turn isFinal bs = .goto p' r) : p'.rank < p.rank := by
  have ⟨stage, result⟩ := p
  cases stage <;> simp only [turn] at h
  case header parser =>
    cases hp : parser.parse bs <;> simp only [hp, Step.turn, reduceCtorEq] at h
    split at h <;> cases h
    simp [rank]
  case errorCode parser =>
    cases hp : parser.parse bs <;> simp only [hp, Step.turn, reduceCtorEq] at h
    cases h
    simp [rank]
  case sqlState parser =>
    cases hp : (parser.fill bs : Step _ _ _ PayloadFailure) <;> simp only [hp, Step.turn, reduceCtorEq] at h
    cases h
    simp [rank]
  case sqlStateMarker =>
    cases bs <;> dsimp only at h
    case nil => cases h
    case cons => split at h <;> cases h; simp [rank]
  case errorMessage => split at h <;> cases h

def loop (isFinal : Bool) : Loop Byte Parser ErrPacket PayloadFailure :=
  .ofRank (turn isFinal) rank turn_suffix rank_turn

def parse (isFinal : Bool) (p : Parser) (bs : Bytes) : Step Byte Parser ErrPacket PayloadFailure :=
  (loop isFinal).run p bs

theorem parse_goto {p p' : Parser} {bs r} (h : p.turn isFinal bs = .goto p' r) :
    p.parse isFinal bs = p'.parse isFinal r :=
  Loop.run_goto h

theorem parse_done {p : Parser} {bs packet r} (h : p.turn isFinal bs = .done packet r) :
    p.parse isFinal bs = .done packet r :=
  Loop.run_done h

theorem turn_fail {p : Parser} {bs e r} (h : p.turn isFinal bs = .fail e r) : e ≠ .undefined := by
  obtain ⟨stage, result⟩ := p
  cases stage <;> simp only [turn] at h
  case header parser =>
    cases hp : parser.parse bs <;> simp only [hp, Step.turn, reduceCtorEq] at h
    case done => split at h <;> cases h; simp
    case fail => exact absurd hp FixedLengthInteger.parse_ne_fail
  case errorCode parser =>
    cases hp : parser.parse bs <;> simp only [hp, Step.turn, reduceCtorEq] at h
    exact absurd hp FixedLengthInteger.parse_ne_fail
  case sqlState parser =>
    cases hp : (parser.fill bs : Step _ _ _ PayloadFailure) <;> simp only [hp, Step.turn, reduceCtorEq] at h
    exact absurd hp Filling.fill_ne_fail
  case sqlStateMarker =>
    cases bs <;> dsimp only at h
    case nil  => cases h
    case cons => split at h <;> cases h; simp
  case errorMessage => split at h <;> cases h

theorem parse_fail {p : Parser} {bs e r} (h : p.parse isFinal bs = .fail e r) : e ≠ .undefined :=
  Loop.run_fails (I := fun _ => True) (Q := (· ≠ .undefined)) (fun _ _ => trivial)
    (fun _ => turn_fail) trivial h

theorem turn_extends (p : Parser) (xs ys : Bytes) : (p.turn false xs).Extends (fun _ => True)
    (turn isFinal) ys (p.turn isFinal (xs ++ ys)) := by
  have ⟨stage, result⟩ := p
  cases stage
  case header =>
    refine (FixedLengthInteger.resumable.extend trivial xs ys).turn (fun _ _ => trivial)
      (fun _ _ => rfl) (fun _ _ => ?_)
    split
    case isTrue  => exact .goto trivial
    case isFalse => exact .fail
  case errorCode =>
    exact (FixedLengthInteger.resumable.extend trivial xs ys).turn (fun _ _ => trivial)
      (fun _ _ => rfl) (fun _ _ => .goto trivial)
  case sqlState =>
    exact (Filling.resumable.extend trivial xs ys).turn (fun _ _ => trivial)
      (fun _ _ => rfl) (fun _ _ => .goto trivial)
  case sqlStateMarker =>
    cases xs
    case nil => exact .of_eq_more trivial rfl
    case cons =>
      simp only [turn, List.cons_append]
      split
      case isTrue  => exact .goto trivial
      case isFalse => exact .fail
  case errorMessage => exact .of_eq_more trivial (by simp [turn])

-- The message ends where the packet ends.
theorem resumes : Resumes (fun _ => True) (parse false) (parse isFinal) :=
  Loop.resumes fun p _ => turn_extends p

end Parser

-- A packet that a server may send.
def WellFormed (packet : ErrPacket) : Prop :=
  packet.sqlState.length = 5

instance : DecidablePred WellFormed :=
  fun _ => inferInstanceAs (Decidable (_ = _))

def encode (packet : ErrPacket) : Bytes :=
  toLittleEndian 1 0xff ++ (toLittleEndian 2 packet.errorCode.toNat ++
    35 :: (packet.sqlState ++ packet.errorMessage))

theorem parse_encode {packet : ErrPacket} (h : packet.WellFormed) :
    ({} : Parser).parse true packet.encode = .done packet [] := by
  have hh {ys} : ({} : FixedLengthInteger 1).parse (toLittleEndian 1 0xff ++ ys) = .done 0xff ys :=
    FixedLengthInteger.parse_digits (by decide) (by decide) ys
  have hf := Filling.fill_full (ε := PayloadFailure) (p := ({} : Filling Bytes 5))
    (by simpa [WellFormed] using h) packet.errorMessage
  rw [encode, Parser.parse_goto (by simp only [Parser.turn, hh, Step.turn]; rfl)]
  rw [Parser.parse_goto (by simp only [Parser.turn, FixedLengthInteger.parse_uint16, Step.turn]; rfl)]
  rw [Parser.parse_goto (by simp only [Parser.turn]; rfl)]
  rw [Parser.parse_goto (by simp only [Parser.turn, hf, Step.turn]; rfl)]
  rw [Parser.parse_done (by simp only [Parser.turn]; rfl)]
  simp only [UInt16.ofNat_toNat]
  rfl

section Accepted

variable {bs r : Bytes} {packet result : ErrPacket}

theorem Parser.exists_of_header (h : ({} : Parser).parse true bs = .done packet r) :
    ∃ bs', bs = 0xff :: bs' ∧ (⟨.errorCode {}, {}⟩ : Parser).parse true bs' = .done packet r := by
  obtain hb | ⟨_, bs', hb, h⟩ := Loop.cases_of_done h
  case inl =>
    have ⟨_, _, _, hb⟩ := Step.of_turn_done hb
    split at hb <;> cases hb
  case inr =>
    have ⟨v, _, hv, hb⟩ := Step.of_turn_goto hb
    split at hb <;> cases hb
    case isTrue hm =>
      have ⟨header, he, hl⟩ := FixedLengthInteger.exists_of_parse hv
      obtain ⟨b, rfl⟩ := List.length_eq_one_iff.mp hl
      have hd := FixedLengthInteger.parse_uint8 b bs'
      rw [toLittleEndian, UInt8.ofNat_toNat, toLittleEndian] at hd
      rw [he] at hv
      have hv := (Step.done.inj (hv.symm.trans hd)).left
      have hb : b = 0xff := UInt8.toNat_inj.mp (hv.symm.trans hm)
      exact ⟨bs', hb ▸ he, h⟩

theorem Parser.exists_of_errorCode (h : (⟨.errorCode {}, result⟩ : Parser).parse true bs = .done packet r) :
    ∃ (errorCode : UInt16) (bs' : Bytes) (result' : ErrPacket),
      bs = toLittleEndian 2 errorCode.toNat ++ bs' ∧
      (⟨.sqlStateMarker, result'⟩ : Parser).parse true bs' = .done packet r := by
  obtain hb | ⟨_, bs', hb, h⟩ := Loop.cases_of_done h
  case inl =>
    have ⟨_, _, _, hb⟩ := Step.of_turn_done hb
    cases hb
  case inr =>
    have ⟨v, _, hv, hb⟩ := Step.of_turn_goto hb
    cases hb
    have ⟨xs, he, hl⟩ := FixedLengthInteger.exists_of_parse hv
    have hx : ofLittleEndian xs < 2 ^ 16 := by simpa [hl] using ofLittleEndian_lt xs
    refine ⟨.ofNat (ofLittleEndian xs), bs', _, ?_, h⟩
    rw [UInt16.toNat_ofNat', Nat.mod_eq_of_lt hx, ← hl, toLittleEndian_ofLittleEndian, he]

theorem Parser.exists_of_sqlStateMarker
    (h : (⟨.sqlStateMarker, result⟩ : Parser).parse true bs = .done packet r) :
    ∃ bs', bs = 35 :: bs' ∧ (⟨.sqlState {}, result⟩ : Parser).parse true bs' = .done packet r := by
  cases bs
  case nil => obtain hb | ⟨_, _, hb, h⟩ := Loop.cases_of_done h <;> cases hb
  case cons marker bs =>
    by_cases hm : marker = 35
    case pos =>
      subst hm
      exact ⟨bs, rfl, by rwa [Parser.parse_goto rfl] at h⟩
    case neg =>
      have hf : (⟨.sqlStateMarker, result⟩ : Parser).turn true (marker :: bs) = .fail .malformed bs := if_neg hm
      exact absurd (h.symm.trans (Loop.run_fail hf)) nofun

theorem Parser.exists_of_sqlState (h : (⟨.sqlState {}, result⟩ : Parser).parse true bs = .done packet r) :
    ∃ sqlState errorMessage, bs = sqlState ++ errorMessage ∧ sqlState.length = 5 := by
  obtain hb | ⟨_, _, hb, h⟩ := Loop.cases_of_done h
  case inl =>
    have ⟨_, _, _, hb⟩ := Step.of_turn_done hb
    cases hb
  case inr =>
    have ⟨_, _, hv, _⟩ := Step.of_turn_goto hb
    obtain hs | ⟨sqlState, errorMessage, he, hl⟩ := ({} : Filling Bytes 5).cases_on_chunk bs
    case inl => rw [Filling.fill_short hs] at hv; cases hv
    case inr => exact ⟨sqlState, errorMessage, he, by simpa using hl⟩

-- The bytes that the parser accepts are those of a packet.
theorem exists_of_parse (h : ({} : Parser).parse true bs = .done packet r) :
    ∃ packet : ErrPacket, packet.WellFormed ∧ bs = packet.encode := by
  obtain ⟨_, rfl, h₁⟩ := Parser.exists_of_header h
  obtain ⟨errorCode, _, _, rfl, h₂⟩ := Parser.exists_of_errorCode h₁
  obtain ⟨_, rfl, h₃⟩ := Parser.exists_of_sqlStateMarker h₂
  obtain ⟨sqlState, errorMessage, rfl, hl⟩ := Parser.exists_of_sqlState h₃
  exact ⟨⟨errorCode, sqlState, errorMessage⟩, hl, rfl⟩

end Accepted

end ErrPacket

end ChxSql.Mysql
