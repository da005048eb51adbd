import ChxSql.Mysql.BasicPacket
import ChxSql.Mysql.Packets.ColumnDefinition41
import ChxSql.Mysql.Packets.Err
import ChxSql.Mysql.Packets.Ok
import ChxSql.Mysql.Packets.Resultset

namespace ChxSql.Mysql

open Incremental

-- The value of an `std::error_code`. It is 0 if there is no error.
abbrev ErrorCode := Nat

namespace Errc

def crUnknownError    : ErrorCode := 2000
def crMalformedPacket : ErrorCode := 2027
def crAuthPluginErr   : ErrorCode := 2061

end Errc

-- `result_set`: the names of the columns (`__M_def`) and the rows (`__M_result`).
structure ResultSet where
  names : List Bytes := []
  rows  : List Row   := []
  deriving DecidableEq

namespace PayloadResult

variable {ι : Type} {f : ι → PayloadResult × ι} {done : ErrPacket → ι} {ok : OkPacket → ι} {failed : ι}
variable {isFinal : Bool} {xs ys : Bytes}

-- What an operation does with the payload of an error does not depend on its parts, if it goes on with the parser
-- that it has.
theorem joins_err {more : ErrPacket.Parser → ι} {parser : ErrPacket.Parser} (hy : ys ≠ [])
    (hm : ∀ parser, f (more parser) = ofStep (parser.parse isFinal ys) .pause more done failed) :
    Joins f (ofStep (parser.parse false xs) .pause more done failed)
      (ofStep (parser.parse isFinal (xs ++ ys)) .pause more done failed) :=
  joins_ofStep (ErrPacket.Parser.resumes.extend trivial xs ys) hy (.inr rfl) fun _ => hm _

-- Nor does what it does with that of an OK, if it does not track the session.
theorem joins_ok {headerCh : Byte} {more : OkPacket.Parser headerCh → ι} {parser : OkPacket.Parser headerCh}
    {clientCap : UInt32} (hc : clientCap &&& CapabilitiesFlags.clientSessionTrack = 0) (hp : parser.Untracked)
    (hy : ys ≠ [])
    (hm : ∀ parser, f (more parser) = ofStep (parser.parse clientCap isFinal ys) .pause more ok failed) :
    Joins f (ofStep (parser.parse clientCap false xs) .pause more ok failed)
      (ofStep (parser.parse clientCap isFinal (xs ++ ys)) .pause more ok failed) :=
  joins_ofStep ((OkPacket.Parser.resumes hc).extend hp xs ys) hy (.inr rfl) fun _ => hm _

end PayloadResult

namespace ComQuery

inductive Stage where
  | initialGuess
  | s1Err
  | s1Ok
  | s2ColumnCount
  | s2ColnumDef
  | s2ResultSetRowGuess
  | s2ResultSet
  | s2Err
  | s2OkEof
  | finished
  deriving DecidableEq

-- The alternatives of `__M_payload_parser` that get used.
inductive PayloadParser where
  | err              (parser : ErrPacket.Parser)
  | ok               (parser : OkPacket.Parser 0x00)
  | columnCount      (parser : LengthEncodedInteger)
  | columnDefinition (parser : ColumnDefinition41Packet.Parser)
  | resultset        (parser : ResultsetPacket.Parser)
  | okEof            (parser : OkPacket.Parser 0xfe)
  deriving DecidableEq

structure State where
  stage          : Stage         := .initialGuess
  payloadParser  : PayloadParser := .err {}
  columnCount    : Nat           := 0
  resultSet      : ResultSet     := {}
  ec             : ErrorCode     := 0
  nextSequenceId : UInt8         := 0
  deriving DecidableEq

variable (clientCap : UInt32)

def onErr (isFinal : Bool) (s : State) (parser : ErrPacket.Parser) (bs : Bytes) :
    PayloadResult × State :=
  PayloadResult.ofStep (parser.parse isFinal bs) .pause ({ s with payloadParser := .err · })
    (fun packet =>
      { s with ec := packet.errorCode.toNat, payloadParser := .err {}, stage := .finished })
    { s with payloadParser := .err {} }

def onOk (isFinal : Bool) (s : State) (parser : OkPacket.Parser 0x00) (bs : Bytes) :
    PayloadResult × State :=
  PayloadResult.ofStep (parser.parse clientCap isFinal bs) .pause ({ s with payloadParser := .ok · })
    (fun _ => { s with ec := 0, payloadParser := .ok {}, stage := .finished })
    { s with payloadParser := .ok {} }

def onOkEof (isFinal : Bool) (s : State) (parser : OkPacket.Parser 0xfe) (bs : Bytes) :
    PayloadResult × State :=
  PayloadResult.ofStep (parser.parse clientCap isFinal bs) .pause ({ s with payloadParser := .okEof · })
    (fun _ => { s with ec := 0, payloadParser := .okEof {}, stage := .finished })
    { s with payloadParser := .okEof {} }

def onColumnCount (s : State) (parser : LengthEncodedInteger) (bs : Bytes) : PayloadResult × State :=
  PayloadResult.ofStep (parser.parse bs) .success ({ s with payloadParser := .columnCount · })
    (fun columnCount =>
      { s with columnCount, payloadParser := .columnDefinition {}, stage := .s2ColnumDef })
    { s with payloadParser := .columnCount {} }

def onColumnDefinition (s : State) (parser : ColumnDefinition41Packet.Parser) (bs : Bytes) :
    PayloadResult × State :=
  PayloadResult.ofStep (parser.parse bs) .success ({ s with payloadParser := .columnDefinition · })
    (fun packet =>
      { s with
        resultSet.names := s.resultSet.names ++ [packet.name]
        payloadParser   := .columnDefinition {} })
    { s with payloadParser := .columnDefinition {} }

def onRow (s : State) (parser : ResultsetPacket.Parser) (bs : Bytes) : PayloadResult × State :=
  PayloadResult.ofStep (parser.parse s.columnCount bs) .success ({ s with payloadParser := .resultset · })
    (fun row =>
      { s with
        resultSet.rows := s.resultSet.rows ++ [row]
        payloadParser  := .resultset {}
        stage          := .s2ResultSetRowGuess })
    { s with payloadParser := .resultset {} }

def guess (isFinal : Bool) (s : State) : Bytes → PayloadResult × State
  | []                 => (.needMore, s)
  | bs@(firstByte :: _) =>
    if firstByte = 0xff then
      onErr isFinal { s with payloadParser := .err {}, stage := .s1Err } {} bs
    else if firstByte = 0x00 then
      onOk clientCap isFinal { s with payloadParser := .ok {}, stage := .s1Ok } {} bs
    else
      onColumnCount { s with payloadParser := .columnCount {}, stage := .s2ColumnCount } {} bs

def guessRow (payloadLength remain : Nat) (s : State) (bs : Bytes) : PayloadResult × State :=
  if remain + bs.length ≠ payloadLength then
    (.internalError, s)
  else
    match bs with
    | []             => (.needMore, s)
    | firstByte :: _ =>
      if firstByte = 0xff then
        onErr (remain = 0) { s with payloadParser := .err {}, stage := .s2Err } {} bs
      else if firstByte = 0xfe ∧ payloadLength < 0xffffff then
        onOkEof clientCap (remain = 0) { s with payloadParser := .okEof {}, stage := .s2OkEof } {} bs
      else
        onRow { s with payloadParser := .resultset {}, stage := .s2ResultSet } {} bs

def onPayloadData (payloadLength remain : Nat) (s : State) (bs : Bytes) : PayloadResult × State :=
  match s.stage, s.payloadParser with
  | .initialGuess, _                         => guess clientCap (remain = 0) s bs
  | .s1Err, .err parser                      => onErr (remain = 0) s parser bs
  | .s1Ok, .ok parser                        => onOk clientCap (remain = 0) s parser bs
  | .s2ColumnCount, .columnCount parser      => onColumnCount s parser bs
  | .s2ColnumDef, payloadParser              =>
    if s.resultSet.names.length < s.columnCount then
      match payloadParser with
      | .columnDefinition parser => onColumnDefinition s parser bs
      | _                        => (.undefined, s)
    else
      guessRow clientCap payloadLength remain
        { s with payloadParser := .resultset {}, stage := .s2ResultSetRowGuess } bs
  | .s2ResultSetRowGuess, _                  => guessRow clientCap payloadLength remain s bs
  | .s2Err, .err parser                      => onErr (remain = 0) s parser bs
  | .s2OkEof, .okEof parser                  => onOkEof clientCap (remain = 0) s parser bs
  | .s2ResultSet, .resultset parser          => onRow s parser bs
  | _, _                                     => (.undefined, s)

def impl : Impl State where
  onPacketLengthComplete s _ := (.success, s)
  onSequenceIdComplete s id  :=
    (if s.nextSequenceId = id then .success else .malformed,
      { s with nextSequenceId := s.nextSequenceId + 1 })
  onPayloadData              := onPayloadData clientCap

-- The payload parser has the alternative that the stage reads.
def State.Consistent (s : State) : Prop :=
  match s.stage, s.payloadParser with
  | .s1Err, .err _                    => True
  | .s1Ok, .ok parser                 => parser.Untracked
  | .s2ColumnCount, .columnCount _    => True
  | .s2ColnumDef, .columnDefinition _ => True
  | .s2ResultSet, .resultset _        => True
  | .s2Err, .err _                    => True
  | .s2OkEof, .okEof parser           => parser.Untracked
  | .initialGuess, _                  => True
  | .s2ResultSetRowGuess, _           => True
  | .finished, _                      => True
  | _, _                              => False

variable {clientCap} {s : State} {xs ys bs : Bytes} {len remain : Nat}

section Joins

variable (hy : ys ≠ [])
include hy

theorem part_not_final : (remain + ys.length = 0) = False := by
  have := List.length_pos_of_ne_nil hy
  exact eq_false (by omega)

theorem onErr_joins {parser} (hs : s.stage = .s1Err ∨ s.stage = .s2Err) :
    PayloadResult.Joins (onPayloadData clientCap len remain · ys) (onErr false s parser xs)
      (onErr (remain = 0) s parser (xs ++ ys)) := by
  refine PayloadResult.joins_err hy fun parser => ?_
  obtain hs | hs := hs <;> simp only [onPayloadData, hs, onErr]

theorem onOk_joins (hc : clientCap &&& CapabilitiesFlags.clientSessionTrack = 0) {parser}
    (hp : parser.Untracked) (hs : s.stage = .s1Ok) :
    PayloadResult.Joins (onPayloadData clientCap len remain · ys) (onOk clientCap false s parser xs)
      (onOk clientCap (remain = 0) s parser (xs ++ ys)) := by
  refine PayloadResult.joins_ok hc hp hy fun parser => ?_
  simp only [onPayloadData, hs, onOk]

theorem onOkEof_joins (hc : clientCap &&& CapabilitiesFlags.clientSessionTrack = 0) {parser}
    (hp : parser.Untracked) (hs : s.stage = .s2OkEof) :
    PayloadResult.Joins (onPayloadData clientCap len remain · ys)
      (onOkEof clientCap false s parser xs) (onOkEof clientCap (remain = 0) s parser (xs ++ ys)) := by
  refine PayloadResult.joins_ok hc hp hy fun parser => ?_
  simp only [onPayloadData, hs, onOkEof]

theorem onColumnCount_joins {parser} (hs : s.stage = .s2ColumnCount) :
    PayloadResult.Joins (onPayloadData clientCap len remain · ys) (onColumnCount s parser xs)
      (onColumnCount s parser (xs ++ ys)) := by
  refine PayloadResult.joins_ofStep (LengthEncodedInteger.resumable.extend trivial xs ys) hy
    (.inl rfl) ?_
  intro parser _
  simp only [onPayloadData, hs, onColumnCount]

theorem onColumnDefinition_joins {parser} (hs : s.stage = .s2ColnumDef)
    (hn : s.resultSet.names.length < s.columnCount) :
    PayloadResult.Joins (onPayloadData clientCap len remain · ys) (onColumnDefinition s parser xs)
      (onColumnDefinition s parser (xs ++ ys)) := by
  refine PayloadResult.joins_ofStep
    (ColumnDefinition41Packet.Parser.resumable.extend trivial xs ys) hy (.inl rfl) ?_
  intro parser _
  simp only [onPayloadData, hs, if_pos hn, onColumnDefinition]

theorem onRow_joins {parser} (hs : s.stage = .s2ResultSet) :
    PayloadResult.Joins (onPayloadData clientCap len remain · ys) (onRow s parser xs)
      (onRow s parser (xs ++ ys)) := by
  refine PayloadResult.joins_ofStep (ResultsetPacket.Parser.resumable.extend trivial xs ys) hy
    (.inl rfl) ?_
  intro parser _
  simp only [onPayloadData, hs, onRow]

theorem guess_joins (hc : clientCap &&& CapabilitiesFlags.clientSessionTrack = 0)
    (hs : s.stage = .initialGuess) :
    PayloadResult.Joins (onPayloadData clientCap len remain · ys) (guess clientCap false s xs)
      (guess clientCap (remain = 0) s (xs ++ ys)) := by
  cases xs
  case nil =>
    have hg : guess clientCap (remain = 0) s ys = onPayloadData clientCap len remain s ys := by
      simp only [onPayloadData, hs]
    rw [List.nil_append, hg]
    exact .needMore
  case cons firstByte xs =>
    simp only [guess, List.cons_append]
    split_ifs
    case pos => exact onErr_joins hy (.inl rfl)
    case pos => exact onOk_joins hy hc .fresh rfl
    case neg => exact onColumnCount_joins hy rfl

theorem guessRow_joins (hc : clientCap &&& CapabilitiesFlags.clientSessionTrack = 0)
    (hs : s.stage = .s2ResultSetRowGuess) :
    PayloadResult.Joins (onPayloadData clientCap len remain · ys)
      (guessRow clientCap len (remain + ys.length) s xs)
      (guessRow clientCap len remain s (xs ++ ys)) := by
  have hl : remain + (xs ++ ys).length = remain + ys.length + xs.length := by
    rw [List.length_append]
    omega
  by_cases h : remain + ys.length + xs.length = len
  case neg =>
    simp only [guessRow, hl, ne_eq, h, not_false_iff, if_true]
    exact .stop nofun nofun nofun
  case pos =>
    cases xs
    case nil =>
      have hp : guessRow clientCap len (remain + ys.length) s [] = (.needMore, s) := by
        simp only [guessRow, ne_eq, h, not_true, if_false]
      have hw : guessRow clientCap len remain s ys = onPayloadData clientCap len remain s ys := by
        simp only [onPayloadData, hs]
      rw [List.nil_append, hp, hw]
      exact .needMore
    case cons firstByte xs =>
      rw [h, List.cons_append] at hl
      simp only [guessRow, hl, ne_eq, h, not_true, if_false, part_not_final hy, decide_false,
        List.cons_append]
      split_ifs
      case pos => exact onErr_joins hy (.inr rfl)
      case pos => exact onOkEof_joins hy hc .fresh rfl
      case neg => exact onRow_joins hy rfl

theorem onPayloadData_joins (hc : clientCap &&& CapabilitiesFlags.clientSessionTrack = 0)
    (hs : s.Consistent) :
    PayloadResult.Joins (onPayloadData clientCap len remain · ys)
      (onPayloadData clientCap len (remain + ys.length) s xs)
      (onPayloadData clientCap len remain s (xs ++ ys)) := by
  have ⟨stage, payloadParser, columnCount, resultSet, ec, nextSequenceId⟩ := s
  cases stage <;> simp only [onPayloadData, part_not_final hy, decide_false]
  case initialGuess        => exact guess_joins hy hc rfl
  case s2ResultSetRowGuess => exact guessRow_joins hy hc rfl
  case finished            => exact .stop nofun nofun nofun
  case s2ColnumDef =>
    split
    case isFalse => exact guessRow_joins hy hc rfl
    case isTrue h =>
      cases payloadParser
      case columnDefinition => exact onColumnDefinition_joins hy rfl h
      all_goals exact absurd hs id
  case s1Err =>
    cases payloadParser
    case err => exact onErr_joins hy (.inl rfl)
    all_goals exact absurd hs id
  case s2Err =>
    cases payloadParser
    case err => exact onErr_joins hy (.inr rfl)
    all_goals exact absurd hs id
  case s1Ok =>
    cases payloadParser
    case ok => exact onOk_joins hy hc hs rfl
    all_goals exact absurd hs id
  case s2OkEof =>
    cases payloadParser
    case okEof => exact onOkEof_joins hy hc hs rfl
    all_goals exact absurd hs id
  case s2ColumnCount =>
    cases payloadParser
    case columnCount => exact onColumnCount_joins hy rfl
    all_goals exact absurd hs id
  case s2ResultSet =>
    cases payloadParser
    case resultset => exact onRow_joins hy rfl
    all_goals exact absurd hs id

end Joins

section Consistent

theorem onErr_consistent {isFinal parser} (hs : s.stage = .s1Err ∨ s.stage = .s2Err) :
    (onErr isFinal s parser bs).2.Consistent := by
  refine PayloadResult.ofStep_invariant (fun _ => ?_) (fun _ => trivial) ?_
  all_goals obtain hs | hs := hs <;> simp only [State.Consistent, hs]

theorem onOk_consistent (hc : clientCap &&& CapabilitiesFlags.clientSessionTrack = 0)
    {isFinal parser} (hp : parser.Untracked) (hs : s.stage = .s1Ok) :
    (onOk clientCap isFinal s parser bs).2.Consistent := by
  refine PayloadResult.ofStep_invariant (fun hm => ?_) (fun _ => trivial) ?_
  all_goals simp only [State.Consistent, hs]
  case refine_1 => exact OkPacket.Parser.parse_untracked hc hp hm
  case refine_2 => exact .fresh

theorem onOkEof_consistent (hc : clientCap &&& CapabilitiesFlags.clientSessionTrack = 0)
    {isFinal parser} (hp : parser.Untracked) (hs : s.stage = .s2OkEof) :
    (onOkEof clientCap isFinal s parser bs).2.Consistent := by
  refine PayloadResult.ofStep_invariant (fun hm => ?_) (fun _ => trivial) ?_
  all_goals simp only [State.Consistent, hs]
  case refine_1 => exact OkPacket.Parser.parse_untracked hc hp hm
  case refine_2 => exact .fresh

theorem onColumnCount_consistent {parser} (hs : s.stage = .s2ColumnCount) :
    (onColumnCount s parser bs).2.Consistent := by
  refine PayloadResult.ofStep_invariant (fun _ => ?_) (fun _ => trivial) ?_
  all_goals simp only [State.Consistent, hs]

theorem onColumnDefinition_consistent {parser} (hs : s.stage = .s2ColnumDef) :
    (onColumnDefinition s parser bs).2.Consistent := by
  refine PayloadResult.ofStep_invariant (fun _ => ?_) (fun _ => ?_) ?_
  all_goals simp only [State.Consistent, hs]

theorem onRow_consistent {parser} (hs : s.stage = .s2ResultSet) :
    (onRow s parser bs).2.Consistent := by
  refine PayloadResult.ofStep_invariant (fun _ => ?_) (fun _ => trivial) ?_
  all_goals simp only [State.Consistent, hs]

theorem guess_consistent (hc : clientCap &&& CapabilitiesFlags.clientSessionTrack = 0) {isFinal}
    (hs : s.Consistent) : (guess clientCap isFinal s bs).2.Consistent := by
  cases bs
  case nil => exact hs
  case cons =>
    simp only [guess]
    split_ifs
    case pos => exact onErr_consistent (.inl rfl)
    case pos => exact onOk_consistent hc .fresh rfl
    case neg => exact onColumnCount_consistent rfl

theorem guessRow_consistent (hc : clientCap &&& CapabilitiesFlags.clientSessionTrack = 0)
    (hs : s.Consistent) : (guessRow clientCap len remain s bs).2.Consistent := by
  simp only [guessRow]
  split
  case isTrue => exact hs
  case isFalse =>
    cases bs
    case nil => exact hs
    case cons =>
      dsimp only
      split_ifs
      case pos => exact onErr_consistent (.inr rfl)
      case pos => exact onOkEof_consistent hc .fresh rfl
      case neg => exact onRow_consistent rfl

theorem onPayloadData_consistent (hc : clientCap &&& CapabilitiesFlags.clientSessionTrack = 0)
    (hs : s.Consistent) : (onPayloadData clientCap len remain s bs).2.Consistent := by
  simp only [onPayloadData]
  split
  case h_1 => exact guess_consistent hc hs
  case h_2 h _ => exact onErr_consistent (.inl h)
  case h_3 h hp => exact onOk_consistent hc (by simpa only [State.Consistent, h, hp] using hs) h
  case h_4 h _ => exact onColumnCount_consistent h
  case h_5 h =>
    split
    case isTrue =>
      split
      case h_1 => exact onColumnDefinition_consistent h
      case h_2 => exact hs
    case isFalse => exact guessRow_consistent hc trivial
  case h_6 => exact guessRow_consistent hc hs
  case h_7 h _ => exact onErr_consistent (.inr h)
  case h_8 h hp => exact onOkEof_consistent hc (by simpa only [State.Consistent, h, hp] using hs) h
  case h_9 h _ => exact onRow_consistent h
  case h_10 => exact hs

end Consistent

theorem impl_lawful (hc : clientCap &&& CapabilitiesFlags.clientSessionTrack = 0) :
    (impl clientCap).Lawful State.Consistent where
  length hs           := hs
  sequenceId hs       := hs
  payload hs          := onPayloadData_consistent hc hs
  joins _ _ _ _ hs hy := onPayloadData_joins hy hc hs

end ComQuery

end ChxSql.Mysql
