import ChxSql.Postgresql.Dialogue

namespace ChxSql.Postgresql

open Incremental Msg

namespace ParseQuery

inductive Stage where
  | waitForParseComplete
  | waitForReadyForQuery
  deriving DecidableEq, Repr

def select (stage : Stage) (type : Byte) : Selection Stage :=
  if type = letter '1' then
    if stage = .waitForParseComplete then .parse (.parseComplete ⟨⟩) stage else .malformed
  else if type = letter 'E' then
    .parse (.errorResponse {}) stage
  else if type = letter 'N' then
    .parse (.noticeResponse {}) stage
  else if type = letter 'Z' then
    if stage = .waitForReadyForQuery then .parse (.readyForQuery {}) stage else .malformed
  else
    .malformed

def accept (stage : Stage) : AnyMessage → Move Stage Report
  | .parseComplete _  => .goto .waitForReadyForQuery
  | .errorResponse m  => .complete { ec := makeEc m.ec }
  | .noticeResponse _ => .goto stage
  | .readyForQuery _  => .complete { ec := .none }
  | _                 => .fail .undefined

end ParseQuery

-- `async_parse`
def parseQuery : Dialogue ParseQuery.Stage where
  start        := .waitForParseComplete
  select       := ParseQuery.select
  accept       := ParseQuery.accept
  resultSets _ := []

namespace ParseQuery

theorem select_errorResponse {stage : Stage} :
    select stage (letter 'E') = .parse (.errorResponse {}) stage := rfl

theorem select_readyForQuery {stage : Stage} : select stage (letter 'Z') =
    if stage = .waitForReadyForQuery then .parse (.readyForQuery {}) stage else .malformed := rfl

-- The messages that the operation reads.
def Holds (_ : Stage) : Option Byte → Prop
  | none      => True
  | some type => type ∈ ['1', 'E', 'N', 'Z'].map letter

theorem holds_select {stage : Stage} {type : Byte} :
    (select stage type).All fun m stage' => Holds stage' (some (Message.messageType m)) := by
  simp only [select]
  split_ifs <;> first | trivial | simp [Selection.All, Holds]

theorem holds_accept {stage : Stage} {m : AnyMessage}
    (h : Holds stage (some (Message.messageType m))) :
    (accept stage m).All fun stage' => Holds stage' none := by
  cases m
  case parseComplete | errorResponse | noticeResponse | readyForQuery => trivial
  all_goals exact absurd (show letter _ ∈ _ from h) (by decide)

-- A ReadyForQuery completes the operation, and so does an ErrorResponse.
theorem accept_complete {stage : Stage} {m : AnyMessage} {r : Report}
    (h : accept stage m = .complete r) :
    Message.messageType m = letter 'Z' ∨ Message.messageType m = letter 'E' := by
  cases m <;> cases h
  case readyForQuery.refl => exact .inl rfl
  case errorResponse.refl => exact .inr rfl

def invariant : parseQuery.Invariant where
  holds    := Holds
  start    := trivial
  select _ := holds_select
  accept   := holds_accept

end ParseQuery

end ChxSql.Postgresql
