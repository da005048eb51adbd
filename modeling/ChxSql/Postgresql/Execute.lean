import ChxSql.Postgresql.Dialogue

namespace ChxSql.Postgresql

open Incremental Msg

namespace Execute

inductive Expect where
  | bindComplete
  | rowDescOrNoData
  | dataRow
  | emptyQueryResponse
  | readyForQuery
  deriving DecidableEq, Repr

structure State where
  err    : ErrorCode := .none
  result : ResultSets := []
  curr   : Option ResultSet := none
  expect : Expect := .bindComplete
  deriving DecidableEq

def select (s : State) (type : Byte) : Selection State :=
  if type = letter '2' then
    if s.expect = .bindComplete then
      .parse (.bindComplete ⟨⟩) { s with expect := .rowDescOrNoData }
    else
      .malformed
  else if type = letter 'T' then
    if s.expect = .rowDescOrNoData then
      .parse (.rowDescription {}) { s with expect := .dataRow }
    else
      .malformed
  else if type = letter 'D' then
    if s.expect = .dataRow then
      match s.curr with
      | some curr => .parse (.dataRow (.ofColumns (curr.desc.length % 2 ^ 16))) s
      | none      => .undefined
    else
      .malformed
  else if type = letter 'C' then
    if s.expect = .dataRow then
      .parse (.commandComplete {}) { s with expect := .readyForQuery }
    else
      .malformed
  else if type = letter 'n' then
    if s.expect = .rowDescOrNoData then
      .parse (.noData ⟨⟩) { s with expect := .emptyQueryResponse }
    else
      .malformed
  else if type = letter 'I' then
    if s.expect = .emptyQueryResponse then
      .parse (.emptyQueryResponse ⟨⟩) { s with expect := .readyForQuery }
    else
      .malformed
  else if type = letter 'Z' then
    if s.expect = .readyForQuery then
      .parse (.readyForQuery {}) s
    else
      .malformed
  else if type = letter 'E' then
    .parse (.errorResponse {}) { s with expect := .readyForQuery }
  else if type = letter 'N' then
    .parse (.noticeResponse {}) s
  else
    .malformed

def accept (s : State) : AnyMessage → Move State Report
  | .errorResponse m      => .goto { s with err := makeEc m.ec }
  | .noticeResponse _     => .goto s
  | .bindComplete _       => .goto s
  | .rowDescription m     => .goto { s with curr := some { desc := m.desc } }
  | .dataRow m            =>
    match s.curr with
    | some curr => .goto { s with curr := some { curr with data := curr.data ++ [m.data] } }
    | none      => .fail .undefined
  | .noData _             => .goto s
  | .readyForQuery _      => .complete { ec := s.err, resultSets := s.result }
  | .commandComplete _    => .goto { s with result := s.result ++ [s.curr], curr := none }
  | .emptyQueryResponse _ => .goto s
  | _                     => .fail .undefined

end Execute

-- `async_execute`
def execute : Dialogue Execute.State where
  start      := {}
  select     := Execute.select
  accept     := Execute.accept
  resultSets := (·.result)

namespace Execute

-- The current result set is there when rows are expected and while one is being read, unless the
-- message that introduces it is still being read.
def Holds (s : State) : Option Byte → Prop
  | none      => s.expect = .dataRow → s.curr.isSome
  | some type =>
    type ∈ ['2', 'T', 'D', 'C', 'n', 'I', 'Z', 'E', 'N'].map letter ∧
      (type = letter 'C' → s.expect ≠ .dataRow) ∧
      (type = letter 'T' ∨ s.curr.isSome ∨ (s.expect ≠ .dataRow ∧ type ≠ letter 'D'))

section

variable {s : State} {type : Byte}

theorem select_bindComplete : select s (letter '2') =
    if s.expect = .bindComplete then
      .parse (.bindComplete ⟨⟩) { s with expect := .rowDescOrNoData }
    else
      .malformed := rfl

theorem select_rowDescription : select s (letter 'T') =
    if s.expect = .rowDescOrNoData then
      .parse (.rowDescription {}) { s with expect := .dataRow }
    else
      .malformed := rfl

theorem select_dataRow : select s (letter 'D') =
    if s.expect = .dataRow then
      match s.curr with
      | some curr => .parse (.dataRow (.ofColumns (curr.desc.length % 2 ^ 16))) s
      | none      => .undefined
    else
      .malformed := rfl

theorem select_commandComplete : select s (letter 'C') =
    if s.expect = .dataRow then
      .parse (.commandComplete {}) { s with expect := .readyForQuery }
    else
      .malformed := rfl

theorem select_noData : select s (letter 'n') =
    if s.expect = .rowDescOrNoData then
      .parse (.noData ⟨⟩) { s with expect := .emptyQueryResponse }
    else
      .malformed := rfl

theorem select_emptyQueryResponse : select s (letter 'I') =
    if s.expect = .emptyQueryResponse then
      .parse (.emptyQueryResponse ⟨⟩) { s with expect := .readyForQuery }
    else
      .malformed := rfl

theorem select_readyForQuery : select s (letter 'Z') =
    if s.expect = .readyForQuery then .parse (.readyForQuery {}) s else .malformed := rfl

theorem select_errorResponse : select s (letter 'E') =
    .parse (.errorResponse {}) { s with expect := .readyForQuery } := rfl

theorem select_noticeResponse : select s (letter 'N') =
    .parse (.noticeResponse {}) s := rfl

theorem select_of_not_mem (h : type ∉ ['2', 'T', 'D', 'C', 'n', 'I', 'Z', 'E', 'N'].map letter) : select s type = .malformed := by
  simp only [List.map_cons, List.map_nil, List.mem_cons, List.not_mem_nil, or_false, not_or] at h
  have ⟨h₀, h₁, h₂, h₃, h₄, h₅, h₆, h₇, h₈⟩ := h
  rw [select, if_neg h₀, if_neg h₁, if_neg h₂, if_neg h₃, if_neg h₄, if_neg h₅, if_neg h₆, if_neg h₇, if_neg h₈]

-- The choice of a parser changes nothing but what the operation expects.
theorem select_satisfies : (select s type).Satisfies fun _ s' => ∃ expect, s' = { s with expect } := by
  rw [select]
  repeat' apply Selection.satisfies_ite
  all_goals try split
  all_goals first | trivial | exact ⟨_, rfl⟩

end

namespace Holds

variable {s : State}

theorem to_ne (type : Byte) (hm : type ∈ ['2', 'T', 'D', 'C', 'n', 'I', 'Z', 'E', 'N'].map letter)
    (he : s.expect ≠ .dataRow) (ht : type ≠ letter 'D') : Holds s (some type) :=
  ⟨hm, fun _ => he, .inr (.inr ⟨he, ht⟩)⟩

theorem of_ne (type : Byte) (h : Holds s (some type)) (ht : type ≠ letter 'T') : Holds s none := by
  intro he
  cases h.right.right
  case inl h => exact absurd h ht
  case inr h => exact h.resolve_right fun h => h.left he

theorem dataRow (h : Holds s (some (letter 'D'))) : ∃ curr, s.curr = some curr := by
  cases h.right.right
  case inl h => exact absurd h (by decide)
  case inr h => exact Option.isSome_iff_exists.mp <| h.resolve_right fun h => h.right rfl

end Holds

theorem holds_select {s : State} {type : Byte} (h : Holds s none) :
    (select s type).All fun m s' => Holds s' (some (Message.messageType m)) := by
  by_cases hm : type ∈ ['2', 'T', 'D', 'C', 'n', 'I', 'Z', 'E', 'N'].map letter
  case neg => rw [select_of_not_mem hm]; trivial
  simp only [List.map_cons, List.map_nil, List.mem_cons, List.not_mem_nil, or_false] at hm
  rcases hm with rfl | rfl | rfl | rfl | rfl | rfl | rfl | rfl | rfl
  · rw [select_bindComplete]
    split <;> first | trivial | exact .to_ne (letter '2') (by decide) nofun (by decide)
  · rw [select_rowDescription]
    split <;> first | trivial | exact ⟨show letter 'T' ∈ _ by decide, nofun, .inl rfl⟩
  · rw [select_dataRow]
    split <;> try trivial
    case isTrue he =>
      have ⟨curr, hc⟩ := Option.isSome_iff_exists.mp (h he)
      rw [hc]
      exact ⟨show letter 'D' ∈ _ by decide, fun h => absurd (show letter 'D' = _ from h) (by decide),
        .inr (.inl (by simp [hc]))⟩
  · rw [select_commandComplete]
    split <;> first | trivial | exact .to_ne (letter 'C') (by decide) nofun (by decide)
  · rw [select_noData]
    split <;> first | trivial | exact .to_ne (letter 'n') (by decide) nofun (by decide)
  · rw [select_emptyQueryResponse]
    split <;> first | trivial | exact .to_ne (letter 'I') (by decide) nofun (by decide)
  · rw [select_readyForQuery]
    split <;> try trivial
    case isTrue he => exact .to_ne (letter 'Z') (by decide) (by simp [he]) (by decide)
  · exact .to_ne (letter 'E') (by decide) nofun (by decide)
  · by_cases he : s.expect = .dataRow
    case neg => exact .to_ne (letter 'N') (by decide) he (by decide)
    case pos =>
      exact ⟨show letter 'N' ∈ _ by decide, fun h => absurd (show letter 'N' = _ from h) (by decide),
        .inr (.inl (h he))⟩

theorem holds_accept {s : State} {m : AnyMessage} (h : Holds s (some (Message.messageType m))) :
    (accept s m).All fun s' => Holds s' none := by
  cases m
  case rowDescription  => exact fun _ => rfl
  case readyForQuery   => trivial
  case commandComplete => exact fun he => absurd he (h.right.left rfl)
  case dataRow m =>
    have ⟨curr, hc⟩ := Holds.dataRow h
    simp only [accept, hc]
    exact fun _ => rfl
  case errorResponse => exact Holds.of_ne (letter 'E') h (by decide)
  case noticeResponse => exact Holds.of_ne (letter 'N') h (by decide)
  case bindComplete => exact Holds.of_ne (letter '2') h (by decide)
  case noData => exact Holds.of_ne (letter 'n') h (by decide)
  case emptyQueryResponse => exact Holds.of_ne (letter 'I') h (by decide)
  case parameterStatus => exact absurd (show letter 'S' ∈ _ from h.left) (by decide)
  case parseComplete => exact absurd (show letter '1' ∈ _ from h.left) (by decide)
  case backendKeyData => exact absurd (show letter 'K' ∈ _ from h.left) (by decide)
  case authentication => exact absurd (show letter 'R' ∈ _ from h.left) (by decide)

-- Only a ReadyForQuery completes the operation.
theorem accept_complete {s : State} {m : AnyMessage} {r : Report} (h : accept s m = .complete r) :
    Message.messageType m = letter 'Z' := by
  cases m
  case readyForQuery => rfl
  case dataRow =>
    simp only [accept] at h
    split at h <;> cases h
  all_goals cases h

def invariant : execute.Invariant where
  holds  := Holds
  start  := nofun
  select := holds_select
  accept := holds_accept

end Execute

end ChxSql.Postgresql
