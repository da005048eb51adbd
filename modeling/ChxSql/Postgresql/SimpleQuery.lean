import ChxSql.Postgresql.Dialogue

namespace ChxSql.Postgresql

open Incremental Msg

namespace SimpleQuery

-- `__CurrRespType`
inductive CurrRespType where
  | unknown
  | withDataNoDef
  | withDataWithDef
  | empty
  deriving DecidableEq, Repr

structure State where
  result   : ResultSets := []
  curr     : Option ResultSet := none
  currType : CurrRespType := .unknown
  deriving DecidableEq

def select (s : State) (type : Byte) : Selection State :=
  if type = letter 'D' then
    if s.currType = .withDataWithDef then
      match s.curr with
      | some curr => .parse (.dataRow (.ofColumns (curr.desc.length % 2 ^ 16))) s
      | none      => .undefined
    else
      .malformed
  else if type = letter 'T' then
    if s.currType = .unknown then
      .parse (.rowDescription {}) { s with currType := .withDataNoDef, curr := some {} }
    else
      .malformed
  else if type = letter 'I' then
    if s.currType = .unknown then
      .parse (.emptyQueryResponse ⟨⟩) { s with currType := .empty, curr := none }
    else
      .malformed
  else if type = letter 'C' then
    .parse (.commandComplete {}) s
  else if type = letter 'Z' then
    .parse (.readyForQuery {}) s
  else if type = letter 'E' then
    .parse (.errorResponse {}) s
  else if type = letter 'N' then
    .parse (.noticeResponse {}) s
  else if type = letter 'S' then
    .parse (.parameterStatus {}) s
  else
    .malformed

def accept (s : State) : AnyMessage → Move State Report
  | .dataRow m            =>
    match s.curr with
    | some curr => .goto { s with curr := some { curr with data := curr.data ++ [m.data] } }
    | none      => .fail .undefined
  | .rowDescription m     =>
    match s.curr with
    | some curr =>
      .goto { s with curr := some { curr with desc := m.desc }, currType := .withDataWithDef }
    | none      => .fail .undefined
  | .emptyQueryResponse _ => .goto s
  | .commandComplete _    =>
    .goto { result := s.result ++ [s.curr], curr := none, currType := .unknown }
  | .readyForQuery _      => .complete { ec := .none, resultSets := s.result }
  | .errorResponse m      => .complete { ec := makeEc m.ec, resultSets := s.result }
  | .noticeResponse _     => .goto s
  | .parameterStatus _    => .goto s
  | _                     => .fail .undefined

end SimpleQuery

-- `async_simple_query`
def simpleQuery : Dialogue SimpleQuery.State where
  start      := {}
  select     := SimpleQuery.select
  accept     := SimpleQuery.accept
  resultSets := (·.result)

namespace SimpleQuery

section

variable {s : State} {type : Byte}

theorem select_dataRow : select s (letter 'D') =
    if s.currType = .withDataWithDef then
      match s.curr with
      | some curr => .parse (.dataRow (.ofColumns (curr.desc.length % 2 ^ 16))) s
      | none      => .undefined
    else
      .malformed := rfl

theorem select_rowDescription : select s (letter 'T') =
    if s.currType = .unknown then
      .parse (.rowDescription {}) { s with currType := .withDataNoDef, curr := some {} }
    else
      .malformed := rfl

theorem select_emptyQueryResponse : select s (letter 'I') =
    if s.currType = .unknown then
      .parse (.emptyQueryResponse ⟨⟩) { s with currType := .empty, curr := none }
    else
      .malformed := rfl

theorem select_commandComplete : select s (letter 'C') = .parse (.commandComplete {}) s := rfl

theorem select_readyForQuery : select s (letter 'Z') = .parse (.readyForQuery {}) s := rfl

theorem select_errorResponse : select s (letter 'E') = .parse (.errorResponse {}) s := rfl

theorem select_noticeResponse : select s (letter 'N') = .parse (.noticeResponse {}) s := rfl

theorem select_parameterStatus : select s (letter 'S') = .parse (.parameterStatus {}) s := rfl

theorem select_of_not_mem (h : type ∉ ['D', 'T', 'I', 'C', 'Z', 'E', 'N', 'S'].map letter) :
    select s type = .malformed := by
  simp only [List.map_cons, List.map_nil, List.mem_cons, List.not_mem_nil, or_false, not_or] at h
  have ⟨h₀, h₁, h₂, h₃, h₄, h₅, h₆, h₇⟩ := h
  rw [select, if_neg h₀, if_neg h₁, if_neg h₂, if_neg h₃, if_neg h₄, if_neg h₅, if_neg h₆, if_neg h₇]

end

-- The current result set is there from the message that introduces it on.
structure Holds (s : State) (type : Option Byte) : Prop where
  types : ∀ t, type = some t → t ∈ ['D', 'T', 'I', 'C', 'Z', 'E', 'N', 'S'].map letter
  curr  : s.currType = .withDataWithDef ∨ type = some (letter 'D') ∨ type = some (letter 'T') →
    s.curr.isSome

theorem Holds.of_mem {s : State} (type : Byte)
    (hm : type ∈ ['D', 'T', 'I', 'C', 'Z', 'E', 'N', 'S'].map letter)
    (hc : s.currType = .withDataWithDef ∨ type = letter 'D' ∨ type = letter 'T' → s.curr.isSome) :
    Holds s (some type) :=
  ⟨fun _ ht => Option.some.inj ht ▸ hm, by simpa using hc⟩

theorem holds_select {s : State} {type : Byte} (h : Holds s none) :
    (select s type).All fun m s' => Holds s' (some (Message.messageType m)) := by
  have hn (type) (hm : type ∈ ['D', 'T', 'I', 'C', 'Z', 'E', 'N', 'S'].map letter)
      (hd : type ≠ letter 'D') (ht : type ≠ letter 'T') : Holds s (some type) :=
    .of_mem type hm fun hc => h.curr (.inl (hc.resolve_right (by simp [hd, ht])))
  by_cases hm : type ∈ ['D', 'T', 'I', 'C', 'Z', 'E', 'N', 'S'].map letter
  case neg => rw [select_of_not_mem hm]; trivial
  simp only [List.map_cons, List.map_nil, List.mem_cons, List.not_mem_nil, or_false] at hm
  rcases hm with rfl | rfl | rfl | rfl | rfl | rfl | rfl | rfl
  · rw [select_dataRow]
    split <;> try trivial
    case isTrue he =>
      have hc := h.curr (.inl he)
      have ⟨curr, he⟩ := Option.isSome_iff_exists.mp hc
      simp only [he]
      exact .of_mem (letter 'D') (by decide) fun _ => hc
  · rw [select_rowDescription]
    split <;> try trivial
    exact .of_mem (letter 'T') (by decide) fun _ => rfl
  · rw [select_emptyQueryResponse]
    split <;> try trivial
    exact .of_mem (letter 'I') (by decide) fun hc =>
      absurd (hc.resolve_left nofun) (by decide)
  · exact hn (letter 'C') (by decide) (by decide) (by decide)
  · exact hn (letter 'Z') (by decide) (by decide) (by decide)
  · exact hn (letter 'E') (by decide) (by decide) (by decide)
  · exact hn (letter 'N') (by decide) (by decide) (by decide)
  · exact hn (letter 'S') (by decide) (by decide) (by decide)

theorem holds_accept {s : State} {m : AnyMessage} (h : Holds s (some (Message.messageType m))) :
    (accept s m).All fun s' => Holds s' none := by
  have hn : Holds s none := ⟨nofun, fun hc => h.curr (.inl (by simpa using hc))⟩
  cases m
  case dataRow =>
    have ⟨curr, hc⟩ := Option.isSome_iff_exists.mp (h.curr (.inr (.inl rfl)))
    simp only [accept, hc]
    exact ⟨nofun, fun _ => rfl⟩
  case rowDescription =>
    have ⟨curr, hc⟩ := Option.isSome_iff_exists.mp (h.curr (.inr (.inr rfl)))
    simp only [accept, hc]
    exact ⟨nofun, fun _ => rfl⟩
  case commandComplete                => exact ⟨nofun, nofun⟩
  case readyForQuery | errorResponse  => trivial
  case emptyQueryResponse | noticeResponse | parameterStatus => exact hn
  all_goals exact absurd (show letter _ ∈ _ from h.types _ rfl) (by decide)

-- A ReadyForQuery completes the operation, and so does an ErrorResponse.
theorem accept_complete {s : State} {m : AnyMessage} {r : Report} (h : accept s m = .complete r) :
    Message.messageType m = letter 'Z' ∨ Message.messageType m = letter 'E' := by
  cases m
  case readyForQuery => exact .inl rfl
  case errorResponse => exact .inr rfl
  case dataRow | rowDescription =>
    simp only [accept] at h
    split at h <;> cases h
  all_goals cases h

def invariant : simpleQuery.Invariant where
  holds  := Holds
  start  := ⟨nofun, nofun⟩
  select := holds_select
  accept := holds_accept

end SimpleQuery

end ChxSql.Postgresql
