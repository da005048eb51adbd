import ChxSql.Postgresql.Msg.Any

namespace ChxSql.Postgresql

open Incremental Msg

-- `message_parser` has the members of `basic_parser`. It differs in its guess stage, where the type
-- byte decides which alternative reads the message.
namespace MessageParser

variable (table : Byte → Option AnyMessage)

-- One turn of the loop of `message_parser::operator()`. The stages after the guess stage are those
-- of `basic_parser`.
def turn (p : BasicParser AnyMessage) (bs : Bytes) :
    Turn Byte (BasicParser AnyMessage) AnyMessage ParseResult :=
  match p.phase, bs with
  | .type, type :: bs =>
    match table type with
    | none   => .fail .malformed bs
    | some m =>
      match Message.onMessageType m type with
      | .success       => .goto { phase := .length {}, bodyRemain := p.bodyRemain, result := m } bs
      | .malformed     => .fail .malformed bs
      | .internalError => .fail .internalError bs
      | _              => .fail .undefined bs
  | _, bs => p.turn bs

variable {table} {p p' : BasicParser AnyMessage} {bs r : Bytes}

theorem turn_of_phase (h : p.phase ≠ .type) (bs : Bytes) : turn table p bs = p.turn bs := by
  simp only [turn]
  split
  case h_1 hp => exact absurd hp h
  case h_2    => rfl

theorem turn_progress (h : turn table p bs = .goto p' r) :
    r.length * 1 + p'.rank < bs.length * 1 + p.rank := by
  simp only [turn] at h
  split at h
  case h_2 => exact BasicParser.turn_progress h
  case h_1 type bs hp =>
    split at h
    case h_1 => cases h
    case h_2 =>
      split at h <;> cases h
      simp [BasicParser.rank, hp]

variable (table) in
def loop : Loop Byte (BasicParser AnyMessage) AnyMessage ParseResult where
  body     := turn table
  weight   := 1
  rank     := BasicParser.rank
  progress := turn_progress

variable (table) in
-- `message_parser::operator()`
def parse (p : BasicParser AnyMessage) (bs : Bytes) :
    Step Byte (BasicParser AnyMessage) AnyMessage ParseResult :=
  (loop table).run p bs

-- Past the type byte a `message_parser` does what a `basic_parser` does. The induction is on the
-- turns of the latter.
theorem parse_of_phase (h : p.phase ≠ .type) (bs : Bytes) : parse table p bs = p.parse bs := by
  have ht {p : BasicParser AnyMessage} (h : p.phase ≠ .type) (bs) :
      (loop table).body p bs = BasicParser.loop.body p bs := turn_of_phase h bs
  induction p, bs using Loop.run.induct (l := BasicParser.loop (M := AnyMessage))
  case case1 p bs _ _ hb ih =>
    rw [parse, Loop.run_goto ((ht h bs).trans hb), BasicParser.parse, Loop.run_goto hb]
    exact ih (BasicParser.turn_phase h (.inl hb))
  case case2 p bs _ _ hb =>
    rw [parse, Loop.run_more ((ht h bs).trans hb), BasicParser.parse, Loop.run_more hb]
  case case3 p bs _ _ hb =>
    rw [parse, Loop.run_done ((ht h bs).trans hb), BasicParser.parse, Loop.run_done hb]
  case case4 p bs _ _ hb =>
    rw [parse, Loop.run_fail ((ht h bs).trans hb), BasicParser.parse, Loop.run_fail hb]

variable {type : Byte} {m m₀ : AnyMessage} {n : Nat}

theorem parse_nil : parse table ⟨.type, n, m₀⟩ [] = .more ⟨.type, n, m₀⟩ [] :=
  Loop.run_more rfl

theorem parse_none (ht : table type = none) :
    parse table ⟨.type, n, m₀⟩ (type :: bs) = .fail .malformed bs := by
  refine Loop.run_fail ?_
  simp [loop, turn, ht]

-- A message whose type is in the table is read as `basic_parser` reads it.
theorem parse_some (ht : table type = some m) :
    parse table ⟨.type, n, m₀⟩ (type :: bs) = BasicParser.parse ⟨.type, n, m⟩ (type :: bs) := by
  cases hm : Message.onMessageType m type
  case success =>
    have h₁ : (loop table).body ⟨.type, n, m₀⟩ (type :: bs) = .goto ⟨.length {}, n, m⟩ bs := by
      simp [loop, turn, ht, hm]
    have h₂ : BasicParser.loop.body ⟨.type, n, m⟩ (type :: bs) = .goto ⟨.length {}, n, m⟩ bs := by
      simp [BasicParser.loop, BasicParser.turn, hm]
    rw [parse, Loop.run_goto h₁, BasicParser.parse, Loop.run_goto h₂]
    exact parse_of_phase (p := ⟨.length {}, n, m⟩) (by simp) bs
  all_goals
    obtain ⟨e, h₁, h₂⟩ : ∃ e, (loop table).body ⟨.type, n, m₀⟩ (type :: bs) = .fail e bs ∧
        BasicParser.loop.body ⟨.type, n, m⟩ (type :: bs) = .fail e bs := by
      simp [loop, turn, ht, hm, BasicParser.loop, BasicParser.turn]
    rw [parse, Loop.run_fail h₁, BasicParser.parse, Loop.run_fail h₂]

-- A parser that has read the type byte does not wait for it again.
theorem parse_some_phase (ht : table type = some m)
    (h : parse table ⟨.type, n, m₀⟩ (type :: bs) = .more p' r) : p'.phase ≠ .type := by
  cases hm : Message.onMessageType m type
  case success =>
    have h₁ : (loop table).body ⟨.type, n, m₀⟩ (type :: bs) = .goto ⟨.length {}, n, m⟩ bs := by
      simp [loop, turn, ht, hm]
    have hp : (⟨.length {}, n, m⟩ : BasicParser AnyMessage).phase ≠ .type := by simp
    rw [parse, Loop.run_goto h₁, ← parse, parse_of_phase hp] at h
    exact BasicParser.parse_phase hp h
  all_goals
    obtain ⟨e, h₁⟩ : ∃ e, (loop table).body ⟨.type, n, m₀⟩ (type :: bs) = .fail e bs := by
      simp [loop, turn, ht, hm]
    rw [parse, Loop.run_fail h₁] at h
    cases h

theorem extends_of_phase {st st' : Step Byte (BasicParser AnyMessage) AnyMessage ParseResult}
    (h : st.Extends (fun _ => True) BasicParser.parse bs st')
    (hp : ∀ p' r, st = .more p' r → p'.phase ≠ .type) :
    st.Extends (fun _ => True) (parse table) bs st' := by
  cases h
  case more => exact .of_eq_more trivial (parse_of_phase (hp _ _ rfl) _).symm
  case done => exact .done
  case fail => exact .fail

variable (table) in
theorem resumable : Resumable (parse table) := by
  refine .of_extends fun p xs ys => ?_
  by_cases hp : p.phase = .type
  case neg =>
    rw [parse_of_phase hp, parse_of_phase hp]
    exact extends_of_phase (BasicParser.resumable.extend trivial xs ys)
      (fun _ _ h => BasicParser.parse_phase hp h)
  case pos =>
    have ⟨_, n, m₀⟩ := p
    cases hp
    cases xs
    case nil => rw [parse_nil]; exact .of_eq_more trivial rfl
    case cons type xs =>
      rw [List.cons_append]
      cases ht : table type
      case none => rw [parse_none ht, parse_none ht]; exact .fail
      case some m =>
        have he := BasicParser.resumable.extend (s := ⟨.type, n, m⟩) trivial (type :: xs) ys
        have hp {p' r} (h : parse table ⟨.type, n, m₀⟩ (type :: xs) = .more p' r) := parse_some_phase ht h
        simp only [parse_some ht] at hp ⊢
        exact extends_of_phase he fun _ _ => hp

variable (table) in
theorem shrinks : Shrinks (parse table) := by
  intro p bs
  by_cases hp : p.phase = .type
  case neg => rw [parse_of_phase hp]; exact BasicParser.shrinks p bs
  case pos =>
    have ⟨_, n, m₀⟩ := p
    cases hp
    cases bs
    case nil => rw [parse_nil]; exact List.suffix_refl _
    case cons type bs =>
      cases ht : table type
      case none   => rw [parse_none ht]; exact List.suffix_cons ..
      case some m => rw [parse_some ht]; exact BasicParser.shrinks ..

theorem parse_lt {m} (hp : p.phase = .type) (h : parse table p bs = .done m r) :
    r.length < bs.length := by
  have ⟨_, n, m₀⟩ := p
  cases hp
  cases bs
  case nil => rw [parse_nil] at h; cases h
  case cons type bs =>
    cases ht : table type
    case none   => rw [parse_none ht] at h; cases h
    case some m => rw [parse_some ht] at h; exact BasicParser.parse_lt rfl h

theorem parse_ne_undefined : parse table p bs ≠ .fail .undefined r := by
  by_cases hp : p.phase = .type
  case neg => rw [parse_of_phase hp]; exact BasicParser.parse_ne_undefined
  case pos =>
    have ⟨_, n, m₀⟩ := p
    cases hp
    cases bs
    case nil => rw [parse_nil]; nofun
    case cons type bs =>
      cases ht : table type
      case none   => rw [parse_none ht]; nofun
      case some m => rw [parse_some ht]; exact BasicParser.parse_ne_undefined

variable (table) in
-- What a whole message makes of the alternative that its type stands for.
def receive (type : Byte) (body : Bytes) : Option AnyMessage :=
  (table type).bind fun m => Message.receive m type body

variable (table) in
-- Cf. `BasicParser.parse_frame`.
theorem parse_frame (m₀ : AnyMessage) (type : Byte) {body : Bytes} (h : body.length + 4 < 256 ^ 4) (rest : Bytes) :
    (∃ m, receive table type body = some m ∧
      parse table { result := m₀ } (frame type body ++ rest) = .done m rest) ∨
    (receive table type body = none ∧
      ∃ e r, parse table { result := m₀ } (frame type body ++ rest) = .fail e r) := by
  have hf : frame type body ++ rest = type :: (toBigEndian 4 (body.length + 4) ++ body ++ rest) :=
    rfl
  cases ht : table type
  case none   => exact .inr ⟨by simp [receive, ht], _, _, hf ▸ parse_none ht⟩
  case some m =>
    have := BasicParser.parse_frame m type h rest
    simp only [receive, ht, Option.bind_some]
    rw [hf] at this ⊢
    rwa [parse_some ht]

-- The parser is done with a message of one of the given types.
def TypeIn (types : List Byte) :
    Step Byte (BasicParser AnyMessage) AnyMessage ParseResult → Prop
  | .more p _ => Message.messageType p.result ∈ types
  | .done m _ => Message.messageType m ∈ types
  | .fail ..  => True

theorem typeIn_of_sameType {st type types} (h : AnyMessage.SameType type st) (hm : type ∈ types) :
    TypeIn types st := by
  cases st <;> simp only [AnyMessage.SameType, TypeIn] at h ⊢
  case more => exact h ▸ hm
  case done => exact h ▸ hm

theorem typeIn_parse {messages : List AnyMessage}
    (h : Message.messageType p.result ∈ messages.map Message.messageType) (bs : Bytes) :
    TypeIn (messages.map Message.messageType) (parse (msgTypeJumpTable messages) p bs) := by
  by_cases hp : p.phase = .type
  case neg => rw [parse_of_phase hp]; exact typeIn_of_sameType (AnyMessage.messageType_parse p bs) h
  case pos =>
    have ⟨_, n, m₀⟩ := p
    cases hp
    cases bs
    case nil => rw [parse_nil]; exact h
    case cons type bs =>
      cases ht : msgTypeJumpTable messages type
      case none   => rw [parse_none ht]; trivial
      case some m =>
        rw [parse_some ht]
        have hm := (msgTypeJumpTable_eq_some ht).left
        exact typeIn_of_sameType (AnyMessage.messageType_parse ⟨.type, n, m⟩ _)
          (List.mem_map_of_mem hm)

end MessageParser

end ChxSql.Postgresql
