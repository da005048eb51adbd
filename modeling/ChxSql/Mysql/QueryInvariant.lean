import ChxSql.Mysql.Query

namespace ChxSql.Mysql

open Incremental

-- A result set whose rows have a cell for each column.
def ResultSet.Rectangular (r : ResultSet) : Prop :=
  ∀ row ∈ r.rows, row.length = r.names.length

namespace ComQuery

-- All the columns that were announced are there.
structure Announced (columnCount : Nat) (r : ResultSet) : Prop where
  names : r.names.length = columnCount
  rows  : r.Rectangular

-- How far the result set has got in the stages.
def Shape (s : State) : Prop :=
  match s.stage with
  | .initialGuess | .s1Err | .s1Ok | .s2ColumnCount => s.resultSet = {}
  | .s2ColnumDef => s.resultSet.rows = [] ∧ s.resultSet.names.length ≤ s.columnCount
  | .s2ResultSetRowGuess | .s2ResultSet | .s2Err | .s2OkEof => Announced s.columnCount s.resultSet
  | .finished => s.resultSet = {} ∨ Announced s.columnCount s.resultSet

-- The stages in which the operation is while it has read a part of a packet.
def InPacket (s : State) : Prop :=
  match s.stage with
  | .initialGuess | .s2ResultSetRowGuess | .finished => False
  | .s2ColnumDef => s.resultSet.names.length < s.columnCount
  | _ => True

-- What an answer to a part of a payload may be, and the state in which it leaves the operation.
structure Answers (part : Bytes) (answer : PayloadResult × State) : Prop where
  defined    : answer.1 ≠ .undefined
  accepted   : answer.1 ≠ .internalError
  consistent : answer.2.Consistent
  shape      : Shape answer.2
  running    : answer.1 = .success ∨ answer.1 = .needMore → answer.2.stage ≠ .finished
  inPacket   : answer.1 = .needMore → part ≠ [] → InPacket answer.2

variable {clientCap : UInt32} {s : State} {bs : Bytes} {len remain : Nat}

-- The answer of a packet parser.
theorem Answers.ofStep {π α : Type} {st : Step Byte π α PayloadFailure} {ok : PayloadResult}
    {more : π → State} {done : α → State} {failed : State} (hok : ok = .success ∨ ok = .pause)
    (hm : ∀ p r, st = .more p r → (more p).Consistent ∧ Shape (more p) ∧ InPacket (more p))
    (hd : ∀ a r, st = .done a r → (done a).Consistent ∧ Shape (done a) ∧
      (ok = .success → (done a).stage ≠ .finished))
    (hf : ∀ e r, st = .fail e r → e ≠ .undefined ∧ failed.Consistent ∧ Shape failed) :
    Answers bs (PayloadResult.ofStep st ok more done failed) := by
  cases st
  case more p r =>
    have ⟨hc, hs, hp⟩ := hm p r rfl
    refine ⟨nofun, nofun, hc, hs, fun _ h => ?_, fun _ _ => hp⟩
    simp only [PayloadResult.ofStep] at h
    simp [InPacket, h] at hp
  case done a r =>
    have ⟨hc, hs, hr⟩ := hd a r rfl
    cases r
    case nil =>
      obtain rfl | rfl := hok
      case inl => exact ⟨nofun, nofun, hc, hs, fun _ => hr rfl, nofun⟩
      case inr => exact ⟨nofun, nofun, hc, hs, fun h => by simp [PayloadResult.ofStep] at h, nofun⟩
    case cons => exact ⟨nofun, nofun, hc, hs, fun h => by simp [PayloadResult.ofStep] at h, nofun⟩
  case fail e r =>
    have ⟨he, hc, hs⟩ := hf e r rfl
    cases e
    case undefined => exact absurd rfl he
    all_goals
      exact ⟨nofun, nofun, hc, hs, fun h => by simp [PayloadResult.ofStep, PayloadFailure.result] at h, nofun⟩

theorem onErr_answers {isFinal parser} (hs : s.stage = .s1Err ∨ s.stage = .s2Err) (hr : Shape s) :
    Answers bs (onErr isFinal s parser bs) := by
  refine .ofStep (.inr rfl) (fun p r _ => ?_) (fun a r _ => ⟨trivial, ?_, nofun⟩)
    (fun e r hf => ⟨ErrPacket.Parser.parse_fail hf, ?_⟩)
  all_goals
    obtain hs | hs := hs
    all_goals
      simp only [Shape, hs] at hr
      simp only [State.Consistent, Shape, InPacket, hs, hr, and_self, true_or, or_true]

theorem onOk_answers (hc : clientCap &&& CapabilitiesFlags.clientSessionTrack = 0) {isFinal parser}
    (hp : parser.Untracked) (hs : s.stage = .s1Ok) (hr : Shape s) :
    Answers bs (onOk clientCap isFinal s parser bs) := by
  simp only [Shape, hs] at hr
  refine .ofStep (.inr rfl) (fun p r hm => ?_) (fun a r _ => ⟨trivial, .inl hr, nofun⟩)
    (fun e r hf => ⟨OkPacket.Parser.parse_fail hc hp hf, ?_⟩)
  all_goals simp only [State.Consistent, Shape, InPacket, hs, hr, and_true]
  case refine_1 => exact OkPacket.Parser.parse_untracked hc hp hm
  case refine_2 => exact .fresh

theorem onOkEof_answers (hc : clientCap &&& CapabilitiesFlags.clientSessionTrack = 0)
    {isFinal parser} (hp : parser.Untracked) (hs : s.stage = .s2OkEof) (hr : Shape s) :
    Answers bs (onOkEof clientCap isFinal s parser bs) := by
  simp only [Shape, hs] at hr
  refine .ofStep (.inr rfl) (fun p r hm => ?_) (fun a r _ => ⟨trivial, .inr hr, nofun⟩)
    (fun e r hf => ⟨OkPacket.Parser.parse_fail hc hp hf, ?_⟩)
  all_goals simp only [State.Consistent, Shape, InPacket, hs, hr, and_true]
  case refine_1 => exact OkPacket.Parser.parse_untracked hc hp hm
  case refine_2 => exact .fresh

theorem onColumnCount_answers {parser} (hs : s.stage = .s2ColumnCount) (hr : Shape s) :
    Answers bs (onColumnCount s parser bs) := by
  simp only [Shape, hs] at hr
  refine .ofStep (.inl rfl) (fun p r _ => ?_) (fun a r _ => ⟨trivial, by simp [Shape, hr], nofun⟩)
    (fun e r hf => ⟨LengthEncodedInteger.parse_fail hf ▸ nofun, ?_⟩)
  all_goals simp only [State.Consistent, Shape, InPacket, hs, hr, and_self]

theorem onColumnDefinition_answers {parser} (hs : s.stage = .s2ColnumDef) (hr : Shape s)
    (hn : s.resultSet.names.length < s.columnCount) :
    Answers bs (onColumnDefinition s parser bs) := by
  simp only [Shape, hs] at hr
  refine .ofStep (.inl rfl) (fun p r _ => ?_) (fun a r _ => ?_)
    (fun e r hf => ⟨ColumnDefinition41Packet.Parser.parse_fail hf ▸ by simp, ?_⟩)
  all_goals simp only [State.Consistent, Shape, InPacket, hs, hr, hn, List.length_append,
    List.length_singleton, and_self, true_and]
  exact ⟨hn, by simp⟩

theorem onRow_answers {parser} (hs : s.stage = .s2ResultSet) (hr : Shape s) :
    Answers bs (onRow s parser bs) := by
  simp only [Shape, hs] at hr
  refine .ofStep (.inl rfl) (fun p r _ => ?_) (fun row r hd => ⟨trivial, ⟨hr.names, ?_⟩, nofun⟩)
    (fun e r hf => ⟨ResultsetPacket.Parser.parse_fail hf ▸ nofun, ?_⟩)
  case refine_2 =>
    intro row' hrow
    obtain hrow | hrow := List.mem_append.mp hrow
    case inl => exact hr.rows row' hrow
    case inr =>
      rw [List.mem_singleton.mp hrow, ResultsetPacket.Parser.parse_length hd]
      exact hr.names.symm
  all_goals simp only [State.Consistent, Shape, InPacket, hs, hr, and_self]

theorem guess_answers (hc : clientCap &&& CapabilitiesFlags.clientSessionTrack = 0) {isFinal}
    (hs : s.stage = .initialGuess) (hr : Shape s) : Answers bs (guess clientCap isFinal s bs) := by
  have hr' := hr
  simp only [Shape, hs] at hr'
  cases bs
  case nil =>
    exact ⟨nofun, nofun, by simp [guess, State.Consistent, hs], hr, fun _ => by simp [guess, hs],
      fun _ h => absurd rfl h⟩
  case cons =>
    simp only [guess]
    split_ifs
    case pos => exact onErr_answers (.inl rfl) hr'
    case pos => exact onOk_answers hc .fresh rfl hr'
    case neg => exact onColumnCount_answers rfl hr'

-- The operation guesses at the beginning of a packet, so the packet is as long as its header says.
theorem guessRow_answers (hc : clientCap &&& CapabilitiesFlags.clientSessionTrack = 0)
    (hs : s.stage = .s2ResultSetRowGuess) (hr : Shape s) (hl : remain + bs.length = len) :
    Answers bs (guessRow clientCap len remain s bs) := by
  have hr' := hr
  simp only [Shape, hs] at hr'
  simp only [guessRow, hl, ne_eq, not_true, if_false]
  cases bs
  case nil =>
    exact ⟨by simp, by simp, by simp [State.Consistent, hs], hr, fun _ => by simp [hs], fun _ h => absurd rfl h⟩
  case cons =>
    dsimp only
    split_ifs
    case pos => exact onErr_answers (.inr rfl) hr'
    case pos => exact onOkEof_answers hc .fresh rfl hr'
    case neg => exact onRow_answers rfl hr'

theorem onPayloadData_answers (hc : clientCap &&& CapabilitiesFlags.clientSessionTrack = 0)
    (hs : s.Consistent) (hr : Shape s) (hf : s.stage ≠ .finished)
    (hl : InPacket s ∨ remain + bs.length = len) :
    Answers bs (onPayloadData clientCap len remain s bs) := by
  obtain ⟨stage, payloadParser, columnCount, resultSet, ec, nextSequenceId⟩ := s
  cases stage <;> simp only [onPayloadData]
  case initialGuess => exact guess_answers hc rfl hr
  case s2ResultSetRowGuess => exact guessRow_answers hc rfl hr (hl.resolve_left (by rintro ⟨⟩))
  case finished => exact absurd rfl hf
  case s2ColnumDef =>
    split
    case isFalse h =>
      exact guessRow_answers hc rfl ⟨Nat.le_antisymm hr.right (Nat.not_lt.mp h), by
        simp only [Shape] at hr; simp [ResultSet.Rectangular, hr.left]⟩ (hl.resolve_left h)
    case isTrue h =>
      cases payloadParser
      case columnDefinition => exact onColumnDefinition_answers rfl hr h
      all_goals exact absurd hs id
  case s1Err =>
    cases payloadParser
    case err => exact onErr_answers (.inl rfl) hr
    all_goals exact absurd hs id
  case s2Err =>
    cases payloadParser
    case err => exact onErr_answers (.inr rfl) hr
    all_goals exact absurd hs id
  case s1Ok =>
    cases payloadParser
    case ok => exact onOk_answers hc hs rfl hr
    all_goals exact absurd hs id
  case s2OkEof =>
    cases payloadParser
    case okEof => exact onOkEof_answers hc hs rfl hr
    all_goals exact absurd hs id
  case s2ColumnCount =>
    cases payloadParser
    case columnCount => exact onColumnCount_answers rfl hr
    all_goals exact absurd hs id
  case s2ResultSet =>
    cases payloadParser
    case resultset => exact onRow_answers rfl hr
    all_goals exact absurd hs id

-- What holds whenever the operation waits for bytes. Between the parts of a payload the operation is
-- in a packet.
structure Sound (p : BasicPacket State) : Prop where
  consistent : p.impl.Consistent
  shape      : Shape p.impl
  running    : p.impl.stage ≠ .finished
  framed     : ∀ {len remain}, p.stage = .payload len remain →
    remain ≤ len ∧ (remain = len ∨ InPacket p.impl)

-- What holds when the operation stops.
structure Stopped (result : PacketResult) (s : State) : Prop where
  defined    : result ≠ .undefined
  accepted   : result ≠ .internalError
  consistent : s.Consistent
  shape      : Shape s

theorem fresh_sound (nextSequenceId : UInt8) : Sound (fresh nextSequenceId) where
  consistent := trivial
  shape      := rfl
  running    := by rintro ⟨⟩
  framed     := by rintro _ _ ⟨⟩

theorem onPart_satisfies (part : Bytes) {rest : Bytes} {answer : PayloadResult × State} {len remain : Nat}
    (h : Answers part answer) (hl : remain ≤ len) (hp : part ≠ [] ∨ remain = 0) :
    (BasicPacket.onPart len remain answer rest).Satisfies Sound (Stopped .paused)
      (fun e => Stopped e.1 e.2) := by
  obtain ⟨a, s⟩ := answer
  obtain ⟨hd, ha, hc, hs, hr, hm⟩ := h
  cases a <;> simp only [BasicPacket.onPart]
  case undefined     => exact absurd rfl hd
  case internalError => exact absurd rfl ha
  case success =>
    split
    case isTrue  => exact ⟨hc, hs, hr (.inl rfl), by simp⟩
    case isFalse => exact ⟨by simp, by simp, hc, hs⟩
  case pause => split <;> exact ⟨by simp, by simp, hc, hs⟩
  case needMore =>
    split
    case isTrue => exact ⟨by simp, by simp, hc, hs⟩
    case isFalse h =>
      refine ⟨hc, hs, hr (.inr rfl), fun he => ?_⟩
      cases he
      exact ⟨hl, .inr (hm rfl (hp.resolve_right h))⟩
  all_goals exact ⟨by simp, by simp, hc, hs⟩

theorem turn_satisfies (hc : clientCap &&& CapabilitiesFlags.clientSessionTrack = 0)
    {p : BasicPacket State} (hp : Sound p) (bs : Bytes) :
    (p.turn (impl clientCap) bs).Satisfies Sound (Stopped .paused) (fun e => Stopped e.1 e.2) := by
  simp only [BasicPacket.turn]
  split
  case isTrue => exact hp
  case isFalse hb =>
    obtain ⟨stage, s⟩ := p
    obtain ⟨hcons, hs, hr, hf⟩ := hp
    cases stage
    case packetLength header =>
      cases hfill : (header.fill bs : Step _ _ _ (PacketResult × State)) <;>
        simp only [hfill, Step.turn]
      case more => exact ⟨hcons, hs, hr, by simp⟩
      case done => exact ⟨hcons, hs, hr, by simp⟩
      case fail => exact absurd hfill Filling.fill_ne_fail
    case sequenceId len =>
      simp only [impl]
      split
      case isTrue =>
        refine ⟨hcons, hs, hr, fun he => ?_⟩
        cases he
        exact ⟨le_rfl, .inl rfl⟩
      case isFalse => exact ⟨by simp, by simp, hcons, hs⟩
    case payload len remain =>
      obtain ⟨hl, hm⟩ := hf rfl
      have hpos := List.length_pos_of_ne_nil hb
      refine onPart_satisfies (bs.take (min remain bs.length)) ?_ (by omega) ?_
      case refine_1 =>
        refine onPayloadData_answers hc hcons hs hr (hm.symm.imp id fun h => ?_)
        rw [List.length_take]
        omega
      case refine_2 =>
        by_cases h : remain = 0
        case pos => exact .inr (by omega)
        case neg => exact .inl (List.ne_nil_of_length_pos (by rw [List.length_take]; omega))

theorem feed_satisfies (hc : clientCap &&& CapabilitiesFlags.clientSessionTrack = 0)
    {p : BasicPacket State} (hp : Sound p) (bs : Bytes) :
    (p.feed (impl clientCap) bs).Satisfies Sound (Stopped .paused) (fun e => Stopped e.1 e.2) :=
  Loop.run_satisfies (fun hp => turn_satisfies hc hp) hp

theorem Shape.rectangular (h : Shape s) : s.resultSet.Rectangular ∧
    (s.resultSet.rows ≠ [] → s.resultSet.names.length = s.columnCount) := by
  have he (hr : s.resultSet.rows = []) : s.resultSet.Rectangular ∧
      (s.resultSet.rows ≠ [] → s.resultSet.names.length = s.columnCount) :=
    ⟨by simp [ResultSet.Rectangular, hr], fun hn => absurd hr hn⟩
  have hr (h : s.resultSet = {}) : s.resultSet.rows = [] := by rw [h]
  simp only [Shape] at h
  cases hs : s.stage <;> rw [hs] at h
  case initialGuess | s1Err | s1Ok | s2ColumnCount                => exact he (hr h)
  case s2ColnumDef                                                => exact he h.left
  case s2ResultSetRowGuess | s2ResultSet | s2Err | s2OkEof         => exact ⟨h.rows, fun _ => h.names⟩
  case finished => exact h.elim (fun h => he (hr h)) fun h => ⟨h.rows, fun _ => h.names⟩

-- Feeding chunks of any bytes.
theorem outcome_stopped (database : Bytes) (nextSequenceId : UInt8) (cs : List Bytes) :
    let p := BasicPacket.outcome
      (feed (BasicPacket.feed (impl (clientFlag database))) (fresh nextSequenceId) cs).1
    Stopped p.1 p.2 := by
  have h := Incremental.feed_satisfies
    (fun hp => feed_satisfies (clientFlag_untracked database) hp) (fresh_sound nextSequenceId) cs
  generalize feed _ _ _ = fed at h
  obtain ⟨st, unfed⟩ := fed
  cases st
  case more => exact ⟨nofun, nofun, h.consistent, h.shape⟩
  case done => exact h
  case fail => exact h

theorem complete_resultSet {st : Step Byte (BasicPacket State) State (PacketResult × State)} {c left}
    (h : complete st = .done c left) : c.resultSet = (BasicPacket.outcome st).2.resultSet := by
  cases st
  case more => cases h
  case done s rest => cases rest <;> cases h <;> rfl
  case fail e rest => obtain ⟨e, s⟩ := e; cases e <;> cases h <;> rfl

theorem complete_ne_fail {st : Step Byte (BasicPacket State) State (PacketResult × State)} {left}
    (h : (BasicPacket.outcome st).1 ≠ .undefined) : complete st ≠ .fail () left := by
  cases st
  case more => nofun
  case done s rest => cases rest <;> nofun
  case fail e rest => obtain ⟨e, s⟩ := e; cases e <;> first | exact absurd rfl h | nofun

-- Whatever the server sends, the operation keeps to its parsers, and what it delivers is rectangular.
theorem run_invariants (database : Bytes) (reads : List Read) :
    let p := BasicPacket.outcome
      (feed (BasicPacket.feed (impl (clientFlag database))) (fresh 1) (reads.map (·.bytes))).1
    let completed := (run (clientFlag database) reads).1
    p.2.Consistent ∧ p.1 ≠ .undefined ∧ p.1 ≠ .internalError ∧ (∀ left, completed ≠ .fail () left) ∧
    ∀ c left, completed = .done c left → c.resultSet.Rectangular ∧
      (c.resultSet.rows ≠ [] → c.resultSet.names.length = p.2.columnCount) := by
  have ⟨hd, ha, hc, hs⟩ := outcome_stopped database 1 (reads.map (·.bytes))
  refine ⟨hc, hd, ha, fun left => ?_, fun c left h => ?_⟩
  case refine_1 => rw [run_eq]; exact complete_ne_fail hd
  case refine_2 =>
    rw [run_eq] at h
    rw [complete_resultSet h]
    exact hs.rectangular

end ComQuery

end ChxSql.Mysql
