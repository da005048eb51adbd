import ChxSql.Incremental.Fuel
import ChxSql.Postgresql.Execute
import ChxSql.Postgresql.OneshotOperation
import ChxSql.Postgresql.ParseQuery
import ChxSql.Postgresql.SimpleQuery

namespace ChxSql.Postgresql

open Incremental Msg

namespace IntegerArray

-- One turn of the loop of `integer_array::operator()`.
def turn (p : IntegerArray) (bs : Bytes) : Turn Byte IntegerArray Bytes ParseResult :=
  if p.result.length < p.target then
    match bs with
    | []      => .more p []
    | b :: bs => .goto { p with result := p.result ++ [b] } bs
  else
    .done p.result bs

theorem turn_progress {p p' : IntegerArray} {bs r} (h : p.turn bs = .goto p' r) :
    r.length * 1 + 0 < bs.length * 1 + 0 := by
  simp only [turn] at h
  split at h
  case isFalse => cases h
  case isTrue =>
    cases bs <;> cases h
    simp

def loop : Loop Byte IntegerArray Bytes ParseResult where
  body     := turn
  weight   := 1
  rank _   := 0
  progress := turn_progress

theorem run_loop (p : IntegerArray) (bs : Bytes) : loop.run p bs = p.parse bs := by
  induction bs generalizing p <;> rw [parse] <;> split
  case nil.isTrue h     => exact Loop.run_more (if_pos h)
  case nil.isFalse h    => exact Loop.run_done (if_neg h)
  case cons.isTrue ih h => exact (Loop.run_goto (if_pos h)).trans (ih _)
  case cons.isFalse h   => exact Loop.run_done (if_neg h)

-- Cf. `parse`, with at most `n` turns of the loop.
def parse? (n : Nat) (p : IntegerArray) (bs : Bytes) : Option (Step Byte IntegerArray Bytes ParseResult) :=
  iterate (fun p bs => some (turn p bs)) n p bs

theorem parse?_eq_parse {n : Nat} {p : IntegerArray} {bs : Bytes} (h : bs.length < n) :
    p.parse? n bs = some (p.parse bs) := by
  rw [← run_loop]
  exact Loop.iterate_eq_run (l := loop) (P := fun _ => True) (fun _ => rfl) (fun _ _ => trivial) trivial
    (by simpa [loop] using h)

end IntegerArray

-- The `on_body` of a message that reads its body by a loop or by calling itself, at most `n` times.
def Body.iterate {M : Type} (turn : M → Bytes → Option (Turn Byte M M ParseResult)) (n : Nat) (m : M)
    (bs : Bytes) : Option (Body M) :=
  (Incremental.iterate turn n m bs).map .ofStep

-- Eight turns for each byte of the body, and eight more, are enough.
theorem Body.iterate_eq_ofStep {M : Type} {l : Loop Byte M M ParseResult}
    {turn : M → Bytes → Option (Turn Byte M M ParseResult)} {n : Nat} {m : M} {bs : Bytes}
    (ht : ∀ {m bs}, bs.length < n → turn m bs = some (l.body m bs)) (hw : l.weight ≤ 8)
    (hr : ∀ m, l.rank m < l.weight) (hn : 8 * bs.length + 8 ≤ n) :
    Body.iterate turn n m bs = some (.ofStep (l.run m bs)) := by
  have hb : bs.length * l.weight ≤ bs.length * 8 := Nat.mul_le_mul_left _ hw
  have hm := hr m
  have hi := Loop.iterate_eq_run (P := fun bs => bs.length < n) ht
    (fun hl hb => (Loop.length_of_goto hr hb).trans_lt hl) (s := m) (by omega)
    (show bs.length * l.weight + l.rank m < n by omega)
  rw [Body.iterate, hi]
  rfl

namespace Msg

variable {n : Nat} {bs : Bytes}

namespace ErrorResponse

def turn? (n : Nat) (m : ErrorResponse) (bs : Bytes) :
    Option (Turn Byte ErrorResponse ErrorResponse ParseResult) :=
  match m.parsers with
  | .sqlstate parser => (parser.parse? n bs).map fun st =>
    st.turn ({ m with parsers := .sqlstate · }) fun v bs =>
      .goto { ec := sqlstateToErrc v.dropLast, parsers := .none } bs
  | _ => some (m.turn bs)

-- `error_response::on_body`
def onBody? (n : Nat) : ErrorResponse → Bytes → Option (Body ErrorResponse) :=
  Body.iterate (turn? n) n

theorem turn?_eq_turn {m : ErrorResponse} (h : bs.length < n) : m.turn? n bs = some (m.turn bs) := by
  have ⟨ec, parsers⟩ := m
  cases parsers
  case sqlstate => simp only [turn?, IntegerArray.parse?_eq_parse h, Option.map_some, turn]
  all_goals rfl

theorem rank_lt (m : ErrorResponse) : m.rank < 2 := by
  rw [rank]
  split <;> decide

theorem onBody?_eq_onBody {m : ErrorResponse} (h : 8 * bs.length + 8 ≤ n) :
    m.onBody? n bs = some (Message.onBody m bs) :=
  Body.iterate_eq_ofStep (l := loop) turn?_eq_turn (by decide) rank_lt h

end ErrorResponse

namespace NoticeResponse

-- `notice_response::on_body`
def onBody? : Nat → NoticeResponse → Bytes → Option (Body NoticeResponse) :=
  Body.iterate fun m bs => some (m.turn bs)

theorem onBody?_eq_onBody {m : NoticeResponse} (h : 8 * bs.length + 8 ≤ n) :
    m.onBody? n bs = some (Message.onBody m bs) :=
  Body.iterate_eq_ofStep (l := loop) (fun _ => rfl) (by decide) (fun _ => Nat.zero_lt_one) h

end NoticeResponse

namespace ParameterStatus

-- One call of `on_body` by itself.
def turn (m : ParameterStatus) (bs : Bytes) : Turn Byte ParameterStatus ParameterStatus ParseResult :=
  (m.parser.parse bs).turn ({ m with parser := · }) fun _ bs =>
    if m.stage then .done { m with parser := {} } bs else .goto ⟨true, {}⟩ bs

theorem turn_progress {m m' : ParameterStatus} {bs r} (h : m.turn bs = .goto m' r) :
    r.length * 1 + 0 < bs.length * 1 + 0 := by
  have ⟨v, r', hp, hg⟩ := Step.of_turn_goto h
  split at hg <;> cases hg
  simpa using Terminated.parse_lt hp

def loop : Loop Byte ParameterStatus ParameterStatus ParseResult where
  body     := turn
  weight   := 1
  rank _   := 0
  progress := turn_progress

theorem run_readValue (p : Str NopContainer) (bs : Bytes) : loop.run ⟨true, p⟩ bs = readValue ⟨true, p⟩ bs := by
  cases hp : (p.parse bs : Step _ _ _ ParseResult)
  all_goals
    have hb : loop.body ⟨true, p⟩ bs = (p.parse bs).turn (⟨true, ·⟩) fun _ bs => .done ⟨true, {}⟩ bs := rfl
    rw [hp] at hb
    rw [readValue, hp]
  case more => exact Loop.run_more hb
  case done => exact Loop.run_done hb
  case fail => exact Loop.run_fail hb

theorem run_loop (m : ParameterStatus) (bs : Bytes) : loop.run m bs = m.read bs := by
  have ⟨stage, p⟩ := m
  cases stage
  case true => exact run_readValue p bs
  case false =>
    cases hp : (p.parse bs : Step _ _ _ ParseResult)
    all_goals
      have hb : loop.body ⟨false, p⟩ bs = (p.parse bs).turn (⟨false, ·⟩) fun _ bs => .goto ⟨true, {}⟩ bs := rfl
      have hr : read ⟨false, p⟩ bs = (p.parse bs).andThen (⟨false, ·⟩) fun _ bs => readValue ⟨true, {}⟩ bs := rfl
      rw [hp] at hb hr
      rw [hr]
    case more => exact Loop.run_more hb
    case done => exact (Loop.run_goto hb).trans (run_readValue ..)
    case fail => exact Loop.run_fail hb

-- `parameter_status::on_body`
def onBody? : Nat → ParameterStatus → Bytes → Option (Body ParameterStatus) :=
  Body.iterate fun m bs => some (m.turn bs)

theorem onBody?_eq_onBody {m : ParameterStatus} (h : 8 * bs.length + 8 ≤ n) :
    m.onBody? n bs = some (Message.onBody m bs) := by
  have hb := Body.iterate_eq_ofStep (l := loop) (m := m) (fun _ => rfl) (by decide)
    (fun _ => Nat.zero_lt_one) h
  rw [run_loop] at hb
  exact hb

end ParameterStatus

namespace RowDescription

-- `row_description::on_body`
def onBody? : Nat → RowDescription → Bytes → Option (Body RowDescription) :=
  Body.iterate fun m bs => some (m.turn bs)

theorem rank_lt (m : RowDescription) : m.rank < 8 := by
  rw [rank]
  split <;> decide

theorem onBody?_eq_onBody {m : RowDescription} (h : 8 * bs.length + 8 ≤ n) :
    m.onBody? n bs = some (Message.onBody m bs) :=
  Body.iterate_eq_ofStep (l := loop) (fun _ => rfl) (by decide) rank_lt h

end RowDescription

namespace DataRow

-- `data_row::on_body`
def onBody? : Nat → DataRow → Bytes → Option (Body DataRow) :=
  Body.iterate fun m bs => some (m.turn bs)

theorem rank_lt (m : DataRow) : m.rank < 4 := by
  rw [rank]
  repeat' split
  all_goals decide

theorem onBody?_eq_onBody {m : DataRow} (h : 8 * bs.length + 8 ≤ n) :
    m.onBody? n bs = some (Message.onBody m bs) :=
  Body.iterate_eq_ofStep (l := loop) (fun _ => rfl) (by decide) rank_lt h

end DataRow

end Msg

-- The messages without such loops have only the machines of their fields to run.
def AnyMessage.onBody? (n : Nat) : AnyMessage → Bytes → Option (Body AnyMessage)
  | errorResponse m, bs   => (m.onBody? n bs).map (.map errorResponse)
  | noticeResponse m, bs  => (m.onBody? n bs).map (.map noticeResponse)
  | parameterStatus m, bs => (m.onBody? n bs).map (.map parameterStatus)
  | rowDescription m, bs  => (m.onBody? n bs).map (.map rowDescription)
  | dataRow m, bs         => (m.onBody? n bs).map (.map dataRow)
  | m, bs                 => some (Message.onBody m bs)

theorem AnyMessage.onBody?_eq_onBody {n : Nat} {m : AnyMessage} {bs : Bytes} (h : 8 * bs.length + 8 ≤ n) :
    m.onBody? n bs = some (Message.onBody m bs) := by
  cases m
  case errorResponse   => simp only [onBody?, ErrorResponse.onBody?_eq_onBody h]; rfl
  case noticeResponse  => simp only [onBody?, NoticeResponse.onBody?_eq_onBody h]; rfl
  case parameterStatus => simp only [onBody?, ParameterStatus.onBody?_eq_onBody h]; rfl
  case rowDescription  => simp only [onBody?, RowDescription.onBody?_eq_onBody h]; rfl
  case dataRow         => simp only [onBody?, DataRow.onBody?_eq_onBody h]; rfl
  all_goals rfl

namespace BasicParser

variable {n : Nat} {p : BasicParser AnyMessage} {bs : Bytes}

-- Cf. `turn`.
def turn? (n : Nat) (p : BasicParser AnyMessage) (bs : Bytes) :
    Option (Turn Byte (BasicParser AnyMessage) AnyMessage ParseResult) :=
  match p.phase with
  | .body =>
    let consumed := min p.bodyRemain bs.length
    (p.result.onBody? n (bs.take consumed)).map (closeBody (p.bodyRemain - consumed) (bs.drop consumed))
  | _ => some (p.turn bs)

-- `basic_parser::operator()`
def parse? (n : Nat) : BasicParser AnyMessage → Bytes →
    Option (Step Byte (BasicParser AnyMessage) AnyMessage ParseResult) :=
  iterate (turn? n) n

theorem turn?_eq_turn (h : 8 * bs.length + 8 ≤ n) : p.turn? n bs = some (p.turn bs) := by
  have ⟨phase, remain, m⟩ := p
  cases phase
  case body =>
    have hl : 8 * (bs.take (min remain bs.length)).length + 8 ≤ n := by
      rw [List.length_take]
      omega
    simp only [turn?, AnyMessage.onBody?_eq_onBody hl, Option.map_some, turn]
  all_goals rfl

theorem rank_le (p : BasicParser AnyMessage) : p.rank ≤ 2 := by
  rw [rank]
  split <;> decide

theorem parse?_eq_parse (h : 8 * bs.length + 8 ≤ n) : p.parse? n bs = some (p.parse bs) := by
  have hr := rank_le p
  refine Loop.iterate_eq_run (l := loop) (P := fun bs => 8 * bs.length + 8 ≤ n) turn?_eq_turn
    (fun {p bs p' r} hl ht => ?_) h ?_
  case refine_1 =>
    have hs := (turn_suffix p bs).length_le
    rw [show p.turn bs = _ from ht, Turn.rest] at hs
    omega
  case refine_2 =>
    simp only [loop]
    omega

end BasicParser

-- What `do_parse` calls last: it reads on (`do_read` or `perform_read`) or it completes the operation.
inductive Exit where
  | doRead
  | complete (r : Report)
  deriving DecidableEq

namespace Dialogue

variable {σ : Type}

-- A call that runs into undefined behaviour does not call anything.
def exits : Step Byte (State σ) Report (Failure Report) → List Exit
  | .more ..               => [.doRead]
  | .done r _              => [.complete r]
  | .fail (.malformed r) _ => [.complete r]
  | .fail .undefined _     => []

-- What `turn` does after a call of the parser.
def afterParse (d : Dialogue σ) (s : State σ) :
    Step Byte (BasicParser AnyMessage) AnyMessage ParseResult → Turn Byte (State σ) Report (Failure Report)
  | .more parser bs     => .more { s with parsers := some parser } bs
  | .done m bs          => d.finish s.ctl m bs
  | .fail .undefined bs => .fail .undefined bs
  | .fail _ bs          => .fail (d.malformed s.ctl) bs

-- Cf. `turn`.
def turn? (d : Dialogue σ) (n : Nat) (s : State σ) (bs : Bytes) :
    Option (Turn Byte (State σ) Report (Failure Report)) :=
  match s.parsers with
  | none        => some (d.guess s bs)
  | some parser => (parser.parse? n bs).map (d.afterParse s)

-- `do_parse` (or `do_read_till_ready`), if each loop turns at most `n` times, and if a function calls
-- itself less than `n` times.
def doParse? (d : Dialogue σ) (n : Nat) : State σ → Bytes → Option (Step Byte (State σ) Report (Failure Report)) :=
  iterate (d.turn? n) n

variable {d : Dialogue σ} {n : Nat} {s s' : State σ} {bs : Bytes}

theorem turn?_eq_turn (h : 8 * bs.length + 8 ≤ n) : d.turn? n s bs = some (d.turn s bs) := by
  have ⟨ctl, parsers⟩ := s
  cases parsers
  case none => rfl
  case some parser =>
    simp only [turn?, BasicParser.parse?_eq_parse h, Option.map_some, turn, Option.some.injEq]
    cases parser.parse bs
    case fail e r => cases e <;> rfl
    all_goals rfl

theorem rank_lt (s : State σ) : rank s < 3 := by
  rw [rank]
  repeat' split
  all_goals decide

-- Eight turns for each byte of the chunk, and eight more, are enough for each loop.
theorem doParse?_eq_doParse (h : 8 * bs.length + 8 ≤ n) : d.doParse? n s bs = some (d.doParse s bs) := by
  have hr := rank_lt s
  refine Loop.iterate_eq_run (l := d.loop) (P := fun bs => 8 * bs.length + 8 ≤ n) turn?_eq_turn
    (fun hl ht => ?_) h ?_
  case refine_1 =>
    have := Loop.length_of_goto (l := d.loop) rank_lt ht
    omega
  case refine_2 =>
    simp only [loop]
    omega

-- A call of `do_parse` comes to an end: with so many turns of each loop the result is `st`. The call has
-- called one of the functions that it may end with, and if it reads on then it has left nothing of the chunk.
structure Ends (d : Dialogue σ) (s : State σ) (bs : Bytes)
    (st : Step Byte (State σ) Report (Failure Report)) : Prop where
  returns : ∀ n, 8 * bs.length + 8 ≤ n → d.doParse? n s bs = some st
  once    : ∃ e, exits st = [e]
  reads   : .doRead ∈ exits st → st.rest = []

theorem Invariant.ends (inv : d.Invariant) (h : inv.holdsAt s) (bs : Bytes) : d.Ends s bs (d.doParse s bs) where
  returns _ hn := doParse?_eq_doParse hn
  once := by
    have hs := inv.sound_doParse h bs
    cases hp : d.doParse s bs <;> rw [hp] at hs
    case more => exact ⟨_, rfl⟩
    case done => exact ⟨_, rfl⟩
    case fail e _ =>
      cases e
      case malformed => exact ⟨_, rfl⟩
      case undefined => exact absurd rfl hs
  reads hm := by
    cases hp : d.doParse s bs <;> rw [hp] at hm
    case more => exact resumable.exhausts trivial hp
    case done => simp [exits] at hm
    case fail e _ => cases e <;> simp [exits] at hm

theorem Invariant.holdsAt_doParse (inv : d.Invariant) (h : inv.holdsAt s) {r : Bytes}
    (hm : d.doParse s bs = .more s' r) : inv.holdsAt s' := by
  have hs := inv.sound_doParse h bs
  rwa [hm] at hs

theorem Invariant.holdsAt_feed (inv : d.Invariant) (h : inv.holdsAt s) {cs unfed : List Bytes} {r : Bytes}
    (hm : feed d.doParse s cs = (.more s' r, unfed)) : inv.holdsAt s' := by
  induction cs generalizing s
  case nil => cases hm; exact h
  case cons c cs ih =>
    rw [feed] at hm
    cases hp : d.doParse s c <;> rw [hp] at hm
    case more => exact ih (inv.holdsAt_doParse h hp) hm
    all_goals cases hm

-- The states of an operation that has read some chunks and reads on.
def ReadsOn (d : Dialogue σ) (s : State σ) : Prop :=
  ∃ cs r, feed d.doParse d.fresh cs = (.more s r, [])

theorem Invariant.ends_of_readsOn (inv : d.Invariant) (h : d.ReadsOn s) (bs : Bytes) : ∃ st, d.Ends s bs st :=
  have ⟨_, _, hm⟩ := h
  ⟨_, inv.ends (inv.holdsAt_feed (s := d.fresh) inv.start hm) bs⟩

end Dialogue

namespace Oneshot

-- The states of a reader that reads on. The write may have completed meanwhile.
def ReadsOn (s : Dialogue.State State) : Prop :=
  ∃ es x, system.run es = some x ∧ x.reader = some s

theorem holdsAt_step {x x' : Execution} {e : Event} (h : ∀ s, x.reader = some s → invariant.holdsAt s)
    (hs : x.step e = some x') {s' : Dialogue.State State} (hr : x'.reader = some s') : invariant.holdsAt s' := by
  have ⟨reader, written, completions⟩ := x
  cases e <;> cases reader <;> simp only [Execution.step] at hs
  case written.none =>
    cases written <;> simp only [reduceCtorEq, Option.some.injEq] at hs
    rw [← hs] at hr
    cases hr
  case written.some s =>
    cases written <;> simp only [reduceCtorEq, Option.some.injEq] at hs
    rw [← hs] at hr
    cases hr
    exact h s rfl
  case read.none => cases hs
  case read.some bs s =>
    have hk := invariant.sound_doParse (h s rfl) bs
    rw [Option.bind_some, Execution.parse] at hs
    cases hp : oneshot.doParse s bs <;> rw [hp] at hs hk
    case more =>
      rw [← Option.some.inj hs] at hr
      cases hr
      exact hk
    case done =>
      rw [← Option.some.inj hs] at hr
      cases hr
    case fail e _ =>
      cases e <;> simp only [reduceCtorEq, Option.some.injEq] at hs
      rw [← hs] at hr
      cases hr

theorem ends_of_readsOn {s : Dialogue.State State} (h : ReadsOn s) (bs : Bytes) : ∃ st, oneshot.Ends s bs st := by
  have ⟨es, x, hr, hx⟩ := h
  refine ⟨_, invariant.ends (System.run_induction (P := fun _ x => ∀ s, x.reader = some s → invariant.holdsAt s)
    (fun s hs => ?_) (fun _ h hs _ => holdsAt_step h hs) hr s hx) bs⟩
  cases hs
  exact invariant.start

end Oneshot

-- Whatever the operations have read before, and whatever they are given next.
theorem parses_end :
    (∀ s, execute.ReadsOn s → ∀ bs, ∃ st, execute.Ends s bs st) ∧
    (∀ s, Oneshot.ReadsOn s → ∀ bs, ∃ st, oneshot.Ends s bs st) ∧
    (∀ s, parseQuery.ReadsOn s → ∀ bs, ∃ st, parseQuery.Ends s bs st) ∧
    (∀ s, simpleQuery.ReadsOn s → ∀ bs, ∃ st, simpleQuery.Ends s bs st) :=
  ⟨fun _ => Execute.invariant.ends_of_readsOn, fun _ => Oneshot.ends_of_readsOn,
    fun _ => ParseQuery.invariant.ends_of_readsOn, fun _ => SimpleQuery.invariant.ends_of_readsOn⟩

-- A BindComplete and the first byte of what follows it, and the beginnings of other operations.
theorem parses_end_bindComplete :
    execute.doParse? 56 execute.fresh [letter '2', 0, 0, 0, 4, letter 'n'] = some (.more
      ⟨{ expect := .emptyQueryResponse }, some { phase := .length {}, result := .noData ⟨⟩ }⟩ []) ∧
    (∃ st, execute.Ends execute.fresh [letter '2', 0, 0, 0, 4, letter 'n'] st) ∧
    (∃ st, oneshot.Ends oneshot.fresh [letter '1', 0, 0] st) ∧
    (∃ st, parseQuery.Ends parseQuery.fresh [letter '1', 0, 0] st) ∧
    ∃ st, simpleQuery.Ends simpleQuery.fresh [letter 'C'] st :=
  ⟨rfl, parses_end.left _ ⟨[], [], rfl⟩ _, parses_end.right.left _ ⟨[], _, rfl, rfl⟩ _,
    parses_end.right.right.left _ ⟨[], [], rfl⟩ _, parses_end.right.right.right _ ⟨[], [], rfl⟩ _⟩

end ChxSql.Postgresql
