import ChxSql.Postgresql.Msg.Any

namespace ChxSql.Postgresql

open Incremental Msg

structure ResultSet where
  desc : List ColumnDescription := []
  data : List Cells := []
  deriving DecidableEq

abbrev ResultSets := List (Option ResultSet)

-- What a query operation completes with.
structure Report where
  ec         : ErrorCode
  resultSets : ResultSets := []
  deriving DecidableEq

-- The ways in which reading ends early: the operation completes because of a malformed message, or
-- it runs into an `assert(false)` or into undefined behaviour.
inductive Failure (κ : Type) where
  | malformed (k : κ)
  | undefined
  deriving DecidableEq

-- What the guess stage of an operation makes of a type byte.
inductive Selection (σ : Type) where
  | parse (m : AnyMessage) (s : σ)
  | malformed
  | undefined
  deriving DecidableEq

-- A selection is defined, and if it selects a parser then `P` holds of that and of the new state.
def Selection.All {σ : Type} (P : AnyMessage → σ → Prop) : Selection σ → Prop
  | parse m s => P m s
  | malformed => True
  | undefined => False

-- If a selection selects a parser then `P` holds of that and of the new state.
def Selection.Satisfies {σ : Type} (P : AnyMessage → σ → Prop) : Selection σ → Prop
  | parse m s => P m s
  | _         => True

namespace Selection

variable {σ : Type} {P : AnyMessage → σ → Prop} {c : Prop} [Decidable c] {a b : Selection σ}

theorem all_ite (ha : a.All P) (hb : b.All P) : (if c then a else b).All P := by
  split
  case isTrue  => exact ha
  case isFalse => exact hb

theorem satisfies_ite (ha : a.Satisfies P) (hb : b.Satisfies P) : (if c then a else b).Satisfies P := by
  split
  case isTrue  => exact ha
  case isFalse => exact hb

theorem Satisfies.of_parse {m : AnyMessage} {s : σ} (hs : a.Satisfies P) (h : a = .parse m s) : P m s := by
  rw [h] at hs
  exact hs

end Selection

-- What an operation does after a message: it waits for the next one or it ends.
inductive Move (σ κ : Type) where
  | goto (s : σ)
  | complete (k : κ)
  | fail (e : Failure κ)
  deriving DecidableEq

-- A move is defined, and if it leads to a state then `P` holds of that.
def Move.All {σ κ : Type} (P : σ → Prop) : Move σ κ → Prop
  | goto s     => P s
  | complete _ => True
  | fail e     => e ≠ .undefined

-- The query operations differ in the messages that they expect and in what they do with them.
-- The loops of their `do_parse` (`do_read_till_ready`) are the same.
structure Dialogue (σ : Type) where
  start      : σ
  select     : σ → Byte → Selection σ
  accept     : σ → AnyMessage → Move σ Report
  resultSets : σ → ResultSets

namespace Dialogue

structure State (σ : Type) where
  ctl     : σ
  parsers : Option (BasicParser AnyMessage) := none

variable {σ : Type} (d : Dialogue σ)

-- What the operation completes with when it meets a malformed message.
def malformed (s : σ) : Failure Report :=
  .malformed { ec := makeEc .malformedMessage, resultSets := d.resultSets s }

-- The alternative 0 of `parsers`: the type byte is only looked at.
def guess (s : State σ) : Bytes → Turn Byte (State σ) Report (Failure Report)
  | [] => .more s []
  | type :: bs =>
    match d.select s.ctl type with
    | .parse m ctl => .goto ⟨ctl, some { result := m }⟩ (type :: bs)
    | .malformed   => .fail (d.malformed s.ctl) (type :: bs)
    | .undefined   => .fail .undefined (type :: bs)

def finish (s : σ) (m : AnyMessage) (bs : Bytes) : Turn Byte (State σ) Report (Failure Report) :=
  match d.accept s m with
  | .goto ctl   => .goto ⟨ctl, none⟩ bs
  | .complete r => .done r bs
  | .fail e     => .fail e bs

-- One turn of the loop of `do_parse`.
def turn (s : State σ) (bs : Bytes) : Turn Byte (State σ) Report (Failure Report) :=
  match s.parsers with
  | none => d.guess s bs
  | some parser =>
    match parser.parse bs with
    | .more parser bs     => .more { s with parsers := some parser } bs
    | .done m bs          => d.finish s.ctl m bs
    | .fail .undefined bs => .fail .undefined bs
    | .fail _ bs          => .fail (d.malformed s.ctl) bs

def rank (s : State σ) : Nat :=
  match s.parsers with
  | none        => 1
  | some parser => if parser.phase = .type then 0 else 2

variable {d}

theorem guess_goto {s s' : State σ} {bs r} (h : d.guess s bs = .goto s' r) :
    r = bs ∧ ∃ m, s'.parsers = some { result := m } := by
  cases bs <;> simp only [guess, reduceCtorEq] at h
  split at h <;> cases h
  exact ⟨rfl, _, rfl⟩

theorem finish_goto {s : σ} {s' : State σ} {m bs r} (h : d.finish s m bs = .goto s' r) :
    r = bs ∧ s'.parsers = none := by
  simp only [finish] at h
  split at h <;> cases h
  exact ⟨rfl, rfl⟩

theorem turn_progress {s s' : State σ} {bs r} (h : d.turn s bs = .goto s' r) :
    r.length * 3 + rank s' < bs.length * 3 + rank s := by
  have ⟨ctl, parsers⟩ := s
  cases parsers <;> simp only [turn] at h
  case none =>
    have ⟨hr, m, hp⟩ := guess_goto h
    simp [rank, hp, hr]
  case some parser =>
    split at h
    case h_2 m rest hp =>
      have ⟨hr, hn⟩ := finish_goto h
      have hl : rest.length * 3 + 1 < bs.length * 3 + rank ⟨ctl, some parser⟩ := by
        simp only [rank]
        split
        case isTrue ht => have := BasicParser.parse_lt ht hp; omega
        case isFalse   => have := BasicParser.shrinks.length_le hp; omega
      simpa [hr, rank, hn] using hl
    all_goals cases h

variable (d) in
def loop : Loop Byte (State σ) Report (Failure Report) where
  body     := d.turn
  weight   := 3
  rank     := rank
  progress := turn_progress

theorem body_of_head {s : σ} {type : Byte} {bs : Bytes} (h : bs.head? = some type) :
    d.loop.body ⟨s, none⟩ bs =
      match d.select s type with
      | .parse m s => .goto ⟨s, some { result := m }⟩ bs
      | .malformed => .fail (d.malformed s) bs
      | .undefined => .fail .undefined bs := by
  cases bs <;> cases h
  rfl

variable (d) in
-- `do_parse` (or `do_read_till_ready`): either the operation completes or it wants to read.
def doParse (s : State σ) (bs : Bytes) : Step Byte (State σ) Report (Failure Report) :=
  d.loop.run s bs

variable (d) in
-- The operation before it has seen any input.
def fresh : State σ :=
  { ctl := d.start }

theorem turn_extends (s : State σ) (xs ys : Bytes) :
    (d.turn s xs).Extends (fun _ => True) d.turn ys (d.turn s (xs ++ ys)) := by
  have ⟨ctl, parsers⟩ := s
  cases parsers
  case none =>
    cases xs
    case nil => exact .of_eq_more trivial rfl
    case cons =>
      simp only [turn, guess, List.cons_append]
      split
      case h_1 => exact .goto trivial
      all_goals exact .fail
  case some parser =>
    have he := BasicParser.resumable.extend (s := parser) trivial xs ys
    simp only [turn]
    generalize parser.parse xs = st, parser.parse (xs ++ ys) = st' at he ⊢
    cases he
    case more => exact .of_eq_more trivial rfl
    case done m rest =>
      simp only [finish]
      split
      case h_1 => exact .goto trivial
      case h_2 => exact .done
      case h_3 => exact .fail
    case fail e _ _ => cases e <;> exact .fail

-- What a query operation does with its input does not depend on how the input is cut into reads.
theorem resumable : Resumable d.doParse :=
  Loop.resumable turn_extends

theorem guess_rest (s : State σ) (bs : Bytes) : (d.guess s bs).rest = bs := by
  cases bs <;> simp only [guess]
  case nil  => rfl
  case cons => split <;> rfl

theorem turn_suffix (s : State σ) (bs : Bytes) : (d.turn s bs).rest <:+ bs := by
  have ⟨ctl, parsers⟩ := s
  cases parsers <;> simp only [turn]
  case none => exact ⟨[], guess_rest _ bs⟩
  case some parser =>
    have hs := BasicParser.shrinks parser bs
    split <;> rename_i hp <;> rw [hp] at hs
    case h_2 =>
      simp only [finish]
      split <;> exact hs
    all_goals exact hs

theorem shrinks : Shrinks d.doParse :=
  Loop.shrinks turn_suffix

-- What holds of an operation between messages (`none`) and while it reads a message of a certain
-- type, if that rules out undefined behaviour.
structure Invariant (d : Dialogue σ) where
  holds  : σ → Option Byte → Prop
  start  : holds d.start none
  select : ∀ {s type}, holds s none →
    (d.select s type).All fun m s' => holds s' (some (Message.messageType m))
  accept : ∀ {s m}, holds s (some (Message.messageType m)) →
    (d.accept s m).All fun s' => holds s' none

namespace Invariant

variable (inv : d.Invariant) {s s' : State σ} {bs r : Bytes}

def holdsAt (s : State σ) : Prop :=
  inv.holds s.ctl (s.parsers.map fun parser => Message.messageType parser.result)

-- The invariant after one turn, which is not undefined.
def Keeps : Turn Byte (State σ) Report (Failure Report) → Prop
  | .goto s _ | .more s _ => inv.holdsAt s
  | .done ..              => True
  | .fail e _             => e ≠ .undefined

theorem keeps_guess (h : inv.holds s.ctl none) (hn : s.parsers = none) :
    inv.Keeps (d.guess s bs) := by
  cases bs
  case nil => simpa [guess, Keeps, holdsAt, hn] using h
  case cons type bs =>
    have hs : (d.select s.ctl type).All _ := inv.select h
    simp only [guess]
    cases he : d.select s.ctl type <;> rw [he] at hs
    case parse     => exact hs
    case malformed => rintro ⟨⟩
    case undefined => exact hs.elim

theorem keeps_finish {ctl : σ} {m} (h : inv.holds ctl (some (Message.messageType m))) :
    inv.Keeps (d.finish ctl m bs) := by
  have ha := inv.accept h
  simp only [finish]
  cases he : d.accept ctl m <;> rw [he] at ha <;> exact ha

theorem keeps_turn (h : inv.holdsAt s) (bs : Bytes) : inv.Keeps (d.turn s bs) := by
  have ⟨ctl, parsers⟩ := s
  cases parsers
  case none => exact inv.keeps_guess h rfl
  case some parser =>
    have ht := AnyMessage.messageType_parse parser bs
    simp only [turn]
    split <;> rename_i hp <;> rw [hp] at ht
    case h_1 => simpa [Keeps, holdsAt, show Message.messageType _ = _ from ht] using h
    case h_2 => exact inv.keeps_finish (ht ▸ h)
    case h_3 => exact absurd hp BasicParser.parse_ne_undefined
    case h_4 => nofun

-- The invariant after a call, which is not undefined.
def Sound : Step Byte (State σ) Report (Failure Report) → Prop
  | .more s _ => inv.holdsAt s
  | .done ..  => True
  | .fail e _ => e ≠ .undefined

theorem sound_doParse (h : inv.holdsAt s) (bs : Bytes) : inv.Sound (d.doParse s bs) := by
  have hk {s bs} (h : inv.holdsAt s) : inv.Keeps (d.turn s bs) := inv.keeps_turn h bs
  refine d.loop.run_induction (P := fun s _ => inv.holdsAt s) (Q := inv.Sound)
    (fun {s bs s' r} hi hb => ?_) (fun {s bs s' r} hi hb => ?_) (fun _ _ => trivial)
    (fun {s bs e r} hi hb => ?_) h
  case refine_1 => exact (congrArg inv.Keeps hb).mp (hk hi)
  case refine_2 => exact (congrArg inv.Keeps hb).mp (hk hi)
  case refine_3 => exact (congrArg inv.Keeps hb).mp (hk hi)

-- An operation that starts afresh never runs into undefined behaviour.
theorem defined (inv : d.Invariant) (bs r : Bytes) : d.doParse d.fresh bs ≠ .fail .undefined r := by
  intro h
  have hs : inv.Sound (d.doParse d.fresh bs) := inv.sound_doParse (s := d.fresh) inv.start bs
  rw [h] at hs
  exact hs rfl

end Invariant

end Dialogue

end ChxSql.Postgresql
