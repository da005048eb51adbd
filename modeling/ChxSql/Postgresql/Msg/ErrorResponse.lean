import ChxSql.Postgresql.ErrorCode
import ChxSql.Postgresql.Msg.Status

namespace ChxSql.Postgresql.Msg

open Incremental

-- The fields of an error or a notice: each has a code and a text.
abbrev Fields := List (Byte × Bytes)

namespace Fields

-- The texts are terminated by zeros, so they do not contain any, and a zero in place of a code ends
-- the list. The text of a field with the code `C` is a SQLSTATE, which has five characters.
def WellFormed (fs : Fields) : Prop :=
  ∀ f ∈ fs, f.1 ≠ 0 ∧ 0 ∉ f.2 ∧ (f.1 = letter 'C' → f.2.length = 5)

instance : DecidablePred WellFormed := fun fs =>
  inferInstanceAs (Decidable (∀ f ∈ fs, _))

def encode : Fields → Bytes
  | []      => [0]
  | f :: fs => f.1 :: (f.2 ++ 0 :: encode fs)

-- The error code of the last SQLSTATE among the fields.
def errc (ec : Errc) : Fields → Errc
  | []      => ec
  | f :: fs => errc (if f.1 = letter 'C' then sqlstateToErrc f.2 else ec) fs

-- The last SQLSTATE among the fields.
def sqlstate? (fs : Fields) : Option Bytes :=
  ((fs.filter (·.1 = letter 'C')).getLast?).map (·.2)

theorem errc_eq (ec : Errc) (fs : Fields) :
    fs.errc ec = (fs.sqlstate?.map sqlstateToErrc).getD ec := by
  induction fs generalizing ec
  case nil => rfl
  case cons f fs ih =>
    rw [errc, ih, sqlstate?, sqlstate?]
    by_cases hc : f.1 = letter 'C'
    case neg => simp [hc]
    case pos =>
      simp only [hc, if_true, List.filter_cons, decide_true, List.getLast?_cons]
      cases (fs.filter (·.1 = letter 'C')).getLast? <;> rfl

-- A SQLSTATE that stands for an error is made into an error.
theorem errc_ne_successfulCompletion (ec : Errc) {fs : Fields}
    (hc : (∃ f ∈ fs, f.1 = letter 'C') ∨ ec ≠ .successfulCompletion)
    (hs : ∀ f ∈ fs, f.1 = letter 'C' → f.2 ≠ ascii "00000") : fs.errc ec ≠ .successfulCompletion := by
  induction fs generalizing ec
  case nil => simpa [errc] using hc
  case cons f fs ih =>
    refine ih _ ?_ fun g hg => hs g (List.mem_cons_of_mem _ hg)
    by_cases hf : f.1 = letter 'C'
    case pos =>
      rw [if_pos hf, ne_eq, sqlstateToErrc_eq_successfulCompletion]
      exact .inr (hs f (by simp) hf)
    case neg =>
      rw [if_neg hf]
      refine hc.imp_left fun ⟨g, hg, hgc⟩ => ?_
      rcases List.mem_cons.mp hg with rfl | hg
      · exact absurd hgc hf
      · exact ⟨g, hg, hgc⟩

theorem WellFormed.tail {f : Byte × Bytes} {fs : Fields} (h : WellFormed (f :: fs)) :
    WellFormed fs :=
  fun _ hm => h _ (List.mem_cons_of_mem _ hm)

end Fields

structure NoticeResponse where
  parser : Option (Str NopContainer) := none
  deriving DecidableEq

namespace NoticeResponse

def turn (m : NoticeResponse) (bs : Bytes) :
    Turn Byte NoticeResponse NoticeResponse ParseResult :=
  match m.parser with
  | none =>
    match bs with
    | []         => .more m []
    | type :: bs => if type ≠ 0 then .goto ⟨some {}⟩ bs else .done m bs
  | some parser => (parser.parse bs).turn (⟨some ·⟩) fun _ bs => .goto ⟨none⟩ bs

theorem turn_progress {m m' : NoticeResponse} {bs r} (h : m.turn bs = .goto m' r) :
    r.length * 1 + 0 < bs.length * 1 + 0 := by
  cases hm : m.parser <;> simp only [turn, hm] at h
  case none =>
    cases bs <;> simp only [reduceCtorEq] at h
    split at h <;> cases h
    simp
  case some parser =>
    cases hp : (parser.parse bs : Step _ _ _ ParseResult) <;> simp only [hp, Step.turn, reduceCtorEq] at h
    cases h
    simpa using Terminated.parse_lt hp

def loop : Loop Byte NoticeResponse NoticeResponse ParseResult where
  body     := turn
  weight   := 1
  rank _   := 0
  progress := turn_progress

def read (m : NoticeResponse) (bs : Bytes) : Step Byte NoticeResponse NoticeResponse ParseResult :=
  loop.run m bs

theorem turn_extends (m : NoticeResponse) (xs ys : Bytes) :
    (m.turn xs).Extends (fun _ => True) turn ys (m.turn (xs ++ ys)) := by
  have ⟨parser⟩ := m
  cases parser
  case none =>
    cases xs
    case nil => exact .of_eq_more trivial rfl
    case cons =>
      simp only [turn, List.cons_append]
      split
      case isTrue  => exact .goto trivial
      case isFalse => exact .done
  case some =>
    exact (Terminated.resumable.extend trivial xs ys).turn (fun _ _ => trivial) (fun _ _ => rfl)
      (fun _ _ => .goto trivial)

theorem resumable : Resumable read :=
  Loop.resumable turn_extends

theorem turn_ne_fail {m : NoticeResponse} {bs e r} : m.turn bs ≠ .fail e r := by
  simp only [turn]
  split
  case h_1 =>
    split
    case h_1 => rintro ⟨⟩
    case h_2 => split <;> rintro ⟨⟩
  case h_2 =>
    simp only [Terminated.parse]
    split <;> rintro ⟨⟩

theorem read_ne_fail {m : NoticeResponse} {bs e r} : m.read bs ≠ .fail e r := by
  refine loop.run_induction (P := fun _ _ => True) (Q := fun st => st ≠ .fail e r)
    (fun _ _ => trivial) (fun _ _ => nofun) (fun _ _ => nofun) (fun _ h => ?_) trivial
  exact absurd h turn_ne_fail

instance : Message NoticeResponse where
  messageType _        := letter 'N'
  onMessageType _ type := acceptIf (type = letter 'N')
  onMessageLength _ _  := .success
  onBody m bs          := .ofStep (m.read bs)

instance : LawfulMessage NoticeResponse :=
  .of_machine resumable (fun _ _ => rfl) (fun _ _ => acceptIf_defined) (fun _ _ => .inl rfl)
    fun _ _ _ => read_ne_fail

theorem read_fields {fs : Fields} (h : Fields.WellFormed fs) (rest : Bytes) :
    read {} (Fields.encode fs ++ rest) = .done {} rest := by
  induction fs
  case nil => exact Loop.run_done rfl
  case cons f fs ih =>
    have ⟨hc, ht, _⟩ := h f (by simp)
    have h₁ : turn {} (Fields.encode (f :: fs) ++ rest) =
        .goto ⟨some {}⟩ (f.2 ++ 0 :: (Fields.encode fs ++ rest)) := by
      simp [turn, Fields.encode, hc]
    have h₂ : turn ⟨some {}⟩ (f.2 ++ 0 :: (Fields.encode fs ++ rest)) = .goto {} (Fields.encode fs ++ rest) := by
      simp [turn, Terminated.parse_full ht, Step.turn]
    rw [read, Loop.run_goto h₁, Loop.run_goto h₂]
    exact ih h.tail

theorem receive {fs : Fields} (h : Fields.WellFormed fs) :
    Message.receive ({} : NoticeResponse) (letter 'N') (Fields.encode fs) = some {} := by
  have hr := read_fields h []
  rw [List.append_nil] at hr
  simp [Message.receive, Message.onMessageType, Message.onMessageLength, Message.onBody, acceptIf,
    hr, Body.ofStep, makeSuccess]

end NoticeResponse

-- Cf. `error_response`: the alternatives of `__M_parsers`.
inductive FieldParser where
  | none
  | sqlstate (parser : IntegerArray)
  | skip (parser : Str NopContainer)
  deriving DecidableEq

-- A fresh `error_response` is value-initialised, so its `ec` is zero.
structure ErrorResponse where
  ec      : Errc := .successfulCompletion
  parsers : FieldParser := .none
  deriving DecidableEq

namespace ErrorResponse

def turn (m : ErrorResponse) (bs : Bytes) : Turn Byte ErrorResponse ErrorResponse ParseResult :=
  match m.parsers with
  | .none =>
    match bs with
    | [] => .more m []
    | type :: bs =>
      if type = letter 'C' then
        .goto { m with parsers := .sqlstate { target := 6 } } bs
      else if type ≠ 0 then
        .goto { m with parsers := .skip {} } bs
      else
        .done m bs
  | .sqlstate parser =>
    (parser.parse bs).turn ({ m with parsers := .sqlstate · }) fun v bs =>
      .goto { ec := sqlstateToErrc v.dropLast, parsers := .none } bs
  | .skip parser =>
    (parser.parse bs).turn ({ m with parsers := .skip · }) fun _ bs =>
      .goto { m with parsers := .none } bs

def rank (m : ErrorResponse) : Nat :=
  match m.parsers with
  | .sqlstate _ => 1
  | _           => 0

theorem turn_progress {m m' : ErrorResponse} {bs r} (h : m.turn bs = .goto m' r) :
    r.length * 2 + m'.rank < bs.length * 2 + m.rank := by
  have ⟨ec, parsers⟩ := m
  cases parsers <;> simp only [turn] at h
  case none =>
    cases bs <;> simp only [reduceCtorEq] at h
    split at h
    case isTrue => cases h; simp [rank]; omega
    case isFalse =>
      split at h <;> cases h
      simp [rank]
  case sqlstate parser =>
    cases hp : parser.parse bs <;> simp only [hp, Step.turn, reduceCtorEq] at h
    have := IntegerArray.shrinks.length_le hp
    cases h
    simp [rank]
    omega
  case skip parser =>
    cases hp : (parser.parse bs : Step _ _ _ ParseResult) <;> simp only [hp, Step.turn, reduceCtorEq] at h
    have := Terminated.parse_lt hp
    cases h
    simp [rank]
    omega

def loop : Loop Byte ErrorResponse ErrorResponse ParseResult where
  body     := turn
  weight   := 2
  rank     := rank
  progress := turn_progress

def read (m : ErrorResponse) (bs : Bytes) : Step Byte ErrorResponse ErrorResponse ParseResult :=
  loop.run m bs

theorem turn_extends (m : ErrorResponse) (xs ys : Bytes) :
    (m.turn xs).Extends (fun _ => True) turn ys (m.turn (xs ++ ys)) := by
  have ⟨ec, parsers⟩ := m
  cases parsers
  case none =>
    cases xs
    case nil => exact .of_eq_more trivial rfl
    case cons =>
      simp only [turn, List.cons_append]
      split
      case isTrue => exact .goto trivial
      case isFalse =>
        split
        case isTrue  => exact .goto trivial
        case isFalse => exact .done
  case sqlstate =>
    exact (IntegerArray.resumable.extend trivial xs ys).turn (fun _ _ => trivial) (fun _ _ => rfl)
      (fun _ _ => .goto trivial)
  case skip =>
    exact (Terminated.resumable.extend trivial xs ys).turn (fun _ _ => trivial) (fun _ _ => rfl)
      (fun _ _ => .goto trivial)

theorem resumable : Resumable read :=
  Loop.resumable turn_extends

theorem turn_ne_fail {m : ErrorResponse} {bs e r} : m.turn bs ≠ .fail e r := by
  simp only [turn]
  split
  case h_1 =>
    split
    case h_1 => rintro ⟨⟩
    case h_2 =>
      split
      case isTrue  => rintro ⟨⟩
      case isFalse => split <;> rintro ⟨⟩
  case h_2 parser _ =>
    cases hp : parser.parse bs
    case fail => exact absurd hp IntegerArray.parse_ne_fail
    all_goals rintro ⟨⟩
  case h_3 =>
    simp only [Terminated.parse]
    split <;> rintro ⟨⟩

theorem read_ne_fail {m : ErrorResponse} {bs e r} : m.read bs ≠ .fail e r := by
  refine loop.run_induction (P := fun _ _ => True) (Q := fun st => st ≠ .fail e r)
    (fun _ _ => trivial) (fun _ _ => nofun) (fun _ _ => nofun) (fun _ h => ?_) trivial
  exact absurd h turn_ne_fail

instance : Message ErrorResponse where
  messageType _        := letter 'E'
  onMessageType _ type := acceptIf (type = letter 'E')
  onMessageLength _ _  := .success
  onBody m bs          := .ofStep (m.read bs)

instance : LawfulMessage ErrorResponse :=
  .of_machine resumable (fun _ _ => rfl) (fun _ _ => acceptIf_defined) (fun _ _ => .inl rfl)
    fun _ _ _ => read_ne_fail

theorem read_fields (ec : Errc) {fs : Fields} (h : Fields.WellFormed fs) (rest : Bytes) :
    read { ec } (Fields.encode fs ++ rest) = .done { ec := Fields.errc ec fs } rest := by
  induction fs generalizing ec
  case nil => exact Loop.run_done rfl
  case cons f fs ih =>
    have ⟨hc, ht, hl⟩ := h f (by simp)
    have he : Fields.encode (f :: fs) ++ rest = f.1 :: (f.2 ++ 0 :: (Fields.encode fs ++ rest)) := by
      simp [Fields.encode]
    rw [Fields.errc, ← ih _ h.tail, he]
    by_cases hs : f.1 = letter 'C'
    case pos =>
      have h₁ : turn { ec } (f.1 :: (f.2 ++ 0 :: (Fields.encode fs ++ rest))) =
          .goto { ec, parsers := .sqlstate { target := 6 } } (f.2 ++ 0 :: (Fields.encode fs ++ rest)) := by
        simp [turn, hs]
      have h₂ : turn { ec, parsers := .sqlstate { target := 6 } } (f.2 ++ 0 :: (Fields.encode fs ++ rest)) =
          .goto { ec := sqlstateToErrc f.2 } (Fields.encode fs ++ rest) := by
        have hp := IntegerArray.parse_full (p := { target := 6 }) (show 0 + (f.2 ++ [0]).length = 6 by simp [hl hs])
          (Fields.encode fs ++ rest)
        simp only [List.append_assoc, List.cons_append, List.nil_append] at hp
        simp [turn, hp, Step.turn]
      rw [read, Loop.run_goto h₁, Loop.run_goto h₂, if_pos hs]
      rfl
    case neg =>
      have h₁ : turn { ec } (f.1 :: (f.2 ++ 0 :: (Fields.encode fs ++ rest))) =
          .goto { ec, parsers := .skip {} } (f.2 ++ 0 :: (Fields.encode fs ++ rest)) := by
        simp [turn, hs, hc]
      have h₂ : turn { ec, parsers := .skip {} } (f.2 ++ 0 :: (Fields.encode fs ++ rest)) =
          .goto { ec } (Fields.encode fs ++ rest) := by
        simp [turn, Terminated.parse_full ht, Step.turn]
      rw [read, Loop.run_goto h₁, Loop.run_goto h₂, if_neg hs]
      rfl

theorem receive {fs : Fields} (h : Fields.WellFormed fs) :
    Message.receive ({} : ErrorResponse) (letter 'E') (Fields.encode fs) =
      some { ec := Fields.errc .successfulCompletion fs } := by
  have hr := read_fields .successfulCompletion h []
  rw [List.append_nil] at hr
  simp [Message.receive, Message.onMessageType, Message.onMessageLength, Message.onBody, acceptIf,
    hr, Body.ofStep, makeSuccess]

end ErrorResponse

end ChxSql.Postgresql.Msg
