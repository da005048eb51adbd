import ChxSql.Postgresql.BasicType
import ChxSql.Incremental.Chunks

namespace ChxSql.Postgresql

open Incremental

-- The result of `on_body`. A message keeps what it has read so far in itself.
inductive Body (M : Type) where
  | success  (m : M)
  | needMore (m : M)
  | fail     (r : ParseResult)
  deriving DecidableEq

-- Cf. detail/make_success.hpp.
def makeSuccess (m : M) (rest : Bytes) : Body M :=
  if rest = [] then .success m else .fail .malformedTrailingData

-- `Body.ofStep` ends the `on_body` of a message that reads its body by a machine of its own.
def Body.ofStep : Step Byte M M ParseResult → Body M
  | .more m _    => .needMore m
  | .done m rest => makeSuccess m rest
  | .fail r _    => .fail r

-- What the framing layers require of a message type.
class Message (M : Type) where
  messageType     : M → Byte
  onMessageType   : M → Byte → ParseResult
  onMessageLength : M → Nat → ParseResult
  onBody          : M → Bytes → Body M

-- A message reads its body alike in one or in two parts.
class LawfulMessage (M : Type) [Message M] : Prop where
  onMessageType_defined {m : M} (type : Byte) :
    Message.onMessageType m type = .success ∨ Message.onMessageType m type = .malformed
  onMessageLength_defined {m : M} (len : Nat) :
    Message.onMessageLength m len = .success ∨ Message.onMessageLength m len = .malformed
  onBody_defined {m : M} {bs} : Message.onBody m bs ≠ .fail .undefined
  onBody_needMore {m m' : M} {xs} (h : Message.onBody m xs = .needMore m') (ys : Bytes) :
    Message.onBody m (xs ++ ys) = Message.onBody m' ys
  onBody_success {m m' : M} {xs} (h : Message.onBody m xs = .success m') {ys : Bytes}
    (hn : ys ≠ []) : Message.onBody m (xs ++ ys) = .fail .malformedTrailingData
  onBody_fail {m : M} {xs r} (h : Message.onBody m xs = .fail r) (ys : Bytes) :
    Message.onBody m (xs ++ ys) = .fail r

namespace Body

variable {M : Type} {f : M → Bytes → Step Byte M M ParseResult} {m m' : M} {xs ys : Bytes}

theorem ofStep_eq_success {st : Step Byte M M ParseResult} : ofStep st = .success m ↔ st = .done m [] := by
  cases st <;> simp only [ofStep, makeSuccess, reduceCtorEq]
  case done m' rest =>
    by_cases hr : rest = [] <;> simp [hr]

theorem ofStep_needMore (hf : Resumable f) (h : ofStep (f m xs) = .needMore m') (ys : Bytes) :
    ofStep (f m (xs ++ ys)) = ofStep (f m' ys) := by
  cases hs : f m xs <;> simp only [hs, ofStep, makeSuccess, reduceCtorEq] at h
  case more  => cases h; rw [hf.resumes trivial hs]
  case done  => split at h <;> cases h

theorem ofStep_success (hf : Resumable f) (h : ofStep (f m xs) = .success m') (hn : ys ≠ []) :
    ofStep (f m (xs ++ ys)) = .fail .malformedTrailingData := by
  cases hs : f m xs <;> simp only [hs, ofStep, reduceCtorEq] at h
  rw [hf.stays trivial hs]
  simp [ofStep, makeSuccess, hn]

theorem ofStep_fail {r} (hf : Resumable f) (h : ofStep (f m xs) = .fail r) (ys : Bytes) :
    ofStep (f m (xs ++ ys)) = .fail r := by
  cases hs : f m xs <;> simp only [hs, ofStep, makeSuccess, reduceCtorEq] at h
  case done a rest =>
    rw [hf.stays trivial hs]
    split at h <;> cases h
    simp_all [ofStep, makeSuccess]
  case fail =>
    have ⟨_, hr⟩ := hf.fails trivial hs ys
    cases h
    simp [hr, ofStep]

end Body

-- The laws of a message that reads its body by a resumable machine.
theorem LawfulMessage.of_machine {M : Type} [Message M] {f : M → Bytes → Step Byte M M ParseResult}
    (hf : Resumable f) (hb : ∀ m bs, Message.onBody m bs = .ofStep (f m bs))
    (ht : ∀ (m : M) type,
      Message.onMessageType m type = .success ∨ Message.onMessageType m type = .malformed)
    (hl : ∀ (m : M) len,
      Message.onMessageLength m len = .success ∨ Message.onMessageLength m len = .malformed)
    (hu : ∀ m bs r, f m bs ≠ .fail .undefined r) : LawfulMessage M where
  onMessageType_defined := ht _
  onMessageLength_defined := hl _
  onBody_needMore h ys := by
    rw [hb] at h; rw [hb, hb]; exact Body.ofStep_needMore hf h ys
  onBody_success {_ _ _} h _ hn := by
    rw [hb] at h; rw [hb]; exact Body.ofStep_success hf h hn
  onBody_fail h ys := by
    rw [hb] at h; rw [hb]; exact Body.ofStep_fail hf h ys
  onBody_defined {m bs} := by
    rw [hb]
    cases hs : f m bs <;> simp only [Body.ofStep, makeSuccess, ne_eq, reduceCtorEq, not_false_eq_true]
    case done => split <;> nofun
    case fail => rintro ⟨⟩; exact hu _ _ _ hs

-- Cf. `basic_parser<Message>`: the alternatives of `__M_parser`.
inductive Phase where
  | type
  | length (parser : Integer 4)
  | body
  deriving DecidableEq

structure BasicParser (M : Type) where
  phase      : Phase := .type
  bodyRemain : Nat := 0
  result     : M
  deriving DecidableEq

namespace BasicParser

variable {M : Type} [Message M]

-- What `basic_parser` makes of the result of `on_body`, when `bodyRemain` bytes of the body are
-- still to come.
def closeBody (bodyRemain : Nat) (rest : Bytes) :
    Body M → Turn Byte (BasicParser M) M ParseResult
  | .success m =>
    if bodyRemain = 0 then .done m rest else .fail .malformedTrailingData rest
  | .needMore m =>
    if bodyRemain ≠ 0 then .more ⟨.body, bodyRemain, m⟩ rest else .fail .malformedIncomplete rest
  | .fail r => .fail r rest

-- One turn of the loop of `basic_parser::operator()`.
def turn (p : BasicParser M) (bs : Bytes) : Turn Byte (BasicParser M) M ParseResult :=
  match p.phase with
  | .type =>
    match bs with
    | [] => .more p []
    | type :: bs =>
      match Message.onMessageType p.result type with
      | .success       => .goto { p with phase := .length {} } bs
      | .malformed     => .fail .malformed bs
      | .internalError => .fail .internalError bs
      | _              => .fail .undefined bs
  | .length parser =>
    (parser.parse bs).turn (fun parser => { p with phase := .length parser }) fun len bs =>
      if len < 4 then
        .fail .malformedIncomplete bs
      else
        match Message.onMessageLength p.result len with
        | .success       => .goto { p with phase := .body, bodyRemain := len - 4 } bs
        | .malformed     => .fail .malformed bs
        | .internalError => .fail .internalError bs
        | _              => .fail .undefined bs
  | .body =>
    let consumed := min p.bodyRemain bs.length
    closeBody (p.bodyRemain - consumed) (bs.drop consumed)
      (Message.onBody p.result (bs.take consumed))

def rank (p : BasicParser M) : Nat :=
  match p.phase with
  | .type     => 2
  | .length _ => 1
  | .body     => 0

theorem turn_progress {p p' : BasicParser M} {bs r} (h : p.turn bs = .goto p' r) :
    r.length * 1 + p'.rank < bs.length * 1 + p.rank := by
  rcases p with ⟨_ | parser | _, remain, m⟩ <;> simp only [turn] at h
  case type =>
    cases bs <;> simp only [reduceCtorEq] at h
    split at h <;> cases h
    simp [rank]
  case length =>
    cases hp : parser.parse bs <;> simp only [hp, Step.turn, reduceCtorEq] at h
    have := Integer.shrinks.length_le hp
    split at h <;> try cases h
    split at h <;> cases h
    simp [rank]
    omega
  case body =>
    cases hb : Message.onBody m (bs.take (min remain bs.length)) <;>
      simp only [hb, closeBody, reduceCtorEq] at h <;> split at h <;> cases h

def loop : Loop Byte (BasicParser M) M ParseResult where
  body     := turn
  weight   := 1
  rank     := rank
  progress := turn_progress

-- `basic_parser::operator()`
def parse (p : BasicParser M) (bs : Bytes) : Step Byte (BasicParser M) M ParseResult :=
  loop.run p bs

theorem turn_body_short {remain : Nat} {m : M} {xs : Bytes} (h : xs.length < remain) :
    turn ⟨.body, remain, m⟩ xs = closeBody (remain - xs.length) [] (Message.onBody m xs) := by
  have hc : min remain xs.length = xs.length := by omega
  simp [turn, hc]

theorem turn_body_full {remain : Nat} {m : M} {xs : Bytes} (h : xs.length = remain) (ys : Bytes) :
    turn ⟨.body, remain, m⟩ (xs ++ ys) = closeBody 0 ys (Message.onBody m xs) := by
  simp [turn, h]

-- If the body does not end in the chunk `xs`, then a turn on `xs ++ ys` adds the same `part` of `ys`
-- to the body as a turn on `ys` does after the turn on `xs`.
theorem turn_body_append {remain : Nat} {xs : Bytes} (h : xs.length < remain) (ys : Bytes) :
    ∃ part left rest, (part = [] → left ≠ 0) ∧
      (∀ m : M, turn ⟨.body, remain, m⟩ (xs ++ ys) =
        closeBody left rest (Message.onBody m (xs ++ part))) ∧
      (∀ m : M, turn ⟨.body, remain - xs.length, m⟩ ys =
        closeBody left rest (Message.onBody m part)) := by
  by_cases hy : ys.length < remain - xs.length
  case pos =>
    refine ⟨ys, remain - xs.length - ys.length, [], fun _ => by omega, fun m => ?_, fun m => ?_⟩
    · rw [turn_body_short (by simp; omega), List.length_append, Nat.sub_sub]
    · exact turn_body_short hy
  case neg =>
    let part := ys.take (remain - xs.length)
    have hp : part.length = remain - xs.length := by simp [part]; omega
    have hs : ys = part ++ ys.drop (remain - xs.length) := (List.take_append_drop ..).symm
    refine ⟨part, 0, ys.drop (remain - xs.length), fun hn => ?_, fun m => ?_, fun m => ?_⟩
    · rw [hn, List.length_nil] at hp; omega
    · conv_lhs => rw [hs, ← List.append_assoc]
      exact turn_body_full (by simp; omega) _
    · conv_lhs => rw [hs]
      exact turn_body_full hp _

variable [LawfulMessage M]

theorem turn_body_extends {remain : Nat} {m : M} {xs ys : Bytes} :
    (turn ⟨.body, remain, m⟩ xs).Extends (fun _ => True) turn ys
      (turn ⟨.body, remain, m⟩ (xs ++ ys)) := by
  by_cases h : xs.length < remain
  case neg =>
    have ⟨us, vs, he, hl⟩ : ∃ us vs, xs = us ++ vs ∧ us.length = remain :=
      ⟨xs.take remain, xs.drop remain, by simp, by simp; omega⟩
    rw [he, turn_body_full hl, List.append_assoc, turn_body_full hl]
    cases Message.onBody m us
    case success  => exact .done
    case needMore => exact .fail
    case fail     => exact .fail
  case pos =>
    have hne : remain - xs.length ≠ 0 := by omega
    have ⟨part, left, rest, hp, h₁, h₂⟩ := turn_body_append (M := M) h ys
    rw [turn_body_short h, h₁]
    cases hb : Message.onBody m xs <;> simp only [closeBody, hne, ne_eq, not_false_eq_true, if_true,
      if_false]
    case needMore m' =>
      refine .of_eq_more trivial ?_
      rw [LawfulMessage.onBody_needMore hb, h₂]
      rfl
    case success m' =>
      by_cases hn : part = []
      case pos =>
        simp only [hn, List.append_nil, hb, hp hn, if_false]
        exact .fail
      case neg =>
        rw [LawfulMessage.onBody_success hb hn]
        exact .fail
    case fail r =>
      rw [LawfulMessage.onBody_fail hb]
      exact .fail

theorem turn_extends (p : BasicParser M) (xs ys : Bytes) :
    (p.turn xs).Extends (fun _ => True) turn ys (p.turn (xs ++ ys)) := by
  rcases p with ⟨_ | parser | _, remain, m⟩
  case type =>
    cases xs
    case nil => exact .of_eq_more trivial rfl
    case cons type xs =>
      simp only [turn, List.cons_append]
      split
      case h_1 => exact .goto trivial
      all_goals exact .fail
  case length =>
    refine (Integer.resumable.extend trivial xs ys).turn (fun _ _ => trivial) (fun _ _ => rfl) ?_
    intro len rest
    split
    case isTrue => exact .fail
    case isFalse =>
      split
      case h_1 => exact .goto trivial
      all_goals exact .fail
  case body => exact turn_body_extends

-- The result of a parser does not depend on how a message was cut into chunks.
theorem resumable : Resumable (parse (M := M)) :=
  Loop.resumable turn_extends

theorem parse_ne_undefined {p : BasicParser M} {bs r} : p.parse bs ≠ .fail .undefined r := by
  refine loop.run_induction (P := fun _ _ => True) (Q := fun st => st ≠ .fail .undefined r)
    (fun _ _ => trivial) (fun _ _ => nofun) (fun _ _ => nofun) ?_ trivial
  rintro ⟨_ | parser | _, remain, m⟩ bs e r - h he <;> cases he <;>
    simp only [loop, turn] at h
  case type =>
    rcases bs with _ | ⟨type, bs⟩ <;> simp only [reduceCtorEq] at h
    rcases LawfulMessage.onMessageType_defined (m := m) type with ht | ht <;>
      simp [ht] at h
  case length =>
    cases hp : parser.parse bs <;> simp only [hp, Step.turn, reduceCtorEq] at h
    case done len rest =>
      split at h
      case isTrue => cases h
      case isFalse =>
        rcases LawfulMessage.onMessageLength_defined (m := m) len with hl | hl <;>
          simp [hl] at h
    case fail => exact absurd hp Integer.parse_ne_fail
  case body =>
    cases hb : Message.onBody m (bs.take (min remain bs.length)) <;> simp only [hb, closeBody] at h
    case fail => cases h; exact LawfulMessage.onBody_defined hb
    all_goals split at h <;> cases h

omit [LawfulMessage M] in
theorem turn_suffix (p : BasicParser M) (bs : Bytes) : (p.turn bs).rest <:+ bs := by
  have ⟨phase, remain, m⟩ := p
  cases phase <;> simp only [turn]
  case type =>
    cases bs
    case nil  => exact List.suffix_refl _
    case cons => dsimp only; split <;> exact List.suffix_cons ..
  case length parser =>
    refine Step.rest_turn_suffix (Integer.shrinks parser bs) fun len rest => ?_
    split
    case isTrue  => exact List.suffix_refl _
    case isFalse => split <;> exact List.suffix_refl _
  case body =>
    cases Message.onBody m (bs.take (min remain bs.length)) <;> simp only [closeBody]
    case fail => exact List.drop_suffix ..
    all_goals split <;> exact List.drop_suffix ..

omit [LawfulMessage M] in
theorem shrinks : Shrinks (parse (M := M)) :=
  Loop.shrinks turn_suffix

omit [LawfulMessage M] in
-- A parser that starts with the type byte has read that byte when it is done.
theorem parse_lt {p : BasicParser M} {bs m r} (hp : p.phase = .type) (h : p.parse bs = .done m r) :
    r.length < bs.length := by
  rcases p with ⟨phase, remain, m'⟩
  cases hp
  rcases bs with _ | ⟨type, bs⟩
  case nil =>
    have hm : loop.body ⟨.type, remain, m'⟩ [] = .more ⟨.type, remain, m'⟩ [] := rfl
    rw [parse, Loop.run_more hm] at h
    cases h
  case cons =>
    cases ht : Message.onMessageType m' type
    case success =>
      have hg : loop.body ⟨.type, remain, m'⟩ (type :: bs) = .goto ⟨.length {}, remain, m'⟩ bs := by
        simp [loop, turn, ht]
      rw [parse, Loop.run_goto hg] at h
      exact Nat.lt_succ_of_le (shrinks.length_le h)
    all_goals
      have ⟨e, hf⟩ : ∃ e, loop.body ⟨.type, remain, m'⟩ (type :: bs) = .fail e bs := by
        simp [loop, turn, ht]
      rw [parse, Loop.run_fail hf] at h
      cases h

end BasicParser

namespace BasicParser

variable {M : Type} [Message M] {p p' : BasicParser M} {bs r : Bytes}

-- A parser that is past the type byte stays so.
theorem turn_phase (h : p.phase ≠ .type) (ht : p.turn bs = .goto p' r ∨ p.turn bs = .more p' r) :
    p'.phase ≠ .type := by
  obtain ⟨phase, remain, m⟩ := p
  cases phase <;> simp only [turn] at ht
  case type => exact absurd rfl h
  case length parser =>
    cases hp : parser.parse bs <;> simp only [hp, Step.turn, reduceCtorEq, or_false, false_or] at ht
    case more => cases ht; rintro ⟨⟩
    case done =>
      split at ht
      case isTrue => cases ht; all_goals contradiction
      case isFalse =>
        split at ht <;> cases ht <;> rename_i h' <;> cases h'
        all_goals rintro ⟨⟩
  case body =>
    cases hb : Message.onBody m (bs.take (min remain bs.length)) <;> simp only [hb, closeBody] at ht
    case fail => cases ht <;> contradiction
    all_goals
      split at ht <;> cases ht <;> rename_i h' <;> cases h'
      all_goals rintro ⟨⟩

theorem parse_phase (h : p.phase ≠ .type) (hp : p.parse bs = .more p' r) : p'.phase ≠ .type := by
  have hq : ∀ p' r, p.parse bs = .more p' r → p'.phase ≠ .type :=
    loop.run_induction (P := fun p _ => p.phase ≠ .type)
      (Q := fun st => ∀ p' r, st = .more p' r → p'.phase ≠ .type)
      (fun h hb => turn_phase h (.inl hb))
      (fun h hb _ _ he => by cases he; exact turn_phase h (.inr hb))
      (fun _ _ => nofun) (fun _ _ => nofun) h
  exact hq p' r hp

end BasicParser

-- A message on the wire: the type, the length of the rest of the message (which counts itself), and
-- the body.
def frame (type : Byte) (body : Bytes) : Bytes :=
  type :: (toBigEndian 4 (body.length + 4) ++ body)

-- What a whole message makes of the message object that reads it, if that accepts it.
def Message.receive {M : Type} [Message M] (m : M) (type : Byte) (body : Bytes) : Option M :=
  if onMessageType m type = .success ∧ onMessageLength m (body.length + 4) = .success then
    match onBody m body with
    | .success m' => some m'
    | _           => none
  else
    none

theorem Message.receive_eq_some {M : Type} [Message M] {m m' : M} {type : Byte} {body : Bytes} :
    receive m type body = some m' ↔
      (onMessageType m type = .success ∧ onMessageLength m (body.length + 4) = .success) ∧
        onBody m body = .success m' := by
  rw [receive]
  split
  case isFalse h => exact iff_of_false nofun fun ⟨ht, _⟩ => h ht
  case isTrue h  => cases onBody m body <;> simp [h]

namespace BasicParser

variable {M : Type} [Message M] [LawfulMessage M] {body : Bytes}

omit [LawfulMessage M] in
theorem body_length {m : M} {len : Nat} (h : len < 256 ^ 4) (h₄ : 4 ≤ len) (rest : Bytes) :
    loop.body ⟨.length {}, 0, m⟩ (toBigEndian 4 len ++ rest) =
      match Message.onMessageLength m len with
      | .success       => .goto ⟨.body, len - 4, m⟩ rest
      | .malformed     => .fail .malformed rest
      | .internalError => .fail .internalError rest
      | _              => .fail .undefined rest := by
  simp [loop, turn, Integer.parse_digits h, Step.turn, Nat.not_lt.mpr h₄]

-- A parser that is given a whole message either accepts it and leaves exactly what follows the
-- message, or it fails.
theorem parse_frame (m : M) (type : Byte) (h : body.length + 4 < 256 ^ 4) (rest : Bytes) :
    (∃ m', Message.receive m type body = some m' ∧
      ({ result := m } : BasicParser M).parse (frame type body ++ rest) = .done m' rest) ∨
    (Message.receive m type body = none ∧
      ∃ e r, ({ result := m } : BasicParser M).parse (frame type body ++ rest) = .fail e r) := by
  rw [frame, List.cons_append, List.append_assoc, parse]
  rcases LawfulMessage.onMessageType_defined (m := m) type with ht | ht
  case inr =>
    have hf : loop.body ⟨.type, 0, m⟩ (type :: (toBigEndian 4 (body.length + 4) ++ (body ++ rest))) =
        .fail .malformed (toBigEndian 4 (body.length + 4) ++ (body ++ rest)) := by
      simp [loop, turn, ht]
    exact .inr ⟨by simp [Message.receive, ht], _, _, Loop.run_fail hf⟩
  case inl =>
    have hg : loop.body ⟨.type, 0, m⟩ (type :: (toBigEndian 4 (body.length + 4) ++ (body ++ rest))) =
        .goto ⟨.length {}, 0, m⟩ (toBigEndian 4 (body.length + 4) ++ (body ++ rest)) := by
      simp [loop, turn, ht]
    rw [Loop.run_goto hg]
    have hb := body_length (m := m) h (by omega) (body ++ rest)
    rcases LawfulMessage.onMessageLength_defined (m := m) (body.length + 4) with hl | hl
    case inr =>
      rw [hl] at hb
      exact .inr ⟨by simp [Message.receive, hl], _, _, Loop.run_fail hb⟩
    case inl =>
      rw [hl] at hb
      rw [Loop.run_goto hb]
      have hb := turn_body_full (m := m) (show body.length = body.length + 4 - 4 by simp) rest
      cases ho : Message.onBody m body <;> rw [ho] at hb
      case success m' => exact .inl ⟨m', by simp [Message.receive, ht, hl, ho], Loop.run_done hb⟩
      case needMore   => exact .inr ⟨by simp [Message.receive, ho], _, _, Loop.run_fail hb⟩
      case fail       => exact .inr ⟨by simp [Message.receive, ho], _, _, Loop.run_fail hb⟩

end BasicParser

end ChxSql.Postgresql
