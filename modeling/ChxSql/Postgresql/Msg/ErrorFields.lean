import ChxSql.Postgresql.Msg.ErrorResponse

namespace ChxSql.Postgresql.Msg

open Incremental

-- A field as the parser of an ErrorResponse takes it: of a SQLSTATE it reads six bytes, whatever they
-- are, and drops the last one.
inductive ErrorField where
  | sqlstate (text : Bytes) (last : Byte)
  | other (type : Byte) (text : Bytes)
  deriving DecidableEq

namespace ErrorField

def WellFormed : ErrorField → Prop
  | sqlstate text _ => text.length = 5
  | other type text => type ≠ 0 ∧ type ≠ letter 'C' ∧ 0 ∉ text

def encode : ErrorField → Bytes
  | sqlstate text last => letter 'C' :: (text ++ [last])
  | other type text    => type :: (text ++ [0])

def sqlstate? : ErrorField → Option Bytes
  | sqlstate text _ => some text
  | other ..        => none

theorem encode_length_pos (f : ErrorField) : 0 < f.encode.length := by
  cases f <;> exact Nat.succ_pos _

end ErrorField

-- The body of an ErrorResponse.
def ErrorResponse.encode (fs : List ErrorField) : Bytes :=
  fs.flatMap ErrorField.encode ++ [0]

-- The SQLSTATE that counts is the last one.
def sqlstate? (fs : List ErrorField) : Option Bytes :=
  (fs.filterMap ErrorField.sqlstate?).getLast?

namespace ErrorResponse

variable {m : ErrorResponse} {ec : Errc} {f : ErrorField} {fs : List ErrorField} {bs r rest : Bytes}

-- The error code that the fields lead to, if it has been `ec` before.
def errcOf (ec : Errc) (fs : List ErrorField) : Errc :=
  fs.foldl (fun ec f => (f.sqlstate?.map sqlstateToErrc).getD ec) ec

theorem errcOf_eq (ec : Errc) (fs : List ErrorField) :
    errcOf ec fs = ((sqlstate? fs).map sqlstateToErrc).getD ec := by
  induction fs using List.reverseRecOn
  case nil => rfl
  case append_singleton fs f ih =>
    simp only [errcOf, sqlstate?, List.foldl_append, List.foldl_cons, List.foldl_nil,
      List.filterMap_append, List.filterMap_cons, List.filterMap_nil] at ih ⊢
    cases f.sqlstate?
    case none   => simpa using ih
    case some t => simp

theorem read_type_sqlstate (bs : Bytes) :
    read { ec } (letter 'C' :: bs) = read { ec, parsers := .sqlstate { target := 6 } } bs :=
  Loop.run_goto (by simp [loop, turn])

theorem read_type_other {type : Byte} (h₀ : type ≠ 0) (hc : type ≠ letter 'C') (bs : Bytes) :
    read { ec } (type :: bs) = read { ec, parsers := .skip {} } bs :=
  Loop.run_goto (by simp [loop, turn, h₀, hc])

theorem read_type_zero (bs : Bytes) : read { ec } (0 :: bs) = .done { ec } bs :=
  Loop.run_done rfl

theorem read_sqlstate {text : Bytes} (h : text.length = 5) (last : Byte) (rest : Bytes) :
    read { ec } (letter 'C' :: (text ++ last :: rest)) = read { ec := sqlstateToErrc text } rest := by
  have hg : loop.body { ec, parsers := .sqlstate { target := 6 } } (text ++ last :: rest) =
      .goto { ec := sqlstateToErrc text } rest := by
    have hp := IntegerArray.parse_full (p := { target := 6 })
      (show 0 + (text ++ [last]).length = 6 by simp [h]) rest
    simp only [List.append_assoc, List.cons_append, List.nil_append] at hp
    simp [loop, turn, hp, Step.turn]
  exact (read_type_sqlstate _).trans (Loop.run_goto hg)

theorem read_other {type : Byte} {text : Bytes} (h₀ : type ≠ 0) (hc : type ≠ letter 'C') (ht : 0 ∉ text)
    (rest : Bytes) : read { ec } (type :: (text ++ 0 :: rest)) = read { ec } rest := by
  have hg : loop.body { ec, parsers := .skip {} } (text ++ 0 :: rest) = .goto { ec } rest := by
    simp [loop, turn, Terminated.parse_full ht, Step.turn]
  exact (read_type_other h₀ hc _).trans (Loop.run_goto hg)

theorem read_encode (h : ∀ f ∈ fs, f.WellFormed) :
    read { ec } (encode fs ++ rest) = .done { ec := errcOf ec fs } rest := by
  induction fs generalizing ec
  case nil => exact Loop.run_done rfl
  case cons f fs ih =>
    have ih {ec} : read { ec } (encode fs ++ rest) = _ := ih fun f hf => h f (by simp [hf])
    have hf := h f (by simp)
    cases f
    case sqlstate text last =>
      rw [show encode (_ :: fs) ++ rest = letter 'C' :: (text ++ last :: (encode fs ++ rest)) by
        simp [encode, ErrorField.encode], read_sqlstate hf, ih]
      rfl
    case other type text =>
      have ⟨h₀, hc, ht⟩ := hf
      rw [show encode (_ :: fs) ++ rest = type :: (text ++ 0 :: (encode fs ++ rest)) by
        simp [encode, ErrorField.encode], read_other h₀ hc ht, ih]
      rfl

-- A SQLSTATE that is accepted has its six bytes.
theorem exists_sqlstate (h : read { ec, parsers := .sqlstate { target := 6 } } bs = .done m r) :
    ∃ text last rest, text.length = 5 ∧ bs = text ++ last :: rest := by
  by_cases hl : bs.length < 6
  case pos =>
    obtain ⟨p, hp⟩ := IntegerArray.parse_short (p := { target := 6 }) (show 0 + bs.length < 6 by omega)
    have hm : loop.body { ec, parsers := .sqlstate { target := 6 } } bs =
        .more { ec, parsers := .sqlstate p } [] := by
      simp [loop, turn, hp, Step.turn]
    rw [read, Loop.run_more hm] at h
    cases h
  case neg =>
    have hd : bs.drop 5 ≠ [] := by rw [ne_eq, List.drop_eq_nil_iff]; omega
    obtain ⟨last, rest, hd⟩ := List.exists_cons_of_ne_nil hd
    exact ⟨bs.take 5, last, rest, List.length_take_of_le (by omega), by rw [← hd, List.take_append_drop]⟩

-- Any other field that is accepted has its terminator.
theorem exists_text (h : read { ec, parsers := .skip {} } bs = .done m r) :
    ∃ text rest, 0 ∉ text ∧ bs = text ++ 0 :: rest := by
  obtain ht | ⟨text, rest, hb, ht⟩ := Terminated.cases_on_chunk bs
  case inl =>
    have hm : loop.body { ec, parsers := .skip {} } bs =
        .more { ec, parsers := .skip ⟨Container.insert Container.empty bs⟩ } [] := by
      simp [loop, turn, Terminated.parse_short ht, Step.turn]
    rw [read, Loop.run_more hm] at h
    cases h
  case inr => exact ⟨text, rest, ht, hb⟩

-- What is accepted is the end, or a field with something that is accepted after it.
theorem exists_field (h : read { ec } bs = .done m r) :
    bs = 0 :: r ∨ ∃ (f : ErrorField) (ec' : Errc) (rest : Bytes),
      f.WellFormed ∧ bs = f.encode ++ rest ∧ read { ec := ec' } rest = .done m r := by
  cases bs
  case nil =>
    rw [read, Loop.run_more (show loop.body { ec } [] = _ from rfl)] at h
    cases h
  case cons type bs =>
    by_cases hc : type = letter 'C'
    case pos =>
      subst hc
      rw [read_type_sqlstate] at h
      obtain ⟨text, last, rest, ht, hb⟩ := exists_sqlstate h
      rw [← read_type_sqlstate, hb, read_sqlstate ht] at h
      exact .inr ⟨.sqlstate text last, _, rest, ht, by simp [hb, ErrorField.encode], h⟩
    case neg =>
      by_cases h₀ : type = 0
      case pos =>
        rw [h₀, read_type_zero] at h
        cases h
        exact .inl (by rw [h₀])
      case neg =>
        rw [read_type_other h₀ hc] at h
        obtain ⟨text, rest, ht, hb⟩ := exists_text h
        rw [← read_type_other h₀ hc, hb, read_other h₀ hc ht] at h
        exact .inr ⟨.other type text, _, rest, ⟨h₀, hc, ht⟩, by simp [hb, ErrorField.encode], h⟩

-- Whatever the parser accepts consists of such fields. The induction is on the length of the input, of
-- which the first field is taken off.
theorem exists_fields (h : read { ec } bs = .done m r) :
    ∃ fs, (∀ f ∈ fs, f.WellFormed) ∧ bs = encode fs ++ r := by
  induction hn : bs.length using Nat.strongRecOn generalizing ec bs
  case ind n ih =>
    obtain hb | ⟨f, ec', rest, hf, hb, hr⟩ := exists_field h
    case inl => exact ⟨[], nofun, by rw [hb]; rfl⟩
    case inr =>
      have hl : rest.length < n := by
        rw [← hn, hb, List.length_append]
        exact Nat.lt_add_of_pos_left f.encode_length_pos
      have ⟨fs, hfs, he⟩ := ih rest.length hl hr rfl
      refine ⟨f :: fs, by simpa using ⟨hf, hfs⟩, ?_⟩
      rw [hb, he]
      simp [encode]

-- The bodies that are accepted, and the error codes that they lead to.
theorem receive_iff {body : Bytes} {e : Errc} :
    (Message.receive ({} : ErrorResponse) (letter 'E') body).map (·.ec) = some e ↔
      ∃ fs, (∀ f ∈ fs, f.WellFormed) ∧ body = encode fs ∧
        e = ((sqlstate? fs).map sqlstateToErrc).getD .successfulCompletion := by
  have hf {fs : List ErrorField} (h : ∀ f ∈ fs, f.WellFormed) :
      read {} (encode fs) = .done { ec := errcOf .successfulCompletion fs } [] := by
    have : read {} (encode fs ++ []) = _ := read_encode h
    rwa [List.append_nil] at this
  have hb : Message.onBody ({} : ErrorResponse) body = Body.ofStep (read {} body) := rfl
  rw [Message.receive, if_pos ⟨by simp [Message.onMessageType, acceptIf], rfl⟩, hb]
  constructor
  case mpr =>
    rintro ⟨fs, h, rfl, rfl⟩
    rw [hf h, ← errcOf_eq]
    rfl
  case mp =>
    intro h
    cases hs : read {} body <;> rw [hs] at h
    case more | fail => cases h
    case done m r =>
      simp only [Body.ofStep, makeSuccess] at h
      split at h
      case h_2 => cases h
      case h_1 m' hm =>
        split at hm
        case isFalse => cases hm
        case isTrue he =>
          cases hm
          cases he
          obtain ⟨fs, hfs, hb⟩ := exists_fields hs
          rw [List.append_nil] at hb
          refine ⟨fs, hfs, hb, ?_⟩
          rw [hb, hf hfs] at hs
          cases hs
          rw [← errcOf_eq]
          exact (Option.some.inj h).symm

end ErrorResponse

end ChxSql.Postgresql.Msg
