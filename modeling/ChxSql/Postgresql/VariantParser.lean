import ChxSql.Incremental.Reading
import ChxSql.Postgresql.MessageParser

namespace ChxSql.Postgresql

open Incremental Msg

-- A message type as it stands in the arguments of `message_parser`, with its default value.
structure MessageType where
  Carrier : Type
  [message : Message Carrier]
  initial : Carrier

namespace MessageType

instance (T : MessageType) : Message T.Carrier := T.message

-- `Message::message_type`
def byte (T : MessageType) : Byte :=
  Message.messageType T.initial

def authentication : MessageType where
  Carrier := Authentication
  initial := {}

def errorResponse : MessageType where
  Carrier := ErrorResponse
  initial := {}

def parameterStatus : MessageType where
  Carrier := ParameterStatus
  initial := {}

def noticeResponse : MessageType where
  Carrier := NoticeResponse
  initial := {}

end MessageType

-- `std::variant<Messages...>`: the alternative that it holds, and the value of that.
structure Variant (messages : List MessageType) where
  index : Fin messages.length
  value : (messages.get index).Carrier

namespace Variant

variable {messages : List MessageType}

-- `std::get_if<i>(&v)`
def getIf (v : Variant messages) (i : Fin messages.length) : Option (messages.get i).Carrier :=
  if h : v.index = i then some (h ▸ v.value) else none

theorem getIf_index (v : Variant messages) : v.getIf v.index = some v.value := by
  simp [getIf]

end Variant

-- Cf. `message_parser<Messages...>`, where `messages` are the alternatives of `__M_result`.
structure VariantParser (messages : List MessageType) where
  phase      : Phase := .type
  bodyRemain : Nat := 0
  result     : Variant messages

namespace VariantParser

-- What `-1` is as a `std::size_t`.
def noIndex : Nat :=
  2 ^ 64 - 1

def msgTypeJumpTable (messages : List MessageType) : Byte → Nat :=
  messages.zipIdx.foldl (fun r (T, i) => Function.update r T.byte i) fun _ => noIndex

-- The search for the alternative of a given index. It starts from the alternative `I`.
def search {α : Type} {n : Nat} (I idx : Nat) (f : Fin n → α) : Option α :=
  if h : I < n then
    if I = idx then some (f ⟨I, h⟩) else search (I + 1) idx f
  else
    none
termination_by n - I

variable {messages : List MessageType}

variable (messages) in
def resultEmplaceAndInvoke (I idx : Nat) (type : Byte) : Option (Variant messages × ParseResult) :=
  search I idx fun i =>
    (⟨i, (messages.get i).initial⟩, Message.onMessageType (messages.get i).initial type)

def invokeOnMessageLength (v : Variant messages) (I idx len : Nat) : Option ParseResult :=
  search I idx fun i =>
    match v.getIf i with
    | some m => Message.onMessageLength m len
    | none   => .undefined

def invokeOnBody (v : Variant messages) (I idx : Nat) (bs : Bytes) : Option (Body (Variant messages)) :=
  search I idx fun i =>
    match v.getIf i with
    | some m => (Message.onBody m bs).map (⟨i, ·⟩)
    | none   => .fail .undefined

-- One turn of the loop of `message_parser::operator()`.
def turn (p : VariantParser messages) (bs : Bytes) :
    Turn Byte (VariantParser messages) (Variant messages) ParseResult :=
  match p.phase with
  | .type =>
    match bs with
    | [] => .more p []
    | type :: bs =>
      if msgTypeJumpTable messages type ≠ noIndex then
        match resultEmplaceAndInvoke messages 0 (msgTypeJumpTable messages type) type with
        | some (result, .success)   => .goto { p with phase := .length {}, result } bs
        | some (_, .malformed)      => .fail .malformed bs
        | some (_, .internalError)  => .fail .internalError bs
        | _                         => .fail .undefined bs
      else
        .fail .malformed bs
  | .length parser =>
    (parser.parse bs).turn (fun parser => { p with phase := .length parser }) fun len bs =>
      if len < 4 then
        .fail .malformedIncomplete bs
      else
        match invokeOnMessageLength p.result 0 p.result.index len with
        | some .success       => .goto { p with phase := .body, bodyRemain := len - 4 } bs
        | some .malformed     => .fail .malformed bs
        | some .internalError => .fail .internalError bs
        | _                   => .fail .undefined bs
  | .body =>
    let consumed := min p.bodyRemain bs.length
    let bodyRemain := p.bodyRemain - consumed
    let rest := bs.drop consumed
    match invokeOnBody p.result 0 p.result.index (bs.take consumed) with
    | some (.success result) =>
      if bodyRemain = 0 then .done result rest else .fail .malformedTrailingData rest
    | some (.needMore result) =>
      if bodyRemain ≠ 0 then .more ⟨.body, bodyRemain, result⟩ rest else .fail .malformedIncomplete rest
    | some (.fail r) => .fail r rest
    | none           => .fail .undefined rest

def rank (p : VariantParser messages) : Nat :=
  match p.phase with
  | .type     => 2
  | .length _ => 1
  | .body     => 0

theorem turn_progress {p p' : VariantParser messages} {bs r} (h : p.turn bs = .goto p' r) :
    r.length * 1 + p'.rank < bs.length * 1 + p.rank := by
  rcases p with ⟨_ | parser | _, remain, v⟩ <;> simp only [turn] at h
  case type =>
    cases bs <;> simp only [reduceCtorEq] at h
    split at h <;> try cases h
    split at h <;> cases h
    simp [rank]
  case length =>
    obtain ⟨len, rest, hp, hk⟩ := Step.of_turn_goto h
    have := Integer.shrinks.length_le hp
    split at hk <;> try cases hk
    split at hk <;> cases hk
    simp [rank]
    omega
  case body =>
    split at h <;> try split at h
    all_goals cases h

def loop : Loop Byte (VariantParser messages) (Variant messages) ParseResult where
  body     := turn
  weight   := 1
  rank     := rank
  progress := turn_progress

-- `message_parser::operator()`
def parse (p : VariantParser messages) (bs : Bytes) :
    Step Byte (VariantParser messages) (Variant messages) ParseResult :=
  loop.run p bs

theorem search_eq {α : Type} {n I idx : Nat} {f : Fin n → α} (hi : I ≤ idx) (h : idx < n) :
    search I idx f = some (f ⟨idx, h⟩) := by
  induction hn : idx - I generalizing I
  case zero =>
    cases Nat.le_antisymm hi (Nat.le_of_sub_eq_zero hn)
    rw [search, dif_pos h, if_pos rfl]
  case succ k ih =>
    rw [search, dif_pos (by omega), if_neg (by omega)]
    exact ih (by omega) (by omega)

theorem resultEmplaceAndInvoke_eq (i : Fin messages.length) (type : Byte) :
    resultEmplaceAndInvoke messages 0 i type =
      some (⟨i, (messages.get i).initial⟩, Message.onMessageType (messages.get i).initial type) :=
  search_eq (Nat.zero_le _) i.isLt

theorem invokeOnMessageLength_eq (v : Variant messages) (len : Nat) :
    invokeOnMessageLength v 0 v.index len = some (Message.onMessageLength v.value len) := by
  rw [invokeOnMessageLength, search_eq (Nat.zero_le _) v.index.isLt, Fin.eta, v.getIf_index]

theorem invokeOnBody_eq (v : Variant messages) (bs : Bytes) :
    invokeOnBody v 0 v.index bs = some ((Message.onBody v.value bs).map (⟨v.index, ·⟩)) := by
  rw [invokeOnBody, search_eq (Nat.zero_le _) v.index.isLt, Fin.eta, v.getIf_index]

-- The table, when the entries of further messages are written into `r`. The induction is on these
-- messages.
theorem foldl_of_notMem {r : Byte → Nat} {k : Nat} {type : Byte} (h : type ∉ messages.map (·.byte)) :
    (messages.zipIdx k).foldl (fun r (T, i) => Function.update r T.byte i) r type = r type := by
  induction messages generalizing r k
  case nil => rfl
  case cons T messages ih =>
    rw [List.map_cons, List.mem_cons, not_or] at h
    rw [List.zipIdx_cons, List.foldl_cons]
    exact (ih h.right).trans (Function.update_of_ne h.left ..)

theorem foldl_byte {r : Byte → Nat} {k : Nat} (h : (messages.map (·.byte)).Nodup)
    (i : Fin messages.length) :
    (messages.zipIdx k).foldl (fun r (T, i) => Function.update r T.byte i) r (messages.get i).byte =
      k + i := by
  induction messages generalizing r k
  case nil => exact i.elim0
  case cons T messages ih =>
    rw [List.map_cons, List.nodup_cons] at h
    rw [List.zipIdx_cons, List.foldl_cons]
    cases i using Fin.cases
    case zero   => exact (foldl_of_notMem h.left).trans (Function.update_self ..)
    case succ i => exact (ih h.right i).trans (by rw [Fin.val_succ]; omega)

theorem msgTypeJumpTable_of_notMem {type : Byte} (h : type ∉ messages.map (·.byte)) :
    msgTypeJumpTable messages type = noIndex :=
  foldl_of_notMem h

theorem msgTypeJumpTable_byte (h : (messages.map (·.byte)).Nodup) (i : Fin messages.length) :
    msgTypeJumpTable messages (messages.get i).byte = i :=
  (foldl_byte h i).trans (Nat.zero_add _)

-- There are no more types than bytes.
theorem length_le_of_nodup (h : (messages.map (·.byte)).Nodup) : messages.length ≤ 256 := by
  have hn : ((messages.map (·.byte)).map UInt8.toFin).Nodup := List.Nodup.map (fun _ _ => UInt8.toFin_inj.mp) h
  have hc := hn.length_le_card
  rwa [List.length_map, List.length_map, Fintype.card_fin] at hc

theorem index_ne (h : (messages.map (·.byte)).Nodup) (i : Fin messages.length) : i.val ≠ noIndex := by
  have hl := length_le_of_nodup h
  rw [noIndex]
  omega

-- A parser that reads the message `i` as `p` reads it.
def lift (i : Fin messages.length) (p : BasicParser (messages.get i).Carrier) : VariantParser messages :=
  ⟨p.phase, p.bodyRemain, ⟨i, p.result⟩⟩

section

variable {i : Fin messages.length} {p : BasicParser (messages.get i).Carrier}

theorem lift_mk {phase : Phase} {remain : Nat} {m : (messages.get i).Carrier} :
    lift i ⟨phase, remain, m⟩ = ⟨phase, remain, ⟨i, m⟩⟩ := rfl

-- The same turn of both parsers, when the type byte has been read.
theorem turn_related (hp : p.phase ≠ .type) (bs : Bytes) :
    (p.turn bs).Related (fun p q => p.phase ≠ .type ∧ q = lift i p) (fun m v => v = ⟨i, m⟩) Eq
      ((lift i p).turn bs) := by
  rcases p with ⟨_ | parser | _, remain, m⟩ <;> rw [lift_mk] <;> simp only [BasicParser.turn, turn]
  case type => exact absurd rfl hp
  case length =>
    cases parser.parse bs
    case more => exact .more ⟨by simp, rfl⟩
    case fail => exact .fail rfl
    case done len rest =>
      have hi := invokeOnMessageLength_eq (⟨i, m⟩ : Variant messages) len
      simp only at hi
      simp only [Step.turn, hi]
      split
      case isTrue => exact .fail rfl
      case isFalse =>
        cases Message.onMessageLength m len
        case success => exact .goto ⟨by simp, rfl⟩
        all_goals exact .fail rfl
  case body =>
    have hi := invokeOnBody_eq (⟨i, m⟩ : Variant messages) (bs.take (min remain bs.length))
    simp only at hi
    rw [hi]
    cases Message.onBody m (bs.take (min remain bs.length)) <;> simp only [Body.map, BasicParser.closeBody]
    case success =>
      by_cases hz : remain - min remain bs.length = 0
      case pos => rw [if_pos hz, if_pos hz]; exact .done rfl
      case neg => rw [if_neg hz, if_neg hz]; exact .fail rfl
    case needMore =>
      by_cases hz : remain - min remain bs.length ≠ 0
      case pos => rw [if_pos hz, if_pos hz]; exact .more ⟨by simp, rfl⟩
      case neg => rw [if_neg hz, if_neg hz]; exact .fail rfl
    case fail => exact .fail rfl

-- The simulation of the loops. The induction over the turns is that of `Loop.run_related`.
theorem parse_related (hp : p.phase ≠ .type) (bs : Bytes) :
    (p.parse bs).Related (fun p q => p.phase ≠ .type ∧ q = lift i p) (fun m v => v = ⟨i, m⟩) Eq
      ((lift i p).parse bs) :=
  Loop.run_related (fun {_ _} ⟨hp, hq⟩ bs => hq ▸ turn_related hp bs) ⟨hp, rfl⟩ bs

end

variable {v : Variant messages} {type : Byte} {bs : Bytes}

theorem parse_nil : parse { result := v } [] = .more { result := v } [] :=
  Loop.run_more rfl

theorem parse_of_notMem (h : type ∉ messages.map (·.byte)) :
    parse { result := v } (type :: bs) = .fail .malformed bs := by
  refine Loop.run_fail ?_
  simp [loop, turn, msgTypeJumpTable_of_notMem h]

theorem body_byte (h : (messages.map (·.byte)).Nodup) (i : Fin messages.length) (bs : Bytes) :
    loop.body { result := v } ((messages.get i).byte :: bs) =
      match Message.onMessageType (messages.get i).initial (messages.get i).byte with
      | .success       => .goto ⟨.length {}, 0, ⟨i, (messages.get i).initial⟩⟩ bs
      | .malformed     => .fail .malformed bs
      | .internalError => .fail .internalError bs
      | _              => .fail .undefined bs := by
  simp only [loop, turn, msgTypeJumpTable_byte h, if_pos (index_ne h i), resultEmplaceAndInvoke_eq]
  cases Message.onMessageType (messages.get i).initial (messages.get i).byte <;> rfl

-- The type byte makes the variant hold the message that it stands for.
theorem parse_byte_related (h : (messages.map (·.byte)).Nodup) (i : Fin messages.length) (bs : Bytes) :
    (BasicParser.parse { result := (messages.get i).initial } ((messages.get i).byte :: bs)).Related
      (fun p q => p.phase ≠ .type ∧ q = lift i p) (fun m v => v = ⟨i, m⟩) Eq
      (parse { result := v } ((messages.get i).byte :: bs)) := by
  have ht := body_byte (v := v) h i bs
  cases hm : Message.onMessageType (messages.get i).initial (messages.get i).byte <;> rw [hm] at ht
  case success =>
    have hb : BasicParser.loop.body { result := (messages.get i).initial } ((messages.get i).byte :: bs) =
        .goto ⟨.length {}, 0, (messages.get i).initial⟩ bs := by
      simp only [BasicParser.loop, BasicParser.turn, hm]
    rw [parse, Loop.run_goto ht, BasicParser.parse, Loop.run_goto hb]
    exact parse_related (p := ⟨.length {}, 0, (messages.get i).initial⟩) (by simp) bs
  all_goals
    obtain ⟨e, hb, he⟩ : ∃ e, BasicParser.loop.body { result := (messages.get i).initial }
        ((messages.get i).byte :: bs) = .fail e bs ∧
        loop.body { result := v } ((messages.get i).byte :: bs) = .fail e bs := by
      simp only [BasicParser.loop, BasicParser.turn, hm]
      exact ⟨_, rfl, ht⟩
    rw [parse, Loop.run_fail he, BasicParser.parse, Loop.run_fail hb]
    exact .fail rfl

-- The states of a `basic_parser` of the message `i` and of a `message_parser` that have been fed the same:
-- either both wait for the type byte, or the latter holds what the former holds.
inductive Simulates (i : Fin messages.length) (v : Variant messages) :
    BasicParser (messages.get i).Carrier → VariantParser messages → Prop
  | start : Simulates i v { result := (messages.get i).initial } { result := v }
  | held {p} : p.phase ≠ .type → Simulates i v p (lift i p)

-- The induction is on the chunks before the one with the type byte.
theorem calls_parse_related (h : (messages.map (·.byte)).Nodup) (i : Fin messages.length)
    (v : Variant messages) {cs : List Bytes}
    (hc : ∀ type, cs.flatten.head? = some type → type = (messages.get i).byte) :
    List.Forall₂ (Step.Related (Simulates i v) (fun m v => v = ⟨i, m⟩) Eq)
      (calls BasicParser.parse { result := (messages.get i).initial } cs)
      (calls parse { result := v } cs) := by
  induction cs
  case nil => exact .nil
  case cons c cs ih =>
    cases c
    case nil =>
      have hb : BasicParser.parse { result := (messages.get i).initial } [] =
          .more { result := (messages.get i).initial } [] := Loop.run_more rfl
      simp only [calls, parse_nil, hb]
      exact .cons (.more .start) (ih hc)
    case cons type c =>
      cases hc type rfl
      have hr := parse_byte_related (v := v) h i c
      have hs {p : BasicParser (messages.get i).Carrier} {q} (h : p.phase ≠ .type ∧ q = lift i p) :
          Simulates i v p q := h.right ▸ .held h.left
      have hm := hr.mono fun _ _ => hs
      simp only [calls]
      refine .cons hm ?_
      generalize BasicParser.parse { result := (messages.get i).initial } _ = st at hr
      generalize parse { result := v } _ = st' at hr
      cases hr
      case done => exact .nil
      case fail => exact .nil
      case more hq =>
        have hp := calls_related (R := fun p q => p.phase ≠ .type ∧ q = lift i p)
          (fun {_ _} h bs => h.right ▸ parse_related h.left bs) hq cs
        exact hp.imp fun _ _ hr => hr.mono fun _ _ => hs

-- A `message_parser` reads the same bytes as a `basic_parser` of the message does.
theorem reads_iff (h : (messages.map (·.byte)).Nodup) (i : Fin messages.length)
    [LawfulMessage (messages.get i).Carrier] {v : Variant messages} {m : (messages.get i).Carrier}
    {bs : Bytes} :
    Reads parse { result := v } ((messages.get i).byte :: bs) ⟨i, m⟩ ↔
      BasicParser.parse { result := (messages.get i).initial } ((messages.get i).byte :: bs) = .done m [] := by
  constructor
  case mp =>
    intro hr
    have hb := parse_byte_related (v := v) h i bs
    rw [hr.parse_eq] at hb
    generalize BasicParser.parse { result := (messages.get i).initial } _ = st at hb ⊢
    cases hb
    case done m' hm =>
      cases hm
      rfl
  case mpr =>
    intro hd
    have hr := BasicParser.resumable.reads (List.cons_ne_nil _ _) hd
    refine hr.of_related (fun cs hc => calls_parse_related h i v fun type ht => ?_) .start
      (List.cons_ne_nil _ _) fun _ => id
    exact (Option.some.inj (hc type ht)).symm

-- The induction is on the chunks before the one with the type byte.
theorem feed_of_notMem {cs : List Bytes} (hc : cs.flatten.head? = some type)
    (h : type ∉ messages.map (·.byte)) :
    ∃ left unfed, feed parse { result := v } cs = (.fail .malformed left, unfed) ∧
      type :: (left ++ unfed.flatten) = cs.flatten := by
  induction cs
  case nil => cases hc
  case cons c cs ih =>
    cases c
    case nil =>
      rw [feed, parse_nil]
      exact ih hc
    case cons b c =>
      cases hc
      rw [feed, parse_of_notMem h]
      exact ⟨c, cs, rfl, rfl⟩

-- The alternatives of `message_parser<Messages...>::__M_result`.
def alternatives (messages : List MessageType) : List MessageType :=
  messages ++ [.errorResponse, .parameterStatus, .noticeResponse]

def first (messages : List MessageType) : Fin (alternatives messages).length :=
  ⟨0, by simp [alternatives]⟩

-- A parser in its initial state: the variant holds the default value of its first alternative.
def start (messages : List MessageType) : VariantParser (alternatives messages) where
  result := ⟨first messages, ((alternatives messages).get (first messages)).initial⟩

theorem agrees_basicParser (messages : List MessageType)
    (h : ((alternatives messages).map (·.byte)).Nodup) :
    (∀ (i : Fin (alternatives messages).length) (cs : List Bytes),
      (∀ type, cs.flatten.head? = some type → type = ((alternatives messages).get i).byte) →
      List.Forall₂ (Step.Related (Simulates i (start messages).result) (fun m v => v = ⟨i, m⟩) Eq)
        (calls BasicParser.parse { result := ((alternatives messages).get i).initial } cs)
        (calls parse (start messages) cs)) ∧
    (∀ (type : Byte) (cs : List Bytes), cs.flatten.head? = some type →
      type ∉ (alternatives messages).map (·.byte) →
      ∃ left unfed, feed parse (start messages) cs = (.fail .malformed left, unfed) ∧
        type :: (left ++ unfed.flatten) = cs.flatten) :=
  ⟨fun i _ => calls_parse_related h i _, fun _ _ => feed_of_notMem⟩

theorem agrees_basicParser_authentication :
    List.Forall₂ (Step.Related (Simulates (first [.authentication]) (start [.authentication]).result)
        (fun m v => v = ⟨first [.authentication], m⟩) Eq)
      (calls BasicParser.parse { result := MessageType.authentication.initial }
        [[], [letter 'R', 0], [0, 0, 8, 0]])
      (calls parse (start [.authentication]) [[], [letter 'R', 0], [0, 0, 8, 0]]) ∧
    ∃ left unfed, feed parse (start [.authentication]) [[], [letter 'T', 0], [1]] =
      (.fail .malformed left, unfed) ∧ letter 'T' :: (left ++ unfed.flatten) = [letter 'T', 0, 1] := by
  have h := agrees_basicParser [.authentication] (by decide)
  have hr : ∀ type, [[], [letter 'R', 0], [0, 0, 8, 0]].flatten.head? = some type → type = letter 'R' := by
    rintro _ ⟨⟩
    rfl
  exact ⟨h.left (first _) _ hr, h.right (letter 'T') [[], [letter 'T', 0], [1]] rfl (by decide)⟩

end VariantParser

end ChxSql.Postgresql
