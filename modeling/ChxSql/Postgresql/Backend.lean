import ChxSql.Postgresql.ExecuteLanguage
import ChxSql.Postgresql.Requests
import ChxSql.Postgresql.Session
import ChxSql.Postgresql.SimpleQueryAnswers
import ChxSql.Postgresql.StartupPacket

namespace ChxSql.Postgresql

open Incremental Decoder Msg ServerMessage

-- What a user wants to be done.
inductive Command (α : Type) where
  | parse (name query : Bytes)
  | execute (name : Bytes) (params : List (Param α))
  | simpleQuery (query : Bytes)

-- What a server has been asked to do: a list of messages up to a Sync, or a query string.
inductive Received where
  | batch (ms : List FrontendMessage)
  | query (query : Bytes)
  deriving DecidableEq

namespace Command

variable {α : Type}

def query : Command α → Query
  | parse ..      => .parse
  | execute ..    => .execute
  | simpleQuery _ => .simpleQuery

def request (toString : α → Bytes) : Command α → Option Bytes
  | parse name query    => ParseQuery.request name query
  | execute name params => Execute.request toString name params
  | simpleQuery query   => SimpleQuery.request query

-- What the server is to understand.
def meaning (toString : α → Bytes) : Command α → Received
  | parse name query    => .batch [.parse name query [], .sync]
  | execute name params => .batch [
      .bind [] name [] (params.map fun p => some (p.text toString)) [],
      .describe (letter 'P') [], .execute [] 0, .sync]
  | simpleQuery query   => .query query

-- The command can be told to the server.
def Encodable (toString : α → Bytes) : Command α → Prop
  | parse name query    => 0 ∉ name ∧ 0 ∉ query ∧ name.length + query.length < 2 ^ 31
  | execute name params =>
    0 ∉ name ∧ params.length ≤ 65535 ∧ name.length + Param.size toString params < 2 ^ 31
  | simpleQuery query   => 0 ∉ query ∧ query.length < 2 ^ 31

instance (toString : α → Bytes) : DecidablePred (Encodable toString) := fun cmd => by
  cases cmd <;> simp only [Encodable] <;> infer_instance

end Command

namespace FrontendMessage

variable {xs ys : Bytes} {m : FrontendMessage} {ms ms' : List FrontendMessage}

-- A message is not empty.
theorem message_shrinks {rest : Bytes} (h : message.run xs = some (m, rest)) : rest.length < xs.length := by
  obtain ⟨type, bs₁, ht, h⟩ := exists_of_bind h
  obtain ⟨length, bs₂, hl, h⟩ := exists_of_bind h
  have h₁ := length_of_take ht
  have h₂ := length_of_integer hl
  split at h
  case isTrue => cases h
  case isFalse =>
    obtain ⟨body, bs₃, hb, h⟩ := exists_of_bind h
    have h₃ := length_of_take hb
    dsimp only at h
    split at h
    case h_1 => cases h; omega
    case h_2 => cases h

-- It does not matter how often the server may look for a message, if that is often enough.
theorem go_eq {n k : Nat} (hn : xs.length ≤ n) (hk : xs.length ≤ k) : receive.go n xs = receive.go k xs := by
  induction n generalizing k xs
  case zero =>
    have hx : xs = [] := List.eq_nil_of_length_eq_zero (Nat.le_zero.mp hn)
    rw [hx, receive.go, receive.go]
  case succ n ih =>
    cases xs
    case nil => rw [receive.go, receive.go]
    case cons b bs =>
      cases k
      case zero => cases hk
      case succ k =>
        rw [receive.go, receive.go]
        cases hm : message.run (b :: bs)
        case none => rfl
        case some out =>
          obtain ⟨m, rest⟩ := out
          have hl := message_shrinks hm
          have hk' : rest.length ≤ k := by omega
          simp only [Option.bind_eq_bind, Option.bind_some, ih (show rest.length ≤ n by omega) hk']

theorem receive_of_message {rest : Bytes} (h : message.run xs = some (m, rest)) :
    receive xs = (receive rest).map (m :: ·) := by
  have hl := message_shrinks h
  cases xs
  case nil => cases hl
  case cons b bs =>
    rw [receive, List.length_cons, receive.go, h]
    simp only [Option.bind_eq_bind, Option.bind_some]
    rw [go_eq (Nat.le_of_lt_succ hl) le_rfl, ← receive]
    cases receive rest <;> rfl

theorem receive_inv (h : receive xs = some ms) : (xs = [] ∧ ms = []) ∨
    ∃ m rest ms', message.run xs = some (m, rest) ∧ receive rest = some ms' ∧ ms = m :: ms' := by
  cases xs
  case nil => cases h; exact .inl ⟨rfl, rfl⟩
  case cons b bs =>
    cases hm : message.run (b :: bs)
    case none =>
      rw [receive, List.length_cons, receive.go, hm] at h
      cases h
    case some out =>
      rw [receive_of_message hm] at h
      obtain ⟨ms', hr, he⟩ := Option.map_eq_some_iff.mp h
      exact .inr ⟨_, _, ms', rfl, hr, he.symm⟩

-- A query string is not one of these messages.
theorem head_ne_of_message {rest : Bytes} (h : message.run xs = some (m, rest)) : xs.head? ≠ some (letter 'Q') := by
  intro hq
  cases xs <;> cases hq
  case cons.refl bs =>
    obtain ⟨type, bs₁, ht, h⟩ := exists_of_bind h
    have hb : (take 1).run (letter 'Q' :: bs) = some ([letter 'Q'], bs) := Decodes.take [letter 'Q'] bs
    cases hb.symm.trans ht
    obtain ⟨length, bs₂, -, h⟩ := exists_of_bind h
    split at h
    case isTrue  => cases h
    case isFalse =>
      obtain ⟨body, bs₃, -, h⟩ := exists_of_bind h
      cases h

end FrontendMessage

namespace Received

def queryMessage : Decoder Bytes := do
  let type ← take 1
  let length ← integer 4
  if type ≠ [letter 'Q'] ∨ length < 4 then failure else exactly (length - 4) string

-- What the server has been asked to do, if what has come is all of it.
def receive (bs : Bytes) : Option Received :=
  if bs.head? = some (letter 'Q') then
    (queryMessage.whole bs).map query
  else
    match FrontendMessage.receive bs with
    | some ms => if ms.getLast? = some .sync then some (batch ms) else none
    | none    => none

variable {xs ys : Bytes} {r : Received} {ms : List FrontendMessage} {q : Bytes}

theorem receive_eq_batch : receive xs = some (batch ms) ↔
    xs.head? ≠ some (letter 'Q') ∧ FrontendMessage.receive xs = some ms ∧ ms.getLast? = some .sync := by
  rw [receive]
  split
  case isTrue h  => simp [h]
  case isFalse h =>
    split
    case h_1 ms' hm =>
      rw [hm, Option.ite_none_right_eq_some]
      simp only [h, ne_eq, not_false_eq_true, true_and, Option.some.injEq, batch.injEq]
      exact ⟨fun ⟨hs, he⟩ => ⟨he, he ▸ hs⟩, fun ⟨he, hs⟩ => ⟨he ▸ hs, he⟩⟩
    case h_2 hm => simp [hm]

theorem receive_eq_query : receive xs = some (query q) ↔
    xs.head? = some (letter 'Q') ∧ queryMessage.whole xs = some q := by
  rw [receive]
  split
  case isTrue h  => simp [h]
  case isFalse h =>
    refine iff_of_false (fun hr => ?_) (fun hr => h hr.left)
    split at hr
    case h_1 => split at hr <;> cases hr
    case h_2 => cases hr

end Received

namespace Command

variable {α : Type} {toString : α → Bytes} {cmd : Command α}

-- What the operations send is understood.
theorem request_received (h : cmd.Encodable toString) :
    ∃ request, cmd.request toString = some request ∧ Received.receive request = some (cmd.meaning toString) := by
  have hbatch {written : Option Bytes} {m : FrontendMessage} {ms} (h : written.bind FrontendMessage.receive = some (m :: ms))
      (hl : (m :: ms).getLast? = some .sync) :
      ∃ request, written = some request ∧ Received.receive request = some (.batch (m :: ms)) := by
    obtain ⟨request, hw, hr⟩ := Option.bind_eq_some_iff.mp h
    refine ⟨request, hw, Received.receive_eq_batch.mpr ⟨?_, hr, hl⟩⟩
    obtain ⟨-, he⟩ | ⟨_, _, _, hm, _⟩ := FrontendMessage.receive_inv hr
    case inl => cases he
    case inr => exact FrontendMessage.head_ne_of_message hm
  cases cmd
  case parse name query =>
    obtain ⟨hn, hq, ht⟩ := h
    exact hbatch (ParseQuery.request_received hn hq ht) rfl
  case execute name params =>
    obtain ⟨hn, hp, ht⟩ := h
    exact hbatch (Execute.request_received hn hp ht) rfl
  case simpleQuery query =>
    obtain ⟨hq, ht⟩ := h
    have hl : (query ++ [0]).length + 4 < 256 ^ 4 := by
      rw [List.length_append, List.length_singleton]
      omega
    have hr : SimpleQuery.request query = _ := SimpleQuery.request_eq_ite
    rw [if_pos (by omega)] at hr
    refine ⟨_, hr, Received.receive_eq_query.mpr ⟨rfl, ?_⟩⟩
    have he : frame (letter 'Q') (query ++ [0]) =
      [letter 'Q'] ++ (toBigEndian 4 ((query ++ [0]).length + 4) ++ (query ++ [0])) := rfl
    rw [he]
    apply Decodes.whole
    refine Decodes.bind (.take [letter 'Q']) ?_
    refine Decodes.bind (.integer hl) ?_
    rw [if_neg (by simp), Nat.add_sub_cancel]
    exact (Decodes.string hq).exactly

end Command

end ChxSql.Postgresql
