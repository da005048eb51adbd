import ChxSql.Postgresql.Asynchronous
import ChxSql.Postgresql.Backend

namespace ChxSql.Postgresql

open Incremental Msg ServerMessage

-- What a server may answer to a request, and what the user is to be told then. An error may occur in the
-- answer to Bind, Describe and Execute, where the operation waits for the ReadyForQuery that comes after it.
inductive Answers : Query → List ServerMessage → Report → Prop
  | parse {ns ns' p z} : (∀ m ∈ ns, m.IsNotice) → p.content = .parseComplete →
    (∀ m ∈ ns', m.IsNotice) → z.content.IsReady → Answers .parse (ns ++ p :: (ns' ++ [z])) { ec := .none }
  | execute {xs z} : (∀ m ∈ xs ++ [z], m.content.AnswersExecute) → RowsFit none (xs ++ [z]) →
    Execute.Answered (xs ++ [z]) xs z [] → Answers .execute (xs ++ [z]) (delivered xs)
  | simpleQuery {xs z rs} : z.content.IsReady → SimpleQuery.Answer (SimpleQuery.contents (xs ++ [z])) rs →
    Answers .simpleQuery (xs ++ [z]) { ec := .none, resultSets := rs }

namespace ParseQuery

variable {m : ServerMessage}

theorem onFrame_parseComplete (h : m.content = .parseComplete) :
    parseQuery.onFrame .waitForParseComplete m.frame = .goto .waitForReadyForQuery := by
  obtain ⟨content, valid, fits⟩ := m
  cases h
  exact Dialogue.onFrame_eq rfl (AnyMessage.receive_map .parseComplete EmptyBody.receive)

theorem onFrame_ready (h : m.content.IsReady) :
    parseQuery.onFrame .waitForReadyForQuery m.frame = .complete { ec := .none } := by
  obtain ⟨content, valid, fits⟩ := m
  cases content <;> try exact h.elim
  exact Dialogue.onFrame_eq rfl (AnyMessage.receive_map .readyForQuery (ReadyForQuery.receive valid))

end ParseQuery

namespace Answers

variable {q : Query} {ms : List ServerMessage} {r : Report}

theorem encode_ne_nil (h : Answers q ms r) : encode ms ≠ [] := by
  intro he
  have hn := List.map_eq_nil_iff.mp (Frame.encodeAll_eq_nil he)
  cases h <;> simp at hn

-- An operation that is given an answer completes with it, and it leaves nothing of it.
theorem doParse_eq (h : Answers q ms r) : q.dialogue.doParse q.dialogue.fresh (encode ms) = .done r [] := by
  have hd (hf : onFrames q.dialogue.onFrame q.dialogue.start (frames ms) = (.complete r, [])) :
      q.dialogue.doParse q.dialogue.fresh (encode ms) = .done r [] := by
    have hp := (Dialogue.refines (d := q.dialogue)).frames_complete hf []
    rwa [List.append_nil, List.append_nil] at hp
  cases h
  case parse ns ns' p z hn hp hn' hz =>
    apply hd
    have hs {ns : List ServerMessage} (h : ∀ m ∈ ns, m.IsNotice) (m) (hm : m ∈ ns) :
        ∀ s, parseQuery.onFrame s m.frame = .goto s :=
      QueryOperation.onFrame_notice (q := .parseQuery) (h m hm)
    change onFrames parseQuery.onFrame .waitForParseComplete _ = _
    rw [frames_append, onFrames_skip (hs hn), frames_cons, onFrames, ParseQuery.onFrame_parseComplete hp]
    dsimp only
    rw [frames_append, onFrames_skip (hs hn'), frames_cons, onFrames, ParseQuery.onFrame_ready hz]
    rfl
  case execute xs z ha hf hw =>
    have hc : [encode (xs ++ [z])].flatten = encode (xs ++ [z]) := List.flatten_singleton
    have hs := (Dialogue.resumable.feed_done_iff.mp ((Execute.feed_shown ha hf hc).answered hw)).right
    rwa [hc] at hs
  case simpleQuery xs z rs hz ha =>
    apply hd
    obtain ⟨pre, z', st, hc, hr, hf⟩ := SimpleQuery.Standing.answer_iff.mp ha
    have hn : ¬z.content.Dismissable := by
      intro hd
      cases hx : z.content <;> rw [hx] at hd hz <;> first | exact hd.elim | exact hz.elim
    rw [SimpleQuery.contents_append, SimpleQuery.contents_cons hn] at hc
    obtain ⟨rfl, hz'⟩ := List.append_inj' hc rfl
    cases hz'
    obtain ⟨hx, hw⟩ := SimpleQuery.Standing.onFrames_run SimpleQuery.Standing.start_narrow hr
    change onFrames Postgresql.simpleQuery.onFrame SimpleQuery.Standing.start.state _ = _
    rw [frames_append, onFrames_append hx, frames_cons, onFrames, SimpleQuery.Standing.onFrame_eq_react hw,
      SimpleQuery.Standing.react_finish hf]
    rfl

end Answers

end ChxSql.Postgresql
