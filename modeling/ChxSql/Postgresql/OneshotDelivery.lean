import ChxSql.Postgresql.ErrorReporting
import ChxSql.Postgresql.OneshotReading

namespace ChxSql.Postgresql.Oneshot

open Incremental ServerMessage

-- What the reading side has to complete with: what the response says, if it accepts that, and otherwise it says that
-- a message is malformed.
inductive Ended (ms : List ServerMessage) : Report → Prop
  | accepted {r} : Response ms → r = delivered ms → Ended ms r
  | rejected {r} : ¬Response ms → r.ec = makeEc .malformedMessage → Ended ms r

section

variable {ms : List ServerMessage} {as bs cs : List Bytes} {x x₁ x₂ : Execution}

theorem ec_of_fail {s : Dialogue.State State} {bs left : Bytes} {r : Report}
    (h : oneshot.doParse s bs = .fail (.malformed r) left) : r.ec = makeEc .malformedMessage := by
  have hs := Dialogue.failures (d := oneshot) accept_ne_malformed s bs
  rw [h] at hs
  exact hs r rfl

-- What the reading side completes with when it has read a beginning of the response.
theorem ended {before left : Bytes} {r : Report} (h : ServerResponse ms) (hb : before <+: encode ms)
    (hd : oneshot.doParse oneshot.fresh before = .done r left ∨
      oneshot.doParse oneshot.fresh before = .fail (.malformed r) left) :
    ¬Reading ms before ∧ (Response ms → before = encode ms) ∧ Ended ms r := by
  have hn : ¬Reading ms before := by
    intro hr
    obtain ⟨_, hm⟩ := more_of_reading h hr
    rcases hd with hd | hd <;> cases hm.symm.trans hd
  cases hd
  case inl hd =>
    obtain ⟨hr, hk, he⟩ := eq_of_done h hb hd
    exact ⟨hn, fun _ => he, .accepted hr hk⟩
  case inr hf =>
    have hr := not_response_of_fail hb hf
    exact ⟨hn, fun h => absurd h hr, .rejected hr (ec_of_fail hf)⟩

end

section

variable {ms : List ServerMessage} {before : Bytes} {rs : List Report} {r : Report} {p : Policy}

end

-- The response to a batch with an INSERT is among those of a server, but the reading side does not accept it.
example : ServerResponse (.parseComplete :: Execute.insertAnswer) where
  rows  := by decide
  ready := ⟨.parseComplete :: Execute.insertAnswer.take 3, .readyForQuery, rfl, rfl, by decide⟩
  once  := by decide

end ChxSql.Postgresql.Oneshot
