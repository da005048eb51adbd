import ChxSql.Incremental.Chunks
import ChxSql.Postgresql.Execute
import ChxSql.Postgresql.Frame
import ChxSql.Postgresql.Oneshot

namespace ChxSql.Postgresql

open Incremental

def Selection.map {σ σ' : Type} (f : σ → σ') : Selection σ → Selection σ'
  | parse m s => parse m (f s)
  | malformed => malformed
  | undefined => undefined

def Move.map {σ σ' κ : Type} (f : σ → σ') : Move σ κ → Move σ' κ
  | goto s     => goto (f s)
  | complete k => complete k
  | fail e     => fail e

namespace Dialogue

variable {σ σ' : Type} {d : Dialogue σ} {d' : Dialogue σ'} {inv : d.Invariant}

-- A dialogue does what another one does, with its states in place of those. The invariant tells
-- which messages the other one is ever asked to accept.
structure Simulation (inv : d.Invariant) (d' : Dialogue σ') (lift : σ → σ') : Prop where
  select : ∀ s type, d'.select (lift s) type = (d.select s type).map lift
  accept : ∀ {s m}, inv.holds s (some (Message.messageType m)) →
    d'.accept (lift s) m = (d.accept s m).map lift
  resultSets : ∀ s, d'.resultSets (lift s) = d.resultSets s

def State.lift (lift : σ → σ') (s : State σ) : State σ' :=
  { ctl := lift s.ctl, parsers := s.parsers }

namespace Simulation

variable {lift : σ → σ'} (h : Simulation inv d' lift)

include h

theorem malformed (s : σ) : d'.malformed (lift s) = d.malformed s := by
  simp only [Dialogue.malformed, h.resultSets]

theorem guess (s : State σ) (bs : Bytes) :
    d'.guess (s.lift lift) bs = (d.guess s bs).mapState (State.lift lift) := by
  cases bs
  case nil => rfl
  case cons type bs =>
    simp only [Dialogue.guess, State.lift, h.select]
    cases d.select s.ctl type
    case malformed => exact congrArg (Turn.fail · _) (h.malformed s.ctl)
    all_goals rfl

theorem finish {s : σ} {m : AnyMessage} (hi : inv.holds s (some (Message.messageType m)))
    (bs : Bytes) : d'.finish (lift s) m bs = (d.finish s m bs).mapState (State.lift lift) := by
  simp only [Dialogue.finish, h.accept hi]
  cases d.accept s m <;> rfl

theorem turn {s : State σ} (hi : inv.holdsAt s) (bs : Bytes) :
    d'.turn (s.lift lift) bs = (d.turn s bs).mapState (State.lift lift) := by
  have ⟨ctl, parsers⟩ := s
  cases parsers
  case none => exact h.guess _ bs
  case some parser =>
    have ht := AnyMessage.messageType_parse parser bs
    simp only [Dialogue.turn, State.lift]
    cases hp : parser.parse bs <;> rw [hp] at ht
    case more => rfl
    case done => exact h.finish (ht ▸ hi) _
    case fail e _ =>
      cases e
      case undefined => rfl
      all_goals exact congrArg (Turn.fail · _) (h.malformed ctl)

theorem doParse {s : State σ} (hi : inv.holdsAt s) (bs : Bytes) :
    d'.doParse (s.lift lift) bs = (d.doParse s bs).mapState (State.lift lift) := by
  refine Loop.run_mapState (I := inv.holdsAt) (fun hi => h.turn hi) (fun {s bs _ _} hi hb => ?_) hi bs
  have hk := inv.keeps_turn hi bs
  rwa [show d.turn s bs = _ from hb] at hk

theorem feed {s : State σ} (hi : inv.holdsAt s) (cs : List Bytes) :
    Incremental.feed d'.doParse (s.lift lift) cs =
      ((Incremental.feed d.doParse s cs).1.mapState (State.lift lift),
        (Incremental.feed d.doParse s cs).2) := by
  refine feed_mapState (I := inv.holdsAt) (fun hi => h.doParse hi) (fun {s bs _ _} hi hm => ?_) hi
  have hs := inv.sound_doParse hi bs
  rwa [hm] at hs

end Simulation

end Dialogue

namespace Oneshot

-- The expectations of `execute` are among those of `oneshot`.
def Expect.ofExecute : Execute.Expect → Expect
  | .bindComplete       => bindComplete
  | .rowDescOrNoData    => rowDescOrNoData
  | .dataRow            => dataRow
  | .emptyQueryResponse => emptyQueryResponse
  | .readyForQuery      => readyForQuery

def ofExecute (s : Execute.State) : State :=
  { err := s.err, result := s.result, curr := s.curr, expect := .ofExecute s.expect }

theorem Expect.ofExecute_injective : Function.Injective ofExecute := by
  intro e e' h
  cases e <;> cases e' <;> first | rfl | cases h

theorem ofExecute_expect {s : Execute.State} {e : Execute.Expect} :
    (ofExecute s).expect = .ofExecute e ↔ s.expect = e :=
  Expect.ofExecute_injective.eq_iff

-- `oneshot` expects a ParseComplete only at the start, and `execute` never does.
theorem ofExecute_ne_parseComplete {s : Execute.State} : (ofExecute s).expect ≠ .parseComplete := by
  have ⟨_, _, _, expect⟩ := s
  cases expect <;> nofun

theorem select_ofExecute (s : Execute.State) (type : Byte) :
    select (ofExecute s) type = (Execute.select s type).map ofExecute := by
  have hs {e : Execute.Expect} {p q : Selection Execute.State} {p' : Selection State}
      (hp : p' = p.map ofExecute) (hq : .malformed = q.map ofExecute) :
      (if (ofExecute s).expect = .ofExecute e then p' else .malformed) =
        (if s.expect = e then p else q).map ofExecute := by
    simp only [ofExecute_expect]
    split
    case isTrue  => exact hp
    case isFalse => exact hq
  by_cases hm : type ∈ ['1', '2', 'T', 'D', 'C', 'n', 'I', 'Z', 'E', 'N'].map letter
  case neg =>
    rw [select_of_not_mem hm, Execute.select_of_not_mem fun h => hm (.tail _ h)]
    rfl
  simp only [List.map_cons, List.map_nil, List.mem_cons, List.not_mem_nil, or_false] at hm
  rcases hm with rfl | rfl | rfl | rfl | rfl | rfl | rfl | rfl | rfl | rfl
  · rw [select_parseComplete, if_neg ofExecute_ne_parseComplete]
    rw [Execute.select_of_not_mem (by decide)]
    rfl
  · exact hs (e := .bindComplete) rfl rfl
  · exact hs (e := .rowDescOrNoData) rfl rfl
  · refine hs (e := .dataRow) ?_ rfl
    have ⟨_, _, curr, _⟩ := s
    cases curr <;> rfl
  · exact hs (e := .dataRow) rfl rfl
  · exact hs (e := .rowDescOrNoData) rfl rfl
  · exact hs (e := .emptyQueryResponse) rfl rfl
  · exact hs (e := .readyForQuery) rfl rfl
  · rfl
  · rfl

theorem accept_ofExecute {s : Execute.State} {m : AnyMessage}
    (h : Execute.Holds s (some (Message.messageType m))) :
    accept (ofExecute s) m = (Execute.accept s m).map ofExecute := by
  cases m
  case parseComplete => exact absurd (show letter '1' ∈ _ from h.left) (by decide)
  case dataRow =>
    have ⟨_, _, curr, _⟩ := s
    cases curr <;> rfl
  all_goals rfl

theorem simulates_execute : Dialogue.Simulation Execute.invariant oneshot ofExecute where
  select       := select_ofExecute
  accept       := accept_ofExecute
  resultSets _ := rfl

-- The message that `oneshot` reads before it does what `execute` does.
def parseComplete : Frame :=
  ⟨letter '1', [], Frame.fits_nil⟩

theorem doParse_parseComplete :
    oneshot.doParse oneshot.fresh parseComplete.encode = .more (execute.fresh.lift ofExecute) [] := by
  have hf : oneshot.onFrame {} parseComplete = .goto (ofExecute {}) := rfl
  have h := oneshot.refines.goto hf []
  rw [List.append_nil, Dialogue.doParse_nil] at h
  exact h

-- After a ParseComplete `oneshot` does what `execute` does from its start: whatever bytes follow, and
-- in whatever chunks, they complete alike or keep reading alike, and leave the same bytes unread.
theorem feed_parseComplete {as : List Bytes} {b : Bytes} (h : as.flatten ++ b = parseComplete.encode)
    (c : Bytes) (cs : List Bytes) :
    feed oneshot.doParse oneshot.fresh (as ++ (b ++ c) :: cs) =
      ((feed execute.doParse execute.fresh (c :: cs)).1.mapState (.lift ofExecute),
        (feed execute.doParse execute.fresh (c :: cs)).2) := by
  rw [Dialogue.resumable.feed_append trivial doParse_parseComplete h]
  exact simulates_execute.feed (s := execute.fresh) Execute.invariant.start (c :: cs)

theorem feed_parseComplete_whole :
    [[49, 0], [0]].flatten ++ [0, 4] = parseComplete.encode ∧
    feed oneshot.doParse oneshot.fresh [[49, 0], [0], [0, 4, 90]] =
      ((feed execute.doParse execute.fresh [[90]]).1.mapState (.lift ofExecute),
        (feed execute.doParse execute.fresh [[90]]).2) :=
  ⟨by decide, @feed_parseComplete [[49, 0], [0]] [0, 4] (by decide) [90] []⟩

end Oneshot

end ChxSql.Postgresql
