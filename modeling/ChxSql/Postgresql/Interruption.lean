import ChxSql.Postgresql.SimpleQueryStreams

namespace ChxSql.Postgresql

open Incremental Msg ServerMessage

-- Why an operation completes: because of what the server has sent, or because its transport reports an error.
inductive Cause (ε : Type) where
  | told (ec : ErrorCode)
  | transport (e : ε)
  deriving DecidableEq

-- What an operation completes with.
structure Completion (ε : Type) where
  cause      : Cause ε
  resultSets : ResultSets
  deriving DecidableEq

namespace Dialogue

variable {σ ε : Type}

-- The operation reads some chunks, and then its transport fails, if it has not completed by that time: the handler
-- of `ev_read` completes with the error and hands out the result sets that there are.
def completion (d : Dialogue σ) (cs : List Bytes) (e : ε) : Option (Completion ε) :=
  match (feed d.doParse d.fresh cs).fst with
  | .more s _              => some ⟨.transport e, d.resultSets s.ctl⟩
  | .done k _              => some ⟨.told k.ec, k.resultSets⟩
  | .fail (.malformed k) _ => some ⟨.told k.ec, k.resultSets⟩
  | .fail .undefined _     => none

-- The result sets change only with a message that has been read to its end.
structure KeepsResults (d : Dialogue σ) : Prop where
  select   : ∀ s type, (d.select s type).Satisfies fun _ s' => d.resultSets s' = d.resultSets s
  complete : ∀ {s m k}, d.accept s m = .complete k → k.resultSets = d.resultSets s
  fail     : ∀ {s m e}, d.accept s m = .fail e → e = .undefined

-- The result sets that the operation hands out, also if it fails or still waits.
def results (d : Dialogue σ) : Step Byte (State σ) Report (Failure Report) → ResultSets
  | .more s _              => d.resultSets s.ctl
  | .done k _              => k.resultSets
  | .fail (.malformed k) _ => k.resultSets
  | .fail .undefined _     => []

variable {d : Dialogue σ} {s s' : σ} {part r : Bytes} {cs : List Bytes}

-- What the parser of a message makes of a part of one, and of a message after which the operation does not go on.
theorem KeepsResults.results_parse (hk : d.KeepsResults) {m : AnyMessage}
    (hw : ∀ f r t, part = Frame.encode f ++ r → (∀ a, Message.receive m f.type f.body = some a → d.accept s a ≠ .goto t)) :
    (∃ r, d.doParse ⟨s, some { result := m }⟩ part = .fail .undefined r) ∨
      d.results (d.doParse ⟨s, some { result := m }⟩ part) = d.resultSets s := by
  have hb : d.loop.body ⟨s, some { result := m }⟩ part = d.turn ⟨s, some { result := m }⟩ part := rfl
  simp only [turn] at hb
  cases hp : ({ result := m } : BasicParser AnyMessage).parse part <;> rw [hp] at hb
  case more => rw [doParse, Loop.run_more hb]; exact .inr rfl
  case fail e r =>
    cases e
    case undefined => rw [doParse, Loop.run_fail hb]; exact .inl ⟨r, rfl⟩
    all_goals rw [doParse, Loop.run_fail hb]; exact .inr rfl
  case done a r =>
    obtain ⟨f, hf, hr⟩ := BasicParser.parse_done_iff.mp hp
    simp only [finish] at hb
    cases ha : d.accept s a <;> rw [ha] at hb
    case goto t   => exact absurd ha (hw f r t hf a hr)
    case complete => rw [doParse, Loop.run_done hb]; exact .inr (hk.complete ha)
    case fail e   =>
      rw [doParse, Loop.run_fail hb]
      exact .inl ⟨r, by rw [hk.fail ha]⟩

theorem KeepsResults.results_part (hk : d.KeepsResults)
    (hw : ∀ f r t, part = Frame.encode f ++ r → d.onFrame s f ≠ .goto t) :
    (∃ r, d.doParse ⟨s, none⟩ part = .fail .undefined r) ∨ d.results (d.doParse ⟨s, none⟩ part) = d.resultSets s := by
  cases part
  case nil => exact .inr (by rw [refines.idle]; rfl)
  case cons type bs =>
    have hg : d.loop.body ⟨s, none⟩ (type :: bs) = _ := body_of_head rfl
    rw [doParse]
    cases hs : d.select s type <;> rw [hs] at hg
    case malformed => rw [Loop.run_fail hg]; exact .inr rfl
    case undefined => rw [Loop.run_fail hg]; exact .inl ⟨_, rfl⟩
    case parse m s' =>
      rw [Loop.run_goto hg, ← (hk.select s type).of_parse hs]
      refine hk.results_parse fun f r t hf a hr ha => ?_
      have ht : f.type = type := (List.cons.inj hf).left.symm
      exact hw f r t hf ((onFrame_eq (ht ▸ hs) hr).trans ha)

-- Whatever bytes come, and in whatever chunks: the operation completes exactly once, with the result sets of the
-- messages after which it has gone on.
theorem Prepared.completion_results (hd : d.Prepared) (hk : d.KeepsResults) (inv : d.Invariant) (cs : List Bytes)
    (e : ε) : ∃ x fs ms part s, d.completion cs e = some x ∧ cs.flatten = Frame.encodeAll fs ++ part ∧
      List.Forall₂ Frame.StandsFor fs ms ∧ onFrames d.onFrame d.start (frames ms) = (.goto s, []) ∧
      (∀ f r m t, part = Frame.encode f ++ r → f.StandsFor m → d.onFrame s m.frame ≠ .goto t) ∧
      x.resultSets = d.resultSets s := by
  have hr : Refines d.doParse d.onFrame fun s => (⟨s, none⟩ : State σ) := refines
  obtain ⟨fs, part, s, hc, hg, hw, he⟩ := hr.exists_part d.start cs.flatten
  obtain ⟨ms, hs, hm⟩ := hd.understands.exists_goto hg
  have hn : ∀ r, d.doParse d.fresh cs.flatten ≠ .fail .undefined r := inv.defined _
  have hf : Agrees (feed d.doParse d.fresh cs) (d.doParse d.fresh cs.flatten) :=
    resumable.feed_agrees_flatten trivial fun _ => refines.idle d.start
  have hp : d.results (d.doParse d.fresh cs.flatten) = d.resultSets s := by
    rw [show d.doParse d.fresh cs.flatten = _ from he] at hn ⊢
    exact (hk.results_part hw).resolve_left fun ⟨r, hu⟩ => hn r hu
  have hx : ∃ x, d.completion cs e = some x ∧ x.resultSets = d.results (d.doParse d.fresh cs.flatten) := by
    rw [completion]
    generalize feed d.doParse d.fresh cs = fed, d.doParse d.fresh cs.flatten = out at hf hn ⊢
    cases hf
    case more => exact ⟨_, rfl, rfl⟩
    case done => exact ⟨_, rfl, rfl⟩
    case fail e _ r _ =>
      cases e
      case malformed => exact ⟨_, rfl, rfl⟩
      case undefined => exact absurd rfl (hn r)
  obtain ⟨x, hx, hr⟩ := hx
  refine ⟨x, fs, ms, part, s, hx, hc, hs, hm, fun f r m t hb hf => ?_, hr.trans hp⟩
  rw [← hd.understands.onFrame_eq hf]
  exact hw f r t hb

end Dialogue

namespace Execute

variable {ms : List ServerMessage} {s : State}

theorem keepsResults : execute.KeepsResults where
  select s type := by
    have hs : (select s type).Satisfies _ := select_satisfies
    rw [show execute.select s type = select s type from rfl]
    cases he : select s type <;> rw [he] at hs <;> try trivial
    obtain ⟨expect, rfl⟩ := hs
    rfl
  complete {s m k} h := by
    cases m
    case readyForQuery => cases h; rfl
    case dataRow =>
      simp only [execute, accept] at h
      split at h <;> cases h
    all_goals cases h
  fail {s m e} h := by
    cases m
    case dataRow =>
      simp only [execute, accept] at h
      split at h <;> cases h
      rfl
    all_goals cases h <;> rfl

-- Messages after which the operation goes on: a part of an answer, in which each row is as wide as the description
-- says.
structure Underway (ms : List ServerMessage) : Prop where
  answers    : ∀ m ∈ ms, m.content.AnswersExecute
  rows       : RowsFit none ms
  unfinished : ExtendedQuery.Unfinished (kinds ms)

theorem underway_of_goto (h : onFrames execute.onFrame execute.start (frames ms) = (.goto s, [])) :
    Underway ms ∧ s.result = (delivered ms).resultSets := by
  obtain ⟨ha, hf⟩ := Matches.start.fit h (by simp)
  obtain ⟨_, hm⟩ := matches_of_goto h
  exact ⟨⟨ha, hf, hm.unfinished⟩, congrArg (·.resultSets) hm.report_eq⟩

theorem Underway.exists_goto (h : Underway ms) :
    ∃ s, onFrames execute.onFrame execute.start (frames ms) = (.goto s, []) := by
  have ho := onFrames_outcome Matches.start h.answers h.rows
  rw [show onFrames execute.onFrame execute.start (frames ms) = onFrames execute.onFrame {} (frames ms) from rfl]
  generalize onFrames execute.onFrame {} (frames ms) = out at ho
  cases ho
  case waiting s _ => exact ⟨s, rfl⟩
  case ready he _ _ hl =>
    exact absurd (unfinished_split h.unfinished he) (ExtendedQuery.Unfinished.not_of_language hl)
  case malformed he _ hv => exact absurd (unfinished_split h.unfinished he).right hv

-- Whatever bytes come, and in whatever chunks, and also if the transport fails at some time: the operation completes,
-- and it hands out what the messages that it has read to their end deliver, never a part of a result set. After these
-- messages there is none after which it would have gone on.
theorem completion_delivered {ε : Type} (cs : List Bytes) (e : ε) : ∃ x fs ms part,
    execute.completion cs e = some x ∧ cs.flatten = Frame.encodeAll fs ++ part ∧
      List.Forall₂ Frame.StandsFor fs ms ∧ Underway ms ∧
      (∀ f r m, part = Frame.encode f ++ r → f.StandsFor m → ¬Underway (ms ++ [m])) ∧
      x.resultSets = (delivered ms).resultSets := by
  obtain ⟨x, fs, ms, part, s, hx, hc, hs, hm, hw, hr⟩ := prepared.completion_results keepsResults invariant cs e
  obtain ⟨hu, hd⟩ := underway_of_goto hm
  refine ⟨x, fs, ms, part, hx, hc, hs, hu, fun f r m hp hf hn => ?_, hr.trans hd⟩
  obtain ⟨t, ht⟩ := hn.exists_goto
  rw [frames_append, onFrames_append hm, frames_cons, onFrames] at ht
  cases ho : execute.onFrame s m.frame <;> rw [ho] at ht
  case goto t'        => exact hw f r m t' hp hf ho
  case complete | fail => cases ht

end Execute

namespace SimpleQuery

variable {ms : List ServerMessage} {s : State}

theorem keepsResults : simpleQuery.KeepsResults where
  select s type := by
    rw [show simpleQuery.select s type = select s type from rfl, select]
    repeat' apply Selection.satisfies_ite
    all_goals try split
    all_goals trivial
  complete {s m k} h := by
    cases m
    case readyForQuery | errorResponse => cases h; rfl
    case dataRow | rowDescription =>
      simp only [simpleQuery, accept] at h
      split at h <;> cases h
    all_goals cases h
  fail {s m e} h := by
    cases m
    case dataRow | rowDescription =>
      simp only [simpleQuery, accept] at h
      split at h <;> cases h
      rfl
    all_goals cases h <;> rfl

-- Messages after which the operation goes on, and the result sets of the statements that they answer.
def Underway (ms : List ServerMessage) (rs : ResultSets) : Prop :=
  ∃ ds bs, contents ms = ds ++ bs ∧ Taken ds rs ∧ Begun bs

theorem underway_iff {rs : ResultSets} :
    Underway ms rs ↔ ∃ pt, (Point.between []).run (contents ms) = some pt ∧ pt.results = rs := by
  constructor
  case mp =>
    rintro ⟨ds, bs, hc, ht, hb⟩
    rw [hc]
    exact Point.run_begun ht hb
  case mpr =>
    rintro ⟨pt, hr, rfl⟩
    exact (Point.word_of_run hr).exists_begun

-- The induction is on the messages.
theorem Point.onFrames_goto_iff {pt : Point} (h : pt.Narrow) :
    onFrames simpleQuery.onFrame pt.state (frames ms) = (.goto s, []) ↔
      ∃ pt', pt.run (contents ms) = some pt' ∧ pt'.state = s := by
  induction ms generalizing pt
  case nil => simp [onFrames, frames, contents, run]
  case cons m ms ih =>
    rw [frames_cons, onFrames, onFrame_eq_effect h, effect]
    by_cases hd : m.content.Dismissable
    case pos =>
      rw [if_pos hd, contents_cons_dismissable hd]
      exact ih h
    case neg =>
      rw [if_neg hd, contents_cons hd, run_cons]
      cases hn : pt.next m.content
      case some pt' => exact ih (h.next m.valid hn)
      case none     => cases ending? m.content <;> simp

theorem underway_of_goto (h : onFrames simpleQuery.onFrame simpleQuery.start (frames ms) = (.goto s, [])) :
    Underway ms s.result := by
  have hw : (Point.between []).Narrow := trivial
  obtain ⟨pt, hr, rfl⟩ := (Point.onFrames_goto_iff hw).mp h
  refine underway_iff.mpr ⟨pt, hr, ?_⟩
  cases pt <;> rfl

theorem Underway.exists_goto {rs : ResultSets} (h : Underway ms rs) :
    ∃ s, onFrames simpleQuery.onFrame simpleQuery.start (frames ms) = (.goto s, []) := by
  have hw : (Point.between []).Narrow := trivial
  obtain ⟨pt, hr, _⟩ := underway_iff.mp h
  exact ⟨pt.state, (Point.onFrames_goto_iff hw).mpr ⟨pt, hr, rfl⟩⟩

-- Whatever bytes come, and in whatever chunks, and also if the transport fails at some time: the operation completes,
-- and it hands out the result sets of the statements that the messages that it has read to their end answer, never a
-- part of one. After these messages there is none after which it would have gone on.
theorem completion_taken {ε : Type} (cs : List Bytes) (e : ε) : ∃ x fs ms part,
    simpleQuery.completion cs e = some x ∧ cs.flatten = Frame.encodeAll fs ++ part ∧
      List.Forall₂ Frame.StandsFor fs ms ∧ Underway ms x.resultSets ∧
      ∀ f r m rs, part = Frame.encode f ++ r → f.StandsFor m → ¬Underway (ms ++ [m]) rs := by
  obtain ⟨x, fs, ms, part, s, hx, hc, hs, hm, hw, hr⟩ := prepared.completion_results keepsResults invariant cs e
  refine ⟨x, fs, ms, part, hx, hc, hs, hr ▸ underway_of_goto hm, fun f r m rs hp hf hn => ?_⟩
  obtain ⟨t, ht⟩ := hn.exists_goto
  rw [frames_append, onFrames_append hm, frames_cons, onFrames] at ht
  cases ho : simpleQuery.onFrame s m.frame <;> rw [ho] at ht
  case goto t'        => exact hw f r m t' hp hf ho
  case complete | fail => cases ht

end SimpleQuery

end ChxSql.Postgresql
