import ChxSql.Postgresql.SimpleQuery
import ChxSql.Postgresql.SimpleQueryLanguage

namespace ChxSql.Postgresql

open Incremental Msg ServerMessage

namespace SimpleQuery

-- What a server says, without the messages that may come at any time.
def contents (ms : List ServerMessage) : List Content :=
  (ms.map (·.content)).filter (¬·.Dismissable)

section

variable {m : ServerMessage} {ms xs ys : List ServerMessage}

theorem contents_append : contents (xs ++ ys) = contents xs ++ contents ys := by
  simp [contents]

theorem contents_cons_dismissable (h : m.content.Dismissable) : contents (m :: ms) = contents ms := by
  simp [contents, h]

theorem contents_cons (h : ¬m.content.Dismissable) : contents (m :: ms) = m.content :: contents ms := by
  simp [contents, h]

end

namespace Standing

-- The state of the operation when an answer has got to a certain point.
def state : Standing → State
  | between rs  => { result := rs }
  | opened rs r => { result := rs, curr := some r, currType := .withDataWithDef }
  | empty       => { currType := .empty }

-- The number of columns fits in 16 bits.
def Narrow : Standing → Prop
  | opened _ r => r.desc.length < 2 ^ 16
  | _          => True

-- Messages that are out of place but that the operation takes: a ReadyForQuery in the middle of a
-- statement's rows, a CommandComplete after an EmptyQueryResponse and an EmptyQueryResponse after a
-- statement, and an ErrorResponse whose SQLSTATE is missing or that of a successful completion.
inductive Slip : Standing → Content → Prop
  | ready {rs r status} : Slip (opened rs r) (.readyForQuery status)
  | command {tag} : Slip empty (.commandComplete tag)
  | empty {rs} : rs ≠ [] → Slip (between rs) .emptyQueryResponse
  | silent {st fields} : (∀ text, fields.sqlstate? = some text → text = ascii "00000") →
    Slip st (.errorResponse fields)

-- What the operation does with a well-formed message.
def react (st : Standing) : Content → Move State Report
  | .dataRow cells        =>
    match st with
    | opened rs r =>
      if cells.length = r.desc.length then
        .goto (opened rs { r with data := r.data ++ [cells] }).state
      else
        .fail (simpleQuery.malformed st.state)
    | _           => .fail (simpleQuery.malformed st.state)
  | .rowDescription cols  =>
    match st with
    | between rs => .goto (opened rs { desc := cols }).state
    | _          => .fail (simpleQuery.malformed st.state)
  | .emptyQueryResponse   =>
    match st with
    | between rs => .goto { result := rs, currType := .empty }
    | _          => .fail (simpleQuery.malformed st.state)
  | .commandComplete _    => .goto (between (st.state.result ++ [st.state.curr])).state
  | .readyForQuery _      => .complete { ec := .none, resultSets := st.state.result }
  | .errorResponse fields =>
    .complete { ec := makeEc (fields.errc .successfulCompletion), resultSets := st.state.result }
  | .noticeResponse _     => .goto st.state
  | .parameterStatus ..   => .goto st.state
  | _                     => .fail (simpleQuery.malformed st.state)

theorem onFrame_eq_react {st : Standing} (h : st.Narrow) (m : ServerMessage) :
    simpleQuery.onFrame st.state m.frame = react st m.content := by
  obtain ⟨content, valid, fits⟩ := m
  cases content
  case dataRow cells =>
    cases st
    case between | empty => exact Dialogue.onFrame_malformed rfl
    case opened rs r =>
      have hs : simpleQuery.select (opened rs r).state (letter 'D') =
          .parse (.dataRow (.ofColumns r.desc.length)) (opened rs r).state := by
        have hl : r.desc.length < 2 ^ 16 := h
        simp only [simpleQuery, select_dataRow, state, if_true, Nat.mod_eq_of_lt hl]
      simp only [react]
      split
      case isTrue hl =>
        obtain ⟨m, hr, hd⟩ := DataRow.receive (DataRow.wellFormed_of_fits fits) valid
        rw [hl] at hr
        refine (Dialogue.onFrame_eq hs (AnyMessage.receive_map .dataRow hr)).trans ?_
        rw [← hd]
        rfl
      case isFalse hl =>
        have hr := DataRow.receive_mismatch hl valid
        have hn : Message.receive (AnyMessage.dataRow (.ofColumns r.desc.length)) (letter 'D')
            (DataRow.encode cells) = none := by
          rw [AnyMessage.receive_inj .dataRow, hr, Option.map_none]
        simp only [Dialogue.onFrame, ServerMessage.frame, Content.type, Content.body, hs, hn]
  case rowDescription cols =>
    cases st
    case opened | empty => exact Dialogue.onFrame_malformed rfl
    case between rs =>
      obtain ⟨m, hr, hd⟩ := RowDescription.receive valid.left valid.right
      have hs : simpleQuery.select (between rs).state (letter 'T') =
          .parse (.rowDescription {}) { (between rs).state with
            currType := .withDataNoDef, curr := some {} } := rfl
      refine (Dialogue.onFrame_eq hs (AnyMessage.receive_map .rowDescription hr)).trans ?_
      rw [react, ← hd]
      rfl
  case emptyQueryResponse =>
    cases st
    case opened | empty => exact Dialogue.onFrame_malformed rfl
    case between rs =>
      have hs : simpleQuery.select (between rs).state (letter 'I') =
          .parse (.emptyQueryResponse ⟨⟩) { result := rs, currType := .empty } := rfl
      exact Dialogue.onFrame_eq hs (AnyMessage.receive_map .emptyQueryResponse EmptyBody.receive)
  case commandComplete =>
    exact Dialogue.onFrame_eq select_commandComplete
      (AnyMessage.receive_map .commandComplete (CommandComplete.receive valid))
  case readyForQuery =>
    exact Dialogue.onFrame_eq select_readyForQuery
      (AnyMessage.receive_map .readyForQuery (ReadyForQuery.receive valid))
  case errorResponse fields =>
    have hr := AnyMessage.receive_map .errorResponse (ErrorResponse.receive valid)
    exact Dialogue.onFrame_eq (f := ⟨letter 'E', fields.encode, fits⟩) select_errorResponse hr
  case noticeResponse fields =>
    have hr := AnyMessage.receive_map .noticeResponse (NoticeResponse.receive valid)
    exact Dialogue.onFrame_eq (f := ⟨letter 'N', fields.encode, fits⟩) select_noticeResponse hr
  case parameterStatus =>
    obtain ⟨m, hr⟩ := ParameterStatus.receive valid.left valid.right
    exact Dialogue.onFrame_eq select_parameterStatus (AnyMessage.receive_map .parameterStatus hr)
  all_goals exact Dialogue.onFrame_malformed rfl

section

variable {st st' : Standing} {c : Content} {rs : ResultSets}

theorem start_narrow : start.Narrow := trivial

theorem next_dismissable (h : c.Dismissable) : st.next c = none := by
  cases c <;> try exact h.elim
  all_goals cases st <;> rfl

theorem Narrow.next (h : st.Narrow) (hv : c.Valid) (hn : st.next c = some st') : st'.Narrow := by
  cases st
  case between rs =>
    cases c
    case rowDescription     => cases hn; exact hv.right
    case commandComplete    => cases hn; trivial
    case emptyQueryResponse => cases rs <;> cases hn; trivial
    all_goals cases rs <;> cases hn
  case opened rs r =>
    cases c
    case dataRow =>
      simp only [Standing.next] at hn
      split at hn <;> cases hn
      exact h
    case commandComplete => cases hn; trivial
    all_goals cases hn
  case empty => cases c <;> cases hn

theorem react_dismissable (h : c.Dismissable) : react st c = .goto st.state := by
  cases c <;> first | rfl | exact h.elim

theorem react_next (h : st.next c = some st') : react st c = .goto st'.state := by
  cases st
  case between rs =>
    cases c
    case rowDescription     => cases h; rfl
    case commandComplete    => cases h; rfl
    case emptyQueryResponse => cases rs <;> cases h; rfl
    all_goals cases rs <;> cases h
  case opened rs r =>
    cases c
    case dataRow =>
      simp only [Standing.next] at h
      split at h <;> cases h
      case isTrue.refl hl => exact if_pos hl
    case commandComplete => cases h; rfl
    all_goals cases h
  case empty => cases c <;> cases h

theorem react_finish (h : st.finish c = some rs) :
    react st c = .complete { ec := .none, resultSets := rs } := by
  cases st <;> cases c <;> cases h <;> rfl

-- The operation completes with an error.
def IsError : Move State Report → Prop
  | .goto _     => False
  | .complete r => r.ec.isZero = false
  | .fail e     => ∃ rs, e = .malformed { ec := makeEc .malformedMessage, resultSets := rs }

-- A message that is out of place leads to an error, unless it is one of those that the operation
-- takes.
theorem react_error (hd : ¬c.Dismissable) (hn : st.next c = none) (hf : st.finish c = none)
    (hs : ¬Slip st c) : IsError (react st c) := by
  cases c
  case noticeResponse | parameterStatus => exact absurd trivial hd
  case errorResponse fields =>
    have ht : ¬∀ text, fields.sqlstate? = some text → text = ascii "00000" := fun h => hs (.silent h)
    simp only [not_forall] at ht
    obtain ⟨text, hq, hz⟩ := ht
    have he : fields.errc .successfulCompletion ≠ .successfulCompletion := by
      rw [Fields.errc_eq, hq]
      exact mt sqlstateToErrc_eq_successfulCompletion.mp hz
    simpa [IsError, react, ErrorCode.isZero] using he
  case dataRow cells =>
    cases st
    case opened rs r =>
      simp only [Standing.next] at hn
      split at hn
      case isTrue     => cases hn
      case isFalse hl => simp only [react, if_neg hl]; exact ⟨_, rfl⟩
    all_goals exact ⟨_, rfl⟩
  case readyForQuery =>
    cases st
    case opened => exact absurd .ready hs
    all_goals cases hf
  case commandComplete =>
    cases st
    case empty => exact absurd .command hs
    all_goals cases hn
  case emptyQueryResponse =>
    cases st
    case between rs =>
      cases rs
      case nil  => cases hn
      case cons => exact absurd (.empty (by simp)) hs
    all_goals exact ⟨_, rfl⟩
  case rowDescription =>
    cases st
    case between => cases hn
    all_goals exact ⟨_, rfl⟩
  all_goals exact ⟨_, rfl⟩

-- Those that it takes lead on or complete it.
theorem Slip.effect (h : Slip st c) : ¬c.Dismissable ∧ st.next c = none ∧ st.finish c = none ∧
    ((∃ s, react st c = .goto s) ∨ ∃ r, react st c = .complete r ∧ r.ec.isZero) := by
  cases h
  case ready   => exact ⟨not_false, rfl, rfl, .inr ⟨_, rfl, rfl⟩⟩
  case command => exact ⟨not_false, rfl, rfl, .inl ⟨_, rfl⟩⟩
  case empty rs hr =>
    cases rs
    case nil  => exact absurd rfl hr
    case cons => exact ⟨not_false, rfl, rfl, .inl ⟨_, rfl⟩⟩
  case silent fields ht =>
    refine ⟨not_false, by cases st <;> rfl, by cases st <;> rfl, .inr ⟨_, rfl, ?_⟩⟩
    simp only [ErrorCode.isZero, decide_eq_true_eq, Fields.errc_eq]
    cases hq : fields.sqlstate?
    case none      => rfl
    case some text => exact sqlstateToErrc_eq_successfulCompletion.mpr (ht text hq)

end

-- None of the messages is out of place and taken.
def Regular (st : Standing) (ms : List ServerMessage) : Prop :=
  ∀ xs m ys st', ms = xs ++ m :: ys → st.run (contents xs) = some st' → ¬Slip st' m.content

-- How far the operation gets with messages.
inductive Ran (st : Standing) (ms : List ServerMessage) : Move State Report × List Frame → Prop
  | reads {st'} : st.run (contents ms) = some st' → Ran st ms (.goto st'.state, [])
  | completes {xs z ys st' rs} : ms = xs ++ z :: ys → st.run (contents xs) = some st' →
    st'.finish z.content = some rs → Ran st ms (.complete { ec := .none, resultSets := rs }, frames ys)
  | errs {xs z ys st' mv} : ms = xs ++ z :: ys → st.run (contents xs) = some st' →
    ¬z.content.Dismissable → st'.next z.content = none → st'.finish z.content = none → IsError mv →
    Ran st ms (mv, frames ys)

section

variable {st st' : Standing} {m : ServerMessage} {ms : List ServerMessage}
variable {out : Move State Report × List Frame}

theorem run_contents_dismissable (st : Standing) (h : m.content.Dismissable) (xs : List ServerMessage) :
    st.run (contents (m :: xs)) = st.run (contents xs) := by
  rw [contents_cons_dismissable h]

theorem run_contents_next (h : st.next m.content = some st') (xs : List ServerMessage) :
    st.run (contents (m :: xs)) = st'.run (contents xs) := by
  have hd : ¬m.content.Dismissable := fun hd => by rw [next_dismissable hd] at h; cases h
  rw [contents_cons hd, run, List.foldlM_cons, h]
  rfl

theorem Ran.cons (hm : ∀ xs, st.run (contents (m :: xs)) = st'.run (contents xs))
    (h : st'.Ran ms out) : st.Ran (m :: ms) out := by
  cases h
  case reads hr => exact .reads ((hm _).trans hr)
  case completes xs z ys st' rs he hr hf =>
    exact .completes (by rw [he, List.cons_append]) ((hm _).trans hr) hf
  case errs xs z ys st' mv he hr hd hn hf hv =>
    exact .errs (by rw [he, List.cons_append]) ((hm _).trans hr) hd hn hf hv

theorem Regular.tail (hm : ∀ xs, st.run (contents (m :: xs)) = st'.run (contents xs))
    (h : st.Regular (m :: ms)) : st'.Regular ms :=
  fun xs z ys st'' he hr => h (m :: xs) z ys st'' (by rw [he, List.cons_append]) ((hm xs).trans hr)

-- The induction is on the messages; a message leads on, completes the answer or is out of place.
theorem onFrames_ran (hw : st.Narrow) (h : st.Regular ms) :
    st.Ran ms (onFrames simpleQuery.onFrame st.state (frames ms)) := by
  induction ms generalizing st
  case nil => exact .reads rfl
  case cons m ms ih =>
    rw [frames_cons, onFrames, onFrame_eq_react hw]
    by_cases hd : m.content.Dismissable
    case pos =>
      have hm := run_contents_dismissable st hd
      rw [react_dismissable hd]
      exact (ih hw (h.tail hm)).cons hm
    case neg =>
      cases hn : st.next m.content
      case some st' =>
        have hm := run_contents_next hn
        rw [react_next hn]
        exact (ih (hw.next m.valid hn) (h.tail hm)).cons hm
      case none =>
        cases hf : st.finish m.content
        case some rs =>
          rw [react_finish hf]
          exact .completes (List.nil_append (m :: ms)).symm rfl hf
        case none =>
          have he := react_error hd hn hf (h [] m ms st rfl rfl)
          cases hr : react st m.content <;> rw [hr] at he
          case goto => exact he.elim
          all_goals exact .errs (List.nil_append (m :: ms)).symm rfl hd hn hf he

-- What leads from one standing to another is read up.
theorem onFrames_run (hw : st.Narrow) (h : st.run (contents ms) = some st') :
    onFrames simpleQuery.onFrame st.state (frames ms) = (.goto st'.state, []) ∧ st'.Narrow := by
  induction ms generalizing st
  case nil => cases h; exact ⟨rfl, hw⟩
  case cons m ms ih =>
    rw [frames_cons, onFrames, onFrame_eq_react hw]
    by_cases hd : m.content.Dismissable
    case pos =>
      rw [react_dismissable hd]
      exact ih hw (run_contents_dismissable _ hd ms ▸ h)
    case neg =>
      rw [contents_cons hd, run, List.foldlM_cons] at h
      obtain ⟨st₁, hn, hr⟩ := Option.bind_eq_some_iff.mp h
      rw [react_next hn]
      exact ih (hw.next m.valid hn) hr

end

end Standing

-- The messages have left every answer, and there has been none.
def Leaves (ms : List ServerMessage) : Prop :=
  ¬Viable (contents ms) ∧ ∀ xs rs, xs <+: ms → ¬Answer (contents xs) rs

section

variable (ms : List ServerMessage)
variable (out : Step Byte (Dialogue.State State) Report (Failure Report) × List Bytes)

-- Success means that the messages up to the one at which the operation completes are an answer, and
-- it completes with the result sets of that answer.
def SucceedsOnAnswer : Prop :=
  ∀ r left unfed, out = (.done r left, unfed) → r.ec.isZero → ∃ xs ys, ms = xs ++ ys ∧
    left ++ unfed.flatten = encode ys ∧ Answer (contents xs) r.resultSets

-- The operation has completed with an error.
def CompletesWithError : Prop :=
  (∃ r left unfed, out = (.done r left, unfed) ∧ r.ec.isZero = false) ∨
    ∃ rs left unfed,
      out = (.fail (.malformed { ec := makeEc .malformedMessage, resultSets := rs }) left, unfed)

-- Whatever part of the messages has come, and in whatever chunks: the operation succeeds only if it
-- has been given an answer, and it completes with an error if there cannot be one any more.
def LosesNoRow : Prop :=
  ∀ pre, pre <+: ms → ∀ chunks : List Bytes, chunks.flatten = encode pre →
    SucceedsOnAnswer pre (feed simpleQuery.doParse simpleQuery.fresh chunks) ∧
      (Leaves pre → CompletesWithError (feed simpleQuery.doParse simpleQuery.fresh chunks))

end

section

variable {ms pre : List ServerMessage} {chunks : List Bytes} {cs ds : List Content} {rs : ResultSets}

theorem not_answer_of_run {st : Standing} (h : Standing.start.run (cs ++ ds) = some st) :
    ¬Answer cs rs := by
  intro ha
  have ⟨w, z, st', he, hr, hf⟩ := Standing.answer_iff.mp ha
  rw [he, Standing.run_append, Standing.run_concat, hr, Option.bind_some] at h
  cases st' <;> cases z <;> first | cases hf; done | cases h

theorem feed_shows (hc : chunks.flatten = encode ms) :
    Shows (fun s => ⟨s, none⟩) (onFrames simpleQuery.onFrame Standing.start.state (frames ms))
      (feed simpleQuery.doParse simpleQuery.fresh chunks) :=
  Dialogue.refines.feed_frames Dialogue.resumable hc

theorem losesNoRow_of_regular (h : Standing.start.Regular ms) : LosesNoRow ms := by
  intro pre ⟨post, hp⟩ chunks hc
  have hreg : Standing.start.Regular pre := fun xs z ys st he hr =>
    h xs z (ys ++ post) st (by rw [← hp, he]; simp) hr
  have hs := feed_shows hc
  have hr := Standing.onFrames_ran Standing.start_narrow hreg
  generalize onFrames simpleQuery.onFrame _ _ = mv, feed simpleQuery.doParse _ _ = out at hs hr ⊢
  cases hr
  case reads st hr =>
    cases hs
    exact ⟨fun _ _ _ h => (by cases h), fun hl => absurd (Standing.viable_of_run hr) hl.left⟩
  case completes xs z ys st rs he hr hf =>
    have hz : ¬z.content.Dismissable := fun hz => by
      cases hx : z.content <;> rw [hx] at hz hf <;> try exact hz.elim
      all_goals cases st <;> cases hf
    have ha : Answer (contents (xs ++ [z])) rs := by
      rw [contents_append, contents_cons hz]
      exact Standing.answer_iff.mpr ⟨_, _, st, rfl, hr, hf⟩
    cases hs
    case complete hb =>
      constructor
      case left =>
        intro r left unfed ho _
        cases ho
        exact ⟨xs ++ [z], ys, by rw [he, List.append_cons], hb, ha⟩
      case right => exact fun hl => absurd ha (hl.right _ _ ⟨ys, by rw [he]; simp⟩)
  case errs xs z ys st mv he hr hd hn hf hv =>
    generalize frames ys = left at hs
    cases hs
    case goto => exact hv.elim
    case complete hb =>
      refine ⟨fun r left unfed ho hz => ?_, fun _ => .inl ⟨_, _, _, rfl, hv⟩⟩
      cases ho
      rw [show ErrorCode.isZero _ = false from hv] at hz
      cases hz
    case fail =>
      have ⟨rs, he⟩ := hv
      exact ⟨fun _ _ _ h => (by cases h), fun _ => .inr ⟨rs, _, _, by rw [he]⟩⟩

-- A message that is out of place and taken is taken for the last one of an answer, or the operation
-- goes on as if nothing had happened.
theorem not_losesNoRow {xs ys : List ServerMessage} {m : ServerMessage} {st : Standing}
    (hr : Standing.start.run (contents xs) = some st) (hs : st.Slip m.content) :
    ¬LosesNoRow (xs ++ m :: ys) := by
  intro h
  obtain ⟨hd, hn, hf, he⟩ := hs.effect
  obtain ⟨hx, hw⟩ := Standing.onFrames_run Standing.start_narrow hr
  have hv : ¬Viable (contents (xs ++ [m])) := by
    rw [contents_append, contents_cons hd]
    exact Standing.not_viable hr hn hf
  have hc : [encode (xs ++ [m])].flatten = encode (xs ++ [m]) := by simp
  obtain ⟨ha, hl⟩ := h (xs ++ [m]) ⟨ys, by simp⟩ _ hc
  have hsh := feed_shows hc
  rw [frames_append, onFrames_append hx, frames_cons, onFrames, Standing.onFrame_eq_react hw] at hsh
  generalize feed simpleQuery.doParse _ _ = out at ha hl hsh
  rcases he with ⟨s, he⟩ | ⟨r, he, hz⟩
  · rw [he] at hsh
    cases hsh
    have hleaves : Leaves (xs ++ [m]) := by
      refine ⟨hv, fun p rs hp hp' => ?_⟩
      rcases List.prefix_concat_iff.mp hp with rfl | ⟨q, rfl⟩
      · exact hv ⟨[], rs, by rwa [List.append_nil]⟩
      · exact not_answer_of_run (contents_append ▸ hr) hp'
    rcases hl hleaves with ⟨_, _, _, ho, _⟩ | ⟨_, _, _, ho⟩ <;> cases ho
  · rw [he] at hsh
    cases hsh
    case complete hb =>
      obtain ⟨as, bs, hm, hbs, ha⟩ := ha _ _ _ rfl hz
      have hnil : bs = [] := by
        rw [hb] at hbs
        exact List.map_eq_nil_iff.mp (Frame.encodeAll_eq_nil hbs.symm)
      rw [hnil, List.append_nil] at hm
      exact hv ⟨[], _, by rw [List.append_nil, hm]; exact ha⟩

theorem losesNoRow_iff (ms : List ServerMessage) : LosesNoRow ms ↔ Standing.start.Regular ms := by
  refine ⟨fun h xs m ys st he hr hs => ?_, losesNoRow_of_regular⟩
  exact not_losesNoRow hr hs (he ▸ h)

end

-- A column, a row and, in place of the CommandComplete, the ReadyForQuery.
def unfinished : List ServerMessage := [
  .oneColumn,
  ⟨.dataRow [some [49]], by decide, by decide⟩,
  .readyForQuery
]

-- The operation succeeds without the row.
theorem unfinished_losesRow : ¬LosesNoRow unfinished := by
  have hr : Standing.start.run (contents (unfinished.take 2)) =
    some (.opened [] { desc := [{ fieldName := [97] }], data := [[some [49]]] }) := rfl
  show ¬LosesNoRow (unfinished.take 2 ++ .readyForQuery :: [])
  exact not_losesNoRow hr .ready

end SimpleQuery

end ChxSql.Postgresql
