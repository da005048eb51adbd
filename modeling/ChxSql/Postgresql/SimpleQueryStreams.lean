import ChxSql.Postgresql.AcceptedStreams
import ChxSql.Postgresql.SimpleQueryAnswers

namespace ChxSql.Postgresql.SimpleQuery

open Incremental Msg ServerMessage

-- What the operation reads as the answers to statements, with the result sets that it makes of them. Unlike a
-- server, it goes on after an EmptyQueryResponse.
inductive Taken : List Content → ResultSets → Prop
  | nil : Taken [] []
  | rows {cs rs cols} {cells : List Cells} {tag} : Taken cs rs → (∀ row ∈ cells, row.length = cols.length) →
    Taken (cs ++ .rowDescription cols :: (cells.map .dataRow ++ [.commandComplete tag]))
      (rs ++ [some { desc := cols, data := cells }])
  | command {cs rs tag} : Taken cs rs → Taken (cs ++ [.commandComplete tag]) (rs ++ [none])
  | empty {cs rs tag} : Taken cs rs → Taken (cs ++ [.emptyQueryResponse, .commandComplete tag]) (rs ++ [none])

-- What it reads of a statement that has not been answered yet. No result set is made of that.
inductive Begun : List Content → Prop
  | nothing : Begun []
  | rows {cols} {cells : List Cells} : (∀ row ∈ cells, row.length = cols.length) →
    Begun (.rowDescription cols :: cells.map .dataRow)
  | empty : Begun [.emptyQueryResponse]

-- The messages at which it completes, and the error code with which it does.
def ending? : Content → Option ErrorCode
  | .readyForQuery _      => some .none
  | .errorResponse fields => some (makeEc (fields.errc .successfulCompletion))
  | _                     => none

-- How far it has got.
inductive Point where
  | between (results : ResultSets)
  | opened (results : ResultSets) (curr : ResultSet)
  | empty (results : ResultSets)
  deriving DecidableEq

namespace Point

def results : Point → ResultSets
  | between rs | opened rs _ | empty rs => rs

def state : Point → State
  | between rs  => { result := rs }
  | opened rs r => { result := rs, curr := some r, currType := .withDataWithDef }
  | empty rs    => { result := rs, currType := .empty }

def next : Point → Content → Option Point
  | between rs,  .rowDescription cols => some (opened rs { desc := cols })
  | between rs,  .emptyQueryResponse  => some (empty rs)
  | opened rs r, .dataRow cells       =>
    if cells.length = r.desc.length then some (opened rs { r with data := r.data ++ [cells] }) else none
  | opened rs r, .commandComplete _   => some (between (rs ++ [some r]))
  | between rs,  .commandComplete _   => some (between (rs ++ [none]))
  | empty rs,    .commandComplete _   => some (between (rs ++ [none]))
  | _,           _                    => none

def run (pt : Point) (cs : List Content) : Option Point :=
  cs.foldlM next pt

-- What a well-formed message does at a point.
def effect (pt : Point) (c : Content) : Move State Report :=
  if c.Dismissable then
    .goto pt.state
  else
    match pt.next c, ending? c with
    | some pt', _       => .goto pt'.state
    | none,     some ec => .complete { ec, resultSets := pt.results }
    | none,     none    => .fail (simpleQuery.malformed pt.state)

-- The number of columns fits in 16 bits.
def Narrow : Point → Prop
  | opened _ r => r.desc.length < 2 ^ 16
  | _          => True

variable {pt pt' : Point} {c : Content} {cs ds : List Content} {rs : ResultSets} {m : ServerMessage}

theorem onFrame_between (rs : ResultSets) (m : ServerMessage) :
    simpleQuery.onFrame (between rs).state m.frame = (between rs).effect m.content := by
  have hw : (Standing.between rs).Narrow := trivial
  rw [show (between rs).state = (Standing.between rs).state from rfl, Standing.onFrame_eq_react hw]
  cases m.content <;> rfl

theorem onFrame_opened {rs : ResultSets} {r : ResultSet} (hl : r.desc.length < 2 ^ 16) (m : ServerMessage) :
    simpleQuery.onFrame (opened rs r).state m.frame = (opened rs r).effect m.content := by
  have hw : (Standing.opened rs r).Narrow := hl
  rw [show (opened rs r).state = (Standing.opened rs r).state from rfl, Standing.onFrame_eq_react hw]
  cases m.content
  case dataRow cells =>
    by_cases hc : cells.length = r.desc.length <;> simp [Standing.react, effect, next, ending?, Content.Dismissable, hc]
    all_goals rfl
  all_goals rfl

theorem onFrame_empty (rs : ResultSets) (m : ServerMessage) :
    simpleQuery.onFrame (empty rs).state m.frame = (empty rs).effect m.content := by
  have ⟨content, valid, fits⟩ := m
  cases content
  case parameterStatus name value =>
    have ⟨r, hr⟩ := ParameterStatus.receive valid.left valid.right
    have hr := AnyMessage.receive_map .parameterStatus hr
    exact Dialogue.onFrame_eq (d := simpleQuery) (f := ⟨letter 'S', name ++ 0 :: (value ++ [0]), fits⟩) select_parameterStatus hr
  case commandComplete tag =>
    have hr := AnyMessage.receive_map .commandComplete (CommandComplete.receive valid)
    exact Dialogue.onFrame_eq (d := simpleQuery) (f := ⟨letter 'C', tag ++ [0], fits⟩) select_commandComplete hr
  case readyForQuery status =>
    have hr := AnyMessage.receive_map .readyForQuery (ReadyForQuery.receive valid)
    exact Dialogue.onFrame_eq (d := simpleQuery) (f := ⟨letter 'Z', [status], fits⟩) select_readyForQuery hr
  case errorResponse fields =>
    have hr := AnyMessage.receive_map .errorResponse (ErrorResponse.receive valid)
    exact Dialogue.onFrame_eq (d := simpleQuery) (f := ⟨letter 'E', fields.encode, fits⟩) select_errorResponse hr
  case noticeResponse fields =>
    have hr := AnyMessage.receive_map .noticeResponse (NoticeResponse.receive valid)
    exact Dialogue.onFrame_eq (d := simpleQuery) (f := ⟨letter 'N', fields.encode, fits⟩) select_noticeResponse hr
  all_goals exact Dialogue.onFrame_malformed rfl

theorem onFrame_eq_effect (h : pt.Narrow) (m : ServerMessage) :
    simpleQuery.onFrame pt.state m.frame = pt.effect m.content := by
  cases pt
  case between => exact onFrame_between ..
  case opened  => exact onFrame_opened h m
  case empty   => exact onFrame_empty ..

theorem next_dismissable (pt : Point) (h : c.Dismissable) : pt.next c = none ∧ ending? c = none := by
  cases c <;> try exact h.elim
  all_goals cases pt <;> exact ⟨rfl, rfl⟩

theorem next_ending {ec : ErrorCode} (h : ending? c = some ec) : pt.next c = none := by
  cases c <;> cases h
  all_goals cases pt <;> rfl

theorem Narrow.next (h : pt.Narrow) (hv : c.Valid) (hn : pt.next c = some pt') : pt'.Narrow := by
  cases pt <;> cases c <;> try cases hn
  case between.rowDescription.refl  => exact hv.right
  case between.emptyQueryResponse.refl | between.commandComplete.refl | opened.commandComplete.refl
    | empty.commandComplete.refl => trivial
  case opened.dataRow =>
    simp only [Point.next] at hn
    split at hn <;> cases hn
    exact h

theorem run_append : pt.run (cs ++ ds) = (pt.run cs).bind (·.run ds) :=
  List.foldlM_append ..

theorem run_cons : pt.run (c :: cs) = (pt.next c).bind (·.run cs) :=
  List.foldlM_cons

theorem run_concat : pt.run (cs ++ [c]) = (pt.run cs).bind (·.next c) := by
  rw [run_append]
  cases pt.run cs
  case none    => rfl
  case some pt => cases h : pt.next c <;> simp [run, h]

-- The words that lead to a point.
def Word : Point → List Content → Prop
  | between rs,  cs => Taken cs rs
  | opened rs r, cs => ∃ ds, Taken ds rs ∧ (∀ row ∈ r.data, row.length = r.desc.length) ∧
    cs = ds ++ .rowDescription r.desc :: r.data.map .dataRow
  | empty rs,    cs => ∃ ds, Taken ds rs ∧ cs = ds ++ [.emptyQueryResponse]

theorem Word.next (hw : pt.Word cs) (h : pt.next c = some pt') : pt'.Word (cs ++ [c]) := by
  cases pt <;> cases c <;> try cases h
  case between.rowDescription.refl cols     => exact ⟨cs, hw, nofun, rfl⟩
  case between.emptyQueryResponse.refl      => exact ⟨cs, hw, rfl⟩
  case between.commandComplete.refl tag     => exact .command hw
  case empty.commandComplete.refl tag       =>
    have ⟨ds, hd, he⟩ := hw
    rw [he, List.append_assoc]
    exact .empty hd
  case opened.commandComplete.refl r tag    =>
    have ⟨ds, hd, hr, he⟩ := hw
    rw [he, List.append_assoc, List.cons_append]
    exact .rows hd hr
  case opened.dataRow rs r cells =>
    simp only [Point.next] at h
    split at h <;> cases h
    case isTrue.refl hl =>
      have ⟨ds, hd, hr, he⟩ := hw
      refine ⟨ds, hd, ?_, by simp [he]⟩
      intro row hm
      rcases List.mem_append.mp hm with hm | hm
      · exact hr row hm
      · exact List.mem_singleton.mp hm ▸ hl

-- The induction is on the word from its end.
theorem word_of_run (h : (between []).run cs = some pt) : pt.Word cs := by
  induction cs using List.reverseRecOn generalizing pt
  case nil => cases h; exact .nil
  case append_singleton cs c ih =>
    rw [run_concat] at h
    have ⟨pt', hr, hn⟩ := Option.bind_eq_some_iff.mp h
    exact (ih hr).next hn

theorem run_rows (rs : ResultSets) {r : ResultSet} {cells : List Cells}
    (h : ∀ row ∈ cells, row.length = r.desc.length) :
    (opened rs r).run (cells.map .dataRow) = some (opened rs { r with data := r.data ++ cells }) := by
  induction cells generalizing r
  case nil => simp [run]
  case cons row cells ih =>
    have hr : (opened rs r).next (.dataRow row) = some (opened rs { r with data := r.data ++ [row] }) :=
      if_pos (h row (by simp))
    have hi := ih (r := { r with data := r.data ++ [row] }) fun row hm => h row (by simp [hm])
    rw [List.map_cons, run_cons, hr, Option.bind_some, hi, List.append_assoc]
    rfl

theorem run_taken (h : Taken cs rs) : (between []).run cs = some (between rs) := by
  induction h
  case nil                   => rfl
  case command ih            => rw [run_concat, ih]; rfl
  case empty ih              => rw [run_append, ih]; rfl
  case rows cs rs cols cells tag _ hd ih =>
    have hr := run_rows rs (r := { desc := cols }) hd
    rw [run_append, ih, Option.bind_some, run_cons, next, Option.bind_some, run_append, hr]
    rfl

-- Where the operation may stop.
theorem run_begun (ht : Taken ds rs) (hb : Begun cs) : ∃ pt, (between []).run (ds ++ cs) = some pt ∧ pt.results = rs := by
  rw [run_append, run_taken ht, Option.bind_some]
  cases hb
  case nothing      => exact ⟨between rs, rfl, rfl⟩
  case empty        => exact ⟨empty rs, rfl, rfl⟩
  case rows cols cells hr =>
    rw [run_cons, next, Option.bind_some, run_rows rs (r := { desc := cols }) hr]
    exact ⟨_, rfl, rfl⟩

theorem Word.exists_begun (h : pt.Word cs) : ∃ ds bs, cs = ds ++ bs ∧ Taken ds pt.results ∧ Begun bs := by
  cases pt
  case between => exact ⟨cs, [], (List.append_nil cs).symm, h, .nothing⟩
  case opened r =>
    have ⟨ds, hd, hr, he⟩ := h
    exact ⟨ds, _, he, hd, .rows hr⟩
  case empty =>
    have ⟨ds, hd, he⟩ := h
    exact ⟨ds, _, he, hd, .empty⟩

variable {ms pre : List ServerMessage} {k : Report}

-- The operation completes at the first message that ends it. The induction is on the messages.
theorem exists_ending (h : pt.Narrow) (hc : onFrames simpleQuery.onFrame pt.state (frames ms) = (.complete k, [])) :
    ∃ pre z pt' ec, ms = pre ++ [z] ∧ pt.run (contents pre) = some pt' ∧ ending? z.content = some ec ∧
      k = { ec, resultSets := pt'.results } := by
  induction ms generalizing pt
  case nil => cases hc
  case cons m ms ih =>
    rw [frames_cons, onFrames, onFrame_eq_effect h, effect] at hc
    by_cases hd : m.content.Dismissable
    case pos =>
      rw [if_pos hd] at hc
      obtain ⟨pre, z, pt', ec, he, hr, hz, hk⟩ := ih h hc
      exact ⟨m :: pre, z, pt', ec, by rw [he, List.cons_append], by rwa [contents_cons_dismissable hd], hz, hk⟩
    case neg =>
      rw [if_neg hd] at hc
      cases hn : pt.next m.content
      case some pt₁ =>
        simp only [hn] at hc
        obtain ⟨pre, z, pt', ec, he, hr, hz, hk⟩ := ih (h.next m.valid hn) hc
        refine ⟨m :: pre, z, pt', ec, by rw [he, List.cons_append], ?_, hz, hk⟩
        rw [contents_cons hd, run_cons, hn, Option.bind_some, hr]
      case none =>
        cases hz : ending? m.content
        case none => simp only [hn, hz] at hc; cases hc
        case some ec =>
          simp only [hn, hz] at hc
          obtain ⟨hk, hl⟩ := Prod.mk.inj hc
          cases hk
          obtain rfl : ms = [] := List.map_eq_nil_iff.mp hl
          exact ⟨[], m, _, ec, rfl, rfl, hz, rfl⟩

-- The induction is on the messages before the one that ends the operation.
theorem onFrames_ending {z : ServerMessage} {ec : ErrorCode} (h : pt.Narrow)
    (hr : pt.run (contents pre) = some pt') (hz : ending? z.content = some ec) :
    onFrames simpleQuery.onFrame pt.state (frames (pre ++ [z])) =
      (.complete { ec, resultSets := pt'.results }, []) := by
  induction pre generalizing pt
  case nil =>
    cases hr
    have hd : ¬z.content.Dismissable := by
      intro hd
      rw [(next_dismissable pt' hd).right] at hz
      cases hz
    rw [List.nil_append, frames_cons, onFrames, onFrame_eq_effect h, effect, if_neg hd, next_ending hz, hz]
    rfl
  case cons m pre ih =>
    rw [List.cons_append, frames_cons, onFrames, onFrame_eq_effect h, effect]
    by_cases hd : m.content.Dismissable
    case pos =>
      rw [contents_cons_dismissable hd] at hr
      rw [if_pos hd]
      exact ih h hr
    case neg =>
      rw [contents_cons hd, run_cons] at hr
      obtain ⟨pt₁, hn, hr⟩ := Option.bind_eq_some_iff.mp hr
      rw [if_neg hd, hn]
      exact ih (h.next m.valid hn) hr

end Point

theorem onFrames_complete_iff {ms : List ServerMessage} {k : Report} :
    onFrames simpleQuery.onFrame simpleQuery.start (frames ms) = (.complete k, []) ↔
      ∃ pre z ds bs ec, ms = pre ++ [z] ∧ contents pre = ds ++ bs ∧ Taken ds k.resultSets ∧ Begun bs ∧
        ending? z.content = some ec ∧ k.ec = ec := by
  have hs : simpleQuery.start = (Point.between []).state := rfl
  constructor
  case mp =>
    intro h
    have hw : (Point.between []).Narrow := trivial
    have ⟨pre, z, pt, ec, he, hr, hz, hk⟩ := Point.exists_ending hw h
    have ⟨ds, bs, hc, ht, hb⟩ := (Point.word_of_run hr).exists_begun
    exact ⟨pre, z, ds, bs, ec, he, hc, hk ▸ ht, hb, hz, hk ▸ rfl⟩
  case mpr =>
    rintro ⟨pre, z, ds, bs, ec, rfl, hc, ht, hb, hz, rfl⟩
    have ⟨pt, hr, hp⟩ := Point.run_begun ht hb
    rw [← hc] at hr
    have hw : (Point.between []).Narrow := trivial
    rw [hs, Point.onFrames_ending hw hr hz, hp]

-- Whatever bytes a server sends, and in whatever chunks they come: the operation completes regularly if and only if
-- they begin with answers to statements, perhaps with a part of one more, and a ReadyForQuery or an ErrorResponse.
-- The result sets are those of the former, and what comes after the latter is left.
theorem feed_done_iff_taken (cs : List Bytes) (rest : Bytes) (k : Report) :
    (∃ left unfed, feed simpleQuery.doParse simpleQuery.fresh cs = (.done k left, unfed) ∧
        left ++ unfed.flatten = rest) ↔
      ∃ fs pre z ds bs ec, cs.flatten = Frame.encodeAll fs ++ rest ∧
        List.Forall₂ Frame.StandsFor fs (pre ++ [z]) ∧ contents pre = ds ++ bs ∧ Taken ds k.resultSets ∧ Begun bs ∧
        ending? z.content = some ec ∧ k.ec = ec := by
  rw [prepared.feed_done_iff]
  simp only [onFrames_complete_iff]
  constructor
  case mp =>
    rintro ⟨fs, ms, hc, hs, pre, z, ds, bs, ec, rfl, h⟩
    exact ⟨fs, pre, z, ds, bs, ec, hc, hs, h⟩
  case mpr =>
    rintro ⟨fs, pre, z, ds, bs, ec, hc, hs, h⟩
    exact ⟨fs, pre ++ [z], hc, hs, pre, z, ds, bs, ec, rfl, h⟩

end ChxSql.Postgresql.SimpleQuery
