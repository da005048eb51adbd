import ChxSql.Postgresql.ExtendedQuery
import ChxSql.Postgresql.Operation

namespace ChxSql.Postgresql

open Incremental Msg ExtendedQuery

namespace Content

-- The messages that may answer Bind, Describe, Execute and Sync.
def AnswersExecute : Content → Prop
  | parseComplete | parameterStatus .. | backendKeyData .. | authentication .. => False
  | _                                                                         => True

instance : DecidablePred AnswersExecute
  | parseComplete | parameterStatus .. | backendKeyData .. | authentication .. =>
    inferInstanceAs (Decidable False)
  | bindComplete | rowDescription _ | dataRow _ | commandComplete _ | noData | emptyQueryResponse
  | errorResponse _ | readyForQuery _ | noticeResponse _ => inferInstanceAs (Decidable True)

def kind : Content → Option Kind
  | bindComplete       => some .bindComplete
  | rowDescription _   => some .rowDescription
  | dataRow _          => some .dataRow
  | commandComplete _  => some .commandComplete
  | noData             => some .noData
  | emptyQueryResponse => some .emptyQueryResponse
  | errorResponse _    => some .errorResponse
  | readyForQuery _    => some .readyForQuery
  | _                  => none

def columns? : Content → Option (List ColumnDescription)
  | rowDescription cols => some cols
  | _                   => none

def cells? : Content → Option Cells
  | dataRow cells => some cells
  | _             => none

def fields? : Content → Option Fields
  | errorResponse fields => some fields
  | _                    => none

def isTag : Content → Bool
  | commandComplete _ => true
  | _                 => false

-- A message that has no data to deliver.
structure Plain (c : Content) : Prop where
  columns : c.columns? = none
  cells   : c.cells? = none
  tag     : c.isTag = false
  fields  : c.fields? = none

theorem Plain.of_rfl {c : Content} (columns : c.columns? = none := by rfl)
    (cells : c.cells? = none := by rfl) (tag : c.isTag = false := by rfl)
    (fields : c.fields? = none := by rfl) : c.Plain :=
  { columns, cells, tag, fields }

end Content

namespace ServerMessage

-- The order of the messages, when notices are left out.
def kinds (ms : List ServerMessage) : List Kind :=
  ms.filterMap (·.content.kind)

-- The columns that the last RowDescription announced.
def columns (ms : List ServerMessage) : Option (List ColumnDescription) :=
  (ms.filterMap (·.content.columns?)).getLast?

def rows (ms : List ServerMessage) : List Cells :=
  ms.filterMap (·.content.cells?)

def hasTag (ms : List ServerMessage) : Bool :=
  ms.any (·.content.isTag)

-- The error code that is made from the last ErrorResponse.
def error (ms : List ServerMessage) : ErrorCode :=
  match (ms.filterMap (·.content.fields?)).getLast? with
  | some fields => makeEc (fields.errc .successfulCompletion)
  | none        => .none

-- What `execute` has to deliver after messages that complete an answer, apart from the
-- ReadyForQuery.
def delivered (ms : List ServerMessage) : Report where
  ec         := error ms
  resultSets := if hasTag ms then [some { desc := (columns ms).getD [], data := rows ms }] else []

def CellsFit : Option (List ColumnDescription) → Option Cells → Prop
  | some cols, some cells => cells.length = cols.length
  | _, _                  => True

-- Each row has as many cells as the RowDescription before it has columns.
def RowsFit : Option (List ColumnDescription) → List ServerMessage → Prop
  | _, []            => True
  | current, m :: ms =>
    CellsFit current m.content.cells? ∧ RowsFit (m.content.columns?.or current) ms

instance : DecidableRel CellsFit
  | some cols, some cells => inferInstanceAs (Decidable (cells.length = cols.length))
  | none, _ | some _, none => inferInstanceAs (Decidable True)

instance decidableRowsFit : DecidableRel RowsFit
  | _, []            => inferInstanceAs (Decidable True)
  | current, m :: ms =>
    have := decidableRowsFit (m.content.columns?.or current) ms
    inferInstanceAs (Decidable (CellsFit current m.content.cells? ∧ _))

section

variable {ms : List ServerMessage} {m : ServerMessage}

theorem kinds_append {ms' : List ServerMessage} : kinds (ms ++ ms') = kinds ms ++ kinds ms' :=
  List.filterMap_append

theorem kinds_concat : kinds (ms ++ [m]) = kinds ms ++ m.content.kind.toList := by
  simp only [kinds, List.filterMap_append, List.filterMap_cons, List.filterMap_nil]
  cases m.content.kind <;> rfl

theorem columns_concat : columns (ms ++ [m]) = m.content.columns?.or (columns ms) := by
  simp only [columns, List.filterMap_append, List.filterMap_cons, List.filterMap_nil]
  cases m.content.columns? <;> simp

theorem rows_concat : rows (ms ++ [m]) = rows ms ++ m.content.cells?.toList := by
  simp only [rows, List.filterMap_append, List.filterMap_cons, List.filterMap_nil]
  cases m.content.cells? <;> rfl

theorem hasTag_concat : hasTag (ms ++ [m]) = (hasTag ms || m.content.isTag) := by
  simp [hasTag]

theorem error_concat : error (ms ++ [m]) =
    match m.content.fields? with
    | some fields => makeEc (fields.errc .successfulCompletion)
    | none        => error ms := by
  simp only [error, List.filterMap_append, List.filterMap_cons, List.filterMap_nil]
  cases m.content.fields? <;> simp

end

end ServerMessage

namespace Execute

open ServerMessage

theorem onFrame_of_select {s s' : State} {a a' : AnyMessage} {type : Byte} {body : Bytes} {fits}
    {c : Prop} [Decidable c] (hs : select s type = if c then .parse a s' else .malformed)
    (hr : Message.receive a type body = some a') :
    execute.onFrame s ⟨type, body, fits⟩ =
      if c then accept s' a' else .fail (execute.malformed s) := by
  by_cases h : c
  case pos => rw [if_pos h] at hs ⊢; exact Dialogue.onFrame_eq hs hr
  case neg => rw [if_neg h] at hs ⊢; exact Dialogue.onFrame_malformed hs

theorem onFrame_of_parse {s s' : State} {a a' : AnyMessage} {type : Byte} {body : Bytes} {fits}
    (hs : select s type = .parse a s') (hr : Message.receive a type body = some a') :
    execute.onFrame s ⟨type, body, fits⟩ = accept s' a' :=
  Dialogue.onFrame_eq hs hr

-- The effect of a well-formed message on the operation.
def effect (s : State) : Content → Move State Report
  | .bindComplete         =>
    if s.expect = .bindComplete then
      .goto { s with expect := .rowDescOrNoData }
    else
      .fail (execute.malformed s)
  | .rowDescription cols  =>
    if s.expect = .rowDescOrNoData then
      .goto { s with curr := some { desc := cols }, expect := .dataRow }
    else
      .fail (execute.malformed s)
  | .dataRow cells        =>
    if s.expect = .dataRow then
      .goto { s with curr := s.curr.map fun curr => { curr with data := curr.data ++ [cells] } }
    else
      .fail (execute.malformed s)
  | .commandComplete _    =>
    if s.expect = .dataRow then
      .goto { s with result := s.result ++ [s.curr], curr := none, expect := .readyForQuery }
    else
      .fail (execute.malformed s)
  | .noData               =>
    if s.expect = .rowDescOrNoData then
      .goto { s with expect := .emptyQueryResponse }
    else
      .fail (execute.malformed s)
  | .emptyQueryResponse   =>
    if s.expect = .emptyQueryResponse then
      .goto { s with expect := .readyForQuery }
    else
      .fail (execute.malformed s)
  | .readyForQuery _      =>
    if s.expect = .readyForQuery then
      .complete { ec := s.err, resultSets := s.result }
    else
      .fail (execute.malformed s)
  | .errorResponse fields =>
    .goto { s with err := makeEc (fields.errc .successfulCompletion), expect := .readyForQuery }
  | .noticeResponse _     => .goto s
  | _                     => .fail (execute.malformed s)

-- The current result set is there when rows are expected, and a row has as many cells as it has
-- columns.
def RowFits (s : State) (c : Content) : Prop :=
  s.expect = .dataRow → ∃ curr, s.curr = some curr ∧ curr.desc.length < 2 ^ 16 ∧
    ∀ cells, c.cells? = some cells → cells.length = curr.desc.length

theorem onFrame_eq_effect {s : State} {m : ServerMessage} (h : RowFits s m.content) :
    execute.onFrame s m.frame = effect s m.content := by
  obtain ⟨content, valid, fits⟩ := m
  cases content
  case bindComplete =>
    exact onFrame_of_select select_bindComplete
      (AnyMessage.receive_map .bindComplete EmptyBody.receive)
  case noData =>
    exact onFrame_of_select select_noData
      (AnyMessage.receive_map .noData EmptyBody.receive)
  case emptyQueryResponse =>
    exact onFrame_of_select select_emptyQueryResponse
      (AnyMessage.receive_map .emptyQueryResponse EmptyBody.receive)
  case rowDescription cols =>
    obtain ⟨m, hr, hd⟩ := RowDescription.receive valid.left valid.right
    refine (onFrame_of_select select_rowDescription
      (AnyMessage.receive_map .rowDescription hr)).trans ?_
    rw [accept, hd]
    rfl
  case commandComplete =>
    exact onFrame_of_select select_commandComplete
      (AnyMessage.receive_map .commandComplete (CommandComplete.receive valid))
  case readyForQuery =>
    exact onFrame_of_select select_readyForQuery
      (AnyMessage.receive_map .readyForQuery (ReadyForQuery.receive valid))
  case errorResponse =>
    exact onFrame_of_parse select_errorResponse
      (AnyMessage.receive_map .errorResponse (ErrorResponse.receive valid))
  case noticeResponse =>
    exact onFrame_of_parse select_noticeResponse
      (AnyMessage.receive_map .noticeResponse (NoticeResponse.receive valid))
  case dataRow cells =>
    by_cases he : s.expect = .dataRow
    case neg =>
      simp only [effect, if_neg he]
      exact Dialogue.onFrame_malformed (select_dataRow.trans (if_neg he))
    case pos =>
      obtain ⟨curr, hc, hl, hn⟩ := h he
      have hn := hn cells rfl
      obtain ⟨m, hr, hd⟩ := DataRow.receive (DataRow.wellFormed_of_fits fits) valid
      have hs : select s (letter 'D') = .parse (.dataRow (.ofColumns cells.length)) s := by
        rw [select_dataRow, if_pos he, hc, hn]
        simp only [Nat.mod_eq_of_lt hl]
      refine (onFrame_of_parse hs (AnyMessage.receive_map .dataRow hr)).trans ?_
      simp only [accept, effect, if_pos he, hc, hd, Option.map_some]
  all_goals exact Dialogue.onFrame_malformed rfl

-- How the result sets are related to the messages so far.
inductive Data (ms : List ServerMessage) : Option ResultSet → ResultSets → Prop
  | none : rows ms = [] → hasTag ms = false → Data ms none []
  | current {cols} : columns ms = some cols → cols.length < 2 ^ 16 → hasTag ms = false →
    Data ms (some { desc := cols, data := rows ms }) []
  | closed {cols} : columns ms = some cols → hasTag ms = true →
    Data ms none [some { desc := cols, data := rows ms }]

-- The value of `expect` when the conversation has got to a certain point.
def expectOf : Progress → Expect
  | .start     => .bindComplete
  | .bound     => .rowDescOrNoData
  | .rows      => .dataRow
  | .empty     => .emptyQueryResponse
  | .completed => .readyForQuery
  | .aborted   => .readyForQuery
  | .ready     => .readyForQuery

-- The state that the operation is in after some messages.
structure Matches (ms : List ServerMessage) (p : Progress) (s : State) : Prop where
  run      : Progress.start.run (kinds ms) = some p
  notReady : p ≠ .ready
  expect   : s.expect = expectOf p
  err      : s.err = error ms
  data     : Data ms s.curr s.result
  current  : p = .rows → s.curr.isSome
  fresh    : p = .start ∨ p = .bound → rows ms = [] ∧ hasTag ms = false

-- What the next message does, in terms of the conversation.
inductive Stepped (ms : List ServerMessage) (m : ServerMessage) : Move State Report → Prop
  | goto {p s} : Matches (ms ++ [m]) p s → Stepped ms m (.goto s)
  | ready : m.content.kind = some .readyForQuery →
    Progress.start.run (kinds (ms ++ [m])) = some .ready → Stepped ms m (.complete (delivered ms))
  | malformed {s} : Progress.start.run (kinds (ms ++ [m])) = none →
    Stepped ms m (.fail (execute.malformed s))

namespace Matches

variable {ms : List ServerMessage} {m : ServerMessage} {p q : Progress} {s : State} {k : Kind}

theorem start : Matches [] .start {} where
  run      := rfl
  notReady := nofun
  expect   := rfl
  err      := rfl
  data     := .none rfl rfl
  current  := nofun
  fresh _  := ⟨rfl, rfl⟩

theorem run_next (h : Matches ms p s) (hk : m.content.kind = some k) :
    Progress.start.run (kinds (ms ++ [m])) = p.next k := by
  rw [kinds_concat, hk, Option.toList_some, Progress.run_concat, h.run, Option.bind_some]

theorem run_none (h : Matches ms p s) (hk : m.content.kind = none) :
    Progress.start.run (kinds (ms ++ [m])) = some p := by
  rw [kinds_concat, hk, Option.toList_none, List.append_nil, h.run]

theorem rowFits (h : Matches ms p s) (hf : RowsFit (columns ms) [m]) : RowFits s m.content := by
  intro he
  have hp : p = .rows := by
    rw [h.expect] at he
    cases p <;> first | rfl | cases he
  have hc := h.current hp
  have hd := h.data
  generalize s.curr = curr, s.result = result at hc hd
  cases hd
  case none    => cases hc
  case closed  => cases hc
  case current cols hcols hl _ =>
    refine ⟨_, rfl, hl, fun cells hcells => ?_⟩
    have := hf.left
    rwa [hcols, hcells] at this

-- A message without data for the result sets.
theorem data_concat {curr result} (h : Data ms curr result) (hc : m.content.columns? = none)
    (hr : m.content.cells? = none) (ht : m.content.isTag = false) :
    Data (ms ++ [m]) curr result := by
  have h₁ : columns (ms ++ [m]) = columns ms := by rw [columns_concat, hc, Option.none_or]
  have h₂ : rows (ms ++ [m]) = rows ms := by rw [rows_concat, hr, Option.toList_none, List.append_nil]
  have h₃ : hasTag (ms ++ [m]) = hasTag ms := by rw [hasTag_concat, ht, Bool.or_false]
  cases h
  case none hr ht          => exact .none (h₂.trans hr) (h₃.trans ht)
  case current hc hl ht    => exact h₂ ▸ .current (h₁.trans hc) hl (h₃.trans ht)
  case closed hc ht        => exact h₂ ▸ .closed (h₁.trans hc) (h₃.trans ht)

-- A message without data that leads to another state of the conversation.
theorem goto (h : Matches ms p s) (hk : m.content.kind = some k) (hn : p.next k = some q)
    (hd : m.content.Plain) (hq : q ≠ .ready ∧ q ≠ .rows ∧ (q = .start ∨ q = .bound → p = .start)) :
    Matches (ms ++ [m]) q { s with expect := expectOf q } where
  run       := h.run_next hk |>.trans hn
  notReady  := hq.left
  expect    := rfl
  err       := by rw [error_concat, hd.fields]; exact h.err
  data      := data_concat h.data hd.columns hd.cells hd.tag
  current e := absurd e hq.right.left
  fresh e   := by
    have ⟨h₁, h₂⟩ := h.fresh (.inl (hq.right.right e))
    rw [rows_concat, hd.cells, hasTag_concat, hd.tag, h₁, h₂]
    exact ⟨rfl, rfl⟩

-- A message that does not count for the order.
theorem skip (h : Matches ms p s) (hk : m.content.kind = none) (hd : m.content.Plain) :
    Matches (ms ++ [m]) p s where
  run      := h.run_none hk
  notReady := h.notReady
  expect   := h.expect
  err      := by rw [error_concat, hd.fields]; exact h.err
  data     := data_concat h.data hd.columns hd.cells hd.tag
  current  := h.current
  fresh e  := by
    have ⟨h₁, h₂⟩ := h.fresh e
    rw [rows_concat, hd.cells, hasTag_concat, hd.tag, h₁, h₂]
    exact ⟨rfl, rfl⟩

-- What the operation completes with is what the messages so far have to deliver.
theorem report_eq (h : Matches ms p s) :
    { ec := s.err, resultSets := s.result } = ServerMessage.delivered ms := by
  have hd := h.data
  rw [ServerMessage.delivered, h.err]
  generalize s.curr = curr, s.result = result at hd
  cases hd
  case none ht      => simp [ht]
  case current ht   => simp [ht]
  case closed hc ht => simp [ht, hc]

theorem of_expect (h : Matches ms p s) {e : Expect} (he : s.expect = e) : expectOf p = e :=
  h.expect.symm.trans he

-- A message that the operation does not expect is one that leaves the language.
theorem malformed (h : Matches ms p s) (hk : m.content.kind = some k) (hn : p.next k = none) :
    Stepped ms m (.fail (execute.malformed s)) :=
  .malformed (h.run_next hk |>.trans hn)

theorem step_rowDescription {cols valid fits} (h : Matches ms .bound s) :
    Matches (ms ++ [⟨.rowDescription cols, valid, fits⟩]) .rows
      { s with curr := some { desc := cols }, expect := .dataRow } where
  run       := h.run_next (k := .rowDescription) rfl
  notReady  := nofun
  expect    := rfl
  err       := by rw [error_concat]; exact h.err
  current _ := rfl
  fresh     := nofun
  data      := by
    have ⟨hr, ht⟩ := h.fresh (.inr rfl)
    have hd := h.data
    generalize s.curr = curr, s.result = result at hd
    have hc : columns (ms ++ [⟨.rowDescription cols, valid, fits⟩]) = some cols := by
      simp [columns_concat, Content.columns?]
    have hn := Data.current hc valid.right (by simp [hasTag_concat, ht, Content.isTag])
    rw [rows_concat, hr] at hn
    cases hd
    case none | current => exact hn
    case closed hc      => rw [ht] at hc; cases hc

theorem step_dataRow {cells valid fits} (h : Matches ms .rows s) :
    Matches (ms ++ [⟨.dataRow cells, valid, fits⟩]) .rows
      { s with curr := s.curr.map fun curr => { curr with data := curr.data ++ [cells] } } where
  run       := h.run_next (k := .dataRow) rfl
  notReady  := nofun
  expect    := h.expect
  err       := by rw [error_concat]; exact h.err
  current e := by simpa using h.current e
  fresh     := nofun
  data      := by
    have hc := h.current rfl
    have hd := h.data
    generalize s.curr = curr, s.result = result at hc hd
    cases hd
    case none | closed => cases hc
    case current cols hcols hl ht =>
      have hc : columns (ms ++ [⟨.dataRow cells, valid, fits⟩]) = some cols := by
        simp [columns_concat, Content.columns?, hcols]
      have hn := Data.current hc hl (by simp [hasTag_concat, ht, Content.isTag])
      rw [rows_concat] at hn
      exact hn

theorem step_commandComplete {tag valid fits} (h : Matches ms .rows s) :
    Matches (ms ++ [⟨.commandComplete tag, valid, fits⟩]) .completed
      { s with result := s.result ++ [s.curr], curr := none, expect := .readyForQuery } where
  run      := h.run_next (k := .commandComplete) rfl
  notReady := nofun
  expect   := rfl
  err      := by rw [error_concat]; exact h.err
  current  := nofun
  fresh    := nofun
  data     := by
    have hc := h.current rfl
    have hd := h.data
    generalize s.curr = curr, s.result = result at hc hd
    cases hd
    case none | closed => cases hc
    case current cols hcols hl ht =>
      have hc : columns (ms ++ [⟨.commandComplete tag, valid, fits⟩]) = some cols := by
        simp [columns_concat, Content.columns?, hcols]
      have hn := Data.closed hc (by simp [hasTag_concat, Content.isTag])
      rw [rows_concat] at hn
      simpa only [Content.cells?, Option.toList_none, List.append_nil, List.nil_append] using hn

theorem step_errorResponse {fields valid fits} (h : Matches ms p s) :
    Matches (ms ++ [⟨.errorResponse fields, valid, fits⟩]) .aborted
      { s with err := makeEc (fields.errc .successfulCompletion), expect := .readyForQuery } where
  run      := by
    rw [h.run_next (k := .errorResponse) rfl]
    have := h.notReady
    cases p <;> first | rfl | contradiction
  notReady := nofun
  expect   := rfl
  err      := by rw [error_concat]; rfl
  data     := data_concat h.data rfl rfl rfl
  current  := nofun
  fresh    := nofun

theorem step_effect (h : Matches ms p s) (ha : m.content.AnswersExecute) :
    Stepped ms m (effect s m.content) := by
  have hp := h.notReady
  have ⟨content, valid, fits⟩ := m
  cases content <;> simp only [effect]
  case parseComplete | parameterStatus | backendKeyData | authentication => exact ha.elim
  case errorResponse  => exact .goto h.step_errorResponse
  case noticeResponse => exact .goto (h.skip rfl .of_rfl)
  all_goals split
  case bindComplete.isTrue he =>
    cases p <;> cases h.of_expect he
    exact .goto (h.goto (k := .bindComplete) rfl rfl .of_rfl ⟨nofun, nofun, fun _ => rfl⟩)
  case noData.isTrue he =>
    cases p <;> cases h.of_expect he
    exact .goto (h.goto (k := .noData) (q := .empty) rfl rfl .of_rfl ⟨nofun, nofun, nofun⟩)
  case emptyQueryResponse.isTrue he =>
    cases p <;> cases h.of_expect he
    exact .goto (h.goto (k := .emptyQueryResponse) (q := .completed) rfl rfl .of_rfl
      ⟨nofun, nofun, nofun⟩)
  case rowDescription.isTrue he =>
    cases p <;> cases h.of_expect he
    exact .goto h.step_rowDescription
  case dataRow.isTrue he =>
    cases p <;> cases h.of_expect he
    exact .goto h.step_dataRow
  case commandComplete.isTrue he =>
    cases p <;> cases h.of_expect he
    exact .goto h.step_commandComplete
  case readyForQuery.isTrue he =>
    rw [h.report_eq]
    refine .ready rfl (h.run_next (k := .readyForQuery) rfl |>.trans ?_)
    cases p <;> first | rfl | contradiction | cases h.of_expect he
  all_goals
    rename_i he
    refine h.malformed rfl ?_
    cases p <;> first | rfl | contradiction | exact absurd h.expect he

end Matches

-- What reading a list of messages comes to after some messages have been read.
inductive Outcome (pre ms : List ServerMessage) : Move State Report × List Frame → Prop
  | waiting {p s} : Matches (pre ++ ms) p s → Outcome pre ms (.goto s, [])
  | ready {xs z ys} : ms = xs ++ z :: ys → Unfinished (kinds (pre ++ xs)) →
    z.content.kind = some .readyForQuery → InLanguage (kinds (pre ++ xs ++ [z])) →
    Outcome pre ms (.complete (delivered (pre ++ xs)), frames ys)
  | malformed {xs m ys s} : ms = xs ++ m :: ys → Unfinished (kinds (pre ++ xs)) →
    ¬Viable (kinds (pre ++ xs ++ [m])) → Outcome pre ms (.fail (execute.malformed s), frames ys)

theorem Outcome.cons {pre ms : List ServerMessage} {m : ServerMessage} {out}
    (h : Outcome (pre ++ [m]) ms out) : Outcome pre (m :: ms) out := by
  cases h
  case waiting h             => exact .waiting (by simpa using h)
  case ready xs z ys he hu hz hl =>
    rw [← List.append_cons] at hu hl ⊢
    exact .ready (by rw [he, List.cons_append]) hu hz hl
  case malformed xs m' ys s he hu hv =>
    rw [← List.append_cons] at hu hv
    exact .malformed (by rw [he, List.cons_append]) hu hv

theorem Matches.unfinished {ms : List ServerMessage} {p : Progress} {s : State} (h : Matches ms p s) :
    Unfinished (kinds ms) :=
  Unfinished.iff_run.mpr ⟨p, h.notReady, h.run⟩

-- The induction is on the messages that are still to come, `Matches` is the invariant.
theorem onFrames_outcome {pre ms : List ServerMessage} {p : Progress} {s : State}
    (h : Matches pre p s) (ha : ∀ m ∈ ms, m.content.AnswersExecute)
    (hf : RowsFit (columns pre) ms) :
    Outcome pre ms (onFrames execute.onFrame s (frames ms)) := by
  induction ms generalizing pre p s
  case nil => exact .waiting (by simpa using h)
  case cons m ms ih =>
    have hst := h.step_effect (ha m (by simp))
    have hu := h.unfinished
    rw [← onFrame_eq_effect (h.rowFits ⟨hf.left, trivial⟩)] at hst
    simp only [frames, List.map_cons, onFrames]
    generalize execute.onFrame s m.frame = mv at hst
    cases hst
    case goto h' =>
      refine .cons (ih h' (fun m hm => ha m (by simp [hm])) ?_)
      rw [columns_concat]
      exact hf.right
    case ready hz hr =>
      have hn := List.append_nil pre
      have ho : Outcome pre (m :: ms) (.complete (delivered (pre ++ [])), frames ms) :=
        .ready rfl (hn.symm ▸ hu) hz (hn.symm ▸ Progress.run_eq_ready.mp hr)
      rwa [hn] at ho
    case malformed s' hr =>
      rw [← List.append_nil pre] at hu hr
      refine .malformed rfl hu ?_
      rw [viable_iff, hr]
      rintro ⟨⟩

-- What the user sees of `execute` when a server answers with certain messages.
inductive Shown (ms : List ServerMessage) :
    Step Byte (Dialogue.State State) Report (Failure Report) × List Bytes → Prop
  | waiting {s} : Unfinished (kinds ms) → Shown ms (.more s [], [])
  | ready {xs z ys left unfed} : ms = xs ++ z :: ys → Unfinished (kinds xs) →
    z.content.kind = some .readyForQuery → InLanguage (kinds (xs ++ [z])) →
    left ++ unfed.flatten = encode ys → Shown ms (.done (delivered xs) left, unfed)
  | malformed {xs m ys r left unfed} : ms = xs ++ m :: ys → Unfinished (kinds xs) →
    ¬Viable (kinds (xs ++ [m])) → r.ec = makeEc .malformedMessage →
    Shown ms (.fail (.malformed r) left, unfed)

variable {ms xs ys : List ServerMessage} {m z : ServerMessage} {chunks : List Bytes}

theorem feed_shown (ha : ∀ m ∈ ms, m.content.AnswersExecute) (hf : RowsFit none ms)
    (hc : chunks.flatten = encode ms) : Shown ms (feed execute.doParse execute.fresh chunks) := by
  have ho := onFrames_outcome Matches.start ha hf
  have hs := (Dialogue.refines (d := execute)).feed_frames (s := execute.start) Dialogue.resumable hc
  generalize hx : onFrames execute.onFrame execute.start (frames ms) = out at hs
  rw [show onFrames execute.onFrame {} (frames ms) = out from hx] at ho
  generalize hy : feed execute.doParse execute.fresh chunks = shown
  rw [show feed execute.doParse ⟨execute.start, none⟩ chunks = shown from hy] at hs
  cases ho
  case waiting h               => cases hs; exact .waiting h.unfinished
  case ready he hu hz hl       => cases hs with | complete hb => exact .ready he hu hz hl hb
  case malformed s he hu hv    => cases hs; exact .malformed he hu hv rfl

-- Where an answer stops being unfinished, there it is complete or there it leaves the language.
theorem unique_place (he : ms = xs ++ z :: ys) (hu : Unfinished (kinds xs))
    (hn : ¬Unfinished (kinds (xs ++ [z]))) {xs' ys' z'} (he' : ms = xs' ++ z' :: ys')
    (hu' : Unfinished (kinds xs')) (hn' : ¬Unfinished (kinds (xs' ++ [z']))) :
    xs = xs' ∧ z = z' ∧ ys = ys' := by
  refine eq_of_leaves (P := fun ms => Unfinished (kinds ms)) ?_ (he.symm.trans he') hu hu' hn hn'
  intro xs ys h
  rw [kinds_append] at h
  exact h.of_append

-- Messages that begin with a complete answer, whose ReadyForQuery is the first one.
structure Answered (ms xs : List ServerMessage) (z : ServerMessage) (ys : List ServerMessage) :
    Prop where
  split    : ms = xs ++ z :: ys
  ready    : z.content.kind = some .readyForQuery
  first    : .readyForQuery ∉ kinds xs
  language : InLanguage (kinds (xs ++ [z]))

-- Messages of which one is the first to leave the language, before any ReadyForQuery.
structure Leaves (ms xs : List ServerMessage) (m : ServerMessage) (ys : List ServerMessage) :
    Prop where
  split      : ms = xs ++ m :: ys
  unfinished : Unfinished (kinds xs)
  leaves     : ¬Viable (kinds (xs ++ [m]))

theorem Answered.unfinished (h : Answered ms xs z ys) : Unfinished (kinds xs) := by
  refine ⟨h.first, [.readyForQuery], ?_⟩
  have := h.language
  rwa [kinds_concat, h.ready] at this

theorem Answered.finished (h : Answered ms xs z ys) : ¬Unfinished (kinds (xs ++ [z])) :=
  Unfinished.not_of_language h.language

theorem Leaves.finished (h : Leaves ms xs m ys) : ¬Unfinished (kinds (xs ++ [m])) :=
  fun hu => h.leaves hu.right

-- Unfinished messages do not contain a place where they stop being unfinished.
theorem unfinished_split (h : Unfinished (kinds ms)) (he : ms = xs ++ m :: ys) :
    Unfinished (kinds (xs ++ [m])) := by
  rw [he, List.append_cons, kinds_append] at h
  exact h.of_append

namespace Shown

variable {out : Step Byte (Dialogue.State State) Report (Failure Report) × List Bytes}

theorem answered (hs : Shown ms out) (h : Answered ms xs z ys) :
    ∃ left unfed, out = (.done (delivered xs) left, unfed) ∧ left ++ unfed.flatten = encode ys := by
  cases hs
  case waiting hu => exact absurd (unfinished_split hu h.split) h.finished
  case ready he hu hz hl hb =>
    have ⟨hx, _, hy⟩ := unique_place he hu (Unfinished.not_of_language hl) h.split h.unfinished
      h.finished
    exact ⟨_, _, by rw [hx], hy ▸ hb⟩
  case malformed he hu hv _ =>
    have ⟨hx, hz, _⟩ := unique_place he hu (fun hu => hv hu.right) h.split h.unfinished h.finished
    exact absurd ⟨[], by simpa [hx, hz] using h.language⟩ hv

theorem leaves (hs : Shown ms out) (h : Leaves ms xs m ys) :
    ∃ r left unfed, out = (.fail (.malformed r) left, unfed) ∧ r.ec = makeEc .malformedMessage := by
  cases hs
  case waiting hu => exact absurd (unfinished_split hu h.split) h.finished
  case ready he hu hz hl hb =>
    have ⟨hx, hz, _⟩ := unique_place he hu (Unfinished.not_of_language hl) h.split h.unfinished
      h.finished
    exact absurd ⟨[], by simpa [← hx, ← hz] using hl⟩ h.leaves
  case malformed hr => exact ⟨_, _, _, rfl, hr⟩

theorem unfinished (hs : Shown ms out) (h : Unfinished (kinds ms)) : ∃ s, out = (.more s [], []) := by
  cases hs
  case waiting          => exact ⟨_, rfl⟩
  case ready he _ _ hl _ =>
    exact absurd (unfinished_split h he) (Unfinished.not_of_language hl)
  case malformed he _ hv _ => exact absurd (unfinished_split h he).right hv

theorem done (hs : Shown ms out) {r left unfed} (h : out = (.done r left, unfed)) :
    ∃ xs z ys, Answered ms xs z ys := by
  cases hs <;> cases h
  case ready.refl xs z ys he hu hz hl hb => exact ⟨xs, z, ys, he, hz, hu.left, hl⟩

end Shown

-- Whatever well-formed messages the server answers with, and in whatever chunks they come: the
-- operation completes regularly if and only if they begin with an answer of the language, and
-- delivers what that answer says and leaves what comes after it. The first message that leaves the
-- language is malformed for it. Otherwise it waits for more.
theorem answers_iff_language (ha : ∀ m ∈ ms, m.content.AnswersExecute) (hf : RowsFit none ms)
    (hc : chunks.flatten = encode ms) :
    ((∃ r left unfed, feed execute.doParse execute.fresh chunks = (.done r left, unfed)) ↔
      ∃ xs z ys, Answered ms xs z ys) ∧
    (∀ xs z ys, Answered ms xs z ys → ∃ left unfed,
      feed execute.doParse execute.fresh chunks = (.done (delivered xs) left, unfed) ∧
      left ++ unfed.flatten = encode ys) ∧
    (∀ xs m ys, Leaves ms xs m ys → ∃ r left unfed,
      feed execute.doParse execute.fresh chunks = (.fail (.malformed r) left, unfed) ∧
      r.ec = makeEc .malformedMessage) ∧
    (Unfinished (kinds ms) → ∃ s,
      feed execute.doParse execute.fresh chunks = (.more s [], [])) := by
  have hs := feed_shown ha hf hc
  refine ⟨⟨?_, ?_⟩, fun _ _ _ => hs.answered, fun _ _ _ => hs.leaves, hs.unfinished⟩
  · intro ⟨r, left, unfed, h⟩
    exact hs.done h
  · intro ⟨xs, z, ys, h⟩
    have ⟨left, unfed, h, _⟩ := hs.answered h
    exact ⟨_, left, unfed, h⟩

-- The answer to a query with one row, which holds a NULL.
def rowAnswer : List ServerMessage := [
  .bindComplete,
  .oneColumn,
  ⟨.dataRow [none], by decide, by decide⟩,
  ⟨.commandComplete [49], by decide, by decide⟩,
  .readyForQuery
]

theorem answers_iff_language_rowAnswer : ∃ left unfed,
    feed execute.doParse execute.fresh ((encode rowAnswer).map ([·])) =
      (.done (delivered (rowAnswer.take 4)) left, unfed) ∧
    left ++ unfed.flatten = [] := by
  have hc : ((encode rowAnswer).map ([·])).flatten = encode rowAnswer := by
    rw [← List.flatMap_def, List.flatMap_singleton']
  have h := answers_iff_language (by decide) (by decide) hc
  refine h.right.left (rowAnswer.take 4) .readyForQuery [] ⟨rfl, rfl, by decide, ?_⟩
  exact ⟨_, .inl (.inl ⟨1, rfl⟩), rfl⟩

end Execute

end ChxSql.Postgresql
