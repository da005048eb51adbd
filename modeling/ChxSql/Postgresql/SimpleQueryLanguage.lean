import ChxSql.Postgresql.Startup

namespace ChxSql.Postgresql.SimpleQuery

open Msg

-- The answers to the statements of a query string, with the result sets that they stand for. A
-- statement is answered with its columns, its rows and a CommandComplete, or with the latter only.
inductive Statements : List Content → ResultSets → Prop
  | nil : Statements [] []
  | rows {cs rs cols} {cells : List Cells} {tag} : Statements cs rs →
    (∀ row ∈ cells, row.length = cols.length) →
    Statements (cs ++ .rowDescription cols :: (cells.map .dataRow ++ [.commandComplete tag]))
      (rs ++ [some { desc := cols, data := cells }])
  | command {cs rs tag} : Statements cs rs → Statements (cs ++ [.commandComplete tag]) (rs ++ [none])

-- What a server answers to a query string when no error occurs.
inductive Answer : List Content → ResultSets → Prop
  | statements {cs rs status} : Statements cs rs → Answer (cs ++ [.readyForQuery status]) rs
  | empty {status} : Answer [.emptyQueryResponse, .readyForQuery status] []

-- What has been said may still become an answer.
def Viable (cs : List Content) : Prop :=
  ∃ ds rs, Answer (cs ++ ds) rs

-- How far an answer has got: it is between two statements, or the columns of a statement have been
-- announced, or the query string is empty.
inductive Standing where
  | between (results : ResultSets)
  | opened (results : ResultSets) (curr : ResultSet)
  | empty
  deriving DecidableEq

namespace Standing

def start : Standing :=
  between []

def next : Standing → Content → Option Standing
  | between rs,   .rowDescription cols => some (opened rs { desc := cols })
  | between rs,   .commandComplete _   => some (between (rs ++ [none]))
  | between [],   .emptyQueryResponse  => some empty
  | opened rs r,  .dataRow cells       =>
    if cells.length = r.desc.length then some (opened rs { r with data := r.data ++ [cells] }) else none
  | opened rs r,  .commandComplete _   => some (between (rs ++ [some r]))
  | _,            _                    => none

-- The result sets that a ReadyForQuery completes.
def finish : Standing → Content → Option ResultSets
  | between rs, .readyForQuery _ => some rs
  | empty,      .readyForQuery _ => some []
  | _,          _                => none

def run (st : Standing) (cs : List Content) : Option Standing :=
  cs.foldlM next st

variable {st st' : Standing} {c : Content} {cs ds : List Content} {rs : ResultSets}

theorem run_append : st.run (cs ++ ds) = (st.run cs).bind (·.run ds) :=
  List.foldlM_append ..

theorem run_concat : st.run (cs ++ [c]) = (st.run cs).bind (·.next c) := by
  rw [run_append]
  cases st.run cs
  case none    => rfl
  case some st => cases h : st.next c <;> simp [run, h]

-- The words that lead to a standing.
def Word : Standing → List Content → Prop
  | between rs,  cs => Statements cs rs
  | opened rs r, cs => ∃ cs₀, Statements cs₀ rs ∧ (∀ row ∈ r.data, row.length = r.desc.length) ∧
    cs = cs₀ ++ .rowDescription r.desc :: r.data.map .dataRow
  | empty,       cs => cs = [.emptyQueryResponse]

theorem eq_nil_of_statements (h : Statements cs []) : cs = [] := by
  generalize hr : ([] : ResultSets) = rs at h
  cases h
  case nil => rfl
  all_goals simp at hr

theorem Word.next (hw : st.Word cs) (h : st.next c = some st') : st'.Word (cs ++ [c]) := by
  cases st
  case between rs =>
    cases c
    case rowDescription cols => cases h; exact ⟨cs, hw, nofun, rfl⟩
    case commandComplete tag => cases h; exact .command hw
    case emptyQueryResponse =>
      cases rs <;> cases h
      cases eq_nil_of_statements hw
      rfl
    all_goals cases rs <;> cases h
  case opened rs r =>
    have ⟨cs₀, hs, hd, he⟩ := hw
    cases c
    case dataRow cells =>
      simp only [Standing.next] at h
      split at h <;> cases h
      case isTrue.refl hl =>
        refine ⟨cs₀, hs, fun row hm => ?_, by simp [he]⟩
        rcases List.mem_append.mp hm with hm | hm
        · exact hd row hm
        · exact List.mem_singleton.mp hm ▸ hl
    case commandComplete tag =>
      cases h
      have hr : Statements (cs₀ ++ .rowDescription r.desc :: (r.data.map .dataRow ++ [.commandComplete tag]))
          (rs ++ [some r]) := .rows hs hd
      rwa [← List.cons_append, ← List.append_assoc, ← he] at hr
    all_goals cases h
  case empty => cases c <;> cases h

-- The induction is on the word from its end.
theorem word_of_run (h : start.run cs = some st) : st.Word cs := by
  induction cs using List.reverseRecOn generalizing st
  case nil => cases h; exact .nil
  case append_singleton cs c ih =>
    rw [run_concat] at h
    have ⟨st', hr, hn⟩ := Option.bind_eq_some_iff.mp h
    exact (ih hr).next hn

theorem run_rows (rs : ResultSets) {r : ResultSet} {cells : List Cells} (h : ∀ row ∈ cells, row.length = r.desc.length) :
    (opened rs r).run (cells.map .dataRow) = some (opened rs { r with data := r.data ++ cells }) := by
  induction cells generalizing r
  case nil => simp [run]
  case cons row cells ih =>
    have hr : (opened rs r).next (.dataRow row) = some (opened rs { r with data := r.data ++ [row] }) :=
      if_pos (h row (by simp))
    have hi := ih (r := { r with data := r.data ++ [row] }) fun row hm => h row (by simp [hm])
    simp only [run, List.map_cons, List.foldlM_cons, hr, Option.bind_eq_bind, Option.bind_some] at hi ⊢
    rw [hi, List.append_assoc]
    rfl

theorem run_of_statements (h : Statements cs rs) : start.run cs = some (between rs) := by
  induction h
  case nil => rfl
  case command ih => rw [run_concat, ih]; rfl
  case rows cs rs cols cells tag _ hd ih =>
    have hr := run_rows rs (r := { desc := cols }) hd
    rw [List.append_cons, ← List.append_assoc, run_concat, run_append, run_concat, ih]
    simp only [Option.bind_some, Standing.next, hr, List.nil_append]

-- The answers are the words of the automaton.
theorem answer_iff : Answer cs rs ↔
    ∃ pre z st, cs = pre ++ [z] ∧ start.run pre = some st ∧ st.finish z = some rs := by
  constructor
  case mp =>
    intro h
    cases h
    case statements cs status hs => exact ⟨cs, _, _, rfl, run_of_statements hs, rfl⟩
    case empty status            => exact ⟨[.emptyQueryResponse], _, _, rfl, rfl, rfl⟩
  case mpr =>
    rintro ⟨pre, z, st, rfl, hr, hf⟩
    have hw := word_of_run hr
    cases st <;> cases z <;> cases hf
    case between.readyForQuery.refl => exact .statements hw
    case empty.readyForQuery.refl   => cases hw; exact .empty

theorem viable_of_run (h : start.run cs = some st) : Viable cs := by
  have ha {z rs} (hf : st.finish z = some rs) : Viable cs :=
    ⟨[z], rs, answer_iff.mpr ⟨cs, z, st, rfl, h, hf⟩⟩
  cases st
  case between rs  => exact ha (z := .readyForQuery 0) rfl
  case empty       => exact ha (z := .readyForQuery 0) rfl
  case opened rs r =>
    refine ⟨[.commandComplete [], .readyForQuery 0], rs ++ [some r], ?_⟩
    rw [List.append_cons]
    exact answer_iff.mpr ⟨_, .readyForQuery 0, between (rs ++ [some r]), rfl, by rw [run_concat, h]; rfl, rfl⟩

theorem viable_iff : Viable cs ↔ (∃ st, start.run cs = some st) ∨ ∃ rs, Answer cs rs := by
  constructor
  case mpr =>
    rintro (⟨st, h⟩ | ⟨rs, h⟩)
    · exact viable_of_run h
    · exact ⟨[], rs, by rwa [List.append_nil]⟩
  case mp =>
    intro ⟨ds, rs, h⟩
    cases ds using List.reverseRecOn
    case nil => exact .inr ⟨rs, by rwa [List.append_nil] at h⟩
    case append_singleton ds z =>
      have ⟨pre, z', st, he, hr, hf⟩ := answer_iff.mp h
      rw [← List.append_assoc] at he
      rw [← (List.append_inj' he rfl).left, run_append] at hr
      have ⟨st', hs, _⟩ := Option.bind_eq_some_iff.mp hr
      exact .inl ⟨st', hs⟩

-- What does not lead on and does not complete an answer is out of place.
theorem not_viable (h : start.run cs = some st) (hn : st.next c = none) (hf : st.finish c = none) :
    ¬Viable (cs ++ [c]) := by
  rw [viable_iff, run_concat, h]
  rintro (⟨st', hs⟩ | ⟨rs, ha⟩)
  · rw [Option.bind_some, hn] at hs
    cases hs
  · have ⟨pre, z, st', he, hr, hz⟩ := answer_iff.mp ha
    have ⟨hp, hc⟩ := List.append_inj' he rfl
    rw [← hp, h] at hr
    cases hr
    cases hc
    rw [hf] at hz
    cases hz

end Standing

end ChxSql.Postgresql.SimpleQuery
