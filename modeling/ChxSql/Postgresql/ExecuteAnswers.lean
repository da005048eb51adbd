import ChxSql.Postgresql.ExecuteLanguage

namespace ChxSql.Postgresql.Execute

open Incremental Msg ExtendedQuery ServerMessage

-- The answers to Bind, Describe, Execute and Sync that a server may legally give when no error
-- occurs. A statement that returns no rows is answered with NoData and then either run or, if there
-- is nothing in it, not run.
inductive Legal : List Kind → Prop
  | rows (k : Nat) : Legal (.bindComplete :: .rowDescription ::
      (.replicate k .dataRow ++ [.commandComplete, .readyForQuery]))
  | noRows : Legal [.bindComplete, .noData, .commandComplete, .readyForQuery]
  | empty  : Legal [.bindComplete, .noData, .emptyQueryResponse, .readyForQuery]

structure LegalAnswer (ms : List ServerMessage) : Prop where
  answers : ∀ m ∈ ms, m.content.AnswersExecute
  fits    : RowsFit none ms
  legal   : Legal (kinds ms)

-- The operation has completed without an error after the ReadyForQuery, and has left what comes
-- after that.
def CompletesRegularly (ms : List ServerMessage)
    (out : Step Byte (Dialogue.State State) Report (Failure Report) × List Bytes) : Prop :=
  ∃ xs z ys r left unfed, ms = xs ++ z :: ys ∧ z.content.kind = some .readyForQuery ∧
    out = (.done r left, unfed) ∧ r.ec.isZero ∧ left ++ unfed.flatten = encode ys

variable {ms : List ServerMessage} {chunks : List Bytes} {u : List Kind}

-- Without an ErrorResponse there is no error code.
theorem error_of_not_mem (h : .errorResponse ∉ kinds ms) : error ms = .none := by
  have hn : ms.filterMap (·.content.fields?) = [] := by
    refine List.filterMap_eq_nil_iff.mpr fun m hm => ?_
    have hk := fun hk => h (List.mem_filterMap.mpr ⟨m, hm, hk⟩)
    generalize m.content = c at hk
    cases c
    case errorResponse => exact absurd rfl hk
    all_goals rfl
  rw [error, hn]
  rfl

-- The messages of an answer, split at its ReadyForQuery.
theorem exists_answered (h : kinds ms = u ++ [.readyForQuery]) (hz : .readyForQuery ∉ u)
    (hl : InLanguage (u ++ [.readyForQuery])) : ∃ xs z ys, Answered ms xs z ys ∧ kinds xs = u := by
  have ⟨as, bs, hm, ha, hb⟩ := List.filterMap_eq_append_iff.mp h
  have ⟨cs, z, ys, hbs, hc, hr, _⟩ := List.filterMap_eq_cons_iff.mp hb
  have hk : kinds (as ++ cs) = u := by
    rw [kinds_append, kinds, ha, kinds, List.filterMap_eq_nil_iff.mpr hc, List.append_nil]
  refine ⟨as ++ cs, z, ys, ⟨by rw [hm, hbs, List.append_assoc], hr, hk ▸ hz, ?_⟩, hk⟩
  rwa [kinds_concat, hr, hk]

theorem completes_of_language (h : LegalAnswer ms) (hc : chunks.flatten = encode ms)
    (hk : kinds ms = u ++ [.readyForQuery]) (hz : .readyForQuery ∉ u) (he : .errorResponse ∉ u)
    (hl : InLanguage (u ++ [.readyForQuery])) :
    CompletesRegularly ms (feed execute.doParse execute.fresh chunks) := by
  have ⟨xs, z, ys, ha, hu⟩ := exists_answered hk hz hl
  have ⟨left, unfed, hf, hb⟩ := (feed_shown h.answers h.fits hc).answered ha
  have hn : error xs = .none := error_of_not_mem (hu ▸ he)
  exact ⟨xs, z, ys, delivered xs, left, unfed, ha.split, ha.ready, hf, by rw [delivered, hn]; rfl, hb⟩

-- No answer of the language is among the first messages of an answer to a statement that returns no
-- rows.
theorem not_answered_noRows (h : kinds ms = [.bindComplete, .noData, .commandComplete, .readyForQuery])
    {xs z ys} (ha : Answered ms xs z ys) : False := by
  have hp : kinds (xs ++ [z]) <+: [.bindComplete, .noData, .commandComplete, .readyForQuery] := by
    rw [← h, ha.split, List.append_cons xs z ys]
    exact ⟨kinds ys, kinds_append.symm⟩
  have hr := Progress.run_eq_ready.mpr ha.language
  generalize kinds (xs ++ [z]) = w at hp hr
  have hw := List.mem_inits _ _ |>.mpr hp
  simp only [List.inits, List.map_cons, List.map_nil, List.mem_cons, List.not_mem_nil, or_false] at hw
  rcases hw with rfl | rfl | rfl | rfl | rfl <;> exact absurd hr (by decide)

-- Every legal answer leads to a regular completion, unless NoData is followed by CommandComplete.
theorem completes_iff (h : LegalAnswer ms) (hc : chunks.flatten = encode ms) :
    CompletesRegularly ms (feed execute.doParse execute.fresh chunks) ↔
    .noData ∉ kinds ms ∨ .commandComplete ∉ kinds ms := by
  have hl := h.legal
  generalize hk : kinds ms = w at hl ⊢
  cases hl
  case rows k =>
    refine iff_of_true ?_ (.inl (by simp))
    refine completes_of_language (u := _ :: _ :: (.replicate k .dataRow ++ [.commandComplete])) h hc
      (by simpa using hk) (by simp) (by simp) ?_
    exact ⟨_, .inl (.inl ⟨k, rfl⟩), rfl⟩
  case empty =>
    refine iff_of_true ?_ (.inr (by simp))
    refine completes_of_language (u := [.bindComplete, .noData, .emptyQueryResponse]) h hc hk
      (by simp) (by simp) ?_
    exact ⟨_, .inl (.inr rfl), rfl⟩
  case noRows =>
    refine iff_of_false ?_ (by simp)
    intro ⟨_, _, _, r, left, unfed, _, _, hf, _⟩
    have ⟨xs, z, ys, ha⟩ := (feed_shown h.answers h.fits hc).done hf
    exact not_answered_noRows hk ha

-- The answer to an `INSERT`.
def insertAnswer : List ServerMessage := [
  .bindComplete,
  .noData,
  ⟨.commandComplete [73, 78, 83, 69, 82, 84, 32, 48, 32, 49], by decide, by decide⟩,
  .readyForQuery
]

theorem insertAnswer_legal : LegalAnswer insertAnswer where
  answers := by decide
  fits    := by decide
  legal   := .noRows

theorem completes_iff_insertAnswer :
    CompletesRegularly insertAnswer (feed execute.doParse execute.fresh [encode insertAnswer]) ↔
    .noData ∉ kinds insertAnswer ∨ .commandComplete ∉ kinds insertAnswer :=
  completes_iff insertAnswer_legal (by simp)

-- It is rejected.
theorem insertAnswer_not_completes : LegalAnswer insertAnswer ∧
    ¬CompletesRegularly insertAnswer (feed execute.doParse execute.fresh [encode insertAnswer]) := by
  refine ⟨insertAnswer_legal, ?_⟩
  intro ⟨_, _, _, r, left, unfed, _, _, hf, _⟩
  have ⟨xs, z, ys, ha⟩ := (feed_shown insertAnswer_legal.answers insertAnswer_legal.fits
    (by simp)).done hf
  exact not_answered_noRows rfl ha

end ChxSql.Postgresql.Execute
