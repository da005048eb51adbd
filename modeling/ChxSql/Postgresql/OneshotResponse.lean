import ChxSql.Postgresql.OneshotOperation

namespace ChxSql.Postgresql

open Incremental Msg ServerMessage

namespace ServerMessage

variable {ms : List ServerMessage} {m : ServerMessage}

theorem delivered_cons (h : m.content.Plain) : delivered (m :: ms) = delivered ms := by
  simp [delivered, error, hasTag, columns, rows, h.columns, h.cells, h.tag, h.fields]

theorem delivered_append {ns : List ServerMessage} (h : ∀ n ∈ ns, n.content.Plain) :
    delivered (ns ++ ms) = delivered ms := by
  induction ns
  case nil => rfl
  case cons n ns ih => exact (delivered_cons (h n (by simp))).trans (ih fun n hn => h n (by simp [hn]))

theorem delivered_concat (h : m.content.Plain) : delivered (ms ++ [m]) = delivered ms := by
  simp [delivered, error_concat, hasTag_concat, columns_concat, rows_concat, h.columns, h.cells, h.tag,
    h.fields]

theorem plain_of_notice (h : m.IsNotice) : m.content.Plain := by
  have ⟨_, h⟩ := h
  exact h ▸ .of_rfl

theorem plain_of_ready (h : m.content.kind = some .readyForQuery) : m.content.Plain := by
  have ⟨content, _, _⟩ := m
  cases content <;> first | cases h; done | exact .of_rfl

theorem rowsFit_of_no_cells {current : Option (List ColumnDescription)}
    (h : ∀ m ∈ ms, m.content.cells? = none) : RowsFit current ms := by
  induction ms generalizing current
  case nil => trivial
  case cons m ms ih =>
    refine ⟨?_, ih fun m hm => h m (by simp [hm])⟩
    rw [h m (by simp)]
    cases current <;> trivial

end ServerMessage

theorem Execute.doParse_answered {ms xs : List ServerMessage} {z : ServerMessage}
    (ha : ∀ m ∈ ms, m.content.AnswersExecute) (hf : RowsFit none ms) (h : Answered ms xs z []) :
    execute.doParse execute.fresh (encode ms) = .done (delivered ms) [] := by
  have hb : [encode ms].flatten = encode ms := List.append_nil _
  have ⟨left, unfed, ho, hl⟩ := (feed_shown ha hf hb).answered h
  have hx : left = [] := (List.append_eq_nil_iff.mp hl).left
  rw [h.split, delivered_concat (plain_of_ready h.ready), ← h.split]
  cases hp : execute.doParse execute.fresh (encode ms) <;> simp only [feed, hp] at ho <;> cases ho
  rw [hx]

namespace Oneshot

variable {ms xs ns : List ServerMessage} {m z : ServerMessage} {s : Execute.State}

theorem doParse_notices {q : QueryOperation} (h : ∀ n ∈ ns, n.IsNotice) (s : q.State) (bs : Bytes) :
    q.dialogue.doParse ⟨s, none⟩ (encode ns ++ bs) = q.dialogue.doParse ⟨s, none⟩ bs := by
  induction ns
  case nil => rfl
  case cons n ns ih =>
    have hg := Dialogue.refines.goto (QueryOperation.onFrame_notice (h n (by simp)) s) (encode ns ++ bs)
    rw [← ih fun n hn => h n (by simp [hn])]
    simpa [encode] using hg

-- From the state of `execute` on `oneshot` does what `execute` does.
theorem doParse_ofExecute (h : Execute.Holds s none) {bs : Bytes} {r : Report}
    (hd : execute.doParse ⟨s, none⟩ bs = .done r []) :
    oneshot.doParse ⟨ofExecute s, none⟩ bs = .done r [] := by
  have := simulates_execute.doParse (s := ⟨s, none⟩) h bs
  rw [hd] at this
  exact this

-- Neither does the ErrorResponse that comes in place of a ParseComplete make a difference, nor do the
-- notices before it.
theorem onFrame_errorResponse (h : m.content.kind = some .errorResponse) : ∃ s,
    execute.onFrame {} m.frame = .goto s ∧ oneshot.onFrame {} m.frame = .goto (ofExecute s) ∧
      Execute.Holds s none := by
  have ⟨content, valid, fits⟩ := m
  cases content <;> cases h
  case errorResponse.refl fields =>
    have hr := AnyMessage.receive_map .errorResponse (ErrorResponse.receive valid)
    have hf {σ} {d : Dialogue σ} {s s' : σ} (hs : d.select s (letter 'E') = .parse (.errorResponse {}) s') :=
      Dialogue.onFrame_eq (f := ⟨letter 'E', fields.encode, fits⟩) hs hr
    exact ⟨_, hf (d := execute) rfl, hf (d := oneshot) rfl, nofun⟩

theorem notice_of_kind (ha : m.content.AnswersExecute) (h : m.content.kind = none) : m.IsNotice := by
  have ⟨content, _, _⟩ := m
  cases content <;> first | exact ha.elim | cases h; done | exact ⟨_, rfl⟩

theorem doParse_refused {k : Nat} (ha : ∀ m ∈ ms, m.content.AnswersExecute)
    (h : Execute.Answered ms xs z []) (hk : kinds xs = .replicate (k + 1) .errorResponse) :
    oneshot.doParse oneshot.fresh (encode ms) = .done (delivered ms) [] := by
  have hks : kinds ms = .replicate (k + 1) .errorResponse ++ [.readyForQuery] := by
    rw [h.split, kinds_concat, h.ready, hk, Option.toList_some]
  have hc : ∀ m ∈ ms, m.content.cells? = none := by
    intro m hm
    have hn (hd : m.content.kind = some .dataRow) : False := by
      have : .dataRow ∈ kinds ms := List.mem_filterMap.mpr ⟨m, hm, hd⟩
      simp [hks, List.mem_replicate] at this
    generalize m.content = c at hn
    cases c
    case dataRow => exact (hn rfl).elim
    all_goals rfl
  have hd := Execute.doParse_answered ha (rowsFit_of_no_cells hc) h
  rw [List.replicate_succ, List.cons_append] at hks
  have ⟨ns, e, ys, he, hn, hee, _⟩ := List.filterMap_eq_cons_iff.mp hks
  have hns : ∀ n ∈ ns, n.IsNotice := fun n hm => notice_of_kind (ha n (by simp [he, hm])) (hn n hm)
  have ⟨s, hx, ho, hs⟩ := onFrame_errorResponse hee
  have hb : encode ms = encode ns ++ (e.frame.encode ++ encode ys) := by simp [he, encode]
  have hxs : execute.doParse ⟨s, none⟩ (encode ys) = .done (delivered ms) [] := by
    rw [← Dialogue.refines.goto hx, ← hd, hb]
    exact (doParse_notices (q := .execute) hns _ _).symm
  rw [hb]
  refine (doParse_notices (q := .oneshot) hns _ _).trans ((Dialogue.refines.goto ho _).trans ?_)
  exact doParse_ofExecute hs hxs

-- A response is read up, and the operation completes with what it says.
theorem doParse_response (h : Response ms) :
    oneshot.doParse oneshot.fresh (encode ms) = .done (delivered ms) [] := by
  cases h
  case refused hk ha h => exact doParse_refused ha h hk
  case parsed ns ms xs z hn ha hf h =>
    have hd := Execute.doParse_answered ha hf h
    have hp : oneshot.onFrame {} parseComplete = .goto (ofExecute {}) := rfl
    have hb : encode (ns ++ .parseComplete :: ms) = encode ns ++ (parseComplete.encode ++ encode ms) := by
      simp [encode]
      rfl
    rw [hb, delivered_append fun n hm => plain_of_notice (hn n hm), delivered_cons .of_rfl]
    refine (doParse_notices (q := .oneshot) hn _ _).trans ((Dialogue.refines.goto hp _).trans ?_)
    exact doParse_ofExecute Execute.invariant.start hd

end Oneshot

end ChxSql.Postgresql
