import ChxSql.Incremental.Step

namespace Incremental

-- What one turn of a machine's loop leaves behind: the machine either stops, as in `Step`, or it
-- goes on in another state with what is left of the same chunk.
inductive Turn (β σ α ε : Type*) where
  | goto (s : σ) (rest : List β)
  | more (s : σ) (rest : List β)
  | done (a : α) (rest : List β)
  | fail (e : ε) (rest : List β)
  deriving DecidableEq, Repr

variable {β σ σ' α α' ε : Type*}

-- Using a machine for one turn of another machine's loop (cf. `Step.andThen`).
def Step.turn (st : Step β σ α ε) (wrap : σ → σ') (k : α → List β → Turn β σ' α' ε) :
    Turn β σ' α' ε :=
  match st with
  | .more s r => .more (wrap s) r
  | .done a r => k a r
  | .fail e r => .fail e r

namespace Turn

def rest : Turn β σ α ε → List β
  | goto _ r | more _ r | done _ r | fail _ r => r

-- Cf. `Step.mapState`.
def mapState (f : σ → σ') : Turn β σ α ε → Turn β σ' α ε
  | goto s r => goto (f s) r
  | more s r => more (f s) r
  | done a r => done a r
  | fail e r => fail e r

-- Cf. `Step.Satisfies`.
def Satisfies (I : σ → Prop) (Q : α → Prop) (E : ε → Prop) : Turn β σ α ε → Prop
  | goto s _ | more s _ => I s
  | done a _            => Q a
  | fail e _            => E e

-- Cf. `Step.Related`.
inductive Related {ε' : Type*} (R : σ → σ' → Prop) (K : α → α' → Prop) (E : ε → ε' → Prop) :
    Turn β σ α ε → Turn β σ' α' ε' → Prop
  | goto {s s' r} : R s s' → Related R K E (goto s r) (goto s' r)
  | more {s s' r} : R s s' → Related R K E (more s r) (more s' r)
  | done {a a' r} : K a a' → Related R K E (done a r) (done a' r)
  | fail {e e' r} : E e e' → Related R K E (fail e r) (fail e' r)

-- Cf. `Step.Extends`.
inductive Extends (I : σ → Prop) (g : σ → List β → Turn β σ α ε) (ys : List β) :
    Turn β σ α ε → Turn β σ α ε → Prop
  | goto {s r}     : I s → Extends I g ys (goto s r) (goto s (r ++ ys))
  | more {s}       : I s → Extends I g ys (more s []) (g s ys)
  | done {a r}     : Extends I g ys (done a r) (done a (r ++ ys))
  | fail {e r r'}  : Extends I g ys (fail e r) (fail e r')

theorem Extends.of_eq_more {I : σ → Prop} {g : σ → List β → Turn β σ α ε} {ys t s}
    (h : I s) (h' : t = g s ys) : Extends I g ys (.more s []) t :=
  h' ▸ .more h

end Turn

theorem Step.Extends.turn {I : σ → Prop} {J : σ' → Prop} {f : σ → List β → Step β σ α ε}
    {g : σ' → List β → Turn β σ' α' ε} {ys : List β} {st st' : Step β σ α ε} {wrap : σ → σ'}
    {k : α → List β → Turn β σ' α' ε} (h : st.Extends I f ys st') (hw : ∀ s, I s → J (wrap s))
    (hg : ∀ s, I s → g (wrap s) ys = (f s ys).turn wrap k)
    (hk : ∀ a r, (k a r).Extends J g ys (k a (r ++ ys))) :
    (st.turn wrap k).Extends J g ys (st'.turn wrap k) := by
  cases h
  case more s hi => exact .of_eq_more (hw s hi) (hg s hi).symm
  case done a r  => exact hk a r
  case fail      => exact .fail

theorem Step.rest_turn_suffix {st : Step β σ α ε} {wrap : σ → σ'}
    {k : α → List β → Turn β σ' α' ε} (h : st.rest <:+ bs) (hk : ∀ a r, (k a r).rest <:+ r) :
    (st.turn wrap k).rest <:+ bs := by
  cases st
  case done a r => exact (hk a r).trans h
  all_goals exact h

-- How a turn has come about in which another machine is used.
theorem Step.of_turn_goto {st : Step β σ α ε} {wrap : σ → σ'} {k : α → List β → Turn β σ' α' ε} {s' r}
    (h : st.turn wrap k = .goto s' r) : ∃ a r', st = .done a r' ∧ k a r' = .goto s' r := by
  cases st
  case done a r' => exact ⟨a, r', rfl, h⟩
  all_goals cases h

theorem Step.of_turn_done {st : Step β σ α ε} {wrap : σ → σ'} {k : α → List β → Turn β σ' α' ε} {a' r}
    (h : st.turn wrap k = .done a' r) : ∃ a r', st = .done a r' ∧ k a r' = .done a' r := by
  cases st
  case done a r' => exact ⟨a, r', rfl, h⟩
  all_goals cases h

-- What holds after a turn in which another machine is used, if it holds of each way to go on.
theorem Step.satisfies_turn {I : σ' → Prop} {Q : α' → Prop} {E : ε → Prop} {st : Step β σ α ε}
    {wrap : σ → σ'} {k : α → List β → Turn β σ' α' ε} (hw : ∀ s, I (wrap s))
    (hk : ∀ a r, st = .done a r → (k a r).Satisfies I Q E) (he : ∀ e, E e) :
    (st.turn wrap k).Satisfies I Q E := by
  cases st
  case more s r => exact hw s
  case done a r => exact hk a r rfl
  case fail e r => exact he e

-- A machine that turns in a loop until it stops. Each turn that goes on makes the chunk shorter or,
-- if it reads nothing, makes the state's `rank` smaller. The `weight` says how much a unit of input
-- is worth in terms of ranks.
structure Loop (β σ α ε : Type*) where
  body     : σ → List β → Turn β σ α ε
  weight   : Nat
  rank     : σ → Nat
  progress : ∀ {s bs s' r}, body s bs = .goto s' r →
    r.length * weight + rank s' < bs.length * weight + rank s

namespace Loop

-- A loop whose turns all make the rank smaller.
def ofRank (body : σ → List β → Turn β σ α ε) (rank : σ → Nat)
    (suffix : ∀ s bs, (body s bs).rest <:+ bs)
    (decreasing : ∀ {s bs s' r}, body s bs = .goto s' r → rank s' < rank s) : Loop β σ α ε where
  body         := body
  weight       := 1
  rank         := rank
  progress {s bs s' r} h := by
    have hr := decreasing h
    have hs := (suffix s bs).length_le
    rw [h, Turn.rest] at hs
    omega

def run (l : Loop β σ α ε) (s : σ) (bs : List β) : Step β σ α ε :=
  match _h : l.body s bs with
  | .goto s' r => l.run s' r
  | .more s' r => .more s' r
  | .done a r  => .done a r
  | .fail e r  => .fail e r
termination_by bs.length * l.weight + l.rank s
decreasing_by exact l.progress _h

-- The turns of a run: the states in which they start, and what is left of the chunk there.
inductive Visits (l : Loop β σ α ε) : σ → List β → σ → List β → Prop
  | start {s bs} : Visits l s bs s bs
  | goto {s bs s₁ r₁ s' r} : l.body s bs = .goto s₁ r₁ → Visits l s₁ r₁ s' r → Visits l s bs s' r

-- A property of all the turns of a run.
def Always (l : Loop β σ α ε) (P : σ → List β → Prop) (s : σ) (bs : List β) : Prop :=
  ∀ s' r, l.Visits s bs s' r → P s' r

variable {l : Loop β σ α ε} {s s' : σ} {bs r : List β}

theorem run_goto (h : l.body s bs = .goto s' r) : l.run s bs = l.run s' r := by
  rw [run]; split <;> simp_all

theorem run_more (h : l.body s bs = .more s' r) : l.run s bs = .more s' r := by
  rw [run]; split <;> simp_all

theorem run_done {a} (h : l.body s bs = .done a r) : l.run s bs = .done a r := by
  rw [run]; split <;> simp_all

theorem run_fail {e} (h : l.body s bs = .fail e r) : l.run s bs = .fail e r := by
  rw [run]; split <;> simp_all

-- How a run that is done has begun.
theorem cases_of_done {a} (h : l.run s bs = .done a r) :
    l.body s bs = .done a r ∨ ∃ s₁ r₁, l.body s bs = .goto s₁ r₁ ∧ l.run s₁ r₁ = .done a r := by
  cases hb : l.body s bs
  case goto s₁ r₁ => rw [run_goto hb] at h; exact .inr ⟨s₁, r₁, rfl, h⟩
  case more       => rw [run_more hb] at h; cases h
  case fail       => rw [run_fail hb] at h; cases h
  case done       => rw [run_done hb] at h; cases h; exact .inl rfl

-- How a run that is done has gone on from another machine, if that is used in its first turn.
theorem parse_of_done {τ γ a} (st : Step β τ γ ε) {wrap : τ → σ} {k : γ → List β → Turn β σ α ε}
    (hb : l.body s bs = st.turn wrap k) (h : l.run s bs = .done a r) : ∃ v r', st = .done v r' := by
  cases st <;> simp only [Step.turn] at hb
  case done v r' => exact ⟨v, r', rfl⟩
  case more      => rw [run_more hb] at h; cases h
  case fail      => rw [run_fail hb] at h; cases h

theorem goto_of_done {τ γ a} (st : Step β τ γ ε) {wrap : τ → σ} {k : γ → σ}
    (hb : l.body s bs = st.turn wrap fun v r => .goto (k v) r) (h : l.run s bs = .done a r) :
    ∃ v r', st = .done v r' ∧ l.run (k v) r' = .done a r := by
  have ⟨v, r', hs⟩ := parse_of_done st hb h
  rw [hs] at hb
  exact ⟨v, r', hs, run_goto hb ▸ h⟩

-- What every turn of a loop preserves, the whole run preserves.
theorem run_induction {P : σ → List β → Prop} {Q : Step β σ α ε → Prop}
    (goto : ∀ {s bs s' r}, P s bs → l.body s bs = .goto s' r → P s' r)
    (more : ∀ {s bs s' r}, P s bs → l.body s bs = .more s' r → Q (.more s' r))
    (done : ∀ {s bs a r}, P s bs → l.body s bs = .done a r → Q (.done a r))
    (fail : ∀ {s bs e r}, P s bs → l.body s bs = .fail e r → Q (.fail e r))
    (h : P s bs) : Q (l.run s bs) := by
  induction s, bs using run.induct (l := l)
  case case1 hb ih => rw [run_goto hb]; exact ih (goto h hb)
  case case2 hb    => rw [run_more hb]; exact more h hb
  case case3 hb    => rw [run_done hb]; exact done h hb
  case case4 hb    => rw [run_fail hb]; exact fail h hb

theorem run_satisfies {I : σ → Prop} {Q : α → Prop} {E : ε → Prop}
    (h : ∀ {s}, I s → ∀ bs, (l.body s bs).Satisfies I Q E) (hi : I s) :
    (l.run s bs).Satisfies I Q E := by
  have hs {t} (hb : l.body s bs = t) : t.Satisfies I Q E := hb ▸ h hi bs
  induction s, bs using run.induct (l := l)
  case case1 hb ih => rw [run_goto hb]; exact ih (hs hb) fun h' => h' ▸ h (hs hb) _
  case case2 hb    => rw [run_more hb]; exact hs hb
  case case3 hb    => rw [run_done hb]; exact hs hb
  case case4 hb    => rw [run_fail hb]; exact hs hb

theorem always {I : σ → Prop} {P : σ → List β → Prop} (hp : ∀ {s}, I s → ∀ bs, P s bs)
    (hgoto : ∀ {s bs s' r}, I s → l.body s bs = .goto s' r → I s') (hi : I s) :
    l.Always P s bs := by
  intro s' r h
  induction h
  case start         => exact hp hi _
  case goto hb _ ih  => exact ih (hgoto hi hb)

-- The states between the turns and the one that a run leaves when it wants more.
theorem run_keeps {I : σ → Prop}
    (hturn : ∀ {s bs s' r}, I s → l.body s bs = .goto s' r ∨ l.body s bs = .more s' r → I s')
    (hi : I s) (hm : l.run s bs = .more s' r) : I s' := by
  induction s, bs using run.induct (l := l)
  case case1 hb ih => rw [run_goto hb] at hm; exact ih (hturn hi (.inl hb)) hm
  case case2 hb    => rw [run_more hb] at hm; cases hm; exact hturn hi (.inr hb)
  case case3 hb    => rw [run_done hb] at hm; cases hm
  case case4 hb    => rw [run_fail hb] at hm; cases hm

-- A run that wants more has used up its chunk if its turns do.
theorem run_exhausts (hturn : ∀ {s bs s' r}, l.body s bs = .more s' r → r = [])
    (hm : l.run s bs = .more s' r) : r = [] := by
  induction s, bs using run.induct (l := l)
  case case1 hb ih => rw [run_goto hb] at hm; exact ih hm
  case case2 hb    => rw [run_more hb] at hm; cases hm; exact hturn hb
  case case3 hb    => rw [run_done hb] at hm; cases hm
  case case4 hb    => rw [run_fail hb] at hm; cases hm

-- The failures of a run are those of its turns.
theorem run_fails {I : σ → Prop} {Q : ε → Prop}
    (hgoto : ∀ {s bs s' r}, I s → l.body s bs = .goto s' r → I s')
    (hfail : ∀ {s bs e r}, I s → l.body s bs = .fail e r → Q e)
    (hi : I s) {e} (hf : l.run s bs = .fail e r) : Q e := by
  induction s, bs using run.induct (l := l)
  case case1 hb ih => rw [run_goto hb] at hf; exact ih (hgoto hi hb) hf
  case case2 hb    => rw [run_more hb] at hf; cases hf
  case case3 hb    => rw [run_done hb] at hf; cases hf
  case case4 hb    => rw [run_fail hb] at hf; cases hf; exact hfail hi hb

-- If each turn of a loop is matched by a turn of another one, then so is each run.
theorem run_mapState {I : σ → Prop} {l' : Loop β σ' α ε} {f : σ → σ'}
    (hbody : ∀ {s}, I s → ∀ bs, l'.body (f s) bs = (l.body s bs).mapState f)
    (hgoto : ∀ {s bs s' r}, I s → l.body s bs = .goto s' r → I s') (hi : I s) (bs : List β) :
    l'.run (f s) bs = (l.run s bs).mapState f := by
  have hb {t} (h : l.body s bs = t) : l'.body (f s) bs = t.mapState f := h ▸ hbody hi bs
  induction s, bs using run.induct (l := l)
  case case1 h ih =>
    have hi := hgoto hi h
    rw [run_goto h, run_goto (hb h)]
    exact ih hi fun h' => h' ▸ hbody hi _
  case case2 h => rw [run_more h, run_more (hb h)]; rfl
  case case3 h => rw [run_done h, run_done (hb h)]; rfl
  case case4 h => rw [run_fail h, run_fail (hb h)]; rfl

-- If the turns of two loops are related, then so are their runs.
theorem run_related {ε' : Type*} {l' : Loop β σ' α' ε'} {R : σ → σ' → Prop} {K : α → α' → Prop}
    {E : ε → ε' → Prop}
    (hbody : ∀ {s s'}, R s s' → ∀ bs, (l.body s bs).Related R K E (l'.body s' bs)) {t : σ'} (h : R s t)
    (bs : List β) : (l.run s bs).Related R K E (l'.run t bs) := by
  induction s, bs using run.induct (l := l) generalizing t
  case case1 s bs s' r hu ih =>
    have hb := hbody h bs
    generalize hv : l'.body t bs = v at hb
    rw [hu] at hb
    cases hb with | goto h' => rw [run_goto hu, run_goto hv]; exact ih h'
  case case2 s bs s' r hu =>
    have hb := hbody h bs
    generalize hv : l'.body t bs = v at hb
    rw [hu] at hb
    cases hb with | more h' => rw [run_more hu, run_more hv]; exact .more h'
  case case3 s bs a r hu =>
    have hb := hbody h bs
    generalize hv : l'.body t bs = v at hb
    rw [hu] at hb
    cases hb with | done h' => rw [run_done hu, run_done hv]; exact .done h'
  case case4 s bs e r hu =>
    have hb := hbody h bs
    generalize hv : l'.body t bs = v at hb
    rw [hu] at hb
    cases hb with | fail h' => rw [run_fail hu, run_fail hv]; exact .fail h'

theorem shrinks (h : ∀ s bs, (l.body s bs).rest <:+ bs) : Shrinks l.run := by
  intro s bs
  refine run_induction (P := fun _ r => r <:+ bs) (Q := fun st => st.rest <:+ bs)
    ?goto ?more ?done ?fail (List.suffix_refl bs)
  all_goals
    intro s bs' _ _ hp hb
    have := h s bs'
    rw [hb] at this
    exact this.trans hp

-- A loop reads its input alike in one or in two chunks if each of its turns does. The induction is
-- on the turns of the call on the first chunk.
theorem resumes {I : σ → Prop} {l l' : Loop β σ α ε}
    (h : ∀ s, I s → ∀ xs ys, (l.body s xs).Extends I l'.body ys (l'.body s (xs ++ ys))) :
    Resumes I l.run l'.run where
  extend {s} hi xs ys := by
    induction s, xs using run.induct (l := l)
    case case1 s xs s' r hb ih =>
      have he := h s hi xs ys
      rw [hb] at he
      generalize ht : l'.body s (xs ++ ys) = t at he
      cases he
      case goto hi' => rw [run_goto hb, run_goto ht]; exact ih hi'
    all_goals
      rename_i s xs _ _ hb
      have he := h s hi xs ys
      rw [hb] at he
      generalize ht : l'.body s (xs ++ ys) = t at he
      cases he
    case case2.more hi' =>
      rw [run_more hb]
      refine .of_eq_more hi' ?_
      rw [run.eq_def, run.eq_def, ht]
    case case3.done => rw [run_done hb, run_done ht]; exact .done
    case case4.fail => rw [run_fail hb, run_fail ht]; exact .fail

theorem resumable {l : Loop β σ α ε}
    (h : ∀ s xs ys, (l.body s xs).Extends (fun _ => True) l.body ys (l.body s (xs ++ ys))) :
    Resumable l.run :=
  resumes fun s _ => h s

end Loop

end Incremental
