import ChxSql.Incremental.Step

namespace Incremental

variable {β σ α ε : Type*}

-- Feeding a list of chunks to a machine, one call a chunk, until a call returns something else than
-- `more`. What a call that wants more leaves unread is dropped (there is no such thing if the
-- machine is resumable). The second component is the list of the chunks that were not fed.
def feed (f : σ → List β → Step β σ α ε) : σ → List (List β) → Step β σ α ε × List (List β)
  | s, []      => (.more s [], [])
  | s, c :: cs =>
    match f s c with
    | .more s' _ => feed f s' cs
    | .done a r  => (.done a r, cs)
    | .fail e r  => (.fail e r, cs)

-- What the calls return when a list of chunks is fed to a machine.
def calls (f : σ → List β → Step β σ α ε) : σ → List (List β) → List (Step β σ α ε)
  | _, []      => []
  | s, c :: cs =>
    f s c :: match f s c with
    | .more s' _ => calls f s' cs
    | _          => []

-- The chunks that were not fed are the last ones.
theorem feed_unfed_suffix (f : σ → List β → Step β σ α ε) (s : σ) (cs : List (List β)) :
    (feed f s cs).2 <:+ cs := by
  induction cs generalizing s
  case nil => exact List.suffix_refl _
  case cons c cs ih =>
    simp only [feed]
    cases f s c
    case more => exact (ih _).trans (List.suffix_cons ..)
    all_goals exact List.suffix_cons ..

-- A machine that waits for input does nothing with chunks that hold none.
theorem feed_nils {f : σ → List β → Step β σ α ε} (hn : ∀ s, f s [] = .more s []) {s : σ}
    {cs : List (List β)} (h : cs.flatten = []) : feed f s cs = (.more s [], []) := by
  induction cs
  case nil => rfl
  case cons c cs ih =>
    have ⟨hc, hcs⟩ := List.append_eq_nil_iff.mp h
    rw [hc, feed, hn]
    exact ih hcs

-- If a machine that uses its chunks up wants more in the end, then it wanted more after each chunk.
theorem calls_of_feed_more {f : σ → List β → Step β σ α ε} (hf : ∀ {s bs s' r}, f s bs = .more s' r → r = [])
    {s s' : σ} {cs : List (List β)} {r} (h : feed f s cs = (.more s' r, [])) :
    (calls f s cs).length = cs.length ∧ ∀ st ∈ calls f s cs, ∃ t, st = .more t [] := by
  induction cs generalizing s
  case nil => exact ⟨rfl, nofun⟩
  case cons c cs ih =>
    simp only [feed, calls] at h ⊢
    cases hc : f s c <;> rw [hc] at h
    case more t r =>
      have ⟨hl, hm⟩ := ih h
      cases hf hc
      exact ⟨congrArg (· + 1) hl, List.forall_mem_cons.mpr ⟨⟨t, rfl⟩, hm⟩⟩
    all_goals cases h

theorem feed_satisfies {f : σ → List β → Step β σ α ε} {I : σ → Prop} {Q : α → Prop} {E : ε → Prop}
    (h : ∀ {s}, I s → ∀ bs, (f s bs).Satisfies I Q E) {s : σ} (hi : I s) (cs : List (List β)) :
    (feed f s cs).1.Satisfies I Q E := by
  induction cs generalizing s
  case nil => exact hi
  case cons c cs ih =>
    have hs := h hi c
    simp only [feed]
    cases hf : f s c <;> rw [hf] at hs
    case more => exact ih hs
    all_goals exact hs

-- Feeding the same chunks to two machines whose calls are related. The induction is on the chunks.
theorem calls_related {σ' α' ε' : Type*} {f : σ → List β → Step β σ α ε}
    {g : σ' → List β → Step β σ' α' ε'} {R : σ → σ' → Prop} {K : α → α' → Prop} {E : ε → ε' → Prop}
    (h : ∀ {s t}, R s t → ∀ bs, (f s bs).Related R K E (g t bs)) {s : σ} {t : σ'} (hr : R s t)
    (cs : List (List β)) : List.Forall₂ (Step.Related R K E) (calls f s cs) (calls g t cs) := by
  induction cs generalizing s t
  case nil => exact .nil
  case cons c cs ih =>
    have hc := h hr c
    simp only [calls]
    generalize f s c = st at hc
    generalize g t c = st' at hc
    cases hc
    case more h' => exact .cons (.more h') (ih h')
    case done h' => exact .cons (.done h') .nil
    case fail h' => exact .cons (.fail h') .nil

-- The last call says what feeding comes to. The induction is on the chunks.
theorem feed_related {σ' α' ε' : Type*} {f : σ → List β → Step β σ α ε} {g : σ' → List β → Step β σ' α' ε'}
    {R : σ → σ' → Prop} {K : α → α' → Prop} {E : ε → ε' → Prop} {s : σ} {t : σ'} {cs : List (List β)}
    (h : List.Forall₂ (Step.Related R K E) (calls f s cs) (calls g t cs)) (hr : R s t) :
    (feed f s cs).1.Related R K E (feed g t cs).1 ∧ (feed f s cs).2 = (feed g t cs).2 := by
  induction cs generalizing s t
  case nil => exact ⟨.more hr, rfl⟩
  case cons c cs ih =>
    simp only [calls, feed] at h ⊢
    generalize f s c = st at h ⊢
    generalize g t c = st' at h ⊢
    have ⟨hc, hs⟩ := List.forall₂_cons.mp h
    cases hc
    case more h' => exact ih hs h'
    case done h' => exact ⟨.done h', rfl⟩
    case fail h' => exact ⟨.fail h', rfl⟩

-- Feeding chunks comes to the same as one call on all of them: both want more and are left in the
-- same state, or both are done with the same result and the same unread input (part of which may
-- be in chunks that were not fed), or both fail in the same way.
inductive Agrees : Step β σ α ε × List (List β) → Step β σ α ε → Prop
  | more {s}      : Agrees (.more s [], []) (.more s [])
  | done {a r cs} : Agrees (.done a r, cs) (.done a (r ++ cs.flatten))
  | fail {e r r' cs} : Agrees (.fail e r, cs) (.fail e r')

namespace Agrees

variable {p : Step β σ α ε × List (List β)} {st : Step β σ α ε}

theorem of_done {a r} (h : Agrees p (.done a r)) :
    ∃ left cs, p = (.done a left, cs) ∧ left ++ cs.flatten = r := by
  cases h; exact ⟨_, _, rfl, rfl⟩

theorem of_fail {e r} (h : Agrees p (.fail e r)) : ∃ left cs, p = (.fail e left, cs) := by
  cases h; exact ⟨_, _, rfl⟩

theorem of_more {s r} (h : Agrees p (.more s r)) : p = (.more s [], []) ∧ r = [] := by
  cases h; exact ⟨rfl, rfl⟩

theorem to_done {a r cs} (h : Agrees (.done a r, cs) st) : st = .done a (r ++ cs.flatten) := by
  cases h; rfl

theorem to_more {s r cs} (h : Agrees (.more s r, cs) st) : st = .more s [] ∧ cs = [] := by
  cases h; exact ⟨rfl, rfl⟩

end Agrees

variable {I : σ → Prop} {f : σ → List β → Step β σ α ε} {s : σ} {c : List β} {cs : List (List β)}

-- The result of feeding does not depend on how the input was cut into chunks. The induction is on
-- the chunks: the law of `Resumes` joins the first two of them.
theorem Resumes.feed_agrees (h : Resumes I f f) (hi : I s) :
    Agrees (feed f s (c :: cs)) (f s (c ++ cs.flatten)) := by
  induction cs generalizing s c
  case nil =>
    simp only [feed, List.flatten_nil, List.append_nil]
    cases hf : f s c
    case more => cases h.exhausts hi hf; exact .more
    case done => simpa using (Agrees.done : Agrees (.done _ _, []) _)
    case fail => exact .fail
  case cons d cs ih =>
    rw [feed]
    cases hf : f s c
    case more s' _ =>
      rw [h.resumes hi hf]
      exact ih (h.keeps hi hf)
    case done a r =>
      rw [h.stays hi hf]
      exact .done
    case fail e r =>
      have ⟨r', hr⟩ := h.fails hi hf (d :: cs).flatten
      rw [hr]
      exact .fail

theorem Resumable.feed_agrees (h : Resumable f) :
    Agrees (feed f s (c :: cs)) (f s (c ++ cs.flatten)) :=
  Resumes.feed_agrees h trivial

-- The same for a list of chunks that may be empty, if the machine waits for input then.
theorem Resumes.feed_agrees_flatten (h : Resumes I f f) (hi : I s) (hn : cs = [] → f s [] = .more s []) :
    Agrees (feed f s cs) (f s cs.flatten) := by
  cases cs
  case nil  => rw [List.flatten_nil, hn rfl]; exact .more
  case cons => exact h.feed_agrees hi

-- When feeding comes to a result, and which part of the input is unread then.
theorem Resumable.feed_done_iff (h : Resumable f) {a r} :
    (∃ left unfed, feed f s cs = (.done a left, unfed) ∧ left ++ unfed.flatten = r) ↔
      cs ≠ [] ∧ f s cs.flatten = .done a r := by
  cases cs
  case nil => simp [feed]
  case cons c cs =>
    have ha : Agrees (feed f s (c :: cs)) (f s (c ++ cs.flatten)) := h.feed_agrees
    rw [List.flatten_cons]
    constructor
    case mp =>
      rintro ⟨left, unfed, hf, hr⟩
      rw [hf] at ha
      exact ⟨List.cons_ne_nil _ _, hr ▸ ha.to_done⟩
    case mpr =>
      rintro ⟨_, hd⟩
      rw [hd] at ha
      exact ha.of_done

-- A machine that wants more after some input wanted more after the first part of it, too.
theorem Resumes.more_of_append {s s' : σ} {xs ys : List β} (h : Resumes I f f) (hi : I s)
    (hm : f s (xs ++ ys) = .more s' []) : ∃ s₁, f s xs = .more s₁ [] ∧ I s₁ ∧ f s₁ ys = .more s' [] := by
  cases hx : f s xs
  case more s₁ r =>
    cases h.exhausts hi hx
    exact ⟨s₁, rfl, h.keeps hi hx, h.resumes hi hx ys ▸ hm⟩
  case done   => rw [h.stays hi hx] at hm; cases hm
  case fail   => have ⟨_, hf⟩ := h.fails hi hx ys; rw [hf] at hm; cases hm

-- Input after which a machine wants more may as well have been fed before, and in other chunks. The
-- induction is on the chunks that hold nothing else.
theorem Resumes.feed_append {s s' : σ} {xs b : List β} {as : List (List β)} (h : Resumes I f f)
    (hi : I s) (hm : f s xs = .more s' []) (hx : as.flatten ++ b = xs) :
    feed f s (as ++ (b ++ c) :: cs) = feed f s' (c :: cs) := by
  induction as generalizing s xs
  case nil =>
    rw [List.flatten_nil, List.nil_append] at hx
    rw [List.nil_append, feed, feed, hx, h.resumes hi hm]
  case cons a as ih =>
    rw [List.flatten_cons, List.append_assoc] at hx
    have ⟨s₁, ha, hi₁, hm₁⟩ := h.more_of_append hi (hx ▸ hm)
    rw [List.cons_append, feed, ha]
    exact ih hi₁ hm₁ rfl

theorem feed_append_of_more {f : σ → List β → Step β σ α ε} {s s' : σ} {cs : List (List β)}
    (h : feed f s cs = (.more s' [], [])) (ds : List (List β)) : feed f s (cs ++ ds) = feed f s' ds := by
  induction cs generalizing s
  case nil => cases h; rfl
  case cons c cs ih =>
    simp only [feed, List.cons_append] at h ⊢
    cases hf : f s c <;> rw [hf] at h
    case more => exact ih h
    all_goals cases h

-- Going on with the chunks that were not fed.
def feedRest (g : σ → List β → Step β σ α ε) : Step β σ α ε × List (List β) → Step β σ α ε × List (List β)
  | (.more s _, cs) => feed g s cs
  | (.done a r, cs) => (.done a r, cs)
  | (.fail e r, cs) => (.fail e r, cs)

-- A machine that feeds another one, until it makes something else of what a call returns. The
-- induction is on the chunks.
theorem feed_goesOver {τ α' ε' : Type*} {f : σ → List β → Step β σ α ε}
    {g : τ → List β → Step β τ α' ε'} (w : σ → τ) (k : Step β σ α ε → Step β τ α' ε')
    (hg : ∀ s bs, g (w s) bs = k (f s bs)) (hm : ∀ s r, k (.more s r) = .more (w s) r) (s : σ)
    (cs : List (List β)) :
    feed g (w s) cs = feedRest g (k (feed f s cs).1, (feed f s cs).2) := by
  induction cs generalizing s
  case nil => simp only [feed, hm, feedRest]
  case cons c cs ih =>
    rw [feed, feed, hg]
    cases hf : f s c
    case more s' r => simp only [hm, ih]
    case done a r  => dsimp only; cases k (.done a r) <;> rfl
    case fail e r  => dsimp only; cases k (.fail e r) <;> rfl

-- Feeding the same chunks to two machines of which one keeps its place in its own way.
theorem feed_mapState {σ' : Type*} {g : σ' → List β → Step β σ' α ε} {w : σ → σ'}
    (hw : ∀ {s}, I s → ∀ bs, g (w s) bs = (f s bs).mapState w)
    (hm : ∀ {s bs s' r}, I s → f s bs = .more s' r → I s') (hi : I s) :
    feed g (w s) cs = ((feed f s cs).1.mapState w, (feed f s cs).2) := by
  induction cs generalizing s
  case nil => rfl
  case cons c cs ih =>
    simp only [feed, hw hi]
    cases hf : f s c
    case more => exact ih (hm hi hf)
    all_goals rfl

-- Going on from what a machine's calls return, as long as this does not change whether more chunks
-- are fed.
theorem feed_map {α' ε' : Type*} {f : σ → List β → Step β σ α ε} {k : Step β σ α ε → Step β σ α' ε'}
    (hm : ∀ s r, k (.more s r) = .more s r) (hk : ∀ st, (k st).isMore = st.isMore) (s : σ)
    (cs : List (List β)) :
    feed (fun s bs => k (f s bs)) s cs = ((k (feed f s cs).1), (feed f s cs).2) := by
  induction cs generalizing s
  case nil => simp only [feed, hm]
  case cons c cs ih =>
    simp only [feed]
    cases hf : f s c
    case more s' r => simp only [hm, ih]
    all_goals
      have hb := hk (f s c)
      rw [hf] at hb
      generalize k _ = st at hb ⊢
      cases st
      case more => cases hb
      all_goals rfl

end Incremental
