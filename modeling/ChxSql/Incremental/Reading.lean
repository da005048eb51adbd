import ChxSql.Incremental.Chunks

namespace Incremental

variable {β σ α ε : Type*} {I : σ → Prop} {f g : σ → List β → Step β σ α ε} {s : σ}
variable {xs ys : List β} {a : α}

-- A machine that goes on from another one is done only where that is.
theorem Step.andThen_eq_done {σ' α' : Type*} {st : Step β σ α ε} {wrap : σ → σ'}
    {k : α → List β → Step β σ' α' ε} {b : α'} {r : List β} :
    st.andThen wrap k = .done b r ↔ ∃ v r', st = .done v r' ∧ k v r' = .done b r := by
  cases st <;> simp [Step.andThen]

-- A machine that is done at the end of its input wants more after every proper part of it.
theorem Resumes.more_of_done (h : Resumes I f g) (hi : I s) (hd : g s (xs ++ ys) = .done a [])
    (hy : ys ≠ []) : ∃ s', f s xs = .more s' [] ∧ I s' ∧ g s' ys = .done a [] := by
  cases hf : f s xs
  case more s' r =>
    cases h.exhausts hi hf
    exact ⟨s', rfl, h.keeps hi hf, h.resumes hi hf ys ▸ hd⟩
  case done b r =>
    rw [h.stays hi hf, Step.done.injEq, List.append_eq_nil_iff] at hd
    exact absurd hd.2.2 hy
  case fail e r =>
    have ⟨r', hr⟩ := h.fails hi hf ys
    rw [hr] at hd
    cases hd

-- `xs` is read as `a`, no matter how it is cut into chunks and what follows it: the machine wants
-- more until the last part of `xs` comes, and then it leaves unread what follows.
structure Reads (f : σ → List β → Step β σ α ε) (s : σ) (xs : List β) (a : α) : Prop where
  more : ∀ cs ys, cs.flatten ++ ys = xs → ys ≠ [] → ∃ s', feed f s cs = (.more s' [], [])
  done : ∀ cs rest, cs.flatten = xs ++ rest →
    ∃ left unfed, feed f s cs = (.done a left, unfed) ∧ left ++ unfed.flatten = rest

theorem Reads.parse_eq (h : Reads f s xs a) : f s xs = .done a [] := by
  have ⟨left, unfed, hf, hr⟩ := h.done [xs] [] (by simp)
  have ⟨hl, _⟩ := List.append_eq_nil_iff.mp hr
  rw [hl] at hf
  cases hp : f s xs <;> rw [feed, hp] at hf <;> cases hf
  rfl

theorem Resumable.reads (h : Resumable f) (hx : xs ≠ []) (hd : f s xs = .done a []) :
    Reads f s xs a where
  more cs ys hc hy := by
    cases cs
    case nil => exact ⟨s, rfl⟩
    case cons c cs =>
      have ⟨s', hm, _⟩ := h.more_of_done trivial (hc ▸ hd) hy
      have hf : Agrees (feed f s (c :: cs)) (f s (c ++ cs.flatten)) := h.feed_agrees
      rw [← List.flatten_cons, hm] at hf
      exact ⟨s', hf.of_more.1⟩
  done cs rest hc := by
    refine h.feed_done_iff.mpr ⟨?_, hc ▸ h.stays trivial hd rest⟩
    rintro rfl
    simp [hx] at hc

-- A machine whose calls are related to those of another one reads what that reads. The calls need only
-- be related on input that begins as `xs` does.
theorem Reads.of_related {σ' α' ε' : Type*} {g : σ' → List β → Step β σ' α' ε'} {t : σ'} {a' : α'}
    {R : σ → σ' → Prop} {K : α → α' → Prop} {E : ε → ε' → Prop} (h : Reads f s xs a)
    (hc : ∀ cs, (∀ b, cs.flatten.head? = some b → xs.head? = some b) →
      List.Forall₂ (Step.Related R K E) (calls f s cs) (calls g t cs))
    (hr : R s t) (hx : xs ≠ []) (hk : ∀ b, K a b → b = a') : Reads g t xs a' where
  more cs ys hs hy := by
    have ⟨s', hm⟩ := h.more cs ys hs hy
    have hb : ∀ b, cs.flatten.head? = some b → xs.head? = some b := by
      intro b hb
      rw [← hs, List.head?_append, hb, Option.some_or]
    have ⟨hf, hu⟩ := feed_related (hc cs hb) hr
    rw [hm] at hf hu
    generalize hg : feed g t cs = p at hf hu
    have ⟨st, unfed⟩ := p
    cases hu
    cases hf
    exact ⟨_, rfl⟩
  done cs rest hs := by
    have ⟨left, unfed, hd, hl⟩ := h.done cs rest hs
    have hb : ∀ b, cs.flatten.head? = some b → xs.head? = some b := by
      intro b hb
      have ⟨x, xs', he⟩ := List.exists_cons_of_ne_nil hx
      rw [hs, he] at hb
      rw [he, ← hb, List.cons_append, List.head?_cons, List.head?_cons]
    have ⟨hf, hu⟩ := feed_related (hc cs hb) hr
    rw [hd] at hf hu
    generalize hg : feed g t cs = p at hf hu
    have ⟨st, unfed'⟩ := p
    cases hu
    cases hf
    case done hk' => exact ⟨left, unfed, hk _ hk' ▸ rfl, hl⟩

-- The same for a machine that is told when the last chunk comes: `f` is what it does with the other
-- chunks, and `g` is what it does with the last one.
def ReadsToEnd (f g : σ → List β → Step β σ α ε) (s : σ) (xs : List β) (a : α) : Prop :=
  ∀ cs c, cs.flatten ++ c = xs → c ≠ [] → ∃ s', feed f s cs = (.more s' [], []) ∧ g s' c = .done a []

-- The induction is on the chunks before the last one.
theorem Resumes.readsToEnd (h : Resumes I f g) (hi : I s) (hd : g s xs = .done a []) :
    ReadsToEnd f g s xs a := by
  intro cs c hc hn
  induction cs generalizing s xs
  case nil =>
    rw [List.flatten_nil, List.nil_append] at hc
    exact ⟨s, rfl, hc ▸ hd⟩
  case cons b cs ih =>
    rw [List.flatten_cons, List.append_assoc] at hc
    have ⟨s₁, hm, hi₁, hd₁⟩ := h.more_of_done hi (hc ▸ hd) (by simp [hn])
    rw [feed, hm]
    exact ih hi₁ hd₁ rfl

end Incremental
