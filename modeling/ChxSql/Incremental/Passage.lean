import ChxSql.Incremental.Chunks
import ChxSql.Incremental.Loop

namespace Incremental.Loop

variable {β σ σ' α α' ε ε' : Type*}

-- The turns of a loop while chunks are fed to it. Before it there are the rest of a chunk and some more
-- chunks: a turn goes on with that chunk, or it wants the next one.
inductive Leads (l : Loop β σ α ε) : σ → List β → List (List β) → σ → List β → List (List β) → Prop
  | refl {s bs cs} : Leads l s bs cs s bs cs
  | goto {s bs cs s₁ r₁ s' r ds} : l.body s bs = .goto s₁ r₁ → Leads l s₁ r₁ cs s' r ds →
    Leads l s bs cs s' r ds
  | more {s bs c cs s₁ r₁ s' r ds} : l.body s bs = .more s₁ r₁ → Leads l s₁ c cs s' r ds →
    Leads l s bs (c :: cs) s' r ds

namespace Leads

variable {l : Loop β σ α ε} {s s' s'' : σ} {bs r r' : List β} {cs ds ds' : List (List β)}

theorem trans (h : l.Leads s bs cs s' r ds) (h' : l.Leads s' r ds s'' r' ds') : l.Leads s bs cs s'' r' ds' := by
  induction h
  case refl         => exact h'
  case goto hb _ ih => exact .goto hb (ih h')
  case more hb _ ih => exact .more hb (ih h')

-- Feeding the chunks comes to the same as feeding what is left of them.
theorem feed_eq (h : l.Leads s bs cs s' r ds) : feed l.run s (bs :: cs) = feed l.run s' (r :: ds) := by
  induction h
  case refl => rfl
  case goto hb _ ih =>
    rw [← ih, feed, feed, run_goto hb]
  case more hb _ ih =>
    rw [← ih, feed, run_more hb]

-- A loop whose turns are related to those of another one goes the same way.
theorem related {l' : Loop β σ' α' ε'} {R : σ → σ' → Prop} {K : α → α' → Prop} {E : ε → ε' → Prop}
    (hbody : ∀ {s t}, R s t → ∀ bs, (l.body s bs).Related R K E (l'.body t bs)) {t : σ'} (hr : R s t)
    (h : l.Leads s bs cs s' r ds) : ∃ t', R s' t' ∧ l'.Leads t bs cs t' r ds := by
  induction h generalizing t
  case refl => exact ⟨t, hr, .refl⟩
  case goto s bs _ _ _ _ _ _ hb _ ih =>
    have hu := hbody hr bs
    rw [hb] at hu
    generalize hv : l'.body t bs = v at hu
    cases hu with | goto h' =>
    have ⟨t', ht, hl⟩ := ih h'
    exact ⟨t', ht, .goto hv hl⟩
  case more s bs _ _ _ _ _ _ _ hb _ ih =>
    have hu := hbody hr bs
    rw [hb] at hu
    generalize hv : l'.body t bs = v at hu
    cases hu with | more h' =>
    have ⟨t', ht, hl⟩ := ih h'
    exact ⟨t', ht, .more hv hl⟩

end Leads

-- The loop gets from a state through some input to a state of which `Q` holds, however the input is cut
-- into chunks.
def Reads (l : Loop β σ α ε) (s : σ) (xs : List β) (Q : σ → Prop) : Prop :=
  ∀ bs cs rest, bs ++ cs.flatten = xs ++ rest →
    ∃ s' r ds, Q s' ∧ l.Leads s bs cs s' r ds ∧ r ++ ds.flatten = rest

namespace Reads

variable {l : Loop β σ α ε} {s : σ} {xs ys : List β} {Q Q' : σ → Prop}

theorem nil (h : Q s) : l.Reads s [] Q :=
  fun bs cs _ he => ⟨s, bs, cs, h, .refl, he⟩

theorem mono (h : l.Reads s xs Q) (hq : ∀ s', Q s' → Q' s') : l.Reads s xs Q' := by
  intro bs cs rest he
  have ⟨s', r, ds, hs, hl, hr⟩ := h bs cs rest he
  exact ⟨s', r, ds, hq s' hs, hl, hr⟩

theorem append (h : l.Reads s xs Q) (h' : ∀ s', Q s' → l.Reads s' ys Q') : l.Reads s (xs ++ ys) Q' := by
  intro bs cs rest he
  have ⟨s₁, r₁, ds₁, hs₁, hl₁, hr₁⟩ := h bs cs (ys ++ rest) (List.append_assoc .. ▸ he)
  have ⟨s₂, r₂, ds₂, hs₂, hl₂, hr₂⟩ := h' s₁ hs₁ r₁ ds₁ rest hr₁
  exact ⟨s₂, r₂, ds₂, hs₂, hl₁.trans hl₂, hr₂⟩

-- The loop reads some input if a turn that gets all of it does so, and a turn that gets the first part of
-- it wants more and the loop reads the remainder from there. A turn that gets nothing waits. The
-- induction is on the chunks.
theorem of_turns (hn : l.body s [] = .more s [])
    (whole : ∀ r, ∃ s', l.body s (xs ++ r) = .goto s' r ∧ Q s')
    (part : ∀ ys zs, ys ≠ [] → zs ≠ [] → xs = ys ++ zs → ∃ s', l.body s ys = .more s' [] ∧ l.Reads s' zs Q) :
    l.Reads s xs Q := by
  intro bs cs rest he
  induction cs generalizing bs
  case nil =>
    rw [List.flatten_nil, List.append_nil] at he
    have ⟨s', hb, hq⟩ := whole rest
    exact ⟨s', rest, [], hq, .goto (he ▸ hb) .refl, List.append_nil rest⟩
  case cons c cs ih =>
    obtain ⟨zs, hz, hr⟩ | ⟨r, rfl, hr⟩ := List.append_eq_append_iff.mp he
    case inr =>
      have ⟨s', hb, hq⟩ := whole r
      exact ⟨s', r, c :: cs, hq, .goto hb .refl, hr.symm⟩
    case inl =>
      by_cases hb : bs = []
      case pos =>
        have ⟨s', r, ds, hq, hl, hr⟩ := ih c (by rw [hb] at he; exact he)
        exact ⟨s', r, ds, hq, .more (hb ▸ hn) hl, hr⟩
      case neg =>
        by_cases hz' : zs = []
        case pos =>
          subst hz'
          have ⟨s', ht, hq⟩ := whole []
          rw [List.append_nil, hz, List.append_nil] at ht
          exact ⟨s', [], c :: cs, hq, .goto ht .refl, hr⟩
        case neg =>
          have ⟨s₁, ht, hs⟩ := part bs zs hb hz' hz
          have ⟨s', r, ds, hq, hl, hr⟩ := hs c cs rest hr
          exact ⟨s', r, ds, hq, .more ht hl, hr⟩

theorem related {l' : Loop β σ' α' ε'} {R : σ → σ' → Prop} {K : α → α' → Prop} {E : ε → ε' → Prop}
    (hbody : ∀ {s t}, R s t → ∀ bs, (l.body s bs).Related R K E (l'.body t bs)) {t : σ'} (hr : R s t)
    (h : l.Reads s xs Q) : l'.Reads t xs fun t' => ∃ s', Q s' ∧ R s' t' := by
  intro bs cs rest he
  have ⟨s', r, ds, hq, hl, hd⟩ := h bs cs rest he
  have ⟨t', ht, hl'⟩ := hl.related hbody hr
  exact ⟨t', r, ds, ⟨s', hq, ht⟩, hl', hd⟩

-- Feeding chunks that hold the input and nothing else.
theorem feed_eq (hn : ∀ s, l.body s [] = .more s []) (h : l.Reads s xs Q) {cs : List (List β)}
    (hc : cs.flatten = xs) : ∃ s', Q s' ∧ feed l.run s cs = (.more s' [], []) := by
  have ⟨s', r, ds, hq, hl, hr⟩ := h [] cs [] (by rw [hc, List.append_nil, List.nil_append])
  have hf : feed l.run s ([] :: cs) = feed l.run s' (r :: ds) := hl.feed_eq
  have he : feed l.run s' (r :: ds) = (.more s' [], []) := feed_nils (fun s => run_more (hn s)) hr
  rw [feed, run_more (hn s), he] at hf
  exact ⟨s', hq, hf⟩

end Reads

end Incremental.Loop
