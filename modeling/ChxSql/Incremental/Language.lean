import ChxSql.Incremental.Loop

namespace Incremental

variable {β σ τ α γ ε : Type*}

-- A machine is done when it has read a string of a language as a value, and only then. It leaves what follows.
def Accepts (f : List β → Step β σ α ε) (L : α → List β → Prop) : Prop :=
  ∀ {bs a r}, f bs = .done a r ↔ ∃ xs, bs = xs ++ r ∧ L a xs

namespace Accepts

variable {f : List β → Step β σ α ε} {L : α → List β → Prop} {xs : List β} {a : α}

theorem done (h : Accepts f L) (hx : L a xs) (r : List β) : f (xs ++ r) = .done a r :=
  h.mpr ⟨xs, rfl, hx⟩

theorem done_nil_iff (h : Accepts f L) : f xs = .done a [] ↔ L a xs := by
  rw [h]
  simp

end Accepts

namespace Loop

variable {l : Loop β σ α ε} {s : σ} {bs r : List β} {a : α}

-- What the loop comes to after a turn.
def after (l : Loop β σ α ε) : Turn β σ α ε → Step β σ α ε
  | .goto s r => l.run s r
  | .more s r => .more s r
  | .done a r => .done a r
  | .fail e r => .fail e r

theorem run_eq_after (l : Loop β σ α ε) (s : σ) (bs : List β) : l.run s bs = l.after (l.body s bs) := by
  cases h : l.body s bs
  case goto => exact run_goto h
  case more => exact run_more h
  case done => exact run_done h
  case fail => exact run_fail h

-- A loop that uses another machine in a turn reads what that accepts first.
theorem run_field_iff {f : List β → Step β τ γ ε} {L : γ → List β → Prop} {wrap : τ → σ}
    {k : γ → List β → Turn β σ α ε} (hf : Accepts f L) (hb : ∀ bs, l.body s bs = (f bs).turn wrap k) :
    l.run s bs = .done a r ↔ ∃ v xs ys, bs = xs ++ ys ∧ L v xs ∧ l.after (k v ys) = .done a r := by
  rw [run_eq_after, hb]
  constructor
  case mp =>
    intro h
    cases hs : f bs <;> rw [hs] at h
    case more | fail => cases h
    case done v ys =>
      obtain ⟨xs, he, hx⟩ := hf.mp hs
      exact ⟨v, xs, ys, he, hx, h⟩
  case mpr =>
    rintro ⟨v, xs, ys, rfl, hx, h⟩
    rw [hf.done hx]
    exact h

end Loop

end Incremental
