import ChxSql.Incremental.Loop

namespace Incremental

variable {β σ α ε : Type*}

-- A turn of a loop that pauses in certain states.
def Turn.pause (stop : σ → Bool) : Turn β σ α ε → Turn β σ (σ ⊕ α) ε
  | .goto s r => if stop s then .done (.inl s) r else .goto s r
  | .more s r => .more s r
  | .done a r => .done (.inr a) r
  | .fail e r => .fail e r

namespace Loop

variable (l : Loop β σ α ε) (stop : σ → σ → Bool)

-- A loop that pauses after certain turns, so that something else can be done before it goes on.
def pausing : Loop β σ (σ ⊕ α) ε where
  body s bs := (l.body s bs).pause (stop s)
  weight    := l.weight
  rank      := l.rank
  progress {s bs s' r} h := by
    cases hb : l.body s bs <;> rw [hb, Turn.pause] at h <;> try cases h
    split at h <;> cases h
    exact l.progress hb

variable {l stop} {s s' : σ} {bs r : List β}

end Loop

end Incremental
