import ChxSql.Incremental.Loop

namespace Incremental

variable {β σ α ε : Type*}

-- A machine that turns in a loop until it stops, but at most `n` times. Nothing comes of it (`none`) if it
-- is still turning then, or if nothing comes of one of the turns.
def iterate (body : σ → List β → Option (Turn β σ α ε)) : Nat → σ → List β → Option (Step β σ α ε)
  | 0,     _, _  => none
  | n + 1, s, bs =>
    match body s bs with
    | none              => none
    | some (.goto s' r) => iterate body n s' r
    | some (.more s' r) => some (.more s' r)
    | some (.done a r)  => some (.done a r)
    | some (.fail e r)  => some (.fail e r)

-- A loop whose ranks are all worth less than a unit of input never makes up input.
theorem Loop.length_of_goto {l : Loop β σ α ε} (hr : ∀ s, l.rank s < l.weight) {s s' : σ} {bs r : List β}
    (h : l.body s bs = .goto s' r) : r.length ≤ bs.length := by
  have hp := l.progress h
  have hs := hr s
  refine Nat.le_of_lt_succ (Nat.lt_of_mul_lt_mul_right (?_ : r.length * l.weight < _))
  rw [Nat.succ_mul]
  omega

-- The number of turns is enough for a loop if it exceeds what the chunk and the state are worth. Something
-- has to come of each turn, as long as `P` holds of what is left of the chunk. The induction is on the
-- turns.
theorem Loop.iterate_eq_run {l : Loop β σ α ε} {body : σ → List β → Option (Turn β σ α ε)}
    {P : List β → Prop} (hbody : ∀ {s bs}, P bs → body s bs = some (l.body s bs))
    (hgoto : ∀ {s bs s' r}, P bs → l.body s bs = .goto s' r → P r) {n : Nat} {s : σ} {bs : List β}
    (hp : P bs) (hn : bs.length * l.weight + l.rank s < n) : iterate body n s bs = some (l.run s bs) := by
  induction n generalizing s bs
  case zero => cases hn
  case succ n ih =>
    rw [iterate, hbody hp]
    cases hb : l.body s bs
    case goto s' r =>
      have hl := l.progress hb
      rw [run_goto hb]
      exact ih (hgoto hp hb) (by omega)
    case more => rw [run_more hb]
    case done => rw [run_done hb]
    case fail => rw [run_fail hb]

end Incremental
