import Mathlib

namespace Incremental

-- What one call of a resumable machine leaves behind. The machine either stopped because it wants
-- `more` input, and keeps its place in a state, or it is `done` with a result, or it gives up with
-- a failure. In each case `rest` is the part of the chunk that the call did not read.
inductive Step (β σ α ε : Type*) where
  | more (s : σ) (rest : List β)
  | done (a : α) (rest : List β)
  | fail (e : ε) (rest : List β)
  deriving DecidableEq, Repr

variable {β σ σ' α α' ε : Type*}

namespace Step

-- The unread part of the chunk.
def rest : Step β σ α ε → List β
  | more _ r | done _ r | fail _ r => r

def isMore : Step β σ α ε → Bool
  | more .. => true
  | _       => false

-- Using a machine as a part of a bigger one: `wrap` puts its state into the bigger machine's state,
-- and `k` goes on from its result.
def andThen (st : Step β σ α ε) (wrap : σ → σ') (k : α → List β → Step β σ' α' ε) :
    Step β σ' α' ε :=
  match st with
  | more s r => more (wrap s) r
  | done a r => k a r
  | fail e r => fail e r

-- What another machine leaves behind that does the same, but keeps its place in its own way.
def mapState (f : σ → σ') : Step β σ α ε → Step β σ' α ε
  | more s r => more (f s) r
  | done a r => done a r
  | fail e r => fail e r

-- What holds of the state, of the result or of the failure that a call leaves behind.
def Satisfies (I : σ → Prop) (Q : α → Prop) (E : ε → Prop) : Step β σ α ε → Prop
  | more s _ => I s
  | done a _ => Q a
  | fail e _ => E e

-- What two machines leave behind that do the same: they stop in the same way, with the same input left
-- unread, and their states, results and failures are related.
inductive Related {σ' α' ε' : Type*} (R : σ → σ' → Prop) (K : α → α' → Prop) (E : ε → ε' → Prop) :
    Step β σ α ε → Step β σ' α' ε' → Prop
  | more {s s' r} : R s s' → Related R K E (more s r) (more s' r)
  | done {a a' r} : K a a' → Related R K E (done a r) (done a' r)
  | fail {e e' r} : E e e' → Related R K E (fail e r) (fail e' r)

theorem Related.mono {σ' α' ε' : Type*} {R R' : σ → σ' → Prop} {K : α → α' → Prop} {E : ε → ε' → Prop}
    {st : Step β σ α ε} {st' : Step β σ' α' ε'} (h : st.Related R K E st') (hr : ∀ s t, R s t → R' s t) :
    st.Related R' K E st' := by
  cases h
  case more h => exact .more (hr _ _ h)
  case done h => exact .done h
  case fail h => exact .fail h

-- `Extends I g ys st st'` relates a call on a chunk (`st`) to the call on the same chunk with `ys`
-- appended (`st'`). If the shorter call wanted more, then it used up its chunk, and the longer call
-- is what `g` makes of `ys` from the state that was left. If the shorter call was done, then the
-- longer one is done alike and leaves `ys` unread as well. Of a failure only the kind is kept: how
-- far a machine reads before it gives up may depend on the chunk.
inductive Extends (I : σ → Prop) (g : σ → List β → Step β σ α ε) (ys : List β) :
    Step β σ α ε → Step β σ α ε → Prop
  | more {s}    : I s → Extends I g ys (more s []) (g s ys)
  | done {a r}  : Extends I g ys (done a r) (done a (r ++ ys))
  | fail {e r r'} : Extends I g ys (fail e r) (fail e r')

namespace Extends

variable {I : σ → Prop} {g : σ → List β → Step β σ α ε} {ys : List β} {st st' : Step β σ α ε}

theorem of_eq_more {s} (h : I s) (h' : st' = g s ys) : Extends I g ys (.more s []) st' :=
  h' ▸ .more h

theorem more_rest {s r} (h : Extends I g ys (.more s r) st') : r = [] := by
  cases h; rfl

theorem more_eq {s r} (h : Extends I g ys (.more s r) st') : st' = g s ys := by
  cases h; rfl

theorem more_inv {s r} (h : Extends I g ys (.more s r) st') : I s := by
  cases h; assumption

theorem done_eq {a r} (h : Extends I g ys (.done a r) st') : st' = .done a (r ++ ys) := by
  cases h; rfl

theorem fail_eq {e r} (h : Extends I g ys (.fail e r) st') : ∃ r', st' = .fail e r' := by
  cases h; exact ⟨_, rfl⟩

theorem andThen {J : σ' → Prop} {g' : σ' → List β → Step β σ' α' ε} {wrap : σ → σ'}
    {k : α → List β → Step β σ' α' ε} (h : st.Extends I g ys st') (hw : ∀ s, I s → J (wrap s))
    (hg : ∀ s, I s → g' (wrap s) ys = (g s ys).andThen wrap k)
    (hk : ∀ a r, (k a r).Extends J g' ys (k a (r ++ ys))) :
    (st.andThen wrap k).Extends J g' ys (st'.andThen wrap k) := by
  cases h
  case more s hi => exact .of_eq_more (hw s hi) (hg s hi).symm
  case done a r  => exact hk a r
  case fail      => exact .fail

end Extends

theorem rest_andThen_suffix {st : Step β σ α ε} {wrap : σ → σ'}
    {k : α → List β → Step β σ' α' ε} (h : st.rest <:+ bs) (hk : ∀ a r, (k a r).rest <:+ r) :
    (st.andThen wrap k).rest <:+ bs := by
  cases st
  case done a r => exact (hk a r).trans h
  all_goals exact h

end Step

-- A machine whose calls on non-final chunks are `f` and whose calls on final chunks are `g` reads
-- the same input alike, no matter whether it comes in one chunk or in two. Most machines do not
-- tell final chunks apart, then `f` and `g` are the same. The invariant `I` holds of the states
-- that the machine can be in.
structure Resumes (I : σ → Prop) (f g : σ → List β → Step β σ α ε) : Prop where
  extend : ∀ {s}, I s → ∀ xs ys, (f s xs).Extends I g ys (g s (xs ++ ys))

abbrev Resumable (f : σ → List β → Step β σ α ε) : Prop :=
  Resumes (fun _ => True) f f

namespace Resumes

variable {I : σ → Prop} {f g : σ → List β → Step β σ α ε} {s s' : σ} {xs r : List β}

theorem exhausts (h : Resumes I f g) (hi : I s) (hm : f s xs = .more s' r) : r = [] :=
  (hm ▸ h.extend hi xs []).more_rest

theorem keeps (h : Resumes I f g) (hi : I s) (hm : f s xs = .more s' r) : I s' :=
  (hm ▸ h.extend hi xs []).more_inv

theorem resumes (h : Resumes I f g) (hi : I s) (hm : f s xs = .more s' r)
    (ys : List β) : g s (xs ++ ys) = g s' ys :=
  (hm ▸ h.extend hi xs ys).more_eq

theorem stays {a} (h : Resumes I f g) (hi : I s) (hd : f s xs = .done a r)
    (ys : List β) : g s (xs ++ ys) = .done a (r ++ ys) :=
  (hd ▸ h.extend hi xs ys).done_eq

theorem fails {e} (h : Resumes I f g) (hi : I s) (hf : f s xs = .fail e r) (ys : List β) :
    ∃ r', g s (xs ++ ys) = .fail e r' :=
  (hf ▸ h.extend hi xs ys).fail_eq

end Resumes

theorem Resumable.of_extends {f : σ → List β → Step β σ α ε}
    (h : ∀ s xs ys, (f s xs).Extends (fun _ => True) f ys (f s (xs ++ ys))) : Resumable f :=
  ⟨fun _ => h _⟩

-- A machine never makes up input.
def Shrinks (f : σ → List β → Step β σ α ε) : Prop :=
  ∀ s bs, (f s bs).rest <:+ bs

theorem Shrinks.length_le {f : σ → List β → Step β σ α ε} (h : Shrinks f) {s bs a r}
    (hd : f s bs = .done a r) : r.length ≤ bs.length := by
  have := (h s bs).length_le
  simpa [hd, Step.rest] using this

end Incremental
