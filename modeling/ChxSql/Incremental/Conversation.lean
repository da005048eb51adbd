import ChxSql.Incremental.System

namespace Incremental

variable {σ τ β : Type}

-- A party to a conversation. It says something whenever it has heard something, or when what it has said
-- before is written. As long as it waits for the latter it does not listen.
structure Party (σ β : Type) where
  hear  : σ → List β → σ × List β
  wrote : σ → Option (σ × List β)

-- What a party hears and what it says then, time after time.
abbrev Script (β : Type) := List (List β × List β)

-- The number of items that the party hears.
def Script.weight (script : Script β) : Nat :=
  (script.map (·.1.length)).sum

-- What the party hears first.
def Script.first : Script β → List β
  | []           => []
  | (xs, _) :: _ => xs

-- The script of the party that it talks to.
def Script.other : Script β → Script β
  | []                => []
  | (_, zs) :: script => (zs, first script) :: other script

-- A party that keeps to a script, however what it hears is cut into pieces: it says nothing before it has
-- heard the last piece. `R` relates its states to what is left of the script.
structure Party.Follows (p : Party σ β) (R : σ → Script β → Prop) : Prop where
  part  : ∀ {s xs ys zs script}, R s ((xs ++ ys, zs) :: script) → p.wrote s = none → xs ≠ [] → ys ≠ [] →
    ∃ s', p.hear s xs = (s', []) ∧ R s' ((ys, zs) :: script)
  whole : ∀ {s xs zs script}, R s ((xs, zs) :: script) → p.wrote s = none → xs ≠ [] →
    ∃ s', p.hear s xs = (s', zs) ∧ R s' script
  wrote : ∀ {s s' said script}, R s script → p.wrote s = some (s', said) →
    said = [] ∧ R s' script ∧ p.wrote s' = none

-- Hearing the first items of what is on its way to a party.
def Party.listen (p : Party σ β) (s : σ) (n : Nat) (bs : List β) : Option (σ × List β) :=
  if 0 < n ∧ n ≤ bs.length ∧ (p.wrote s).isNone then some (p.hear s (bs.take n)) else none

theorem Party.listen_eq_some {p : Party σ β} {s : σ} {n : Nat} {bs : List β} {out} (h : p.listen s n bs = some out) :
    0 < n ∧ n ≤ bs.length ∧ p.wrote s = none ∧ p.hear s (bs.take n) = out := by
  have ⟨⟨hn, hl, hw⟩, ho⟩ := Option.ite_none_right_eq_some.mp h
  exact ⟨hn, hl, Option.isNone_iff_eq_none.mp hw, Option.some.inj ho⟩

namespace Conversation

-- What has been said and not been heard yet is on its way.
structure State (σ τ β : Type) where
  left    : σ
  right   : τ
  toLeft  : List β
  toRight : List β

-- A party hears the first items that are on their way to it, or its write completes.
inductive Event where
  | leftHears (n : Nat)
  | rightHears (n : Nat)
  | leftWrote
  | rightWrote
  deriving DecidableEq, Repr

variable (p : Party σ β) (q : Party τ β)

def step (st : State σ τ β) : Event → Option (State σ τ β)
  | .leftHears n  => (p.listen st.left n st.toLeft).map fun out =>
    { st with left := out.1, toLeft := st.toLeft.drop n, toRight := st.toRight ++ out.2 }
  | .rightHears n => (q.listen st.right n st.toRight).map fun out =>
    { st with right := out.1, toRight := st.toRight.drop n, toLeft := st.toLeft ++ out.2 }
  | .leftWrote    => (p.wrote st.left).map fun out =>
    { st with left := out.1, toRight := st.toRight ++ out.2 }
  | .rightWrote   => (q.wrote st.right).map fun out =>
    { st with right := out.1, toLeft := st.toLeft ++ out.2 }

def system (start : State σ τ β) : System (State σ τ β) Event where
  start := start
  step  := step p q

-- Nothing can happen any more.
def Quiet (st : State σ τ β) : Prop :=
  ∀ e, step p q st e = none

-- Something is on its way to a party, and what is left of the scripts of that party and of the other one
-- fits together: each of them waits for what the other one says, and the scripts end together.
inductive Meshes : List β → Script β → Script β → Prop
  | ended : Meshes [] [] []
  | next {xs zs mine other} : xs ≠ [] → Meshes zs other mine → Meshes xs ((xs, zs) :: mine) other

-- How many events there may be yet. With each item that it hears a party may begin to write.
def budget (st : State σ τ β) (mine other : Script β) : Nat :=
  2 * (mine.weight + other.weight) + ((p.wrote st.left).isSome.toNat + (q.wrote st.right).isSome.toNat)

variable (R : σ → Script β → Prop) (S : τ → Script β → Prop)

-- One of the parties is to hear what is on its way, and nothing is on its way to the other one.
inductive Inv (n : Nat) (st : State σ τ β) : Prop
  | left {mine other} : Meshes st.toLeft mine other → st.toRight = [] → R st.left mine → S st.right other →
    budget p q st mine other ≤ n → Inv n st
  | right {mine other} : Meshes st.toRight mine other → st.toLeft = [] → S st.right mine → R st.left other →
    budget p q st mine other ≤ n → Inv n st

namespace State

def swap (st : State σ τ β) : State τ σ β where
  left    := st.right
  right   := st.left
  toLeft  := st.toRight
  toRight := st.toLeft

end State

def Event.swap : Event → Event
  | leftHears n  => rightHears n
  | rightHears n => leftHears n
  | leftWrote    => rightWrote
  | rightWrote   => leftWrote

variable {p : Party σ β} {q : Party τ β} {R : σ → Script β → Prop} {S : τ → Script β → Prop}
variable {st st' : State σ τ β} {mine other : Script β} {xs : List β} {n : Nat}

-- The parties may change their places.
theorem step_swap (e : Event) : step q p st.swap e.swap = (step p q st e).map .swap := by
  cases e <;> simp only [step, Event.swap, Option.map_map] <;> rfl

theorem budget_swap : budget q p st.swap mine other = budget p q st mine other := by
  simp only [budget, State.swap]
  omega

theorem Inv.swap (h : Inv p q R S n st) : Inv q p S R n st.swap := by
  cases h
  case left hm ht hr hs hb  => exact .right hm ht hr hs (budget_swap.trans_le hb)
  case right hm ht hs hr hb => exact .left hm ht hs hr (budget_swap.trans_le hb)

@[simp]
theorem weight_cons {ys : List β} : Script.weight ((xs, ys) :: mine) = xs.length + Script.weight mine := by
  simp [Script.weight]

-- Hearing a piece of what is on its way.
theorem Inv.leftHears (hp : p.Follows R) (h : Inv p q R S n st) {k : Nat}
    (hs : step p q st (.leftHears k) = some st') : ∃ m < n, Inv p q R S m st' := by
  obtain ⟨⟨s', said⟩, ho, rfl⟩ := Option.map_eq_some_iff.mp hs
  have ⟨hk, hl, hw, hh⟩ := Party.listen_eq_some ho
  obtain ⟨left, right, toLeft, toRight⟩ := st
  have hb' := Bool.toNat_le (p.wrote s').isSome
  cases h <;> dsimp only at *
  case right ht _ _ _ =>
    rw [ht, List.length_nil] at hl
    omega
  case left hm ht hr hsr hb =>
    cases hm
    case ended =>
      rw [List.length_nil] at hl
      omega
    case next zs mine other hx hm =>
      simp only [budget, weight_cons, hw, Option.isSome_none, Bool.toNat_false] at hb
      have htake : toLeft.take k ≠ [] := List.ne_nil_of_length_pos (by rw [List.length_take]; omega)
      have hsplit := List.take_append_drop k toLeft
      by_cases hd : toLeft.drop k = []
      case pos =>
        rw [hd, List.append_nil] at hsplit
        obtain ⟨t, ht', hr'⟩ := hp.whole hr hw hx
        rw [hsplit, ht'] at hh
        cases hh
        refine ⟨_, ?_, .right (by simpa [ht] using hm) hd hsr hr' le_rfl⟩
        simp only [budget]
        omega
      case neg =>
        rw [← hsplit] at hr
        obtain ⟨t, ht', hr'⟩ := hp.part hr hw htake hd
        rw [ht'] at hh
        cases hh
        refine ⟨_, ?_, .left (.next hd hm) (by simp [ht]) hr' hsr le_rfl⟩
        simp only [budget, weight_cons, List.length_drop]
        omega

theorem Inv.leftWrote (hp : p.Follows R) (h : Inv p q R S n st)
    (hs : step p q st .leftWrote = some st') : ∃ m < n, Inv p q R S m st' := by
  obtain ⟨⟨s', said⟩, hw, rfl⟩ := Option.map_eq_some_iff.mp hs
  cases h
  case left hm ht hr hsr hb =>
    obtain ⟨rfl, hr', hw'⟩ := hp.wrote hr hw
    refine ⟨_, ?_, .left hm (by simp [ht]) hr' hsr le_rfl⟩
    simp only [budget, hw, hw', Option.isSome_some, Option.isSome_none, Bool.toNat_true, Bool.toNat_false] at hb ⊢
    omega
  case right hm ht hsr hr hb =>
    obtain ⟨rfl, hr', hw'⟩ := hp.wrote hr hw
    refine ⟨_, ?_, .right (by simpa using hm) ht hsr hr' le_rfl⟩
    simp only [budget, hw, hw', Option.isSome_some, Option.isSome_none, Bool.toNat_true, Bool.toNat_false] at hb ⊢
    omega

section

variable (hp : p.Follows R) (hq : q.Follows S)
include hp hq

theorem Inv.step (h : Inv p q R S n st) {e : Event} (hs : step p q st e = some st') :
    ∃ m < n, Inv p q R S m st' := by
  have hs' : Conversation.step q p st.swap e.swap = some st'.swap := by rw [step_swap, hs]; rfl
  cases e
  case leftHears k => exact h.leftHears hp hs
  case leftWrote   => exact h.leftWrote hp hs
  case rightHears k =>
    have ⟨m, hm, h'⟩ := h.swap.leftHears hq hs'
    exact ⟨m, hm, h'.swap⟩
  case rightWrote =>
    have ⟨m, hm, h'⟩ := h.swap.leftWrote hq hs'
    exact ⟨m, hm, h'.swap⟩

-- After any events the parties are where their scripts say, and there have not been more events than
-- there may be.
theorem Inv.run {start : State σ τ β} (h : Inv p q R S n start) {es : List Event}
    (hr : (system p q start).run es = some st) : ∃ m, es.length + m ≤ n ∧ Inv p q R S m st := by
  refine System.run_induction (P := fun es st => ∃ m, es.length + m ≤ n ∧ Inv p q R S m st) ⟨n, by simp, h⟩ ?_ hr
  rintro es s e s' - ⟨m, hm, hi⟩ hs
  have ⟨m', hm', hi'⟩ := hi.step hp hq hs
  exact ⟨m', by rw [List.length_append, List.length_singleton]; omega, hi'⟩

end

-- If nothing can happen any more then all has been said and heard.
theorem left_of_quiet (hm : Meshes st.toLeft mine other) (h : Quiet p q st) :
    mine = [] ∧ other = [] ∧ st.toLeft = [] := by
  have hw : p.wrote st.left = none := Option.map_eq_none_iff.mp (h .leftWrote)
  have hl := h (.leftHears st.toLeft.length)
  simp only [Conversation.step, Party.listen, hw, le_refl, Option.isNone_none, and_true,
    Option.map_eq_none_iff, ite_eq_right_iff, reduceCtorEq, imp_false, not_lt, nonpos_iff_eq_zero] at hl
  have hn := List.eq_nil_of_length_eq_zero hl
  rw [hn] at hm
  cases hm
  case ended     => exact ⟨rfl, rfl, hn⟩
  case next hx _ => exact absurd rfl hx

theorem Quiet.swap (h : Quiet p q st) : Quiet q p st.swap := by
  intro e
  have he : Conversation.step q p st.swap e.swap.swap = _ := step_swap e.swap
  rw [h, Option.map_none] at he
  cases e <;> exact he

theorem Inv.over (h : Inv p q R S n st) (hq : Quiet p q st) : R st.left [] ∧ S st.right [] := by
  cases h
  case left hm ht hr hs _ =>
    obtain ⟨rfl, rfl, _⟩ := left_of_quiet hm hq
    exact ⟨hr, hs⟩
  case right hm ht hs hr _ =>
    obtain ⟨rfl, rfl, _⟩ := left_of_quiet hm hq.swap
    exact ⟨hr, hs⟩

end Conversation

end Incremental
