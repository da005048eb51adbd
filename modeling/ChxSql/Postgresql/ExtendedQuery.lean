import ChxSql.Postgresql.ServerMessage

namespace ChxSql.Postgresql.ExtendedQuery

open Incremental

-- The messages that answer Bind, Describe, Execute and Sync, as far as their order is concerned.
-- Notices may come at any time and are not among them.
inductive Kind where
  | bindComplete
  | rowDescription
  | dataRow
  | commandComplete
  | noData
  | emptyQueryResponse
  | errorResponse
  | readyForQuery
  deriving DecidableEq, Repr

-- What a statement is answered with when no error occurs, up to the ReadyForQuery.
def Completed (w : List Kind) : Prop :=
  (∃ k, w = .bindComplete :: .rowDescription :: (.replicate k .dataRow ++ [.commandComplete])) ∨
  w = [.bindComplete, .noData, .emptyQueryResponse]

-- A prefix of such an answer, cut off by one or more errors.
def Aborted (w : List Kind) : Prop :=
  ∃ u v k, Completed u ∧ v <+: u ∧ w = v ++ .replicate (k + 1) .errorResponse

-- The answers that `execute` is meant to accept.
def InLanguage (w : List Kind) : Prop :=
  ∃ u, (Completed u ∨ Aborted u) ∧ w = u ++ [.readyForQuery]

-- The states of an automaton for the language.
inductive Progress where
  | start
  | bound
  | rows
  | empty
  | completed
  | aborted
  | ready
  deriving DecidableEq, Repr

namespace Progress

def next : Progress → Kind → Option Progress
  | ready,     _                   => none
  | _,         .errorResponse      => some aborted
  | start,     .bindComplete       => some bound
  | bound,     .rowDescription     => some rows
  | bound,     .noData             => some empty
  | rows,      .dataRow            => some rows
  | rows,      .commandComplete    => some completed
  | empty,     .emptyQueryResponse => some completed
  | completed, .readyForQuery      => some ready
  | aborted,   .readyForQuery      => some ready
  | _,         _                   => none

-- Where the automaton gets to by reading a word.
def run (p : Progress) (w : List Kind) : Option Progress :=
  w.foldlM next p

theorem run_append {p : Progress} {w w' : List Kind} : p.run (w ++ w') = (p.run w).bind (·.run w') :=
  List.foldlM_append ..

theorem run_concat {p : Progress} {w : List Kind} {k : Kind} :
    p.run (w ++ [k]) = (p.run w).bind (·.next k) := by
  rw [run_append]
  cases p.run w
  case none   => rfl
  case some q => cases h : q.next k <;> simp [run, h]

-- The words that lead to a state.
def Word : Progress → List Kind → Prop
  | start,     w => w = []
  | bound,     w => w = [.bindComplete]
  | rows,      w => ∃ k, w = .bindComplete :: .rowDescription :: .replicate k .dataRow
  | empty,     w => w = [.bindComplete, .noData]
  | completed, w => Completed w
  | aborted,   w => Aborted w
  | ready,     w => InLanguage w

-- Before anything else has happened an answer may be cut off.
theorem aborted_of_prefix {u v : List Kind} (hu : Completed u) (hv : v <+: u) :
    Aborted (v ++ [.errorResponse]) :=
  ⟨u, v, 0, hu, hv, rfl⟩

theorem prefix_rows (k : Nat) : Kind.bindComplete :: .rowDescription :: .replicate k .dataRow <+:
    .bindComplete :: .rowDescription :: (.replicate k .dataRow ++ [.commandComplete]) :=
  ⟨[.commandComplete], by simp⟩

theorem Word.next {p q : Progress} {w : List Kind} {k : Kind} (hw : p.Word w)
    (h : p.next k = some q) : q.Word (w ++ [k]) := by
  have he : Completed [.bindComplete, .noData, .emptyQueryResponse] := .inr rfl
  cases p <;> cases k <;> cases h
  case start.bindComplete.refl       => cases hw; rfl
  case bound.rowDescription.refl     => cases hw; exact ⟨0, rfl⟩
  case bound.noData.refl             => cases hw; rfl
  case rows.dataRow.refl             =>
    have ⟨k, hk⟩ := hw
    exact ⟨k + 1, by simp [hk, List.replicate_succ']⟩
  case rows.commandComplete.refl     =>
    have ⟨k, hk⟩ := hw
    exact .inl ⟨k, by simp [hk]⟩
  case empty.emptyQueryResponse.refl => cases hw; exact he
  case completed.readyForQuery.refl  => exact ⟨w, .inl hw, rfl⟩
  case aborted.readyForQuery.refl    => exact ⟨w, .inr hw, rfl⟩
  case start.errorResponse.refl      => cases hw; exact aborted_of_prefix he ⟨_, rfl⟩
  case bound.errorResponse.refl      => cases hw; exact aborted_of_prefix he ⟨_, rfl⟩
  case empty.errorResponse.refl      => cases hw; exact aborted_of_prefix he ⟨_, rfl⟩
  case rows.errorResponse.refl       =>
    have ⟨k, hk⟩ := hw
    exact hk ▸ aborted_of_prefix (.inl ⟨k, rfl⟩) (prefix_rows k)
  case completed.errorResponse.refl  => exact aborted_of_prefix hw (List.prefix_refl w)
  case aborted.errorResponse.refl    =>
    have ⟨u, v, k, hu, hv, hk⟩ := hw
    exact ⟨u, v, k + 1, hu, hv, by simp [hk, List.replicate_succ']⟩

-- The induction is on the word from its end.
theorem word_of_run {q : Progress} {w : List Kind} (h : start.run w = some q) : q.Word w := by
  induction w using List.reverseRecOn generalizing q
  case nil => cases h; rfl
  case append_singleton w k ih =>
    rw [run_concat] at h
    have ⟨p, hp, hn⟩ := Option.bind_eq_some_iff.mp h
    exact (ih hp).next hn

theorem run_replicate_dataRow (k : Nat) : rows.run (.replicate k .dataRow) = some rows := by
  induction k
  case zero => rfl
  case succ k ih => simpa [run, List.replicate_succ, next] using ih

theorem run_rows (k : Nat) :
    start.run (.bindComplete :: .rowDescription :: .replicate k .dataRow) = some rows :=
  run_replicate_dataRow k

theorem run_completed {w : List Kind} (h : Completed w) : start.run w = some completed := by
  cases h
  case inr h => cases h; rfl
  case inl h =>
    have ⟨k, hk⟩ := h
    have hr := run_concat (p := start) (k := .commandComplete)
      (w := .bindComplete :: .rowDescription :: .replicate k .dataRow)
    rw [run_rows] at hr
    rw [hk]
    exact hr

-- Only the last message of an answer leads to the state `ready`.
theorem run_of_prefix {u v : List Kind} (hu : Completed u) (hv : v <+: u) :
    ∃ q ≠ ready, start.run v = some q := by
  have ⟨r, hr⟩ := hv
  have h := run_completed hu
  rw [← hr, run_append] at h
  have ⟨q, hq, hn⟩ := Option.bind_eq_some_iff.mp h
  refine ⟨q, ?_, hq⟩
  rintro rfl
  cases r
  case nil  => cases hn
  case cons => simp [run, next] at hn

theorem run_replicate_errorResponse {p : Progress} (h : p ≠ ready) (k : Nat) :
    p.run (.replicate (k + 1) .errorResponse) = some aborted := by
  have hn : ∀ p : Progress, p ≠ ready → p.next .errorResponse = some aborted := by
    intro p _
    cases p <;> trivial
  induction k generalizing p
  case zero      => simp [run, hn p h]
  case succ k ih => simpa [run, List.replicate_succ, hn p h] using ih (p := aborted) nofun

theorem run_aborted {w : List Kind} (h : Aborted w) : start.run w = some aborted := by
  have ⟨u, v, k, hu, hv, hk⟩ := h
  have ⟨q, hn, hq⟩ := run_of_prefix hu hv
  rw [hk, run_append, hq]
  exact run_replicate_errorResponse hn k

-- The automaton accepts the language.
theorem run_eq_ready {w : List Kind} : start.run w = some ready ↔ InLanguage w where
  mp  := word_of_run
  mpr := by
    intro ⟨u, hu, hw⟩
    rw [hw, run_concat]
    cases hu
    case inl h => rw [run_completed h]; rfl
    case inr h => rw [run_aborted h]; rfl

end Progress

-- A ReadyForQuery is the message that ends an answer.
theorem Progress.mem_readyForQuery {q : Progress} {w : List Kind} (h : start.run w = some q) :
    .readyForQuery ∈ w ↔ q = .ready := by
  induction w using List.reverseRecOn generalizing q
  case nil => cases h; simp
  case append_singleton w k ih =>
    rw [run_concat] at h
    have ⟨p, hp, hn⟩ := Option.bind_eq_some_iff.mp h
    rw [List.mem_append, ih hp, List.mem_singleton]
    cases p <;> cases k <;> cases hn <;> decide

-- What has been said may still become an answer of the language.
def Viable (w : List Kind) : Prop :=
  ∃ v, InLanguage (w ++ v)

theorem viable_iff {w : List Kind} : Viable w ↔ (Progress.start.run w).isSome := by
  simp only [Viable, ← Progress.run_eq_ready, Progress.run_append]
  cases h : Progress.start.run w
  case none => simp
  case some p =>
    simp only [Option.bind_some, Option.isSome_some, iff_true]
    by_cases hp : p = .ready
    case pos => exact ⟨[], by simp [hp, Progress.run]⟩
    case neg =>
      refine ⟨[.errorResponse, .readyForQuery], ?_⟩
      cases p <;> trivial

-- An answer that has not come to its end yet.
def Unfinished (w : List Kind) : Prop :=
  .readyForQuery ∉ w ∧ Viable w

namespace Unfinished

variable {w v : List Kind} {p : Progress}

theorem iff_run : Unfinished w ↔ ∃ p ≠ .ready, Progress.start.run w = some p := by
  rw [Unfinished, viable_iff, Option.isSome_iff_exists]
  constructor
  case mp =>
    intro ⟨hz, p, hp⟩
    exact ⟨p, mt (Progress.mem_readyForQuery hp).mpr hz, hp⟩
  case mpr =>
    intro ⟨p, hn, hp⟩
    exact ⟨mt (Progress.mem_readyForQuery hp).mp hn, p, hp⟩

theorem of_append (h : Unfinished (w ++ v)) : Unfinished w := by
  have ⟨hz, u, hu⟩ := h
  exact ⟨fun h => hz (List.mem_append_left _ h), v ++ u, by simpa using hu⟩

theorem not_of_language (h : InLanguage w) : ¬Unfinished w := by
  have ⟨u, _, hw⟩ := h
  exact fun hu => hu.left (by simp [hw])

end Unfinished

-- A list leaves a property that is closed under prefixes at one place only.
theorem eq_of_leaves {α : Type} {P : List α → Prop} (hP : ∀ xs ys, P (xs ++ ys) → P xs)
    {xs xs' ys ys' : List α} {z z' : α} (he : xs ++ z :: ys = xs' ++ z' :: ys') (h : P xs)
    (h' : P xs') (hn : ¬P (xs ++ [z])) (hn' : ¬P (xs' ++ [z'])) : xs = xs' ∧ z = z' ∧ ys = ys' := by
  have hx : ∀ {xs zs : List α} {z y ys ys'}, z :: ys = zs ++ y :: ys' → P (xs ++ zs) →
      ¬P (xs ++ [z]) → zs = [] := by
    intro xs zs z y ys ys' he h hn
    cases zs
    case nil => rfl
    case cons x zs =>
      rw [List.cons_append, List.cons.injEq] at he
      rw [← he.left, List.append_cons] at h
      exact absurd (hP _ _ h) hn
  rcases List.append_eq_append_iff.mp he with ⟨zs, hxs, hz⟩ | ⟨zs, hxs, hz⟩
  · have hzs := hx hz (hxs ▸ h') hn
    rw [hzs] at hxs hz
    cases hz
    exact ⟨by rw [hxs, List.append_nil], rfl, rfl⟩
  · have hzs := hx hz (hxs ▸ h) hn'
    rw [hzs] at hxs hz
    cases hz
    exact ⟨by rw [hxs, List.append_nil], rfl, rfl⟩

end ChxSql.Postgresql.ExtendedQuery
