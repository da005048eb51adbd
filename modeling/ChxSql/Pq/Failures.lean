import ChxSql.Pq.LastResult

namespace ChxSql.Pq

open Incremental Ownership

variable {ρ : Type} {rs : Results ρ} {taken : List ρ} {x x' : Execution ρ} {es : List Event} {e : Event}

-- The operation has completed with the error of a poll, and nothing has been delivered.
structure Failed (es : List Event) (x : Execution ρ) : Prop where
  completions : ∃ ec flags returned, ec ≠ 0 ∧ .poll ec flags ∈ es ∧ x.completions = [⟨ec, none, returned⟩]
  handles     : x.handles = []
  polls       : x.polls = 0

-- How far the operation has got, if polls may fail: unless one has, it is where it would be without any failure.
inductive Fate (rs : Results ρ) (es : List Event) (x : Execution ρ) : Prop
  | regular : Reaches rs [] x → Fate rs es x
  | failed {taken : List ρ} : Sound rs taken x → Failed es x → Fate rs es x

theorem Failed.step (h : Failed es x) (hs : x.step e = some x') :
    x'.heap = x.reset.heap ∧ x'.libpq = x.libpq ∧ x'.result = none ∧ Failed (es ++ [e]) x' := by
  obtain ⟨ec, flags, returned, he, hm, hc⟩ := h.completions
  cases e <;> simp only [Execution.step] at hs <;> split at hs <;> cases hs
  case poll.isFalse hp    => exact absurd h.polls hp
  case copy.isTrue i hi   => simp [h.handles] at hi
  case drop.isTrue i hi   => simp [h.handles] at hi
  case destroy.isFalse hd =>
    exact ⟨rfl, rfl, rfl, ⟨ec, flags, returned, he, List.mem_append_left _ hm, hc⟩, h.handles, rfl⟩

-- A poll that fails while the operation waits for it.
theorem Running.failed (h : Running taken x) (hs : Sound rs taken x) {ec flags : Nat} (he : ec ≠ 0)
    (hp : x.polls = 0) : Fate rs (es ++ [.poll ec flags]) (x.onPoll ec flags) := by
  rw [Execution.onPoll, if_neg he]
  refine .failed (hs.complete ec (by simp)) ⟨⟨ec, flags, x.libpq.returned, he, by simp, ?_⟩, ?_, hp⟩
  case refine_1 => simp [Execution.complete, h.completions]
  case refine_2 => simp [Execution.complete, h.handles]

theorem Fate.step (h : Fate rs es x) (hs : x.step e = some x') : Fate rs (es ++ [e]) x' := by
  cases h
  case failed taken hx hf =>
    obtain ⟨hh, hl, hr, hf'⟩ := hf.step hs
    have hy := hx.reset
    refine .failed ⟨hl ▸ hy.yielded, ?_, hh ▸ hy.ledger⟩ hf'
    have ho : x'.owners = x.reset.owners := by
      rw [Execution.owners, Execution.owners, hr, hf'.handles, Execution.reset, hf.handles]
    rw [ho, hh]
    exact hy.owned
  case regular hr =>
    -- A stage that does not know of any poll that has failed is one without a failure.
    by_cases he : ∃ ec flags, ec ≠ 0 ∧ e = .poll ec flags
    case neg =>
      obtain ⟨taken, hx, hst⟩ := reaches_step hr hs
      refine .regular ⟨taken, hx, ?_⟩
      cases hst
      case polling h₁ h₂ h₃       => exact .polling h₁ h₂ h₃
      case abandoned h₁ h₂ h₃ h₄  => exact .abandoned h₁ h₂ h₃ h₄
      case completed h₁ h₂ h₃ h₄  => exact .completed h₁ h₂ h₃ h₄
      case failed ec flags hn hm _ =>
        exact absurd ⟨ec, flags, hn, (List.mem_singleton.mp hm).symm⟩ he
    case pos =>
      obtain ⟨ec, flags, hn, rfl⟩ := he
      obtain ⟨taken, hx, hst⟩ := hr
      simp only [Execution.step] at hs
      split at hs <;> cases hs
      case isFalse hp =>
        cases hst
        case abandoned hz | completed hz _ _ => exact absurd hz hp
        case failed hm _                     => simp at hm
        case polling h₁ h₂ _ =>
          have hr : Running taken { x with polls := x.polls - 1 } := ⟨h₁.completions, h₁.handles, h₁.destroyed, h₁.result⟩
          exact hr.failed (hx.polls _) hn (by simp [h₂])

theorem fate_run {busy : Nat → Bool} (h : (system rs busy).run es = some x) : Fate rs es x := by
  refine System.run_induction (P := Fate rs) ?_ (fun _ h hs => h.step hs) h
  exact .regular ⟨[], ⟨rfl, .empty, .nil⟩, .polling ⟨rfl, rfl, rfl, rfl⟩ rfl rfl⟩

-- The operation completes at most once: with the last result after `PQgetResult` has returned all of them and null,
-- or with the error of a poll and no result. Of the results that `PQgetResult` has returned each one has an owner or
-- has been released, and that once.
structure Accounts (rs : Results ρ) (es : List Event) (x : Execution ρ) : Prop where
  polls     : x.destroyed = false → x.polls + x.completions.length = 1
  once      : x.completions = [] ∨ x.completions = [rs.completion] ∨
    ∃ ec flags returned, ec ≠ 0 ∧ .poll ec flags ∈ es ∧ x.completions = [⟨ec, none, returned⟩]
  delivered : ∀ i ∈ x.handles, x.heap.get i = rs.list.getLast?
  balance   : ∃ taken, rs.list = taken ++ x.libpq.results ∧ (x.heap.deleted ++ x.heap.held).Perm taken
  released  : x.heap.deleted.Nodup
  inTime    : ∀ i ∈ x.owners, ∀ r, x.heap.get i = some r → r ∉ x.heap.deleted
  all       : x.owners = [] → ∃ taken, rs.list = taken ++ x.libpq.results ∧ x.heap.deleted.Perm taken

theorem Sound.accounts (hs : Sound rs taken x) (hp : x.destroyed = false → x.polls + x.completions.length = 1)
    (ho : x.completions = [] ∨ x.completions = [rs.completion] ∨
      ∃ ec flags returned, ec ≠ 0 ∧ .poll ec flags ∈ es ∧ x.completions = [⟨ec, none, returned⟩])
    (hd : ∀ i ∈ x.handles, x.heap.get i = rs.list.getLast?) : Accounts rs es x where
  polls      := hp
  once       := ho
  delivered  := hd
  balance    := ⟨taken, hs.yielded, hs.ledger⟩
  released   := (List.nodup_append.mp hs.nodup).left
  inTime i hi r hg := hs.owned.notMem_deleted hs.nodup hi hg
  all hn     := by
    have hl : x.heap.ledger = x.heap.deleted := (hn ▸ hs.owned).ledger_of_nil
    exact ⟨taken, hs.yielded, hl ▸ hs.ledger⟩

-- For each list of results, each pattern of busy answers and each sequence of events, whether polls fail or not.
theorem run_accounts (rs : Results ρ) (busy : Nat → Bool) (h : (system rs busy).run es = some x) :
    Accounts rs es x := by
  cases fate_run h
  case failed hs hf =>
    obtain ⟨ec, flags, returned, he, hm, hc⟩ := hf.completions
    refine hs.accounts (fun _ => by simp [hf.polls, hc]) (.inr (.inr ⟨ec, flags, returned, he, hm, hc⟩)) ?_
    simp [hf.handles]
  case regular hr =>
    obtain ⟨taken, hs, hst⟩ := hr
    cases hst
    case polling hr hp _         => exact hs.accounts (fun _ => by simp [hp, hr.completions]) (.inl hr.completions) (by simp [hr.handles])
    case abandoned hc hh hd _    => exact hs.accounts (by simp [hd]) (.inl hc) (by simp [hh])
    case completed hc hp _ hh    => exact hs.accounts (fun _ => by simp [hp, hc]) (.inr (.inl hc)) hh
    case failed hm _             => simp at hm

-- Of three results two have been taken when a poll fails.
theorem run_accounts_three : ∃ x, (system threeResults (· == 2)).run [.poll 0 5, .poll 7 1, .destroy] = some x ∧
    x.completions = [⟨7, none, [some 10, some 20]⟩] ∧ Accounts threeResults [.poll 0 5, .poll 7 1, .destroy] x := by
  have hc : ((system threeResults (· == 2)).run [.poll 0 5, .poll 7 1, .destroy]).map (·.completions) =
      some [⟨7, none, [some 10, some 20]⟩] := by decide +kernel
  obtain ⟨x, hx, hr⟩ := Option.map_eq_some_iff.mp hc
  exact ⟨x, hx, hr, run_accounts threeResults (· == 2) hx⟩

end ChxSql.Pq
