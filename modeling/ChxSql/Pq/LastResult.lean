import ChxSql.Pq.AsyncExec

namespace ChxSql.Pq

open Incremental Ownership

variable {ρ : Type} {rs : Results ρ} {taken : List ρ} {r : ρ}

-- The owners of results: the operation and the copies of the user.
def Execution.owners (x : Execution ρ) : List Nat :=
  x.result.toList ++ x.handles

-- Each result that has been yielded has been released or has an owner.
structure Sound (rs : Results ρ) (taken : List ρ) (x : Execution ρ) : Prop where
  yielded : rs.list = taken ++ x.libpq.results
  owned   : x.heap.OwnedBy x.owners
  ledger  : x.heap.ledger.Perm taken

-- The same in the loop, where nothing owns the result `r`.
structure InHand (rs : Results ρ) (owners : List Nat) (taken : List ρ) (r : ρ) (pq : Libpq ρ)
    (heap : Heap ρ) : Prop where
  yielded : rs.list = taken ++ r :: pq.results
  owned   : heap.OwnedBy owners
  ledger  : heap.ledger.Perm taken

-- The loop ends with the last result that has been yielded in hand. Either libpq is busy or there are
-- no more results.
inductive Drains (rs : Results ρ) (owners : List Nat) : Drained ρ → Prop
  | busy {taken r pq heap} : InHand rs owners taken r pq heap →
    pq.returned = (taken ++ [r]).map some → Drains rs owners ⟨pq, heap, some r, some r⟩
  | last {taken r pq heap} : InHand rs owners taken r pq heap → pq.results = [] →
    pq.returned = (taken ++ [r]).map some ++ [none] → Drains rs owners ⟨pq, heap, some r, none⟩

-- The induction is on the results that the loop takes.
theorem drains {owners : List Nat} {pq : Libpq ρ} {heap : Heap ρ} {r' t : Option ρ} (ht : r' = some r ∧ t = some r)
    (h : InHand rs owners taken r pq heap) (hr : pq.returned = (taken ++ [r]).map some) :
    Drains rs owners (drain pq heap r' t) := by
  induction pq, heap, r', t using drain.induct generalizing taken r <;> obtain ⟨rfl, rfl⟩ := ht
  case case1 hb => rw [drain_busy hb]; exact .busy ⟨h.yielded, h.owned, h.ledger⟩ hr
  case case2 hb pq' hg =>
    have ⟨h₁, h₂, h₃⟩ := Libpq.getResult_none hg
    rw [Libpq.isBusy_results] at h₁
    rw [Libpq.isBusy_returned, hr] at h₃
    rw [drain_none hb hg]
    exact .last ⟨by rw [h.yielded, h₁, h₂], h.owned, h.ledger⟩ h₂ h₃
  case case3 heap hb t' pq' hg ih =>
    have ⟨h₁, h₂⟩ := Libpq.getResult_some hg
    rw [Libpq.isBusy_results] at h₁
    rw [Libpq.isBusy_returned, hr] at h₂
    rw [drain_some hb hg]
    have hl : (heap.delete r).ledger.Perm (taken ++ [r]) :=
      Heap.ledger_delete.trans ((h.ledger.cons r).trans (List.perm_append_singleton r taken).symm)
    exact ih ⟨rfl, rfl⟩ ⟨by simp [h.yielded, h₁], h.owned.delete, hl⟩ (by simp [h₂])

namespace Sound

variable {x : Execution ρ}

theorem polls (h : Sound rs taken x) (polls : Nat) : Sound rs taken { x with polls } :=
  ⟨h.yielded, h.owned, h.ledger⟩

-- What is done to the connection does not matter, apart from taking results.
theorem connection (h : Sound rs taken x) {pq : Libpq ρ} (hr : pq.results = x.libpq.results) :
    Sound rs taken { x with libpq := pq } :=
  ⟨by rw [h.yielded, hr], h.owned, h.ledger⟩

theorem emplace (h : InHand rs x.owners taken r x.libpq x.heap) : Sound rs (taken ++ [r]) (x.emplace r) := by
  have hs : (x.heap.share r).OwnedBy (x.heap.fresh :: x.owners) := h.owned.share
  have hl : (x.heap.share r).ledger.Perm (taken ++ [r]) :=
    Heap.ledger_share.trans ((h.ledger.cons r).trans (List.perm_append_singleton r taken).symm)
  have hy : rs.list = taken ++ [r] ++ x.libpq.results := by simp [h.yielded]
  cases hr : x.result
  case none =>
    refine ⟨hy, ?_, ?_⟩ <;> simp only [Execution.emplace, hr, Option.elim_none]
    case refine_1 => simpa [Execution.owners, hr] using hs
    case refine_2 => exact hl
  case some i =>
    have hi : i ∈ x.heap.fresh :: x.owners := by simp [Execution.owners, hr]
    have hn : x.heap.fresh ≠ i := fun he => h.owned.fresh_notMem (by simp [he, Execution.owners, hr])
    refine ⟨hy, ?_, ?_⟩ <;> simp only [Execution.emplace, hr, Option.elim_some]
    case refine_1 => simpa [Execution.owners, hr, List.erase_cons, hn] using hs.drop hi
    case refine_2 => exact (hs.ledger_drop hi).trans hl

theorem reset (h : Sound rs taken x) : Sound rs taken x.reset := by
  cases hr : x.result
  case none =>
    refine ⟨h.yielded, ?_, ?_⟩ <;> simp only [Execution.reset, hr, Option.elim_none]
    case refine_1 => simpa [Execution.owners, hr] using h.owned
    case refine_2 => exact h.ledger
  case some i =>
    have hi : i ∈ x.owners := by simp [Execution.owners, hr]
    refine ⟨h.yielded, ?_, ?_⟩ <;> simp only [Execution.reset, hr, Option.elim_some]
    case refine_1 => simpa [Execution.owners, hr] using h.owned.drop hi
    case refine_2 => exact (h.owned.ledger_drop hi).trans h.ledger

theorem complete (h : Sound rs taken x) (ec : Nat) {result : Option Nat}
    (hr : ∀ i, result = some i → i ∈ x.owners) : Sound rs taken (x.complete ec result) := by
  cases result
  case none   => exact ⟨h.yielded, h.owned, h.ledger⟩
  case some i =>
    refine ⟨h.yielded, ?_, ?_⟩ <;> simp only [Execution.complete, Option.elim_some]
    case refine_1 => exact (h.owned.copy (hr i rfl)).perm List.perm_middle.symm
    case refine_2 => rw [h.owned.ledger_copy (hr i rfl)]; exact h.ledger

theorem copy (h : Sound rs taken x) {i : Nat} (hi : i ∈ x.handles) :
    Sound rs taken { x with heap := x.heap.copy i, handles := i :: x.handles } where
  yielded := h.yielded
  owned   := (h.owned.copy (List.mem_append_right _ hi)).perm List.perm_middle.symm
  ledger  := by
    rw [h.owned.ledger_copy (List.mem_append_right _ hi)]
    exact h.ledger

theorem drop (h : Sound rs taken x) {i : Nat} (hi : i ∈ x.handles) :
    Sound rs taken { x with heap := x.heap.drop i, handles := x.handles.erase i } where
  yielded := h.yielded
  owned   := by
    refine (h.owned.drop (List.mem_append_right _ hi)).perm ?_
    have hp : x.owners.Perm (i :: (x.result.toList ++ x.handles.erase i)) :=
      ((List.perm_cons_erase hi).append_left _).trans List.perm_middle
    simpa [Execution.owners] using hp.erase i
  ledger  := (h.owned.ledger_drop (List.mem_append_right _ hi)).trans h.ledger

end Sound

-- The completion with the last result, after the null.
def Results.completion (rs : Results ρ) : Completion ρ :=
  { ec := 0, result := rs.list.getLast?, returned := rs.list.map some ++ [none] }

-- The operation has not completed. It owns the last result that it has taken.
structure Running (taken : List ρ) (x : Execution ρ) : Prop where
  completions : x.completions = []
  handles     : x.handles = []
  destroyed   : x.destroyed = false
  result      : x.result.bind x.heap.get = taken.getLast?

-- How far the operation has got, if `es` has happened to it.
inductive Stage (rs : Results ρ) (taken : List ρ) (es : List Event) (x : Execution ρ) : Prop
  | polling : Running taken x → x.polls = 1 → x.libpq.returned = taken.map some → Stage rs taken es x
  | abandoned : x.completions = [] → x.handles = [] → x.destroyed → x.polls = 0 → Stage rs taken es x
  | completed : x.completions = [rs.completion] → x.polls = 0 → x.libpq.results = [] →
    (∀ i ∈ x.handles, x.heap.get i = rs.list.getLast?) → Stage rs taken es x
  | failed {ec flags} : ec ≠ 0 → .poll ec flags ∈ es → x.polls = 0 → Stage rs taken es x

-- What the user does with copies leads to copies of the same result.
theorem Stage.handles {x : Execution ρ} {es : List Event} {e : Event} (h : Stage rs taken es x)
    (hn : x.handles ≠ []) {heap : Heap ρ} {handles : List Nat}
    (hh : ∀ j ∈ handles, ∃ i ∈ x.handles, heap.get j = x.heap.get i) :
    Stage rs taken (es ++ [e]) { x with heap, handles } := by
  cases h
  case polling h _ _           => exact absurd h.handles hn
  case abandoned _ hh _ _      => exact absurd hh hn
  case failed he hm hp         => exact .failed he (List.mem_append_left [e] hm) hp
  case completed hc hp hr hall =>
    refine .completed hc hp hr fun j hj => ?_
    have ⟨i, hi, hg⟩ := hh j hj
    exact hg.trans (hall i hi)

-- What an event leads to.
def Reaches (rs : Results ρ) (es : List Event) (x : Execution ρ) : Prop :=
  ∃ taken, Sound rs taken x ∧ Stage rs taken es x

variable {x : Execution ρ} {es : List Event}

theorem get_reset (i : Nat) : x.reset.heap.get i = x.heap.get i := by
  cases hr : x.result <;> simp [Execution.reset, hr]

theorem emplace_result (r : ρ) : (x.emplace r).result.bind (x.emplace r).heap.get = some r := by
  cases hr : x.result
  case none   => simp [Execution.emplace, hr, Heap.get_fresh]
  case some i => simp [Execution.emplace, hr, Heap.get_fresh]

namespace Running

theorem connection (h : Running taken x) (pq : Libpq ρ) : Running taken { x with libpq := pq } :=
  ⟨h.completions, h.handles, h.destroyed, h.result⟩

theorem emplace (h : Running taken x) (pq : Libpq ρ) (heap : Heap ρ) (taken' : List ρ) (r : ρ) :
    Running (taken' ++ [r]) ({ x with libpq := pq, heap }.emplace r) :=
  ⟨h.completions, h.handles, h.destroyed, by rw [emplace_result, List.getLast?_concat]⟩

theorem reaches_poll (h : Running taken x) (hs : Sound rs taken x) (hp : x.polls = 0)
    (hr : x.libpq.returned = taken.map some) : Reaches rs es x.doPoll :=
  ⟨taken, ⟨hs.yielded, hs.owned, hs.ledger⟩, .polling ⟨h.completions, h.handles, h.destroyed, h.result⟩
    (by rw [Execution.doPoll, hp]) hr⟩

theorem reaches_complete (h : Running taken x) (hs : Sound rs taken x) (hp : x.polls = 0)
    (hn : x.libpq.results = []) (hr : x.libpq.returned = taken.map some ++ [none]) :
    Reaches rs es (x.complete 0 x.result) := by
  have ht : rs.list = taken := by rw [hs.yielded, hn, List.append_nil]
  refine ⟨taken, hs.complete 0 fun i hi => by simp [Execution.owners, hi], .completed ?_ hp hn ?_⟩
  case refine_1 =>
    rw [Execution.complete, h.completions, h.result, hr, Results.completion, ht]
    rfl
  case refine_2 =>
    intro i hi
    have hx := h.result
    rw [Execution.complete, h.handles, List.append_nil, Option.mem_toList] at hi
    rw [hi, Option.bind_some] at hx
    rw [Execution.complete, hi, Option.elim_some, Heap.get_copy, hx, ht]

theorem reaches_store (h : Running taken x) {d : Drained ρ} (hd : Drains rs x.owners d) (hp : x.polls = 0) :
    Reaches rs es (x.store 0 d) := by
  cases hd
  case busy taken' r' pq heap hi hr =>
    have hs := Sound.emplace (x := { x with libpq := pq, heap }) hi
    exact (h.emplace pq heap taken' r').reaches_poll hs hp hr
  case last taken' r' pq heap hi hn hr =>
    have hs := Sound.emplace (x := { x with libpq := pq, heap }) hi
    exact (h.emplace pq heap taken' r').reaches_complete hs hp hn hr

theorem reaches_getResults (h : Running taken x) (hs : Sound rs taken x) (hp : x.polls = 0)
    (hr : x.libpq.returned = taken.map some) : Reaches rs es (x.getResults 0) := by
  rw [Execution.getResults]
  split
  case isTrue => exact (h.connection _).reaches_poll (hs.connection rfl) hp hr
  case isFalse =>
    split
    case h_1 pq hg =>
      have ⟨h₁, h₂, h₃⟩ := Libpq.getResult_none hg
      rw [Libpq.isBusy_results, ← h₂] at h₁
      rw [Libpq.isBusy_returned, hr] at h₃
      exact (h.connection pq).reaches_complete (hs.connection h₁.symm) hp h₂ h₃
    case h_2 r pq hg =>
      have ⟨h₁, h₂⟩ := Libpq.getResult_some hg
      rw [Libpq.isBusy_results] at h₁
      rw [Libpq.isBusy_returned, hr, ← List.map_singleton, ← List.map_append] at h₂
      exact h.reaches_store (drains ⟨rfl, rfl⟩ ⟨h₁ ▸ hs.yielded, hs.owned, hs.ledger⟩ h₂) hp

-- Reading and writing come first.
theorem reaches_onPoll (h : Running taken x) (hs : Sound rs taken x) (hp : x.polls = 0)
    (hr : x.libpq.returned = taken.map some) (flags : Nat) : Reaches rs es (x.onPoll 0 flags) := by
  have hq : ∀ pq : Libpq ρ, pq.results = x.libpq.results → pq.returned = x.libpq.returned →
      Reaches rs es ({ x with libpq := pq }.getResults 0) :=
    fun pq h₁ h₂ => (h.connection pq).reaches_getResults (hs.connection h₁) hp (h₂.trans hr)
  rw [Execution.onPoll, if_pos rfl]
  split <;> split <;> exact hq _ rfl rfl

end Running

-- Each event leads from a state that is reached to one that is.
theorem reaches_step {x' : Execution ρ} {e : Event} (h : Reaches rs es x) (hs : x.step e = some x') :
    Reaches rs (es ++ [e]) x' := by
  have ⟨taken, hx, hst⟩ := h
  cases e <;> simp only [Execution.step] at hs <;> split at hs <;> cases hs
  case poll.isFalse ec flags hp =>
    cases hst
    case abandoned hz | completed hz _ _ | failed hz => exact absurd hz hp
    case polling hr h₁ hr' =>
      by_cases he : ec = 0
      case pos =>
        subst he
        have hr₁ : Running taken { x with polls := x.polls - 1 } :=
          ⟨hr.completions, hr.handles, hr.destroyed, hr.result⟩
        exact hr₁.reaches_onPoll (hx.polls _) (by simp [h₁]) hr' flags
      case neg =>
        rw [Execution.onPoll, if_neg he]
        have hm : Event.poll ec flags ∈ es ++ [.poll ec flags] := by simp
        refine ⟨taken, (hx.polls _).complete ec nofun, .failed he hm ?_⟩
        simp [Execution.complete, h₁]
  case destroy.isFalse hd =>
    have hs := hx.reset
    refine ⟨taken, ⟨hs.yielded, hs.owned, hs.ledger⟩, ?_⟩
    cases hst
    case polling hr _ _        => exact .abandoned hr.completions hr.handles rfl rfl
    case abandoned hd' _       => exact absurd hd' hd
    case failed he hm hp       => exact .failed he (List.mem_append_left _ hm) rfl
    case completed hc hp hn hh => exact .completed hc rfl hn fun i hi => by rw [← hh i hi, get_reset]
  case copy.isTrue i hi =>
    refine ⟨taken, hx.copy hi, hst.handles (List.ne_nil_of_mem hi) fun j hj => ?_⟩
    rw [Heap.get_copy]
    exact ⟨j, (List.mem_cons.mp hj).elim (· ▸ hi) id, rfl⟩
  case drop.isTrue i hi =>
    refine ⟨taken, hx.drop hi, hst.handles (List.ne_nil_of_mem hi) fun j hj => ?_⟩
    rw [Heap.get_drop]
    exact ⟨j, List.mem_of_mem_erase hj, rfl⟩

namespace Sound

theorem nodup (h : Sound rs taken x) : x.heap.ledger.Nodup :=
  h.ledger.nodup_iff.mpr (List.nodup_append.mp (h.yielded ▸ rs.nodup)).left

end Sound

-- Three results, of which the second one is stored while libpq is busy.
def threeResults : Results Nat :=
  ⟨[10, 20, 30], by decide⟩

end ChxSql.Pq
