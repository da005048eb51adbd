import ChxSql.Hiredis.Interest

namespace ChxSql.Hiredis

open Incremental

variable {c : Connection} {d : Direction} {e : Event} {es : List Event}

theorem Interested.concat (h : Interested d es) (hr : system.run es = some c) (he : ¬e.Ends c d) :
    Interested d (es ++ [e]) := by
  obtain ⟨as, bs, rfl, hb⟩ := h
  refine ⟨as, bs ++ [e], by simp, fun xs f ys c' hx hr' hf => ?_⟩
  cases ys using List.reverseRecOn
  case nil =>
    obtain ⟨rfl, hfe⟩ := List.append_inj' hx rfl
    obtain rfl := List.singleton_inj.mp hfe
    cases hr.symm.trans hr'
    exact he hf
  case append_singleton ys y _ =>
    rw [← List.cons_append, ← List.append_assoc] at hx
    obtain ⟨rfl, _⟩ := List.append_inj' hx rfl
    exact hb xs f ys c' rfl hr' hf

-- The signal of a direction tests true and the flag is not set only while hiredis waits for the direction.
theorem interested_of_waiting (h : system.run es = some c) (hp : (c.channel d).poll)
    (hc : (c.channel d).cancelled = false) : Interested d es := by
  refine system.run_induction (P := fun es c => (c.channel d).poll → (c.channel d).cancelled = false → Interested d es)
    ?_ ?_ h hp hc
  case refine_1 => cases d <;> nofun
  case refine_2 =>
    intro es c e c' hr ih he hp hc
    have hre := Connection.reacts he d
    generalize c'.channel d = ch at hre hp hc
    cases hre
    case add        => exact interested_add
    case other hd   =>
      refine (ih hp hc).concat hr fun hf => ?_
      cases e
      case add | complete => exact hf
      case del            => exact hd hf
      case handle         => exact hd hf.left
    case del =>
      rw [Channel.del] at hp hc
      split at hp
      case isTrue hn =>
        rw [if_pos hn] at hc
        simp [hp, hc] at hn
      case isFalse hn =>
        rw [if_neg hn] at hc
        cases hc
    case complete   => exact (ih hp hc).concat hr id
    case handle     => cases hp

-- For each run and each poll that has completed: it is the only one of its direction, its handler calls hiredis only
-- if hiredis waits for the direction and the socket is ready, and then it does, if no request has come too early.
theorem calls_interested {i : Nat} {p : Poll} {x : Completion} (h : system.run es = some c)
    (hp : (c.channel d).polls[i]? = some p) (hx : p.completion = some x) : (c.channel d).polls = [p] ∧
      ((c.channel d).calls d x → Interested d es ∧ x.ready d) ∧
      (AddsInTime es → Interested d es → x.ready d → (c.channel d).calls d x) := by
  have hs := shaped_of_run h d
  have hi := interested_of_waiting (d := d) h
  have hw := fun ha => waiting_of_interested (d := d) ha h
  generalize c.channel d = ch at hs hi hw hp
  cases hs
  case idle => cases hp
  case polling q _ =>
    obtain ⟨hn, hg⟩ := List.getElem?_eq_some_iff.mp hp
    obtain rfl : i = 0 := by simpa using hn
    obtain rfl : q = p := hg
    refine ⟨rfl, fun hc => ?_, fun ha ht hr => ?_⟩
    case refine_1 =>
      rw [Channel.calls, Bool.and_eq_true, Bool.not_eq_true'] at hc
      exact ⟨hi rfl hc.right, hc.left⟩
    case refine_2 =>
      rw [Channel.calls, Bool.and_eq_true, Bool.not_eq_true']
      exact ⟨hr, (hw ha ht).right⟩

-- The socket is ready for reading while hiredis waits for that.
def readable : Completion := { error := false, events := 1 }

theorem calls_interested_readable : ∃ c,
    system.run [.add .write, .add .read, .complete .read 0 readable] = some c ∧
      Interested .read [.add .write, .add .read, .complete .read 0 readable] :=
  ⟨_, rfl, ((calls_interested (d := .read) (i := 0) (p := { completion := some readable }) rfl rfl rfl).2.1 rfl).1⟩

end ChxSql.Hiredis
