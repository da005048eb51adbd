import ChxSql.Hiredis.Connection

namespace ChxSql.Hiredis

open Incremental

namespace Channel

-- A poll is outstanding that has not been cancelled, or a completion is that will call the handler.
def Serves (ch : Channel) (d : Direction) : Prop :=
  (∃ p ∈ ch.polls, p.cancelled = false) ∨
    ∃ p ∈ ch.polls, ∃ x, p.completion = some x ∧ ch.calls d x

-- There is a poll if the signal tests true, and it is cancelled if the flag says so.
inductive Shaped (d : Direction) : Channel → Prop
  | idle {cancelled : Bool} : Shaped d { cancelled }
  | polling {p : Poll} : (∀ x, p.completion = some x → p.cancelled ∨ x.error ∨ x.ready d) →
    Shaped d { poll := true, cancelled := p.cancelled, polls := [p] }

-- A request has been forgotten: it has come while the poll was cancelled.
def Swallows (ch : Channel) : Prop :=
  ch.poll ∧ ch.cancelled

variable {ch : Channel} {d : Direction} {p : Poll} {x : Completion} {i : Nat}

namespace Shaped

theorem add (h : ch.Shaped d) : ch.add.Shaped d := by
  cases h
  case idle       => exact .polling (p := {}) nofun
  case polling hp => exact .polling hp

theorem del (h : ch.Shaped d) : ch.del.Shaped d := by
  cases h
  case idle         => exact .idle
  case polling p hp =>
    rw [Channel.del]
    split
    case isTrue  => exact .polling hp
    case isFalse => exact .polling (p := { p with cancelled := true }) fun _ _ => .inl rfl

theorem complete (h : ch.Shaped d) (hp : ch.polls[i]? = some p) (hx : Possible p d x) :
    Shaped d { ch with polls := ch.polls.set i { p with completion := some x } } := by
  cases h
  case idle => cases hp
  case polling q hq =>
    have ⟨hi, hg⟩ := List.getElem?_eq_some_iff.mp hp
    obtain rfl : i = 0 := by simpa using hi
    obtain rfl : q = p := hg
    refine .polling (p := { q with completion := some x }) fun y hy => ?_
    obtain rfl : x = y := Option.some.inj hy
    exact .inr (hx.right.imp_right And.right)

theorem handle (h : ch.Shaped d) (hp : ch.polls[i]? = some p) : (ch.handle i).Shaped d := by
  cases h
  case idle => cases hp
  case polling =>
    have ⟨hi, _⟩ := List.getElem?_eq_some_iff.mp hp
    obtain rfl : i = 0 := by simpa using hi
    exact .idle

-- As long as the poll is not cancelled, it serves.
theorem serves (h : ch.Shaped d) (hp : ch.poll) (hc : ch.cancelled = false) : ch.Serves d := by
  cases h
  case idle        => cases hp
  case polling p _ => exact .inl ⟨p, by simp, hc⟩

-- If it is, then it does not.
theorem not_serves (h : ch.Shaped d) (hs : ch.Swallows) : ¬ch.Serves d := by
  have ⟨hp, hc⟩ := hs
  cases h
  case idle        => cases hp
  case polling q _ =>
    rintro (⟨p, hm, hn⟩ | ⟨p, _, x, _, hx⟩)
    · obtain rfl := List.mem_singleton.mp hm
      rw [hn] at hc
      cases hc
    · simp [calls, show q.cancelled = true from hc] at hx

-- The completion of a poll that is not cancelled calls the handler or has an error.
theorem calls (h : ch.Shaped d) (hc : ch.cancelled = false) (hp : ch.polls[i]? = some p)
    (hx : p.completion = some x) : p.cancelled = false ∧ (x.error ∨ ch.calls d x) := by
  cases h
  case idle => cases hp
  case polling q hq =>
    have ⟨hi, hg⟩ := List.getElem?_eq_some_iff.mp hp
    obtain rfl : i = 0 := by simpa using hi
    obtain rfl : q = p := hg
    have hc : q.cancelled = false := hc
    refine ⟨hc, ?_⟩
    rcases hq x hx with h | h | h
    · rw [hc] at h; cases h
    · exact .inl h
    · exact .inr (by simp [Channel.calls, h, hc])

end Shaped

end Channel

-- An event after which hiredis does not wait for a direction any more: it says so, the handler for
-- the direction is called, or a poll completes with an error of its own.
def Event.Ends (c : Connection) (d : Direction) : Event → Prop
  | add _          => False
  | del d'         => d' = d
  | complete ..    => False
  | handle d' i    => d' = d ∧ ∃ p x, (c.channel d).polls[i]? = some p ∧ p.completion = some x ∧
    ((c.channel d).calls d x ∨ x.error ∧ p.cancelled = false)

-- The last request of hiredis for a direction is to add it, and nothing has ended that.
def Interested (d : Direction) (es : List Event) : Prop :=
  ∃ as bs, es = as ++ .add d :: bs ∧ ∀ xs e ys c, bs = xs ++ e :: ys →
    system.run (as ++ .add d :: xs) = some c → ¬e.Ends c d

-- At no time is a request forgotten.
def KeepsInterest (es : List Event) : Prop :=
  ∀ as c, as <+: es → system.run as = some c → ∀ d, Interested d as → (c.channel d).Serves d

-- No request comes while the poll of its direction is cancelled and the handler of the poll has not
-- been called.
def AddsInTime (es : List Event) : Prop :=
  ∀ as d c, as ++ [.add d] <+: es → system.run as = some c → ¬(c.channel d).Swallows

section

variable {c c' : Connection} {d d' : Direction} {e : Event} {es : List Event}

@[simp]
theorem Connection.channel_update {ch : Channel} :
    (c.update d ch).channel d' = if d' = d then ch else c.channel d' := by
  cases d <;> cases d' <;> rfl

-- What an event does to a channel.
inductive Connection.Reacts (c : Connection) (d : Direction) : Event → Channel → Prop
  | other {e : Event} : e.direction ≠ d → Reacts c d e (c.channel d)
  | add : Reacts c d (.add d) (c.channel d).add
  | del : Reacts c d (.del d) (c.channel d).del
  | complete {i p x} : (c.channel d).polls[i]? = some p → Channel.Possible p d x →
    Reacts c d (.complete d i x) { c.channel d with
      polls := (c.channel d).polls.set i { p with completion := some x } }
  | handle {i p x} : (c.channel d).polls[i]? = some p → p.completion = some x →
    Reacts c d (.handle d i) ((c.channel d).handle i)

theorem Connection.reacts (h : c.step e = some c') (d : Direction) :
    c.Reacts d e (c'.channel d) := by
  cases e
  case add d' =>
    cases d' <;> cases d <;> cases h
    case read.read.refl | write.write.refl => exact .add
    all_goals exact .other nofun
  case del d' =>
    cases d' <;> cases d <;> cases h
    case read.read.refl | write.write.refl => exact .del
    all_goals exact .other nofun
  case complete d' i x =>
    have ⟨p, hp, hs⟩ := Option.bind_eq_some_iff.mp h
    split at hs <;> cases hs
    case isTrue.refl hx =>
      rw [channel_update]
      split
      case isTrue hd  => exact hd ▸ .complete (hd ▸ hp) (hd ▸ hx)
      case isFalse hd => exact .other (Ne.symm hd)
  case handle d' i =>
    have ⟨p, hp, hs⟩ := Option.bind_eq_some_iff.mp h
    split at hs <;> cases hs
    case isTrue.refl hx =>
      have ⟨x, hx⟩ := Option.isSome_iff_exists.mp hx
      rw [channel_update]
      split
      case isTrue hd  => exact hd ▸ .handle (hd ▸ hp) hx
      case isFalse hd => exact .other (Ne.symm hd)

theorem shaped_of_run (h : system.run es = some c) (d : Direction) : (c.channel d).Shaped d := by
  refine system.run_induction (P := fun _ c => (c.channel d).Shaped d) ?_ ?_ h
  case refine_1 => cases d <;> exact .idle
  case refine_2 =>
    intro es c e c' _ hs he
    have hr := Connection.reacts he d
    generalize c'.channel d = ch at hr ⊢
    cases hr
    case other          => exact hs
    case add            => exact hs.add
    case del            => exact hs.del
    case complete hp hx => exact hs.complete hp hx
    case handle hp _    => exact hs.handle hp

theorem interested_concat (h : Interested d (es ++ [e])) (hr : system.run es = some c) :
    e = .add d ∨ Interested d es ∧ ¬e.Ends c d := by
  have ⟨as, bs, he, hb⟩ := h
  cases bs using List.reverseRecOn
  case nil => exact .inl (List.singleton_inj.mp (List.append_inj' he rfl).right)
  case append_singleton bs b _ =>
    rw [← List.cons_append, ← List.append_assoc] at he
    obtain ⟨rfl, hbe⟩ := List.append_inj' he rfl
    obtain rfl : e = b := List.singleton_inj.mp hbe
    refine .inr ⟨⟨as, bs, rfl, fun xs f ys c hx => hb xs f (ys ++ [e]) c (by simp [hx])⟩, ?_⟩
    exact hb bs e [] c rfl hr

theorem AddsInTime.init {as : List Event} (h : AddsInTime es) (hp : as <+: es) : AddsInTime as :=
  fun bs d c hb => h bs d c (hb.trans hp)

-- The signal of a direction that hiredis waits for tests true, and the flag is not set.
theorem waiting_of_interested (h : AddsInTime es) (hr : system.run es = some c)
    (hi : Interested d es) : (c.channel d).poll ∧ (c.channel d).cancelled = false := by
  refine system.run_induction (P := fun es c => AddsInTime es → Interested d es →
    (c.channel d).poll ∧ (c.channel d).cancelled = false) ?_ ?_ hr h hi
  case refine_1 =>
    intro _ ⟨as, bs, he, _⟩
    simp at he
  case refine_2 =>
    intro es c e c' hr ih he ht hi
    have hs := shaped_of_run hr d
    have hre := Connection.reacts he d
    generalize c'.channel d = ch at hre ⊢
    rcases interested_concat hi hr with rfl | ⟨hi, hn⟩
    case inl =>
      cases hre
      case other hd => exact absurd rfl hd
      case add =>
        have hw : ¬(c.channel d).Swallows := ht es d c (List.prefix_refl _) hr
        rw [Channel.add]
        split
        case isTrue hp => exact ⟨hp, by simpa [Channel.Swallows, hp] using hw⟩
        case isFalse   => exact ⟨rfl, rfl⟩
    case inr =>
      have ⟨hp, hc⟩ := ih (ht.init (List.prefix_append ..)) hi
      cases hre
      case other    => exact ⟨hp, hc⟩
      case add      => rw [Channel.add, if_pos hp]; exact ⟨hp, hc⟩
      case del      => exact absurd rfl hn
      case complete => exact ⟨hp, hc⟩
      case handle i p x hq hx =>
        have ⟨hpc, hxe⟩ := hs.calls hc hq hx
        exact absurd ⟨rfl, p, x, hq, hx, hxe.symm.imp_right (⟨·, hpc⟩)⟩ hn

theorem interested_add : Interested d (es ++ [.add d]) :=
  ⟨es, [], rfl, by simp⟩

theorem keepsInterest_iff (es : List Event) : KeepsInterest es ↔ AddsInTime es := by
  constructor
  case mp =>
    intro h as d c hp hr hs
    have hu : system.run (as ++ [.add d]) = some (c.update d (c.channel d).add) := by
      rw [system.run_concat, hr, Option.bind_some]
      cases d <;> rfl
    have hv := h _ _ hp hu d interested_add
    rw [Connection.channel_update, if_pos rfl, Channel.add, if_pos hs.left] at hv
    exact (shaped_of_run hr d).not_serves hs hv
  case mpr =>
    intro h as c hp hr d hi
    have ⟨hw, hc⟩ := waiting_of_interested (h.init hp) hr hi
    exact (shaped_of_run hr d).serves hw hc

end

-- The second request to read comes before the handler of the poll that has been cancelled is called.
def readdition : List Event := [.add .read, .del .read, .add .read]

theorem readdition_forgotten : ¬KeepsInterest readdition := by
  intro h
  have hi : Interested .read ([.add .read, .del .read] ++ [.add .read]) := interested_add
  have hr : system.run readdition = some
    { read := { poll := true, cancelled := true, polls := [{ cancelled := true }] } } := rfl
  exact (shaped_of_run hr .read).not_serves ⟨rfl, rfl⟩ (h _ _ (List.prefix_refl _) hr .read hi)

end ChxSql.Hiredis
