import ChxSql.Incremental.Bytes
import ChxSql.Incremental.Step

namespace Incremental

-- A container for the bytes up to a zero byte.
structure Terminated (C : Type) [Container C] where
  result : C := Container.empty

namespace Terminated

variable {C ε : Type} [Container C]

instance [DecidableEq C] : DecidableEq (Terminated C)
  | ⟨r⟩, ⟨r'⟩ => decidable_of_iff (r = r') (by simp)

def parse (p : Terminated C) (bs : Bytes) : Step Byte (Terminated C) C ε :=
  let consumed := (bs.takeWhile (· != 0)).length
  let result := Container.insert p.result (bs.take consumed)
  if consumed ≠ bs.length then
    .done result (bs.drop (consumed + 1))
  else
    .more ⟨result⟩ (bs.drop consumed)

theorem parse_full {p : Terminated C} {xs : Bytes} (h : 0 ∉ xs) (ys : Bytes) :
    p.parse (xs ++ 0 :: ys) = (.done (Container.insert p.result xs) ys : Step _ _ _ ε) := by
  simp [parse, takeWhile_ne_zero_append h]

theorem parse_short {p : Terminated C} {xs : Bytes} (h : 0 ∉ xs) :
    p.parse xs = (.more ⟨Container.insert p.result xs⟩ [] : Step _ _ _ ε) := by
  have : xs.takeWhile (· != 0) = xs := by rw [List.takeWhile_eq_self_iff]; grind
  simp [parse, this]

-- The first chunk either holds the terminating zero or it does not.
theorem cases_on_chunk (xs : Bytes) : 0 ∉ xs ∨ ∃ ys zs, xs = ys ++ 0 :: zs ∧ 0 ∉ ys := by
  by_cases h : 0 ∈ xs
  case neg => exact .inl h
  case pos =>
    have ⟨ys, zs, he, hn⟩ := List.eq_append_cons_of_mem h
    exact .inr ⟨ys, zs, he, hn⟩

theorem resumable : Resumable (parse (C := C) (ε := ε)) := by
  refine .of_extends fun p xs ys => ?_
  obtain h | ⟨xs, zs, rfl, h⟩ := cases_on_chunk xs
  case inr =>
    rw [parse_full h, List.append_assoc, List.cons_append, parse_full h]
    exact .done
  case inl =>
    rw [parse_short h]
    refine .of_eq_more trivial ?_
    obtain h' | ⟨ys, zs, rfl, h'⟩ := cases_on_chunk ys
    case inl => rw [parse_short h', parse_short (by simp [h, h']), Container.insert_append]
    case inr =>
      rw [parse_full h', ← List.append_assoc, parse_full (by simp [h, h']), Container.insert_append]

theorem shrinks : Shrinks (parse (C := C) (ε := ε)) := by
  intro p bs
  simp only [parse]
  split <;> exact List.drop_suffix ..

theorem parse_ne_fail {p : Terminated C} {bs e r} : p.parse bs ≠ (.fail e r : Step _ _ _ ε) := by
  simp only [parse]
  split <;> nofun

-- A string that is done has read everything up to its terminating zero.
theorem parse_done {p : Terminated C} {bs v r} (h : p.parse bs = (.done v r : Step _ _ _ ε)) :
    ∃ xs, bs = xs ++ 0 :: r ∧ v = Container.insert p.result xs ∧ 0 ∉ xs := by
  obtain h' | ⟨xs, zs, rfl, h'⟩ := cases_on_chunk bs
  case inl => simp [parse_short h'] at h
  case inr =>
    rw [parse_full h'] at h
    cases h
    exact ⟨xs, rfl, rfl, h'⟩

theorem parse_lt {p : Terminated C} {bs v r} (h : p.parse bs = (.done v r : Step _ _ _ ε)) :
    r.length < bs.length := by
  have ⟨xs, hb, _⟩ := parse_done h
  rw [hb, List.length_append, List.length_cons]
  omega

end Terminated

end Incremental
