import Mathlib

namespace Ownership

-- What the shared owners of an object have in common: the object, and the number of its owners.
structure Block (α : Type*) where
  object : α
  owners : Nat
  deriving DecidableEq

-- The blocks of all objects that have ever been shared, and the objects that have been deleted. An
-- owner is represented by the number of its block.
structure Heap (α : Type*) where
  blocks  : List (Block α) := []
  deleted : List α := []
  deriving DecidableEq

namespace Heap

variable {α : Type*}

def delete (h : Heap α) (a : α) : Heap α :=
  { h with deleted := h.deleted ++ [a] }

-- The number of the owner that an object gets when it is shared.
def fresh (h : Heap α) : Nat :=
  h.blocks.length

def share (h : Heap α) (a : α) : Heap α :=
  { h with blocks := h.blocks ++ [⟨a, 1⟩] }

def copy (h : Heap α) (i : Nat) : Heap α :=
  match h.blocks[i]? with
  | none   => h
  | some b => { h with blocks := h.blocks.set i { b with owners := b.owners + 1 } }

-- The last owner deletes the object.
def drop (h : Heap α) (i : Nat) : Heap α :=
  match h.blocks[i]? with
  | none   => h
  | some b => {
    blocks  := h.blocks.set i { b with owners := b.owners - 1 }
    deleted := if b.owners = 1 then h.deleted ++ [b.object] else h.deleted
  }

def get (h : Heap α) (i : Nat) : Option α :=
  h.blocks[i]?.map (·.object)

-- The objects that have owners.
def held (h : Heap α) : List α :=
  (h.blocks.filter (·.owners ≠ 0)).map (·.object)

-- Each object that there has ever been is deleted or has an owner.
def ledger (h : Heap α) : List α :=
  h.deleted ++ h.held

-- The owners that there are.
structure OwnedBy (h : Heap α) (owners : List Nat) : Prop where
  count : ∀ {i b}, h.blocks[i]? = some b → b.owners = owners.count i
  mem   : ∀ i ∈ owners, ∃ b, h.blocks[i]? = some b

variable {h : Heap α} {owners : List Nat} {i j : Nat} {a : α} {b b' : Block α}

section Ledger

-- A block among the others.
theorem exists_split (hb : h.blocks[i]? = some b) :
    ∃ xs ys, h.blocks = xs ++ b :: ys ∧ ∀ b', h.blocks.set i b' = xs ++ b' :: ys := by
  have ⟨hi, he⟩ := List.getElem?_eq_some_iff.mp hb
  refine ⟨h.blocks.take i, h.blocks.drop (i + 1), ?_, fun b' => ?_⟩
  case refine_1 => rw [← he, List.getElem_cons_drop, List.take_append_drop]
  case refine_2 => exact List.set_eq_take_append_cons_drop.trans (if_pos hi)

theorem ledger_delete : (h.delete a).ledger.Perm (a :: h.ledger) := by
  simp only [ledger, delete, held, List.append_assoc, List.singleton_append]
  exact List.perm_middle

theorem ledger_share : (h.share a).ledger.Perm (a :: h.ledger) := by
  have hh : (h.share a).held = h.held ++ [a] := by simp [held, share]
  rw [ledger, hh, share, ← List.append_assoc]
  exact List.perm_append_singleton a _

-- An object that has an owner may get another one.
theorem ledger_copy (hb : h.blocks[i]? = some b) (ho : b.owners ≠ 0) : (h.copy i).ledger = h.ledger := by
  have ⟨xs, ys, he, hs⟩ := exists_split hb
  simp only [ledger, held, copy, hb, hs]
  rw [he]
  simp [ho]

theorem ledger_drop (hb : h.blocks[i]? = some b) (ho : b.owners ≠ 0) : (h.drop i).ledger.Perm h.ledger := by
  have ⟨xs, ys, he, hs⟩ := exists_split hb
  simp only [ledger, held, drop, hb, hs]
  rw [he]
  by_cases h₁ : b.owners = 1
  case pos =>
    have hx : (xs ++ { b with owners := 1 - 1 } :: ys).filter (·.owners ≠ 0) =
        xs.filter (·.owners ≠ 0) ++ ys.filter (·.owners ≠ 0) := by simp
    have hy : (xs ++ b :: ys).filter (·.owners ≠ 0) =
        xs.filter (·.owners ≠ 0) ++ b :: ys.filter (·.owners ≠ 0) := by simp [ho]
    rw [if_pos h₁, h₁, hx, hy, List.append_assoc, List.map_append, List.map_append, List.map_cons,
      List.singleton_append]
    exact .append_left h.deleted List.perm_middle.symm
  case neg =>
    have hn : b.owners - 1 ≠ 0 := by omega
    simp [h₁, hn, ho]

end Ledger

section Get

@[simp]
theorem get_delete : (h.delete a).get i = h.get i := rfl

theorem get_fresh : (h.share a).get h.fresh = some a := by
  simp [get, share, fresh]

theorem get_set (hb : h.blocks[i]? = some b) (ho : b'.object = b.object) :
    ((h.blocks.set i b')[j]?).map (·.object) = h.get j := by
  have ⟨hi, _⟩ := List.getElem?_eq_some_iff.mp hb
  by_cases hj : i = j
  case neg => rw [List.getElem?_set_ne hj, get]
  case pos =>
    subst hj
    rw [List.getElem?_set_self hi, get, hb, Option.map_some, Option.map_some, ho]

@[simp]
theorem get_copy : (h.copy i).get j = h.get j := by
  rw [copy]
  split
  case h_1      => rfl
  case h_2 b hb => exact get_set hb rfl

@[simp]
theorem get_drop : (h.drop i).get j = h.get j := by
  rw [drop]
  split
  case h_1      => rfl
  case h_2 b hb => exact get_set hb rfl

end Get

namespace OwnedBy

theorem empty : OwnedBy ({} : Heap α) [] where
  count := nofun
  mem   := nofun

theorem perm {owners' : List Nat} (ho : h.OwnedBy owners) (hp : owners.Perm owners') : h.OwnedBy owners' where
  count hb  := hp.count_eq _ ▸ ho.count hb
  mem i hi := ho.mem i (hp.mem_iff.mpr hi)

theorem delete (ho : h.OwnedBy owners) : (h.delete a).OwnedBy owners :=
  ⟨ho.count, ho.mem⟩

theorem block (ho : h.OwnedBy owners) (hi : i ∈ owners) : ∃ b, h.blocks[i]? = some b ∧ b.owners ≠ 0 := by
  have ⟨b, hb⟩ := ho.mem i hi
  have hc : 0 < owners.count i := List.count_pos_iff.mpr hi
  exact ⟨b, hb, by rw [ho.count hb]; omega⟩

theorem fresh_notMem (ho : h.OwnedBy owners) : h.fresh ∉ owners := by
  intro hm
  have ⟨b, hb⟩ := ho.mem _ hm
  simp [fresh] at hb

theorem share (ho : h.OwnedBy owners) : (h.share a).OwnedBy (h.fresh :: owners) where
  count {i b} hb := by
    rw [Heap.share, List.getElem?_append] at hb
    split at hb
    case isTrue hi =>
      have hn : h.fresh ≠ i := Nat.ne_of_gt hi
      rw [ho.count hb, List.count_cons_of_ne hn]
    case isFalse hi =>
      rw [List.getElem?_singleton] at hb
      split at hb
      case isFalse => cases hb
      case isTrue hz =>
        cases hb
        have hf : h.fresh = i := by rw [fresh]; omega
        rw [← hf, List.count_cons_self, List.count_eq_zero_of_not_mem ho.fresh_notMem]
  mem i hi := by
    have hl : i < (h.share a).blocks.length := by
      simp only [Heap.share, List.length_append, List.length_singleton]
      obtain rfl | hi := List.mem_cons.mp hi
      case inl => exact Nat.lt_succ_self _
      case inr =>
        have ⟨b, hb⟩ := ho.mem i hi
        have := (List.getElem?_eq_some_iff.mp hb).choose
        omega
    exact ⟨_, List.getElem?_eq_getElem hl⟩

-- What an owner does changes the number of owners of its object only.
theorem set {owners' : List Nat} {deleted : List α} (ho : h.OwnedBy owners) (hb : h.blocks[i]? = some b)
    (hc : b'.owners = owners'.count i) (hn : ∀ j, i ≠ j → owners'.count j = owners.count j) :
    OwnedBy { blocks := h.blocks.set i b', deleted } owners' where
  count {j c} hj := by
    have ⟨hi, _⟩ := List.getElem?_eq_some_iff.mp hb
    by_cases h' : i = j
    case pos =>
      subst h'
      rw [List.getElem?_set_self hi] at hj
      cases hj
      exact hc
    case neg =>
      rw [List.getElem?_set_ne h'] at hj
      rw [ho.count hj, hn j h']
  mem j hj := by
    have ⟨hi, _⟩ := List.getElem?_eq_some_iff.mp hb
    by_cases h' : i = j
    case pos => exact ⟨b', h' ▸ List.getElem?_set_self hi⟩
    case neg =>
      have hm : j ∈ owners := List.count_pos_iff.mp (hn j h' ▸ List.count_pos_iff.mpr hj)
      have ⟨c, hc⟩ := ho.mem j hm
      exact ⟨c, (List.getElem?_set_ne h').trans hc⟩

theorem copy (ho : h.OwnedBy owners) (hi : i ∈ owners) : (h.copy i).OwnedBy (i :: owners) := by
  have ⟨b, hb⟩ := ho.mem i hi
  rw [Heap.copy, hb]
  refine ho.set hb ?_ fun j hj => List.count_cons_of_ne hj
  rw [List.count_cons_self, ho.count hb]

theorem drop (ho : h.OwnedBy owners) (hi : i ∈ owners) : (h.drop i).OwnedBy (owners.erase i) := by
  have ⟨b, hb⟩ := ho.mem i hi
  rw [Heap.drop, hb]
  refine ho.set hb ?_ fun j hj => List.count_erase_of_ne hj.symm
  rw [List.count_erase_self, ho.count hb]

-- The objects that have owners are those that the owners own.
theorem mem_held_iff (ho : h.OwnedBy owners) : a ∈ h.held ↔ ∃ i ∈ owners, h.get i = some a := by
  simp only [held, List.mem_map, List.mem_filter, get, Option.map_eq_some_iff, decide_eq_true_eq]
  constructor
  case mp =>
    rintro ⟨b, ⟨hm, hn⟩, rfl⟩
    have ⟨i, hb⟩ := List.mem_iff_getElem?.mp hm
    exact ⟨i, List.count_pos_iff.mp (by rw [← ho.count hb]; omega), b, hb, rfl⟩
  case mpr =>
    rintro ⟨i, hi, b, hb, rfl⟩
    have ⟨b', hb', hn⟩ := ho.block hi
    obtain rfl : b = b' := Option.some.inj (hb.symm.trans hb')
    exact ⟨b, ⟨List.mem_of_getElem? hb, hn⟩, rfl⟩

theorem ledger_copy (ho : h.OwnedBy owners) (hi : i ∈ owners) : (h.copy i).ledger = h.ledger := by
  have ⟨b, hb, hn⟩ := ho.block hi
  exact Heap.ledger_copy hb hn

theorem ledger_drop (ho : h.OwnedBy owners) (hi : i ∈ owners) : (h.drop i).ledger.Perm h.ledger := by
  have ⟨b, hb, hn⟩ := ho.block hi
  exact Heap.ledger_drop hb hn

-- When there are no owners left, each object has been deleted.
theorem ledger_of_nil (ho : h.OwnedBy []) : h.ledger = h.deleted := by
  have hn : h.held = [] := List.eq_nil_iff_forall_not_mem.mpr fun a hm => by
    have ⟨i, hi, _⟩ := ho.mem_held_iff.mp hm
    cases hi
  rw [ledger, hn, List.append_nil]

-- No object is deleted before its owner, if there has been no object twice.
theorem notMem_deleted (ho : h.OwnedBy owners) (hl : h.ledger.Nodup) (hi : i ∈ owners) (hg : h.get i = some a) :
    a ∉ h.deleted :=
  fun hd => (List.nodup_append.mp hl).right.right a hd a (ho.mem_held_iff.mpr ⟨i, hi, hg⟩) rfl

end OwnedBy

end Heap

end Ownership
