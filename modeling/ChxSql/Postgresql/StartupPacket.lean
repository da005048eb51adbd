import ChxSql.Incremental.Decoder
import ChxSql.Postgresql.Buffers

namespace ChxSql.Postgresql

open Incremental Decoder Msg

namespace StartupPacket

abbrev Parameters := List (Bytes × Bytes)

-- The parameters of a start-up packet, as the server understands them: names and values, up to an
-- empty name. There are at most `n` of them.
def parameters : Nat → Decoder Parameters
  | 0     => failure
  | n + 1 => do
    let name ← string
    if name = [] then
      return []
    else
      let value ← string
      let ps ← parameters n
      return (name, value) :: ps

def body (n : Nat) : Decoder Parameters := do
  let version ← integer 4
  if version = 196608 then parameters n else failure

-- The length counts itself.
def packet : Decoder Parameters := do
  let length ← integer 4
  if length < 4 then failure else exactly (length - 4) (body (length - 4))

-- The password in the message that answers a request for it.
def passwordMessage : Decoder Bytes := do
  let type ← take 1
  let length ← integer 4
  if type ≠ [letter 'p'] ∨ length < 4 then failure else exactly (length - 4) string

def user : Bytes :=
  ['u', 's', 'e', 'r'].map letter

def database : Bytes :=
  ['d', 'a', 't', 'a', 'b', 'a', 's', 'e'].map letter

variable {n : Nat} {bs rest name value username db password : Bytes} {ps : Parameters}

-- A name or a value that the server sees has no zero byte in it.
theorem zero_notMem_of_parameters (h : (parameters n).run bs = some (ps, rest)) :
    ∀ p ∈ ps, 0 ∉ p.1 ∧ 0 ∉ p.2 := by
  induction n generalizing bs ps
  case zero => cases h
  case succ n ih =>
    have ⟨name, bs₁, hn, h⟩ := exists_of_bind h
    split at h
    case isTrue => cases h; nofun
    case isFalse =>
      have ⟨value, bs₂, hv, h⟩ := exists_of_bind h
      have ⟨ps', bs₃, hp, h⟩ := exists_of_bind h
      cases h
      intro p hm
      rcases List.mem_cons.mp hm with rfl | hm
      case inl => exact ⟨zero_notMem_of_string hn, zero_notMem_of_string hv⟩
      case inr => exact ih hp p hm

theorem zero_notMem_of_packet (h : packet.run bs = some (ps, rest)) : ∀ p ∈ ps, 0 ∉ p.1 ∧ 0 ∉ p.2 := by
  have ⟨length, bs₁, _, h⟩ := exists_of_bind h
  split at h
  case isTrue => cases h
  case isFalse =>
    have ⟨version, bs₂, _, hp⟩ := exists_of_bind (run_of_exactly h)
    split at hp
    case isTrue  => exact zero_notMem_of_parameters hp
    case isFalse => cases hp

theorem zero_notMem_of_passwordMessage (h : passwordMessage.run bs = some (password, rest)) :
    0 ∉ password := by
  have ⟨type, bs₁, _, h⟩ := exists_of_bind h
  have ⟨length, bs₂, _, h⟩ := exists_of_bind h
  split at h
  case isTrue  => cases h
  case isFalse => exact zero_notMem_of_string (run_of_exactly h)

theorem decodes_end : Decodes (parameters (n + 1)) [0] [] :=
  (Decodes.string List.not_mem_nil).bind .pure

theorem decodes_parameter (hne : name ≠ []) (hn : 0 ∉ name) (hv : 0 ∉ value)
    (h : Decodes (parameters n) bs ps) :
    Decodes (parameters (n + 1)) (name ++ [0] ++ (value ++ [0] ++ bs)) ((name, value) :: ps) := by
  rw [parameters]
  refine Decodes.bind (.string hn) ?_
  rw [if_neg hne]
  refine Decodes.bind (.string hv) ?_
  exact h.bind_pure

theorem decodes_body (hn : 3 ≤ n) (hu : 0 ∉ username) (hd : 0 ∉ db) :
    Decodes (body n) (Connect.startupBody username db) [(user, username), (database, db)] := by
  obtain ⟨m, rfl⟩ := Nat.exists_eq_add_of_le' hn
  refine Decodes.bind (.integer (by decide)) ?_
  rw [if_pos rfl]
  apply decodes_parameter (by decide) (by decide) hu
  exact decodes_parameter (by decide) (by decide) hd decodes_end

-- What the server sees if there is no zero byte in the parameters.
theorem decodes_packet (hl : username.length + db.length + 25 < 2 ^ 32) (hu : 0 ∉ username) (hd : 0 ∉ db) :
    Decodes packet (toBigEndian 4 (username.length + db.length + 25) ++ Connect.startupBody username db)
      [(user, username), (database, db)] := by
  have hn : username.length + db.length + 25 = (Connect.startupBody username db).length + 4 := by
    rw [Connect.length_startupBody]
  have hb : 3 ≤ (Connect.startupBody username db).length := by omega
  have hf : (Connect.startupBody username db).length + 4 < 256 ^ 4 := by omega
  rw [packet, hn]
  refine Decodes.bind (.integer hf) ?_
  rw [if_neg (by omega), Nat.add_sub_cancel]
  exact (decodes_body hb hu hd).exactly

theorem decodes_passwordMessage (hl : password.length + 6 < 2 ^ 32) (hp : 0 ∉ password) :
    Decodes passwordMessage (frame (letter 'p') (password ++ [0])) password := by
  have hn : (password ++ [0]).length + 4 < 256 ^ 4 := by
    rw [List.length_append, List.length_singleton]
    omega
  have he : frame (letter 'p') (password ++ [0]) =
    [letter 'p'] ++ (toBigEndian 4 ((password ++ [0]).length + 4) ++ (password ++ [0])) := rfl
  rw [he]
  refine Decodes.bind (.take [letter 'p']) ?_
  refine Decodes.bind (.integer hn) ?_
  rw [if_neg (by simp), Nat.add_sub_cancel]
  exact (Decodes.string hp).exactly

-- The server sees the parameters and the password that it is meant to see if and only if there is no
-- zero byte in them.
theorem received_iff_zeroFree (h : username.length + password.length + db.length < 2 ^ 31) :
    ((Connect.startup username db).bind packet.whole = some [(user, username), (database, db)] ↔
      0 ∉ username ∧ 0 ∉ db) ∧
    ((Connect.cleartextPassword password).bind passwordMessage.whole = some password ↔ 0 ∉ password) := by
  rw [Connect.startup_eq_ite, if_pos (by omega), Option.bind_some, Connect.cleartextPassword_eq_ite,
    if_pos (by omega), Option.bind_some]
  constructor <;> constructor <;> intro hr
  case left.mp =>
    have hz := zero_notMem_of_packet (whole_eq_some.mp hr)
    exact ⟨(hz (user, username) (by simp)).2, (hz (database, db) (by simp)).2⟩
  case left.mpr  => exact (decodes_packet (by omega) hr.1 hr.2).whole
  case right.mp  => exact zero_notMem_of_passwordMessage (whole_eq_some.mp hr)
  case right.mpr => exact (decodes_passwordMessage (by omega) hr).whole

theorem received_iff_zeroFree_example :
    ((Connect.startup [97] [98]).bind packet.whole = some [(user, [97]), (database, [98])] ↔
      (0 : Byte) ∉ [97] ∧ (0 : Byte) ∉ [98]) ∧
    ((Connect.cleartextPassword [99]).bind passwordMessage.whole = some [99] ↔ (0 : Byte) ∉ [99]) :=
  received_iff_zeroFree (by decide)

-- A user name that names another parameter, too.
theorem not_received_injected : ¬∀ username password db : Bytes,
    username.length + password.length + db.length < 2 ^ 31 →
    (Connect.startup username db).bind packet.whole = some [(user, username), (database, db)] ∧
    (Connect.cleartextPassword password).bind passwordMessage.whole = some password := by
  intro h
  have ⟨hr, _⟩ := h [97, 0, 120, 0, 121] [] [98] (by decide)
  have ⟨bs, _, hr⟩ := Option.bind_eq_some_iff.mp hr
  have hz := zero_notMem_of_packet (whole_eq_some.mp hr)
  exact absurd (hz (user, [97, 0, 120, 0, 121]) (by simp)).2 (by decide)

end StartupPacket

end ChxSql.Postgresql
