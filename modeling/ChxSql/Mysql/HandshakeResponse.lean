import ChxSql.Incremental.Decoder
import ChxSql.Incremental.Writer
import ChxSql.Mysql.Connection

namespace ChxSql.Mysql

open Incremental Decoder

-- The flag that tells that the length of the token is length-encoded.
def CapabilitiesFlags.clientPluginAuthLenencClientData : UInt32 := (1 : UInt32) <<< 21

-- The response to a greeting, as a server understands it. The database and the name of the plugin are
-- there if the flags say so.
structure HandshakeResponse41 where
  clientFlag       : UInt32
  maxPacketSize    : Nat
  characterSet     : Nat
  username         : Bytes
  authResponse     : Bytes
  database         : Option Bytes
  clientPluginName : Option Bytes
  deriving DecidableEq

namespace HandshakeResponse41

def lenencInteger : Decoder Nat := do
  let b ← littleEndian 1
  if b < 251 then
    return b
  else if b = 0xfc then
    littleEndian 2
  else if b = 0xfd then
    littleEndian 3
  else if b = 0xfe then
    littleEndian 8
  else
    failure

def payload : Decoder HandshakeResponse41 := do
  let clientFlag ← UInt32.ofNat <$> littleEndian 4
  let maxPacketSize ← littleEndian 4
  let characterSet ← littleEndian 1
  let _ ← take 23
  let username ← string
  let n ← if clientFlag &&& CapabilitiesFlags.clientPluginAuthLenencClientData ≠ 0 then
    lenencInteger else littleEndian 1
  let authResponse ← take n
  let database ← optional (clientFlag &&& CapabilitiesFlags.clientConnectWithDb ≠ 0) string
  let clientPluginName ← optional (clientFlag &&& CapabilitiesFlags.clientPluginAuth ≠ 0) string
  return { clientFlag, maxPacketSize, characterSet, username, authResponse, database, clientPluginName }

-- A packet with its sequence id.
def packet : Decoder (Nat × HandshakeResponse41) := do
  let length ← littleEndian 3
  let id ← littleEndian 1
  let response ← exactly length payload
  return (id, response)

end HandshakeResponse41

namespace Connection

open HandshakeResponse41 Writer

-- The first bytes of a buffer that is not to be read beyond its end.
def readBuffer (buffer : Bytes) (n : Nat) : Option Bytes :=
  if n ≤ buffer.length then some (buffer.take n) else none

-- What `do_handshake_response` writes to its buffer, if it neither reads nor writes beyond the end of
-- a buffer and no assertion fails.
def writeHandshakeResponse (sha1 : Sha1) (param : ConnectParameters) (packet : HandshakeV10Packet)
    (id : UInt8) : Option (Writer Byte) := do
  guard (sha1.ndebug ∨ 9 < packet.authPluginDataLen.toNat)
  let payloadLength := payloadLength param
  let ptr ← (Writer.ofLength 0 (4 + payloadLength)).put (toLittleEndian 3 payloadLength)
  let ptr ← ptr.put [id]
  let ptr ← ptr.put (toLittleEndian 4 (clientFlag param.database).toNat)
  let ptr ← ptr.put (toLittleEndian 4 0xffffff)
  let ptr ← ptr.put [0x21]
  let ptr ← ptr.skip 23
  let ptr ← ptr.put param.username
  let ptr ← ptr.put [0]
  let ptr ← ptr.put [20]
  let nonce₁ ← readBuffer packet.authPluginDataPart1 8
  let nonce₂ ← readBuffer packet.authPluginDataPart2
    (UInt32.ofNat packet.authPluginDataLen.toNat - 9).toNat
  let pw ← generatePw sha1 nonce₁ nonce₂ param.password
  let ptr ← ptr.put pw.toList
  let ptr ← if param.database ≠ [] then ptr.put param.database >>= (·.put [0]) else pure ptr
  let ptr ← ptr.put pluginName
  let ptr ← ptr.put [0]
  guard (sha1.ndebug ∨ ptr.ptr = ptr.raw.length)
  return ptr

variable {sha1 : Sha1} {param : ConnectParameters} {packet : HandshakeV10Packet} {id : UInt8}

-- The pieces of the response.
def pieces (param : ConnectParameters) (id : UInt8) (pw : Digest) : List (Piece Byte) := [
  .put (toLittleEndian 3 (payloadLength param)), .put [id],
  .put (toLittleEndian 4 (clientFlag param.database).toNat), .put (toLittleEndian 4 0xffffff), .put [0x21],
  .skip 23, .put param.username, .put [0], .put [20], .put pw.toList] ++
  (if param.database ≠ [] then [.put param.database, .put [0]] else []) ++ [.put pluginName, .put [0]]

theorem content_pieces (pw : Digest) :
    (pieces param id pw).flatMap (·.content 0) = handshakeResponse param id pw := by
  rw [pieces, handshakeResponse]
  split <;> simp [Piece.content]

theorem writeAll_pieces (pw : Digest) :
    (Writer.ofLength 0 (4 + payloadLength param)).writeAll (pieces param id pw) =
      some (filled 0 (handshakeResponse param id pw) 0) := by
  have hl : ((pieces param id pw).flatMap (·.content 0)).length = 4 + payloadLength param := by
    rw [content_pieces, length_handshakeResponse]
  rw [ofLength_eq_filled, writeAll_filled [] (Nat.le_of_eq hl), hl, content_pieces, Nat.sub_self]
  rfl

-- The buffers of an accepted packet hold what is read of them, and the response fills its buffer.
theorem writeHandshakeResponse_eq (h : packet.Lengths) {pw : Digest}
    (hp : generatePw sha1 packet.authPluginDataPart1
      (packet.authPluginDataPart2.take (packet.authPluginDataLen.toNat - 9)) param.password = some pw) :
    writeHandshakeResponse sha1 param packet id = some (filled 0 (handshakeResponse param id pw) 0) := by
  have h₁ : readBuffer packet.authPluginDataPart1 8 = some packet.authPluginDataPart1 := by
    rw [readBuffer, if_pos h.part1.ge, List.take_of_length_le h.part1.le]
  have hl : (UInt32.ofNat packet.authPluginDataLen.toNat - 9).toNat = packet.authPluginDataLen.toNat - 9 := by
    have := h.len
    have := packet.authPluginDataLen.toNat_lt
    rw [UInt32.toNat_sub_of_le _ _ (by rw [UInt32.le_iff_toNat_le, UInt32.toNat_ofNat']; simp; omega),
      UInt32.toNat_ofNat', Nat.mod_eq_of_lt (by omega)]
    rfl
  have h₂ : readBuffer packet.authPluginDataPart2 (packet.authPluginDataLen.toNat - 9) =
      some (packet.authPluginDataPart2.take (packet.authPluginDataLen.toNat - 9)) := by
    rw [readBuffer, if_pos (by rw [h.part2]; omega)]
  have he : writeHandshakeResponse sha1 param packet id =
      (Writer.ofLength 0 (4 + payloadLength param)).writeAll (pieces param id pw) >>= fun ptr => do
        guard (sha1.ndebug ∨ ptr.ptr = ptr.raw.length)
        return ptr := by
    rw [writeHandshakeResponse, guard, if_pos (.inr h.len), pieces]
    split_ifs
    all_goals
      simp only [h₁, hl, h₂, hp, writeAll, Piece.write, List.cons_append, List.nil_append,
        List.foldlM_cons, List.foldlM_nil, Option.pure_def, Option.bind_eq_bind, Option.bind_some,
        Option.bind_assoc]
  rw [he, writeAll_pieces]
  simp [filled, guard]

-- What the server is to make of the response.
def response (param : ConnectParameters) (t : Digest) : HandshakeResponse41 where
  clientFlag       := clientFlag param.database
  maxPacketSize    := 0xffffff
  characterSet     := 0x21
  username         := param.username
  authResponse     := t.toList
  database         := if param.database ≠ [] then some param.database else none
  clientPluginName := some pluginName

theorem clientFlag_lenenc (database : Bytes) :
    clientFlag database &&& CapabilitiesFlags.clientPluginAuthLenencClientData ≠ 0 := by
  rw [clientFlag]
  split <;> decide

theorem clientFlag_pluginAuth (database : Bytes) :
    clientFlag database &&& CapabilitiesFlags.clientPluginAuth ≠ 0 := by
  rw [clientFlag]
  split <;> decide

theorem clientFlag_connectWithDb (database : Bytes) :
    clientFlag database &&& CapabilitiesFlags.clientConnectWithDb ≠ 0 ↔ database ≠ [] := by
  rw [clientFlag]
  split
  case isTrue h  => exact iff_of_true (by decide) h
  case isFalse h => exact iff_of_false (by decide) h

theorem decodes_lenencInteger : Decodes HandshakeResponse41.lenencInteger (toLittleEndian 1 20) 20 :=
  Decodes.bind (.littleEndian (k := 1) (n := 20) (by decide)) (.pure (a := 20))

-- The payload of the response.
def responsePayload (param : ConnectParameters) (t : Digest) : Bytes :=
  toLittleEndian 4 (clientFlag param.database).toNat ++ (toLittleEndian 4 0xffffff ++
    (toLittleEndian 1 0x21 ++ (List.replicate 23 0 ++ (param.username ++ [0] ++ (toLittleEndian 1 20 ++
    (t.toList ++ ((if param.database ≠ [] then param.database ++ [0] else []) ++ (pluginName ++ [0]))))))))

theorem handshakeResponse_eq (t : Digest) : handshakeResponse param id t =
    toLittleEndian 3 (payloadLength param) ++ (toLittleEndian 1 id.toNat ++ responsePayload param t) := by
  simp [handshakeResponse, responsePayload, toLittleEndian]

theorem length_responsePayload (t : Digest) : (responsePayload param t).length = payloadLength param := by
  have hl := length_handshakeResponse param 0 t
  rw [handshakeResponse_eq, List.length_append, List.length_append, toLittleEndian_length,
    toLittleEndian_length] at hl
  omega

theorem decodes_payload (t : Digest) (hu : 0 ∉ param.username) (hd : 0 ∉ param.database) :
    Decodes payload (responsePayload param t) (response param t) := by
  have hf : Decodes (UInt32.ofNat <$> littleEndian 4) (toLittleEndian 4 (clientFlag param.database).toNat)
      (clientFlag param.database) := by
    have := (Decodes.littleEndian (k := 4) (clientFlag param.database).toNat_lt).map UInt32.ofNat
    rwa [UInt32.ofNat_toNat] at this
  have hz := Decodes.take (List.replicate 23 (0 : Byte))
  have ht := Decodes.take t.toList
  rw [List.length_replicate] at hz
  rw [Vector.length_toList] at ht
  have hdb := Decodes.optional (c := clientFlag param.database &&& CapabilitiesFlags.clientConnectWithDb ≠ 0)
    fun _ => Decodes.string hd
  have hp := Decodes.optional (c := clientFlag param.database &&& CapabilitiesFlags.clientPluginAuth ≠ 0)
    fun _ => Decodes.string (show 0 ∉ pluginName by decide)
  simp only [clientFlag_connectWithDb, if_pos (clientFlag_pluginAuth param.database)] at hdb hp
  refine hf.bind ?_
  refine (Decodes.littleEndian (by decide)).bind ?_
  refine (Decodes.littleEndian (by decide)).bind ?_
  refine hz.bind ?_
  refine (Decodes.string hu).bind ?_
  rw [if_pos (clientFlag_lenenc _)]
  refine decodes_lenencInteger.bind ?_
  refine ht.bind ?_
  refine hdb.bind ?_
  exact hp.bind_pure

theorem whole_handshakeResponse (t : Digest) (hu : 0 ∉ param.username) (hd : 0 ∉ param.database)
    (hl : payloadLength param < 2 ^ 24) :
    HandshakeResponse41.packet.whole (handshakeResponse param id t) = some (id.toNat, response param t) := by
  have he := (decodes_payload t hu hd).exactly
  rw [length_responsePayload] at he
  rw [handshakeResponse_eq]
  apply Decodes.whole
  refine (Decodes.littleEndian hl).bind ?_
  refine (Decodes.littleEndian id.toNat_lt).bind ?_
  exact he.bind_pure

def xor (a b : Digest) : Digest :=
  a.zipWith (· ^^^ ·) b

theorem xor_xor_cancel (a b : Digest) : xor (xor a b) b = a := by
  ext i hi
  simp [xor]

def zeros : Digest :=
  .replicate 20 0

def ones : Digest :=
  .replicate 20 1

theorem xor_zeros : xor zeros zeros = zeros := by
  ext i hi
  simp [xor, zeros]

theorem zeros_ne_ones : zeros ≠ ones := by
  intro h
  have h₀ : zeros[0] = ones[0] := by rw [h]
  simp [zeros, ones] at h₀

-- The first bytes of the two parts of the challenge joined.
def nonce (packet : HandshakeV10Packet) : Bytes :=
  (packet.authPluginDataPart1 ++ packet.authPluginDataPart2).take (packet.authPluginDataLen.toNat - 1)

theorem nonce_eq (h : packet.Lengths) : nonce packet =
    packet.authPluginDataPart1 ++ packet.authPluginDataPart2.take (packet.authPluginDataLen.toNat - 9) := by
  have := h.len
  rw [nonce, List.take_append, List.take_of_length_le (by rw [h.part1]; omega), h.part1]
  rfl

theorem length_nonce (h : packet.Lengths) : (nonce packet).length = packet.authPluginDataLen.toNat - 1 := by
  have := h.len
  have := h.part1
  have := h.part2
  rw [nonce, List.length_take, List.length_append]
  omega

-- `hash` stands for SHA1, which has a digest for everything.
variable (hash : Bytes → Digest)

-- The token is the one that the server expects.
def Matches (nonce password : Bytes) (t : Digest) : Prop :=
  xor t (hash (nonce ++ (hash (hash password).toList).toList)) = hash password

def total (ndebug : Bool) : Sha1 where
  digest bs := some (hash bs)
  ndebug    := ndebug

-- The token with assertions and without them.
def token (ndebug : Bool) (nonce password : Bytes) : Digest :=
  if ndebug then
    zeros
  else
    let password := password.take (password.length % 2 ^ 32)
    xor (hash password) (hash (nonce ++ (hash (hash password).toList).toList))

theorem generatePw_total (ndebug : Bool) (nonce₁ nonce₂ password : Bytes) :
    generatePw (total hash ndebug) nonce₁ nonce₂ password =
      some (token hash ndebug (nonce₁ ++ nonce₂) password) := by
  cases ndebug
  case false => rfl
  case true  => exact congrArg some xor_zeros

variable {hash} {password nonce : Bytes}

theorem matches_token (h : password.length < 2 ^ 32) : Matches hash nonce password
    (token hash false nonce password) := by
  rw [Matches, token, if_neg (by decide), Nat.mod_eq_of_lt h, List.take_length]
  exact xor_xor_cancel ..

-- With a password that is too long another one is hashed.
theorem exists_mismatch_long (h : 2 ^ 32 ≤ password.length) (hn : nonce.length < 2 ^ 31) :
    ∃ hash, ¬Matches hash nonce password (token hash false nonce password) := by
  have hd (d : Digest) : d.toList ≠ password := by
    intro he
    rw [← he, Vector.length_toList] at h
    omega
  have hnd (d : Digest) : nonce ++ d.toList ≠ password := by
    intro he
    rw [← he, List.length_append, Vector.length_toList] at h
    omega
  have ht : password.take (password.length % 2 ^ 32) ≠ password := by
    intro he
    have := congrArg List.length he
    rw [List.length_take] at this
    omega
  refine ⟨fun bs => if bs = password then ones else zeros, ?_⟩
  simp only [Matches, token, ht, hd, hnd, xor_zeros, if_true, if_false, Bool.false_eq_true]
  exact zeros_ne_ones

-- Without assertions nothing is hashed.
theorem exists_mismatch_ndebug (password : Bytes) (hn : 9 ≤ nonce.length) :
    ∃ hash, ¬Matches hash nonce password (token hash true nonce password) := by
  -- A digest that does not make the password out of the challenge.
  have ⟨b, hb⟩ : ∃ b : Digest, nonce ++ b.toList ≠ password := by
    by_cases hz : nonce ++ zeros.toList = password
    case neg => exact ⟨zeros, hz⟩
    case pos =>
      refine ⟨ones, fun ho => ?_⟩
      exact absurd (List.append_cancel_left (ho.trans hz.symm)) (by decide)
  have hl (d : Digest) : (nonce ++ d.toList).length ≠ 20 := by
    rw [List.length_append, Vector.length_toList]
    omega
  refine ⟨fun bs => if bs = password then ones else if bs.length = 20 then b else zeros, ?_⟩
  by_cases ho : ones.toList = password
  case pos =>
    subst ho
    have hne (d : Digest) : nonce ++ d.toList ≠ ones.toList := by
      intro he
      exact hl d (by rw [he, Vector.length_toList])
    simp only [Matches, token, hne, hl, xor_zeros, if_true, if_false]
    exact zeros_ne_ones
  case neg =>
    simp only [Matches, token, ho, hb, hl, xor_zeros, Vector.length_toList, if_true, if_false]
    exact zeros_ne_ones

-- What `do_handshake_response` does with an accepted packet: it stays within its buffers, it fills the
-- one that it sends, and the server finds in it what it needs.
structure Responds (hash : Bytes → Digest) (ndebug : Bool) (param : ConnectParameters)
    (packet : HandshakeV10Packet) (w : Writer Byte) (t : Digest) : Prop where
  written  : writeHandshakeResponse (total hash ndebug) param packet 1 = some w
  full     : w.ptr = w.raw.length
  sent     : ∀ s, s.nextSequenceId = 1 → doHandshakeResponse (total hash ndebug) param packet s = (.success,
    { s with clientCap := clientFlag param.database, nextSequenceId := 2, raw := w.raw })
  received : HandshakeResponse41.packet.whole w.raw = some (1, response param t)
  token    : Matches hash (Connection.nonce packet) param.password t

variable (ndebug : Bool) {cs unfed : List Bytes} {left : Bytes}

theorem responds_iff_matches (hash : Bytes → Digest) (hl : packet.Lengths) (hn : packet.authPluginName = pluginName)
    (hu : 0 ∉ param.username) (hd : 0 ∉ param.database) (hp : payloadLength param < 2 ^ 24) :
    (∃ w t, Responds hash ndebug param packet w t) ↔ Matches hash (Connection.nonce packet) param.password
      (Connection.token hash ndebug (Connection.nonce packet) param.password) := by
  have hg := generatePw_total hash ndebug packet.authPluginDataPart1
    (packet.authPluginDataPart2.take (packet.authPluginDataLen.toNat - 9)) param.password
  rw [← nonce_eq hl] at hg
  generalize Connection.token hash ndebug (Connection.nonce packet) param.password = pw at hg ⊢
  have hw : writeHandshakeResponse _ param packet 1 = _ := writeHandshakeResponse_eq hl hg
  have hr : HandshakeResponse41.packet.whole (handshakeResponse param 1 pw) = some (1, response param pw) :=
    whole_handshakeResponse pw hu hd hp
  constructor <;> intro h
  case mp =>
    obtain ⟨w, t, h⟩ := h
    have hf := h.written
    have hv := h.received
    rw [hw, Option.some.injEq] at hf
    rw [← hf, raw_filled, hr, Option.some.injEq, Prod.mk.injEq] at hv
    have ht : pw = t := Vector.toList_inj.mp (congrArg (·.authResponse) hv.2)
    exact ht ▸ h.token
  case mpr =>
    refine ⟨_, pw, hw, by simp, fun s hs => ?_, by rwa [raw_filled], h⟩
    simp only [doHandshakeResponse, hn, ne_eq, not_true, if_false, hg, hs, raw_filled]
    rfl

-- The packets are those that the parser accepts, in any chunks.
theorem responds_iff (ha : feed HandshakeV10Packet.Parser.parse {} cs = (.done packet left, unfed))
    (hn : packet.authPluginName = pluginName) (hu : 0 ∉ param.username) (hd : 0 ∉ param.database)
    (hp : payloadLength param < 2 ^ 24) :
    (∀ hash, ∃ w t, Responds hash ndebug param packet w t) ↔
      ndebug = false ∧ param.password.length < 2 ^ 32 := by
  have ⟨_, hd'⟩ := HandshakeV10Packet.Parser.resumable.feed_done_iff.mp ⟨left, unfed, ha, rfl⟩
  have hl : packet.Lengths := HandshakeV10Packet.Parser.parse_lengths hd'
  have hlen := length_nonce hl
  have hlt := packet.authPluginDataLen.toNat_lt
  have hgt := hl.len
  simp only [responds_iff_matches ndebug _ hl hn hu hd hp]
  constructor <;> intro h
  case mp =>
    cases ndebug
    case true =>
      have ⟨hash, hm⟩ := exists_mismatch_ndebug param.password (show 9 ≤ (Connection.nonce packet).length by omega)
      exact absurd (h hash) hm
    case false =>
      refine ⟨rfl, ?_⟩
      by_contra hg
      have ⟨hash, hm⟩ := exists_mismatch_long (Nat.le_of_not_lt hg)
        (show (Connection.nonce packet).length < 2 ^ 31 by omega)
      exact absurd (h hash) hm
  case mpr =>
    obtain ⟨rfl, hlt⟩ := h
    exact fun hash => matches_token hlt

-- The greeting of a server that has all flags.
def greeting : HandshakeV10Packet.Greeting where
  serverVersion       := [56]
  authPluginDataPart1 := List.replicate 8 1
  capabilityFlags1    := 0xffff
  capabilityFlags2    := 0xffff
  authPluginDataLen   := 21
  authPluginDataPart2 := List.replicate 13 2
  authPluginName      := pluginName

theorem feed_greeting : feed HandshakeV10Packet.Parser.parse {} [greeting.encode] =
    (.done greeting.toHandshakeV10Packet [], []) := by
  have hp : ({} : HandshakeV10Packet.Parser).parse greeting.encode = _ :=
    HandshakeV10Packet.Greeting.parse_encode (by constructor <;> decide) (by decide)
  rw [feed, hp]

theorem responds_iff_greeting :
    (∀ hash, ∃ w t, Responds hash false ⟨[117], [112], [100]⟩ greeting.toHandshakeV10Packet w t) ↔
      false = false ∧ ([112] : Bytes).length < 2 ^ 32 :=
  responds_iff false feed_greeting rfl (by decide) (by decide) (by decide)

theorem not_responds_ndebug : ¬∀ (hash : Bytes → Digest) (ndebug : Bool) (param : ConnectParameters)
    (packet : HandshakeV10Packet) (cs : List Bytes) (left : Bytes) (unfed : List Bytes),
    feed HandshakeV10Packet.Parser.parse {} cs = (.done packet left, unfed) →
    packet.authPluginName = pluginName → 0 ∉ param.username → 0 ∉ param.database →
    payloadLength param < 2 ^ 24 → ∃ w t, Responds hash ndebug param packet w t := by
  intro h
  have hl : greeting.toHandshakeV10Packet.Lengths := by constructor <;> decide
  have ⟨hash, hm⟩ := exists_mismatch_ndebug [112]
    (show 9 ≤ (Connection.nonce greeting.toHandshakeV10Packet).length by decide)
  have hr := h hash true ⟨[117], [112], [100]⟩ _ _ _ _ feed_greeting rfl (by decide) (by decide) (by decide)
  exact hm ((responds_iff_matches true hash hl rfl (by decide) (by decide) (by decide)).mp hr)

end Connection

end ChxSql.Mysql
