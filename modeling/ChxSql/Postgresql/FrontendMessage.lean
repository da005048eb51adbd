import ChxSql.Incremental.Decoder
import ChxSql.Postgresql.Frame

namespace ChxSql.Postgresql

open Incremental Decoder

-- The messages of the client, as the server understands them. A parameter is missing if it is NULL.
inductive FrontendMessage where
  | parse (statement query : Bytes) (parameterTypes : List Nat)
  | bind (portal statement : Bytes) (parameterFormats : List Nat) (parameters : List (Option Bytes))
    (resultFormats : List Nat)
  | describe (kind : Byte) (name : Bytes)
  | execute (portal : Bytes) (limit : Nat)
  | sync
  deriving DecidableEq

namespace FrontendMessage

-- A list with its length before it.
def list {α : Type} (d : Decoder α) : Decoder (List α) := do
  let n ← integer 2
  Decoder.replicate d n

-- A parameter with its length before it, which is -1 if it is NULL.
def parameter : Decoder (Option Bytes) := do
  let n ← integer 4
  if n < 2 ^ 31 then
    some <$> take n
  else if n = 2 ^ 32 - 1 then
    return none
  else
    failure

def body (type : Byte) : Decoder FrontendMessage :=
  if type = letter 'P' then do
    let statement ← string
    let query ← string
    let parameterTypes ← list (integer 4)
    return parse statement query parameterTypes
  else if type = letter 'B' then do
    let portal ← string
    let statement ← string
    let parameterFormats ← list (integer 2)
    let parameters ← list parameter
    let resultFormats ← list (integer 2)
    return bind portal statement parameterFormats parameters resultFormats
  else if type = letter 'D' then do
    let kind ← take 1
    let name ← string
    return describe (kind.headD 0) name
  else if type = letter 'E' then do
    let portal ← string
    let limit ← integer 4
    return execute portal limit
  else if type = letter 'S' then
    return sync
  else
    failure

-- The body has to be of the length that comes before it.
def message : Decoder FrontendMessage := do
  let type ← take 1
  let length ← integer 4
  let bs ← if length < 4 then failure else take (length - 4)
  match (body (type.headD 0)).run bs with
  | some (m, []) => return m
  | _            => failure

-- The messages that some bytes consist of.
def receive (bs : Bytes) : Option (List FrontendMessage) :=
  go bs.length bs
where
  go : Nat → Bytes → Option (List FrontendMessage)
    | _,     []      => some []
    | 0,     _ :: _  => none
    | n + 1, b :: bs => do
      let (m, rest) ← message.run (b :: bs)
      let ms ← go n rest
      return m :: ms

-- The server understands the body of a message.
def Represents (f : Frame) (m : FrontendMessage) : Prop :=
  Decodes (body f.type) f.body m

variable {f : Frame} {m : FrontendMessage} {fs : List Frame} {ms : List FrontendMessage}

theorem Represents.decodes (h : Represents f m) : Decodes message f.encode m := by
  have hb : Decodes (if f.body.length + 4 < 4 then failure else take (f.body.length + 4 - 4))
      f.body f.body := by
    rw [if_neg (by omega), Nat.add_sub_cancel]
    exact .take f.body
  have hr : (body f.type).run f.body = some (m, []) := by
    have := h []
    rwa [List.append_nil] at this
  have hm : Decodes (match (body ([f.type].headD 0)).run f.body with
      | some (m, []) => return m
      | _            => failure) [] m := by
    rw [List.headD_cons, hr]
    exact .pure
  have he : f.encode = [f.type] ++ (toBigEndian 4 (f.body.length + 4) ++ (f.body ++ [])) := by
    rw [List.append_nil]
    rfl
  rw [he, message]
  refine Decodes.bind (.take [f.type]) ?_
  refine Decodes.bind (.integer f.fits) ?_
  exact Decodes.bind hb hm

theorem receive_go {n : Nat} (h : List.Forall₂ Represents fs ms) (hn : fs.length ≤ n) :
    receive.go n (Frame.encodeAll fs) = some ms := by
  induction h generalizing n
  case nil => rw [Frame.encodeAll_nil, receive.go]
  case cons f m fs ms hf _ ih =>
    cases n
    case zero => cases hn
    case succ n =>
      have hd := hf.decodes (Frame.encodeAll fs)
      rw [Frame.encodeAll_cons]
      cases hs : f.encode ++ Frame.encodeAll fs
      case nil         => exact absurd (List.append_eq_nil_iff.mp hs).left Frame.encode_ne_nil
      case cons b rest =>
        rw [hs] at hd
        rw [receive.go, hd]
        simp [ih (Nat.le_of_succ_le_succ hn)]

theorem length_le_encodeAll (fs : List Frame) : fs.length ≤ (Frame.encodeAll fs).length := by
  induction fs
  case nil => rfl
  case cons f fs ih =>
    have := List.length_pos_iff.mpr (Frame.encode_ne_nil (f := f))
    simp only [Frame.encodeAll_cons, List.length_append, List.length_cons]
    omega

-- The server takes messages one after another for what they represent.
theorem receive_frames (h : List.Forall₂ Represents fs ms) : receive (Frame.encodeAll fs) = some ms :=
  receive_go h (length_le_encodeAll fs)

end FrontendMessage

end ChxSql.Postgresql
