import ChxSql.Incremental.Writer
import ChxSql.Postgresql.Msg.Status

namespace ChxSql.Postgresql

open Incremental Msg

-- Integer types are distinguished by their size.
def integerToNetwork (size v : Nat) (dest : Writer Byte) : Option (Writer Byte) :=
  dest.put (toBigEndian size v)

def stringToNetwork (s : Bytes) (dest : Writer Byte) : Option (Writer Byte) := do
  let dest ← dest.put s
  dest.put [0]

-- The `assert` that the buffer has been written up to its end.
def assertFull (ptr : Writer Byte) : Option Unit :=
  guard (ptr.ptr = ptr.raw.length)

-- A parameter of a statement is a string or a number, for which there is `std::to_string`.
inductive Param (α : Type) where
  | string (s : Bytes)
  | arithmetic (v : α)
  deriving DecidableEq

section

variable {α : Type} (toString : α → Bytes)

def Param.text : Param α → Bytes
  | string s     => s
  | arithmetic v => toString v

def encodeParam (p : Param α) : Bytes :=
  toBigEndian 4 (p.text toString).length ++ p.text toString

-- The header, the parameters and the tail are sent one after another.
def createBindMsg (preparedStatementName : Bytes) (tp : List (Param α)) : Option Bytes := do
  let body := tp.flatMap (encodeParam toString)
  let bodySz := UInt32.ofNat body.length
  let headerLen := UInt32.ofNat (5 + 1 + preparedStatementName.length + 1 + 2 + 2)
  let ptr ← (Writer.ofLength 0 headerLen.toNat).put [letter 'B']
  let ptr ← integerToNetwork 4 (headerLen - 1 + bodySz + 2).toNat ptr
  let ptr ← ptr.skip 1
  let ptr ← stringToNetwork preparedStatementName ptr
  let ptr ← ptr.skip 2
  let ptr ← integerToNetwork 2 tp.length ptr
  assertFull ptr
  return ptr.raw ++ body ++ [0, 0]

end

def createDESMsg : Option Bytes := do
  let ptr ← (Writer.ofLength 0 (7 + 10 + 5)).put [letter 'D']
  let ptr ← integerToNetwork 4 6 ptr
  let ptr ← ptr.put [letter 'P']
  let ptr ← ptr.skip 1
  let ptr ← ptr.put [letter 'E']
  let ptr ← integerToNetwork 4 9 ptr
  let ptr ← ptr.skip 5
  let ptr ← ptr.put [letter 'S']
  let ptr ← integerToNetwork 4 4 ptr
  return ptr.raw

def createParseMsg (pattern : Bytes) : Option Bytes := do
  let pLen := UInt32.ofNat (5 + 1 + pattern.length + 1 + 2)
  let ptr ← (Writer.ofLength 0 pLen.toNat).put [letter 'P']
  let ptr ← integerToNetwork 4 (pLen - 1).toNat ptr
  let ptr ← ptr.skip 1
  let ptr ← stringToNetwork pattern ptr
  let ptr ← ptr.skip 2
  return ptr.raw

-- What `async_parse` sends.
def ParseQuery.request (patternName pattern : Bytes) : Option Bytes := do
  let pLen := UInt32.ofNat (5 + patternName.length + pattern.length + 2 + 2)
  let rawLen := pLen + 5
  let ptr ← (Writer.ofLength 0 rawLen.toNat).put [letter 'P']
  let ptr ← integerToNetwork 4 (pLen - 1).toNat ptr
  let ptr ← stringToNetwork patternName ptr
  let ptr ← stringToNetwork pattern ptr
  let ptr ← ptr.skip 2
  let ptr ← ptr.put [letter 'S']
  let ptr ← integerToNetwork 4 4 ptr
  assertFull ptr
  return ptr.raw

-- What `async_simple_query` sends.
def SimpleQuery.request (query : Bytes) : Option Bytes := do
  let rawSz := UInt32.ofNat (5 + query.length + 1)
  let ptr ← (Writer.ofLength 0 rawSz.toNat).put [letter 'Q']
  let ptr ← integerToNetwork 4 (rawSz - 1).toNat ptr
  let ptr ← stringToNetwork query ptr
  assertFull ptr
  return ptr.raw

-- What `connect_operation` sends first. The last byte of the buffer stays zero.
def Connect.startup (username database : Bytes) : Option Bytes := do
  let rawSz := UInt32.ofNat (4 + 4 + 5 + username.length + 1 + 9 + database.length + 1 + 1)
  let ptr ← integerToNetwork 4 rawSz.toNat (Writer.ofLength 0 rawSz.toNat)
  let ptr ← integerToNetwork 4 196608 ptr
  let ptr ← stringToNetwork (['u', 's', 'e', 'r'].map letter) ptr
  let ptr ← stringToNetwork username ptr
  let ptr ← stringToNetwork (['d', 'a', 't', 'a', 'b', 'a', 's', 'e'].map letter) ptr
  let ptr ← stringToNetwork database ptr
  guard (ptr.ptr + 1 = rawSz.toNat)
  return ptr.raw

-- What it sends when the server wants a password.
def Connect.cleartextPassword (password : Bytes) : Option Bytes := do
  let rawSz := UInt32.ofNat (5 + password.length + 1)
  let ptr ← (Writer.ofLength 0 rawSz.toNat).put [letter 'p']
  let ptr ← integerToNetwork 4 (rawSz - 1).toNat ptr
  let ptr ← stringToNetwork password ptr
  assertFull ptr
  return ptr.raw

section

variable {α : Type} (toString : α → Bytes)

-- What `async_execute` sends.
def Execute.request (preparedStatementName : Bytes) (params : List (Param α)) : Option Bytes := do
  let bind ← createBindMsg toString preparedStatementName params
  let des ← createDESMsg
  return bind ++ des

-- What `async_execute_oneshot` sends.
def Oneshot.request (sql : Bytes) (params : List (Param α)) : Option Bytes := do
  let parse ← createParseMsg sql
  let bind ← createBindMsg toString [] params
  let des ← createDESMsg
  return parse ++ bind ++ des

end

end ChxSql.Postgresql
