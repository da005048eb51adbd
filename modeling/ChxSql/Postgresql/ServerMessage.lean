import ChxSql.Postgresql.Frame

namespace ChxSql.Postgresql

open Incremental Msg

-- What a server says, as opposed to how it is written down.
inductive Content where
  | parseComplete
  | bindComplete
  | noData
  | emptyQueryResponse
  | rowDescription (cols : List ColumnDescription)
  | dataRow (cells : Cells)
  | commandComplete (tag : Bytes)
  | readyForQuery (status : Byte)
  | errorResponse (fields : Fields)
  | noticeResponse (fields : Fields)
  | parameterStatus (name value : Bytes)
  | backendKeyData (processId secretKey : Bytes)
  | authentication (method : AuthenticationMethod) (data : Bytes)
  deriving DecidableEq

namespace Content

def type : Content → Byte
  | parseComplete      => letter '1'
  | bindComplete       => letter '2'
  | noData             => letter 'n'
  | emptyQueryResponse => letter 'I'
  | rowDescription _   => letter 'T'
  | dataRow _          => letter 'D'
  | commandComplete _  => letter 'C'
  | readyForQuery _    => letter 'Z'
  | errorResponse _    => letter 'E'
  | noticeResponse _   => letter 'N'
  | parameterStatus .. => letter 'S'
  | backendKeyData ..  => letter 'K'
  | authentication ..  => letter 'R'

def body : Content → Bytes
  | parseComplete                      => []
  | bindComplete                       => []
  | noData                             => []
  | emptyQueryResponse                 => []
  | rowDescription cols                => RowDescription.encode cols
  | dataRow cells                      => DataRow.encode cells
  | commandComplete tag                => tag ++ [0]
  | readyForQuery status               => [status]
  | errorResponse fields               => fields.encode
  | noticeResponse fields              => fields.encode
  | parameterStatus name value         => name ++ 0 :: (value ++ [0])
  | backendKeyData processId secretKey => processId ++ secretKey
  | authentication method data         => toBigEndian 4 method.value ++ data

-- What can be written down at all. An authentication request has as much data as its method asks
-- for.
def Valid : Content → Prop
  | rowDescription cols                => (∀ d ∈ cols, d.WellFormed) ∧ cols.length < 256 ^ 2
  | dataRow cells                      => cells.length < 256 ^ 2
  | commandComplete tag                => 0 ∉ tag
  | readyForQuery status               => ReadyForQuery.IsStatus status
  | errorResponse fields               => fields.WellFormed
  | noticeResponse fields              => fields.WellFormed
  | parameterStatus name value         => 0 ∉ name ∧ 0 ∉ value
  | backendKeyData processId secretKey => processId.length = 4 ∧ secretKey.length = 4
  | authentication .md5Password data   => data.length = 4
  | authentication .sasl _             => True
  | authentication _ data              => data = []
  | _                                  => True

instance : DecidablePred Valid
  | rowDescription cols   => inferInstanceAs (Decidable ((∀ d ∈ cols, d.WellFormed) ∧ _))
  | dataRow cells         => inferInstanceAs (Decidable (cells.length < 256 ^ 2))
  | commandComplete tag   => inferInstanceAs (Decidable (0 ∉ tag))
  | readyForQuery status  => inferInstanceAs (Decidable (ReadyForQuery.IsStatus status))
  | errorResponse fields  => inferInstanceAs (Decidable fields.WellFormed)
  | noticeResponse fields => inferInstanceAs (Decidable fields.WellFormed)
  | parameterStatus name value => inferInstanceAs (Decidable (0 ∉ name ∧ 0 ∉ value))
  | backendKeyData processId secretKey =>
    inferInstanceAs (Decidable (processId.length = 4 ∧ secretKey.length = 4))
  | authentication .md5Password data => inferInstanceAs (Decidable (data.length = 4))
  | authentication .sasl _           => inferInstanceAs (Decidable True)
  | authentication .trustOrFinished data | authentication .kerberosV5 data
  | authentication .cleartextPassword data | authentication .gss data
  | authentication .sspi data        => inferInstanceAs (Decidable (data = []))
  | parseComplete | bindComplete | noData | emptyQueryResponse => inferInstanceAs (Decidable True)

end Content

-- A well-formed message of the server.
structure ServerMessage where
  content : Content
  valid   : content.Valid
  fits    : content.body.length + 4 < 256 ^ 4

namespace ServerMessage

def frame (m : ServerMessage) : Frame :=
  ⟨m.content.type, m.content.body, m.fits⟩

def frames (ms : List ServerMessage) : List Frame :=
  ms.map frame

@[simp]
theorem frames_cons {m : ServerMessage} {ms : List ServerMessage} :
    frames (m :: ms) = m.frame :: frames ms := rfl

@[simp]
theorem frames_append {ms ms' : List ServerMessage} : frames (ms ++ ms') = frames ms ++ frames ms' :=
  List.map_append

-- The bytes of a list of messages.
def encode (ms : List ServerMessage) : Bytes :=
  Frame.encodeAll (frames ms)

@[simp]
theorem encode_append {ms ms' : List ServerMessage} : encode (ms ++ ms') = encode ms ++ encode ms' := by
  simp [encode, frames]

@[simp]
theorem encode_nil : encode [] = [] := rfl

-- Messages without data.
def parseComplete : ServerMessage := ⟨.parseComplete, trivial, by decide⟩
def bindComplete : ServerMessage := ⟨.bindComplete, trivial, by decide⟩
def noData : ServerMessage := ⟨.noData, trivial, by decide⟩
def readyForQuery : ServerMessage := ⟨.readyForQuery (letter 'I'), by decide, by decide⟩

-- The description of a row with one column.
def oneColumn : ServerMessage := ⟨.rowDescription [{ fieldName := [97] }], by decide, by decide⟩

end ServerMessage

end ChxSql.Postgresql
