import ChxSql.Incremental.Step
import ChxSql.Incremental.Loop
import ChxSql.Incremental.Bytes
import ChxSql.Incremental.Chunks
import ChxSql.Incremental.Fill
import ChxSql.Postgresql.BasicType
import ChxSql.Postgresql.BasicParser
import ChxSql.Postgresql.ErrorCode
import ChxSql.Postgresql.Msg.Status
import ChxSql.Postgresql.Msg.ErrorResponse
import ChxSql.Postgresql.Msg.Row
import ChxSql.Postgresql.Msg.Any
import ChxSql.Postgresql.Dialogue
import ChxSql.Postgresql.Frame
import ChxSql.Postgresql.Execute
import ChxSql.Postgresql.Oneshot
import ChxSql.Postgresql.ParseQuery
import ChxSql.Postgresql.SimpleQuery
import ChxSql.Postgresql.MessageParser
import ChxSql.Postgresql.Connect
import ChxSql.Postgresql.Operation
import ChxSql.Postgresql.ServerMessage
import ChxSql.Postgresql.ExtendedQuery
import ChxSql.Postgresql.ExecuteLanguage
import ChxSql.Postgresql.ExecuteAnswers
import ChxSql.Postgresql.Session
import ChxSql.Postgresql.Startup
import ChxSql.Mysql.BasicTypes
import ChxSql.Mysql.LengthEncoded
import ChxSql.Mysql.Packets.ColumnDefinition41
import ChxSql.Mysql.Packets.Err
import ChxSql.Mysql.Packets.Ok
import ChxSql.Mysql.BasicPacket
import ChxSql.Mysql.Packets.Resultset
import ChxSql.Mysql.ComQuery
import ChxSql.Mysql.Query
import ChxSql.Mysql.PacketSequence
import ChxSql.Mysql.TextResultset
import ChxSql.Mysql.QueryInvariant
import ChxSql.Postgresql.Msg.RowInvariant
import ChxSql.Postgresql.OneshotSimulation
import ChxSql.Postgresql.Asynchronous
import ChxSql.Postgresql.QuerySafety
import ChxSql.Postgresql.StartupAsynchronous
import ChxSql.Postgresql.Framing
import ChxSql.Postgresql.Msg.ErrorFields
import ChxSql.Postgresql.ErrorReporting
import ChxSql.Postgresql.SimpleQueryAnswers
import ChxSql.Hiredis.Connection
import ChxSql.Hiredis.Interest
import ChxSql.Postgresql.OneshotOperation
import ChxSql.Postgresql.OneshotResponse
import ChxSql.Postgresql.OneshotCompletion
import ChxSql.Incremental.Decoder
import ChxSql.Incremental.Writer
import ChxSql.Postgresql.FrontendMessage
import ChxSql.Postgresql.CreateMsg
import ChxSql.Postgresql.Requests
import ChxSql.Mysql.LargePayloads
import ChxSql.Mysql.ChainedResults
import ChxSql.Mysql.Packets.HandshakeV10
import ChxSql.Mysql.Connection
import ChxSql.Mysql.ServerVerdict
import ChxSql.Incremental.Reading
import ChxSql.Mysql.IntegerRoundTrip
import ChxSql.Mysql.HandshakeDecoding
import ChxSql.Mysql.OkDecoding
import ChxSql.Mysql.RowLanguage
import ChxSql.Postgresql.Buffers
import ChxSql.Postgresql.StartupPacket
import ChxSql.Mysql.HandshakeResponse
import ChxSql.Postgresql.VariantParser
import ChxSql.Postgresql.AuthenticationRequest
import ChxSql.Postgresql.RowExactness
import ChxSql.Ownership.Heap
import ChxSql.Pq.AsyncExec
import ChxSql.Pq.LastResult
import ChxSql.Incremental.Passage
import ChxSql.Mysql.PacketOperation
import ChxSql.Mysql.Transparency
import ChxSql.Incremental.Fuel
import ChxSql.Postgresql.Termination
import ChxSql.Incremental.Conversation
import ChxSql.Mysql.Answer
import ChxSql.Mysql.Session
import ChxSql.Postgresql.Backend
import ChxSql.Postgresql.Answers
import ChxSql.Incremental.Pausing
import ChxSql.Postgresql.StartupWrites
import ChxSql.Postgresql.Exchange
import ChxSql.Postgresql.MessageExactness
import ChxSql.Postgresql.AcceptedStreams
import ChxSql.Postgresql.SimpleQueryStreams
import ChxSql.Postgresql.StartupStreams
import ChxSql.Postgresql.Interruption
import ChxSql.Postgresql.PreparedStreams
import ChxSql.Pq.Failures
import ChxSql.Hiredis.Callbacks
import ChxSql.Postgresql.Result
import ChxSql.Incremental.Language
import ChxSql.Mysql.Formats
import ChxSql.Mysql.QueryLanguage
import ChxSql.Postgresql.OneshotReading
import ChxSql.Postgresql.OneshotDelivery
