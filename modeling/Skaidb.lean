import Skaidb.Codec.Endian
import Skaidb.Codec.Reader
import Skaidb.Codec.Screening
import Skaidb.Codec.Depth
import Skaidb.Codec.Comparison
import Skaidb.Codec.Sink
import Skaidb.Codec.Text
import Skaidb.Codec.Numeral
import Skaidb.Codec.Padded
import Skaidb.Codec.Utf8
import Skaidb.Codec.Tlv
import Skaidb.Data.Ascending
import Skaidb.Data.OrdMap
import Skaidb.Data.OrdSet
import Skaidb.Data.Search
import Skaidb.Data.Collect
import Skaidb.Data.Distinct
import Skaidb.Data.Calendar
import Skaidb.Data.Paging
import Skaidb.Data.XorLinear
import Skaidb.Data.Binary64
import Skaidb.Logic.Program
import Skaidb.Logic.Memo
import Skaidb.Logic.Thread
import Skaidb.Logic.Simulation
import Skaidb.Types.Value
import Skaidb.Types.Slice
import Skaidb.Types.UuidText
import Skaidb.Types.Codec
import Skaidb.Types.CodecCorrect
import Skaidb.Types.Decimal
import Skaidb.Types.DecimalOrder
import Skaidb.Types.DecimalText
import Skaidb.Types.Document
import Skaidb.Types.DocumentPath
import Skaidb.Types.Json
import Skaidb.Types.LogTimestamp
import Skaidb.Types.LogNumbers
import Skaidb.Types.Key
import Skaidb.Types.KeyOrder
import Skaidb.Types.ExactKey
import Skaidb.Types.KeyPrefix
import Skaidb.Types.NumericKey
import Skaidb.Types.FloatOrder
import Skaidb.Types.RingHash
import Skaidb.Types.DirSize
import Skaidb.Types.Scan
import Skaidb.Types.ScanCorrect
import Skaidb.Types.SkipCorrect
import Skaidb.Types.StackDepth
import Skaidb.Types.ScanFields
import Skaidb.Types.ScanProbe
import Skaidb.Proto.Message
import Skaidb.Proto.Frame
import Skaidb.Proto.Wire
import Skaidb.Proto.Fields
import Skaidb.Proto.Handshake
import Skaidb.Proto.RequestCodec
import Skaidb.Proto.ResponseCodec
import Skaidb.Proto.ChunkEncoder
import Skaidb.Net.ChannelBinding
import Skaidb.Auth.Scram
import Skaidb.Auth.Crypto
import Skaidb.Auth.SaltedCache
import Skaidb.Auth.Storage
import Skaidb.Auth.StorageSlices
import Skaidb.Auth.Login
import Skaidb.Auth.LoginRuns
import Skaidb.Auth.Served
import Skaidb.Auth.Kerberos
import Skaidb.Proto.AuthMessages
import Skaidb.Auth.Rbac
import Skaidb.Auth.ColumnGrants
import Skaidb.Auth.ShowGrants
import Skaidb.Auth.Membership
import Skaidb.Ffi.DecimalText
import Skaidb.Ffi.Values
import Skaidb.Ffi.Copies
import Skaidb.Ffi.Lookups
import Skaidb.Driver.World
import Skaidb.Driver.Client
import Skaidb.Driver.Framewise
import Skaidb.Driver.Watch
import Skaidb.Driver.Outcome
import Skaidb.Driver.Stepwise
import Skaidb.Driver.Run
import Skaidb.Driver.Lasting
import Skaidb.Driver.Boundary
import Skaidb.Driver.Pipeline
import Skaidb.Driver.Correlation
import Skaidb.Driver.RowStreams
import Skaidb.Driver.Iteration
import Skaidb.Driver.Alignment
import Skaidb.Driver.Handles
import Skaidb.Driver.SessionBinding
import Skaidb.Driver.Feed
import Skaidb.Driver.Quoting
import Skaidb.Driver.Exhausted
import Skaidb.Driver.Service
import Skaidb.Driver.Hosting
import Skaidb.Driver.Remote
import Skaidb.Pool.Member
import Skaidb.Pool.Listing
import Skaidb.Pool.Seeds
import Skaidb.Pool.Names
import Skaidb.Pool.Factory
import Skaidb.Pool.Writes
import Skaidb.Pool.WriteScan
import Skaidb.Pool.LeadingNoise
import Skaidb.Pool.Balancer
import Skaidb.Pool.Health
import Skaidb.Pool.System
import Skaidb.Pool.Effects
import Skaidb.Pool.DialOrder
import Skaidb.Pool.TakeIdle
import Skaidb.Pool.Generator
import Skaidb.Pool.Picks
import Skaidb.Pool.RoundRobin
import Skaidb.Pool.Draws
import Skaidb.Pool.Reports
import Skaidb.Pool.Clock
import Skaidb.Pool.Idle
import Skaidb.Pool.Changes
import Skaidb.Pool.Accounting
import Skaidb.Pool.Usable
import Skaidb.Pool.Ejection
import Skaidb.Pool.Affinity
import Skaidb.Pool.Settings
import Skaidb.Pool.Custody
import Skaidb.Pool.WayBack
import Skaidb.Pool.View
