import Mt5Open.Lib.Act
import Mt5Open.Lib.Loop
import Mt5Open.Lib.Grammar
import Mt5Open.Lib.Records
import Mt5Open.Lib.Pages
import Mt5Open.Lib.Refinement
import Mt5Open.Lib.Tape
import Mt5Open.Lib.Bits
import Mt5Open.Lib.Keyed
import Mt5Open.Lib.Net
import Mt5Open.Lib.Rounding
import Mt5Open.Lib.Extended
import Mt5Open.Lib.Search
import Mt5Open.Lib.Latest
import Mt5Open.Lib.Stride
import Mt5Open.Lib.Sorted
import Mt5Open.Lib.Rounds
import Mt5Open.Lib.Mealy
import Mt5Open.Lib.Halting
import Mt5Open.Lib.Md5
import Mt5Open.Lib.Calendar
import Mt5Open.Lib.Layout
import Mt5Open.Lib.Unbounded
import Mt5Open.Lib.Grouping
import Mt5Open.Native.Frame
import Mt5Open.Native.FrameStream
import Mt5Open.Native.Cipher
import Mt5Open.Native.Compression
import Mt5Open.Native.Lzo
import Mt5Open.Native.Inflate
import Mt5Open.Native.Checked
import Mt5Open.Native.LzoMachine
import Mt5Open.Native.History
import Mt5Open.Native.Columns
import Mt5Open.Native.Placement
import Mt5Open.Native.TrailingHours
import Mt5Open.Native.Reassembly
import Mt5Open.Native.Pushes
import Mt5Open.Native.Fragments
import Mt5Open.Native.Tlv
import Mt5Open.Native.TlvMachine
import Mt5Open.Native.Account
import Mt5Open.Native.Records
import Mt5Open.Native.Trade
import Mt5Open.Native.Updates
import Mt5Open.Native.Sync
import Mt5Open.Native.Segmented
import Mt5Open.Native.Bitpack
import Mt5Open.Native.BitMachine
import Mt5Open.Native.RawWriter
import Mt5Open.Native.TickHistory
import Mt5Open.Native.Materialize
import Mt5Open.Native.Bars
import Mt5Open.Native.BarMachine
import Mt5Open.Native.BarTokens
import Mt5Open.Native.Truncation
import Mt5Open.Native.Market
import Mt5Open.Native.QuoteStream
import Mt5Open.Native.DepthBatch
import Mt5Open.Native.SyncGrammar
import Mt5Open.Native.Formats
import Mt5Open.Native.TradeHistory
import Mt5Open.Native.UpdateGrammar
import Mt5Open.Native.Crypto
import Mt5Open.Native.Md5
import Mt5Open.Native.Auth
import Mt5Open.Native.Challenge
import Mt5Open.Native.Handshake
import Mt5Open.Native.Phases
import Mt5Open.Double
import Mt5Open.Native.Margin
import Mt5Open.Native.Requests
import Mt5Open.Native.Utf16
import Mt5Open.Native.TradeRecord
import Mt5Open.Session.Connection
import Mt5Open.Native.SyncRequest
import Mt5Open.Native.HandshakePeer
import Mt5Open.Session.Profile
import Mt5Open.Session.Session
import Mt5Open.Session.Calls
import Mt5Open.Session.Login
import Mt5Open.Session.ReadOnly
import Mt5Open.Session.Identity
import Mt5Open.Session.Transmit
import Mt5Open.Session.Receive
import Mt5Open.Session.Endpoints
import Mt5Open.Session.Broker
import Mt5Open.Session.Conversation
import Mt5Open.Client.Client
import Mt5Open.Client.Account
import Mt5Open.Client.Trade
import Mt5Open.Client.Conversion
import Mt5Open.Client.Quotes
import Mt5Open.Client.History
import Mt5Open.Client.Dates
import Mt5Open.Client.TickRange
import Mt5Open.Client.BarRange
import Mt5Open.Client.Delivery
import Mt5Open.Client.Conversation
import Mt5Open.Webterm.Request
import Mt5Open.Webterm.Correlation
import Mt5Open.Webterm.Subscribe
import Mt5Open.Webterm.Live
import Mt5Open.Webterm.Ticket
import Mt5Open.Webterm.Trade
import Mt5Open.Webterm.Volume
import Mt5Open.Webterm.Closing
import Mt5Open.Webterm.Parse
import Mt5Open.Webterm.Walks
import Mt5Open.Webterm.Quotes
import Mt5Open.Webterm.Panics
import Mt5Open.Webterm.TickStream
import Mt5Open.Webterm.Rates
import Mt5Open.Webterm.Backoff
import Mt5Open.Session.Memory
import Mt5Open.Webterm.Login
import Mt5Open.Webterm.Wire
import Mt5Open.Client.Silence
import Mt5Open.Client.Margin
import Mt5Open.Client.Ledger
import Mt5Open.Webterm.Discovery
import Mt5Open.Webterm.Operations
import Mt5Open.Webterm.TickValue
