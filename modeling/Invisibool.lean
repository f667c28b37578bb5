import Invisibool.Text.Str
import Invisibool.Text.Utf8
import Invisibool.Matching.LeftmostLongest
import Invisibool.Matching.LeftmostShortest
import Invisibool.Tokenizer.Alphabet
import Invisibool.Crates
import Invisibool.Tokenizer.Fpe
import Invisibool.Tokenizer.FpeRestore
import Invisibool.Tokenizer.Mac
import Invisibool.Tokenizer.Reserved
import Invisibool.Tokenizer.Session
import Invisibool.Detection.Exact
import Invisibool.Idempotence
import Invisibool.Engine.Basic
import Invisibool.Text.Replace
import Invisibool.Text.Edit
import Invisibool.Engine.Build
import Invisibool.Engine.Scrub
import Invisibool.Engine.FailClosed
import Invisibool.Engine.ScrubTwice
import Invisibool.Engine.Restore
import Invisibool.Engine.RestoreTotal
import Invisibool.Engine.RestoreSound
import Invisibool.Engine.RoundTrip
import Invisibool.Vault
import Invisibool.Cli.Register
import Invisibool.Engine.Total
import Invisibool.Cli.Scrub
import Invisibool.Tokenizer.SessionLive
import Invisibool.Engine.SessionStore
import Invisibool.Engine.SessionRestore
import Invisibool.Folding
import Invisibool.Engine.OrderIndependence
import Invisibool.Engine.Recover
import Invisibool.Tokenizer.SessionHolds
import Invisibool.Engine.SessionRoundTrip
import Invisibool.Tokenizer.SessionRun
import Invisibool.Tokenizer.SessionImport
import Invisibool.Tokenizer.SessionBound
import Invisibool.Cli.FakeSpaces
import Invisibool.System.Process
import Invisibool.System.Implementation
import Invisibool.System.FileSystem
import Invisibool.Format.Sealed
import Invisibool.Store.Calls
import Invisibool.Store.AtomicWrite
import Invisibool.Format.Files
import Invisibool.Format.Codec
import Invisibool.Store.Vault
import Invisibool.Store.Keychain
import Invisibool.Cli.VaultCommands
import Invisibool.Cli.TextCommands
import Invisibool.Cli.LabelMap
import Invisibool.Store.Frame
import Invisibool.Store.Readers
import Invisibool.Store.Faultless
import Invisibool.Store.Contract
import Invisibool.Cli.Delivery
import Invisibool.Cli.Discarded
import Invisibool.Cli.Durability
import Invisibool.Cli.Listing
import Invisibool.Cli.Alongside
import Invisibool.Cli.Concurrency
import Invisibool.Cli.Agreement
import Invisibool.Cli.SessionCommands
import Invisibool.Cli.SessionLifetime
import Invisibool.Cli.SessionScrub
import Invisibool.Cli.Retry
import Invisibool.Cli.Accumulation
import Invisibool.Cli.SessionReturn
import Invisibool.Tokenizer.SessionFrame
import Invisibool.Engine.RestoreComplete
import Invisibool.Control.Error
import Invisibool.Control.SingleInstance
import Invisibool.Control.Sockets
import Invisibool.Control.Startup
import Invisibool.Control.Daemons
import Invisibool.System.Stream
import Invisibool.Format.Json
import Invisibool.Control.Wire
import Invisibool.Control.Framing
import Invisibool.Control.Exchange
import Invisibool.Control.Serve
import Invisibool.Clipboard.Event
import Invisibool.Clipboard.X11
import Invisibool.Clipboard.Tokens
import Invisibool.Clipboard.Ownership
import Invisibool.Clipboard.Attribution
import Invisibool.Clipboard.InMemory
import Invisibool.Clipboard.Agreement
import Invisibool.Clipboard.Reads
import Invisibool.Clipboard.ReadPhases
import Invisibool.Clipboard.Crossing
import Invisibool.Matching.Greedy
import Invisibool.Detection.Detector
import Invisibool.System.Transition
import Invisibool.Clipboard.SingleRead
import Invisibool.Clipboard.Timestamp
import Invisibool.Clipboard.Subscriptions
import Invisibool.Clipboard.Sends
import Invisibool.Tokenizer.Cards
import Invisibool.Clipboard.Conversions
import Invisibool.Clipboard.Answering
import Invisibool.Cli.Status
import Invisibool.Control.Accepting
import Invisibool.Cli.SecretInput
