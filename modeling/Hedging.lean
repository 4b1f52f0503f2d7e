import Hedging.Region
import Hedging.Duration
import Hedging.Text.Blank
import Hedging.Text.Printable
import Hedging.Text.Quoted
import Hedging.Text.Column
import Hedging.Decimal.Binary
import Hedging.Decimal.Shortest
import Hedging.Decimal.Fixed
import Hedging.Json.Number
import Hedging.Json.Numeral
import Hedging.Json.Piece
import Hedging.Json.Token
import Hedging.Json.Document
import Hedging.Json.Value
import Hedging.Json.Reading
import Hedging.Error
import Hedging.Strategy.Thresholds
import Hedging.Strategy.Intent
import Hedging.Strategy.Basic
import Hedging.Strategy.Schedule
import Hedging.Client.Settings
import Hedging.Client.Environment
import Hedging.Race.Outcome
import Hedging.Race.Event
import Hedging.Race.Report
import Hedging.Race.State
import Hedging.Race.Basic
import Hedging.Client.Basic
import Hedging.Client.Ledger
import Hedging.Client.Session
import Hedging.Demo.Transcript
import Hedging.Demo.Rounds
import Hedging.Demo.Overrides
import Hedging.Demo.Volume
import Hedging.Main
import Hedging.Proofs.List
import Hedging.Proofs.Schedule
import Hedging.Proofs.Words
import Hedging.Proofs.Offsets
import Hedging.Proofs.Scopes
import Hedging.Proofs.Race.Tick
import Hedging.Proofs.Race.Launch
import Hedging.Proofs.Race.Batch
import Hedging.Proofs.Race.Turn
import Hedging.Proofs.Race.Ending
import Hedging.Proofs.Race.Attempts
import Hedging.Proofs.Race.Alone
import Hedging.Proofs.Race.Winner
import Hedging.Proofs.Race.Calls
import Hedging.Proofs.Race.Failures
import Hedging.Proofs.Race.Decided
import Hedging.Proofs.Starts
import Hedging.Proofs.Race.Thresholds
import Hedging.Proofs.Race.Trace
import Hedging.Proofs.Race.Errors
import Hedging.Proofs.Race.Log
import Hedging.Proofs.Ledger
import Hedging.Proofs.Session
import Hedging.Proofs.Direct
import Hedging.Proofs.Dropping
import Hedging.Proofs.Extension
import Hedging.Proofs.Unseen
import Hedging.Proofs.Refusal
import Hedging.Proofs.Json.Scan
import Hedging.Proofs.Json.Text
import Hedging.Proofs.Json.Members
import Hedging.Proofs.Json.Integer
import Hedging.Proofs.Places
import Hedging.Proofs.Readers
import Hedging.Proofs.RoundTrip
import Hedging.Proofs.Dispatch
import Hedging.Proofs.Grammar
import Hedging.Proofs.Relevance
import Hedging.Proofs.RegionList
import Hedging.Proofs.Sources
import Hedging.Proofs.StrategyText
import Hedging.Proofs.Rounds
import Hedging.Proofs.Race.Heads
import Hedging.Proofs.Race.Termination
