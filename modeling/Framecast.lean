import Framecast.Action
import Framecast.Address.Endpoint
import Framecast.Address.IPv4
import Framecast.Address.IPv6
import Framecast.Assembly.Basic
import Framecast.Assembly.Receive
import Framecast.Assembly.Request
import Framecast.Assembly.Slot
import Framecast.Authentication.Challenge
import Framecast.Authentication.Exchange
import Framecast.Bytes.Blocks
import Framecast.Bytes.Field
import Framecast.Channel
import Framecast.Cipher.Aes
import Framecast.Cipher.Key
import Framecast.Cipher.Sealed
import Framecast.Cipher.Sha256
import Framecast.Configuration.Basic
import Framecast.Configuration.Document
import Framecast.Configuration.Input
import Framecast.Connection.Basic
import Framecast.Connection.Host
import Framecast.Connection.Pace
import Framecast.Connection.Receive
import Framecast.Connection.Send
import Framecast.Connection.Setup
import Framecast.Control
import Framecast.Failure
import Framecast.Main
import Framecast.Media.FrameBundle
import Framecast.Media.Pattern
import Framecast.Media.Tally
import Framecast.Network.Basic
import Framecast.Network.Errno
import Framecast.Network.Script
import Framecast.Node.CommandLine
import Framecast.Node.Stream
import Framecast.Packet.Basic
import Framecast.Packet.Encoding
import Framecast.Packet.Unit
import Framecast.Proofs.Address.Written
import Framecast.Proofs.Assembly.Accounts
import Framecast.Proofs.Assembly.Arrival
import Framecast.Proofs.Assembly.Balance
import Framecast.Proofs.Assembly.Batch
import Framecast.Proofs.Assembly.Budget
import Framecast.Proofs.Assembly.Convergence
import Framecast.Proofs.Assembly.Delivery
import Framecast.Proofs.Assembly.Extent
import Framecast.Proofs.Assembly.Finality
import Framecast.Proofs.Assembly.InPlace
import Framecast.Proofs.Assembly.Missing
import Framecast.Proofs.Assembly.Range
import Framecast.Proofs.Assembly.Record
import Framecast.Proofs.Assembly.Recovering
import Framecast.Proofs.Assembly.Refusal
import Framecast.Proofs.Assembly.Representation
import Framecast.Proofs.Assembly.Ring
import Framecast.Proofs.Assembly.Round
import Framecast.Proofs.Assembly.Run
import Framecast.Proofs.Assembly.Slot
import Framecast.Proofs.Assembly.Sound
import Framecast.Proofs.Assembly.Units
import Framecast.Proofs.Assembly.Wanted
import Framecast.Proofs.Authentication.Agreement
import Framecast.Proofs.Authentication.Alive
import Framecast.Proofs.Authentication.Answers
import Framecast.Proofs.Authentication.Ends
import Framecast.Proofs.Authentication.Noise
import Framecast.Proofs.Authentication.Reflection
import Framecast.Proofs.Authentication.Resending
import Framecast.Proofs.Authentication.Steps
import Framecast.Proofs.Cipher.Sealed
import Framecast.Proofs.Configuration.Faults
import Framecast.Proofs.Configuration.Validity
import Framecast.Proofs.Connection.Calls
import Framecast.Proofs.Connection.Closing
import Framecast.Proofs.Connection.Counters
import Framecast.Proofs.Connection.Crossing
import Framecast.Proofs.Connection.Encounter
import Framecast.Proofs.Connection.Ending
import Framecast.Proofs.Connection.Fates
import Framecast.Proofs.Connection.Leases
import Framecast.Proofs.Connection.Losses
import Framecast.Proofs.Connection.Reading
import Framecast.Proofs.Connection.Recoverable
import Framecast.Proofs.Connection.Sending
import Framecast.Proofs.Connection.Transit
import Framecast.Proofs.Connection.Tries
import Framecast.Proofs.Connection.Uses
import Framecast.Proofs.Control
import Framecast.Proofs.Media.FrameBundle
import Framecast.Proofs.Media.Pattern
import Framecast.Proofs.Network.Receives
import Framecast.Proofs.Network.Sends
import Framecast.Proofs.Network.Waits
import Framecast.Proofs.Node.Messages
import Framecast.Proofs.Node.Registration
import Framecast.Proofs.Packet.Encoding
import Framecast.Proofs.Packet.Fragments
import Framecast.Proofs.Packet.Reassembly
import Framecast.Proofs.Rate.Burst
import Framecast.Proofs.Rate.Precision
import Framecast.Proofs.Rate.Probing
import Framecast.Proofs.Rate.Rounding
import Framecast.Proofs.Rate.Settings
import Framecast.Proofs.Rate.Throttle
import Framecast.Proofs.Rate.Tokens
import Framecast.Proofs.Reception.Agreement
import Framecast.Proofs.Reception.Delivery
import Framecast.Proofs.Reception.Metering
import Framecast.Proofs.Reception.Reports
import Framecast.Proofs.Rendezvous.Entry
import Framecast.Proofs.Rendezvous.Outreach
import Framecast.Proofs.Rendezvous.Peers
import Framecast.Proofs.Rendezvous.Resending
import Framecast.Proofs.Rendezvous.Vouched
import Framecast.Proofs.Retention.History
import Framecast.Proofs.Retention.Kept
import Framecast.Proofs.Retention.Recall
import Framecast.Proofs.Retention.Recovery
import Framecast.Proofs.Text.Digits
import Framecast.Rate.Arithmetic
import Framecast.Rate.Bucket
import Framecast.Rate.Controller
import Framecast.Rate.Expectation
import Framecast.Rate.Meter
import Framecast.Rate.Scalar
import Framecast.Rate.Settings
import Framecast.Reception.BoundedQueue
import Framecast.Reception.Receiver
import Framecast.Rendezvous.Entry
import Framecast.Rendezvous.Pairing
import Framecast.Retention.Registry
import Framecast.Retention.Store
import Framecast.Text.Blank
import Framecast.Text.Hex
import Framecast.Text.Hidden
import Framecast.Text.Numeral
import Framecast.Text.Quoted
import Framecast.Time
import Framecast.Toml.Document
import Framecast.Toml.Moment
import Framecast.Toml.Number
import Framecast.Toml.Quoted
import Framecast.Toml.Scalar
import Framecast.Toml.Value
