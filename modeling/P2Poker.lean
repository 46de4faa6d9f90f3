import P2Poker.Lib.Bytes
import P2Poker.Lib.Cyclic
import P2Poker.Lib.Wire
import P2Poker.Lib.Layers
import P2Poker.Lib.Decimal
import P2Poker.Lib.Trace
import P2Poker.Lib.Simulation
import P2Poker.Lib.Registry
import P2Poker.Lib.Ring
import P2Poker.Lib.Mailbox
import P2Poker.Ephemeral.Store
import P2Poker.Crypto.Log
import P2Poker.Crypto.Deck
import P2Poker.Crypto.Shuffle
import P2Poker.Crypto.Keys
import P2Poker.Game.Entry
import P2Poker.Game.State
import P2Poker.Game.Log
import P2Poker.Game.Accept
import P2Poker.Game.Turn
import P2Poker.Game.Betting
import P2Poker.Game.Play
import P2Poker.Game.AutoFold
import P2Poker.Game.Payload
import P2Poker.Game.Binding
import P2Poker.Game.Ending
import P2Poker.Game.Rotation
import P2Poker.Game.Closing
import P2Poker.Round.Runner
import P2Poker.Round.Network
import P2Poker.Round.Moves
import P2Poker.Round.Chain
import P2Poker.Round.Agreement
import P2Poker.Round.Equivocation
import P2Poker.Round.Certified
import P2Poker.Round.Submission
import P2Poker.Round.Fetching
import P2Poker.Round.Cleanup
import P2Poker.Round.Progress
import P2Poker.Round.Reports
import P2Poker.Cards.Card
import P2Poker.Cards.Eval
import P2Poker.Cards.Best
import P2Poker.Cards.Rules
import P2Poker.Cards.Display
import P2Poker.Peer.Deal
import P2Poker.Peer.Table
import P2Poker.Peer.Honest
import P2Poker.Peer.Progress
import P2Poker.Peer.Calls
import P2Poker.Peer.Showdown
import P2Poker.Peer.Winners
import P2Poker.Peer.Symbolic
import P2Poker.Peer.Secrecy
import P2Poker.Peer.Recognition
import P2Poker.Peer.Mesh
import P2Poker.Peer.Remote
import P2Poker.Hand.Run
import P2Poker.Hand.Streets
import P2Poker.Hand.Folded
import P2Poker.Hand.NextHand
import P2Poker.Hand.Parts
import P2Poker.Hand.Outcome
import P2Poker.Hand.Progress
import P2Poker.Dispatch.Server
import P2Poker.Dispatch.Membership
import P2Poker.Dispatch.Connections
import P2Poker.Dispatch.Registration
import P2Poker.Dispatch.SeatOrder
import P2Poker.Dispatch.Naming
import P2Poker.Dispatch.Leases
import P2Poker.Dispatch.Delivery
import P2Poker.Dispatch.Answers
import P2Poker.Peer.Seating
import P2Poker.Peer.Requests
import P2Poker.Peer.Matching
import P2Poker.Peer.Attached
import P2Poker.Client.Events
import P2Poker.Client.Board
import P2Poker.Client.Feed
import P2Poker.Client.Streams
import P2Poker.Client.Told
import P2Poker.Sim.Dealing
import P2Poker.Sim.Relay
import P2Poker.Sim.WholeRun
