import TileWalk.Json.Forms
import TileWalk.Main
import TileWalk.Output.Transcript
import TileWalk.Proofs.Run.Execution
import TileWalk.Proofs.Run.TailCall
import TileWalk.Proofs.Session.Sight
import TileWalk.Proofs.Session.TailCall
import TileWalk.Proofs.Session.Action
import TileWalk.Proofs.Session.Reachable
import TileWalk.Proofs.Session.Time
import TileWalk.Proofs.Session.Conservation
import TileWalk.Proofs.Run.Course
import TileWalk.Proofs.Run.Recursion
import TileWalk.Proofs.Session.Recursion
import TileWalk.Proofs.Run.Pause
import TileWalk.Proofs.Session.Effect
import TileWalk.Proofs.Session.InFlight
import TileWalk.Proofs.Session.Loop
import TileWalk.Proofs.Session.Outcome
import TileWalk.Proofs.Session.Trail
import TileWalk.Proofs.Session.Walk
import TileWalk.Proofs.Session.Chronicle
import TileWalk.Proofs.Session.Mirror
import TileWalk.Proofs.Run.Simulation
import TileWalk.Proofs.Session.Simulation
import TileWalk.Proofs.Run.Pruning
import TileWalk.Proofs.Session.Pruning
import TileWalk.Proofs.Run.Confined
import TileWalk.Proofs.Session.Origin
import TileWalk.Proofs.Session.Stock
import TileWalk.Proofs.Session.Refusal
import TileWalk.Proofs.Session.Flag
import TileWalk.Proofs.Session.Renewal
import TileWalk.Proofs.Session.Reach
import TileWalk.Proofs.Run.Rounds
import TileWalk.Proofs.Session.Engine
import TileWalk.Proofs.Session.Halting
import TileWalk.Proofs.Campaign.Request
import TileWalk.Proofs.Campaign.Loaded
import TileWalk.Proofs.Campaign.History
import TileWalk.Proofs.Text.Padding
import TileWalk.Proofs.Script.Grammar
import TileWalk.Proofs.Script.Writing
import TileWalk.Proofs.Script.Installation
import TileWalk.Proofs.Session.TimeLeft
import TileWalk.Proofs.Catalog.Acceptance
import TileWalk.Proofs.Player.Budget
import TileWalk.Proofs.Player.Journey
import TileWalk.Proofs.Session.Stack
import TileWalk.Proofs.Script.Concatenation
import TileWalk.Proofs.Output.Limit
import TileWalk.Proofs.CommandLine.Quiet
import TileWalk.Proofs.Cursor.Reversal
import TileWalk.Proofs.Command.Labels
import TileWalk.Proofs.Level.Frame
import TileWalk.Proofs.Run.Footing
import TileWalk.Proofs.Session.Bounds
import TileWalk.Proofs.Run.Callers
import TileWalk.Proofs.Session.Callers
