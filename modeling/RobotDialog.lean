import RobotDialog.Lib.Runs
import RobotDialog.Lib.Linked
import RobotDialog.Lib.Family
import RobotDialog.Lib.Fifo
import RobotDialog.Lib.CString
import RobotDialog.Lib.Utf8
import RobotDialog.Lib.Strtok
import RobotDialog.Lib.Json
import RobotDialog.Pool.State
import RobotDialog.Pool.Step
import RobotDialog.Pool.Moves
import RobotDialog.Pool.Mutex
import RobotDialog.Pool.Control
import RobotDialog.Pool.Queue
import RobotDialog.Pool.Calls
import RobotDialog.Pool.Counters
import RobotDialog.Pool.ExactlyOnce
import RobotDialog.Pool.Slots
import RobotDialog.Pool.Teardown
import RobotDialog.Pool.Effects
import RobotDialog.Pool.Wakeup
import RobotDialog.Pool.Bound
import RobotDialog.Wire.Protocol
import RobotDialog.Wire.Dialog
import RobotDialog.Wire.Race
import RobotDialog.Wire.Reply
import RobotDialog.Wire.Request
import RobotDialog.Server.Handler
import RobotDialog.Server.System
import RobotDialog.Server.Moves
import RobotDialog.Server.Ledger
import RobotDialog.Server.Shutdown
import RobotDialog.Client.Socket
import RobotDialog.Client.Moves
import RobotDialog.Client.Isolation
import RobotDialog.Client.Crossing
import RobotDialog.Client.Replies
import RobotDialog.Client.Turns
import RobotDialog.Wire.Delivery
import RobotDialog.Lib.JsonContext
import RobotDialog.Server.OneReply
import RobotDialog.Server.Gemini
import RobotDialog.Lib.JsonList
import RobotDialog.Server.Splice
import RobotDialog.Lib.JsonWriter
import RobotDialog.Server.History
import RobotDialog.Pool.Accounting
import RobotDialog.Pool.Scaling
import RobotDialog.Pool.CreateFails
import RobotDialog.Pool.Load
import RobotDialog.Client.Exchange
import RobotDialog.Client.Fallback
import RobotDialog.Lib.Strtol
import RobotDialog.Wire.Grammar
import RobotDialog.Server.Fields
import RobotDialog.Wire.Stall
import RobotDialog.Server.Sizes
import RobotDialog.Server.Canned
import RobotDialog.Client.Personality
import RobotDialog.Client.PersonalityTest
import RobotDialog.Lib.JsonC
import RobotDialog.Server.Answer
import RobotDialog.Lib.Extremum
import RobotDialog.Pool.Statistics
import RobotDialog.Lib.Quoted
import RobotDialog.Server.Escape
import RobotDialog.Server.Leftover
import RobotDialog.Lib.Interference
import RobotDialog.Pool.Rank
import RobotDialog.Pool.Progress
import RobotDialog.Pool.Completes
import RobotDialog.Server.Rank
import RobotDialog.Server.Serves
import RobotDialog.Server.Custody
import RobotDialog.Lib.Resources
import RobotDialog.Server.Http
import RobotDialog.Client.Question
import RobotDialog.Client.Answered
import RobotDialog.Server.Startup
import RobotDialog.Lib.Memory
import RobotDialog.Wire.InPlace
import RobotDialog.Server.Pacing
import RobotDialog.Server.Replies
import RobotDialog.Server.InPlace
import RobotDialog.Pool.Nodes
import RobotDialog.Client.Once
