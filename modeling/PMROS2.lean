import PMROS2.Lib.Runs
import PMROS2.Lib.Writes
import PMROS2.Lib.Simulation
import PMROS2.Params.Value
import PMROS2.Params.Store
import PMROS2.Params.Loops
import PMROS2.Params.Atomic
import PMROS2.Params.Invariant
import PMROS2.Executor.Nodes
import PMROS2.Executor.Ready
import PMROS2.Executor.MultiThreaded
import PMROS2.Executor.Exclusion
import PMROS2.Executor.Release
import PMROS2.RclAction.GoalStateMachine
import PMROS2.RclAction.ActionServer
import PMROS2.RclAction.Expiry
import PMROS2.RclcppAction.Server
import PMROS2.RclcppAction.Moves
import PMROS2.RclcppAction.Goals
import PMROS2.RclcppAction.Cancel
import PMROS2.RclcppAction.Answers
import PMROS2.RclcppAction.Results
import PMROS2.Time.TimeSource
import PMROS2.Time.Coherence
import PMROS2.IntraProcess.RingBuffer
import PMROS2.IntraProcess.Manager
import PMROS2.IntraProcess.Bookkeeping
import PMROS2.IntraProcess.Numbering
import PMROS2.IntraProcess.Books
import PMROS2.IntraProcess.Delivery
import PMROS2.Remap.Lexer
import PMROS2.Remap.Automaton
import PMROS2.Remap.LexemeGrammar
import PMROS2.Remap.Lookahead
import PMROS2.Remap.Parser
import PMROS2.Remap.Refinement
import PMROS2.Remap.RuleGrammar
import PMROS2.Remap.Names
import PMROS2.Remap.Rules
import PMROS2.Yaml.Parser
import PMROS2.Yaml.Reader
import PMROS2.Yaml.EventLoop
import PMROS2.Yaml.Naming
import PMROS2.Yaml.Complete
import PMROS2.Yaml.ParameterMap
import PMROS2.Lifecycle.StateMachine
import PMROS2.Lifecycle.Node
import PMROS2.Lifecycle.ChangeStateService
import PMROS2.Lib.Stream
import PMROS2.Measuring.Builder
import PMROS2.Measuring.InfluxWriter
import PMROS2.Lib.Codecs
import PMROS2.Rosidl.StringLiteral
import PMROS2.Lib.Strings
import PMROS2.Rosidl.MsgTypes
import PMROS2.Rosidl.MsgParser
import PMROS2.Rosidl.Tracking
import PMROS2.Rosidl.MsgPrinter
import PMROS2.Lib.Template
import PMROS2.Topics.Validator
import PMROS2.Topics.Expand
import PMROS2.Topics.Expansion
import PMROS2.Topics.Grammar
import PMROS2.Remap.Apply
import PMROS2.Lib.Slots
import PMROS2.Arguments.Parse
import PMROS2.Arguments.Partition
import PMROS2.Lib.Checked
import PMROS2.Lib.Grid
import PMROS2.Rcl.Timer
import PMROS2.Rcl.Schedule
import PMROS2.Rcl.TimeJump
import PMROS2.Rcl.Overflow
import PMROS2.RclAction.ExpireTimer
import PMROS2.RclAction.CancelPolicy
import PMROS2.RclAction.ExpireCapacity
import PMROS2.RclAction.GoalArray
import PMROS2.RclcppAction.ExpireLoop
import PMROS2.Rcl.WaitSet
import PMROS2.Rcl.Wait
import PMROS2.Rcl.WaitRounds
import PMROS2.Rcl.JumpCallbacks
import PMROS2.Lib.Throwing
import PMROS2.Lib.Allocation
import PMROS2.RclcppAction.Client
import PMROS2.Params.Declare
import PMROS2.Yaml.Overrides
import PMROS2.IntraProcess.KeyedStore
import PMROS2.Strategies.MessagePool
import PMROS2.Time.Rate
import PMROS2.Time.Arithmetic
import PMROS2.Time.Messages
import PMROS2.Measuring.Tracing
import PMROS2.Measuring.FileWriter
import PMROS2.Measuring.HttpRequest
import PMROS2.Arguments.Copy
import PMROS2.Lifecycle.TransitionMap
import PMROS2.Lifecycle.Notification
import PMROS2.RclAction.Graph
import PMROS2.Rcl.SecurityDirectory
import PMROS2.Rosidl.BoundedVector
import PMROS2.Lib.Loops
import PMROS2.Rosidl.QuotedStrings
import PMROS2.Rosidl.StringArray
import PMROS2.Yaml.NamespaceTracker
import PMROS2.Yaml.Capacities
import PMROS2.Rosidl.U16String
import PMROS2.Lib.Grammar
import PMROS2.Rosidl.IdlGrammar
import PMROS2.Rosidl.IdlReading
import PMROS2.Rosidl.IdlTree
import PMROS2.Rosidl.IdlPrinter
import PMROS2.Rosidl.IdlNumbers
import PMROS2.Rosidl.IdlMembers
import PMROS2.Params.Replica
import PMROS2.RclcppAction.Origins
import PMROS2.RclcppAction.Exchange
import PMROS2.RclcppAction.Protocol
import PMROS2.Lib.Mixing
import PMROS2.Measuring.NodeHash
import PMROS2.Graph.Listener
import PMROS2.Graph.Nodes
import PMROS2.Graph.Changes
