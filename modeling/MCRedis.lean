import MCRedis.Runner.Core
import MCRedis.Runner.Calls
import MCRedis.Runner.Single
import MCRedis.Runner.Mapping
import MCRedis.Runner.Batch
import MCRedis.Runner.Async
import MCRedis.Runner.Agreement
import MCRedis.Runner.History
import MCRedis.Pool.Deleters
import MCRedis.Pool.Routing
import MCRedis.Runner.Sharing
import MCRedis.Task.Accounting
import MCRedis.Task.Results
import MCRedis.Task.Locking
import MCRedis.Pool.Reuse
import MCRedis.Pool.Keyless
import MCRedis.Pool.Deprecated
import MCRedis.Pool.Filling
import MCRedis.Container.Runs
import MCRedis.Runner.Groups
import MCRedis.Runner.Leftover
import MCRedis.Runner.OwnReply
import MCRedis.Runner.Validity
import MCRedis.Client.Argument
import MCRedis.MiddleWare.Counters
import MCRedis.MiddleWare.Status
import MCRedis.MiddleWare.Sentinel
import MCRedis.MiddleWare.Slaves
import MCRedis.MiddleWare.Objects
import MCRedis.MiddleWare.Construction
import MCRedis.Pool.Admission
import MCRedis.Transition.Session
import MCRedis.Runner.Continuation
import MCRedis.Hiredis.Number
import MCRedis.Hiredis.Objects
import MCRedis.Hiredis.Reader
import MCRedis.Parsing.Prefix
import MCRedis.Hiredis.Format
import MCRedis.Hiredis.Levels
import MCRedis.Hiredis.Resume
import MCRedis.Hiredis.Steps
import MCRedis.Hiredis.Delivery
import MCRedis.Hiredis.ReaderSession
import MCRedis.Hiredis.Streams
import MCRedis.Hiredis.Command
import MCRedis.Hiredis.Context
import MCRedis.Hiredis.Wire
import MCRedis.Hiredis.Pipelining
import MCRedis.Hiredis.Failures
import MCRedis.Hiredis.Sds
import MCRedis.Hiredis.Strings
import MCRedis.Hiredis.Failures
