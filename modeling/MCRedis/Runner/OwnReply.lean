import MCRedis.Runner.History

/-!
# The reply of a run

`run` executes the whole queue with its command at the end, and returns the first
reply of the batch.  This is the reply to its own command when the queue was
empty, and otherwise the reply to the command that was queued first.
-/

namespace MCRedis.Runner

open MCRedis.Client
open MCRedis.Pool
open MCRedis.Transition

end MCRedis.Runner
