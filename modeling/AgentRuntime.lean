import AgentRuntime.Async.Logic
import AgentRuntime.Recording.Replay
import AgentRuntime.Recording.Invariants
import AgentRuntime.Jsonutil.Equality
import AgentRuntime.Runner.Outcome
import AgentRuntime.Steady
import AgentRuntime.Control
import AgentRuntime.Core.Run
import AgentRuntime.Pipelines.Budget
import AgentRuntime.Recording.Reuse
import AgentRuntime.Recording.Status
import AgentRuntime.Recording.Supplied
import AgentRuntime.Capabilities.Schema
import AgentRuntime.Capabilities.Sessions
import AgentRuntime.Capabilities.Chain
import AgentRuntime.Pipelines.Tools
import AgentRuntime.Pipelines.Barrier
import AgentRuntime.OpIds
import AgentRuntime.Pipelines.Partial
import AgentRuntime.Pipelines.Content
import AgentRuntime.Pipelines.Recount
import AgentRuntime.Context.Budget
import AgentRuntime.Context.Compress
import AgentRuntime.Context.Manager
import AgentRuntime.Context.Views
import AgentRuntime.Context.Prepare
import AgentRuntime.Recording.Exchange
import AgentRuntime.Recording.Answers
import AgentRuntime.Pipelines.Shown
import AgentRuntime.Recording.Versions
import AgentRuntime.Context.Cut
import AgentRuntime.Context.Alike
import AgentRuntime.Context.Sharing
import AgentRuntime.Recording.Mirrors
import AgentRuntime.Recording.Isolation
import AgentRuntime.Context.Pairing
import AgentRuntime.Context.Trimming
import AgentRuntime.Context.Turns
import AgentRuntime.Context.Summaries
import AgentRuntime.Adapters.Openai
import AgentRuntime.Adapters.CallIds
import AgentRuntime.Async.Drain
import AgentRuntime.Core.Strict
import AgentRuntime.Adapters.Chunking
import AgentRuntime.Async.Parties
import AgentRuntime.Lifecycle.Scope
import AgentRuntime.Lifecycle.Closing
import AgentRuntime.Pipelines.Invoke
import AgentRuntime.Pipelines.Declared
import AgentRuntime.Pipelines.Completion
import AgentRuntime.Recording.Carried
import AgentRuntime.Runner.Assembly
import AgentRuntime.Context.Groups
import AgentRuntime.Adapters.Measured
import AgentRuntime.Context.Contributions
import AgentRuntime.Runner.Keep
import AgentRuntime.Pipelines.Results
import AgentRuntime.Runner.Reach
import AgentRuntime.Runner.Unrecorded
import AgentRuntime.Runner.Watched
import AgentRuntime.Recording.Acceptance
import AgentRuntime.Runner.Smooth
import AgentRuntime.Async.Channel
import AgentRuntime.Recording.Ledger
import AgentRuntime.Observability
import AgentRuntime.Adapters.Streaming
import AgentRuntime.Context.Reads
import AgentRuntime.Lifecycle.Callback
import AgentRuntime.Runner.Mirror
import AgentRuntime.Context.Staged
import AgentRuntime.Context.Contributors
import AgentRuntime.Lifecycle.Waiting
import AgentRuntime.Runner.Stops
