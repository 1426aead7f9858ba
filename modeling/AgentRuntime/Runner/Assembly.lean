import AgentRuntime.Context.Manager
import AgentRuntime.Pipelines.Completion
import AgentRuntime.Pipelines.Results
import AgentRuntime.Runner

/-!
# The assembly of a run

`runner.py`: the ports a runtime puts together.

* `Assembly` — what `_assemble` reads; `Assembly.ports` — the default pipelines on one transcript;
* `DefaultStepProvider.assembly` — with the default step provider and policies.
-/

set_option autoImplicit false

namespace AgentRuntime

open Async

/-- What the default ports of a run are made of. The step provider is given. -/
structure Assembly where
  prepare : StepIdentity → Gen Empty PreparedStep
  bindings : BindingRegistry
  validator : Draft202012Validator
  resultPolicy : DefaultToolPipeline.ResultPolicy := DefaultToolPipeline.hostPolicy
  completionPolicy : CompletionPolicy := DefaultCompletionPipeline.finishPolicy
  idleTimeout : Bool := false

/-- `_assemble`, without overrides. -/
def Assembly.ports (assembly : Assembly) (transcript : TranscriptPort) : ExecutionPorts where
  prepare := assembly.prepare
  call
    | .model, step =>
      let pipeline : DefaultModelPipeline := ⟨transcript, assembly.idleTimeout⟩
      pure { body := pipeline.stream step, aclose := pure () }
    | .tools, command =>
      let pipeline : DefaultToolPipeline := ⟨transcript, assembly.bindings, assembly.validator⟩
      pure { body := pipeline.executeWith assembly.resultPolicy command, aclose := pure () }
    | .completion, command =>
      let pipeline : DefaultCompletionPipeline := ⟨transcript⟩
      pure { body := pipeline.complete assembly.completionPolicy command, aclose := pure () }

/-- The default pipelines, each in the place of its port. -/
theorem Assembly.ports_install (assembly : Assembly) (transcript : TranscriptPort) (ports : ExecutionPorts)
    (h : ports.prepare = assembly.prepare) :
    assembly.ports transcript =
      DefaultCompletionPipeline.install ⟨transcript⟩ assembly.completionPolicy
        (DefaultToolPipeline.install ⟨transcript, assembly.bindings, assembly.validator⟩ assembly.resultPolicy
          (DefaultModelPipeline.install ⟨transcript, assembly.idleTimeout⟩ ports)) := by
  obtain ⟨prepare, call⟩ := ports
  change prepare = assembly.prepare at h
  subst h
  rfl

/-- The default ports of a run, with its step provider and the default policies. -/
def DefaultStepProvider.assembly (provider : DefaultStepProvider) (policy : DefaultResultPolicy)
    (bindings : BindingRegistry) (idleTimeout : Bool) : Assembly where
  prepare := provider.prepare
  bindings := bindings
  validator := policy.validator
  resultPolicy := policy.apply
  idleTimeout := idleTimeout

end AgentRuntime
