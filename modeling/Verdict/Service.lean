import Verdict.Config
import Verdict.Document.Request
import Verdict.Engine
import Verdict.Validator

/-!
# The service

A service evaluates what is submitted to it: it validates first, with the kinds of its own registry
as the available ones, and gives an evaluation a limited time.
-/

namespace Verdict

structure Service where
  registry : Registry
  validator : Validator
  timeoutSeconds : Nat

namespace Service

/-- The service of a registry under the limits of a configuration. -/
def ofConfig (registry : Registry) (config : Config) : Service where
  registry := registry
  validator := { maxRepeatCount := config.maxRepeatCount, knownKinds := some registry.kinds }
  timeoutSeconds := config.timeoutSeconds.toNat

/-- Validates a tree and evaluates it without a limit of time. -/
def run (service : Service) (tree : Tree) (data : Record) : Run Tree := do
  Run.ofExcept (service.validator.validate tree)
  tree.evaluate service.registry data

def execute (service : Service) (request : ExecutionRequest) : Run Tree :=
  (service.run request.tree request.data).within service.timeoutSeconds

/-- Tests a condition that has been found valid. -/
def test (request : ConditionRequest) : Except Failure Bool := do
  request.condition.validate
  request.condition.holdsOf request.data

end Service

end Verdict
