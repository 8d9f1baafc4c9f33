import Verdict.Notice.Executor

/-!
# A registry and a copy of it

A copy is set aside and taken back; what is registered later does not reach it.
-/

namespace Verdict

/-- The registry in use and the one that was set aside; both start empty. -/
structure Shelf where
  current : Registry := []
  saved : Registry := []

namespace Shelf

inductive Step
  | register (executor : Executor)
  /-- Replaces the registry in use by the one that a configuration asks for. -/
  | reset (webhook : Webhook) (config : Config)
  | save
  | swap

def step (shelf : Shelf) : Step → Shelf
  | .register executor => { shelf with current := shelf.current.register executor }
  | .reset webhook config => { shelf with current := .ofConfig webhook config }
  | .save => { shelf with saved := shelf.current }
  | .swap => ⟨shelf.saved, shelf.current⟩

def run (shelf : Shelf) (steps : List Step) : Shelf := steps.foldl step shelf

end Shelf

end Verdict
