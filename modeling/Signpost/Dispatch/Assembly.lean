import Signpost.Dispatch.Controller

namespace Signpost

structure Assembly where
  registry : Registry := {}
  dependencies : List Dependency := []

namespace Assembly

inductive Step where
  | register (name : String) (f : Factory)
  | push (d : Dependency)

def step (a : Assembly) : Step → Assembly
  | .register name f => { a with registry := a.registry.register name f }
  | .push d => { a with dependencies := a.dependencies ++ [d] }

def after (steps : List Step) : Assembly :=
  steps.foldl step {}

def construct (a : Assembly) (name : String) : Except Failure Instance :=
  a.registry.construct name a.dependencies

end Assembly

end Signpost
