/-!
# Arguments of the commands

What the commands are told on the command line.
-/

namespace Arbor.Command

/-- The tree of a command, its chunking and the samples. What is given replaces settings of a
configuration. -/
structure TreeArguments where
  depth : Option UInt32 := none
  features : Option UInt32 := none
  functionDepth : Option UInt32 := none
  switchDepth : Option UInt32 := none
  cacheDir : Option String := none
  samples : Nat := 100000
  seed : Option UInt64 := none
deriving DecidableEq, Repr, Inhabited

structure BenchArguments where
  tree : TreeArguments := {}
  warmup : Nat := 1
  runs : Nat := 5
  passes : Nat := 1
  csv : Option String := none
  markdown : Option String := none
deriving DecidableEq, Repr, Inhabited

inductive Verb where
  | run (arguments : TreeArguments)
  | bench (arguments : BenchArguments)
deriving DecidableEq, Repr, Inhabited

structure Invocation where
  verb : Verb
  config : Option String := none
deriving DecidableEq, Repr, Inhabited

end Arbor.Command
