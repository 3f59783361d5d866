import Arbor.Config

/-!
# Failed commands

Why a command fails, with the text and the exit code for it.
-/

namespace Arbor.Command

inductive Problem where
  | config (error : ConfigError)
  | build (error : Error)
  | report (cause : IoFault)
  /-- Samples for which a resolver and the interpreter find different leaves. -/
  | mismatch (count samples : Nat)
  /-- The checksums of two evaluators on the same samples. -/
  | checksums (interpreted compiled : Option UInt64)
  | fault (fault : Fault)
deriving DecidableEq, Repr, Inhabited

namespace Problem

def ofFailure : Failure → Problem
  | .error error => build error
  | .fault cause => fault cause

def checksumText : Option UInt64 → String
  | some checksum => s!"Some({checksum.toNat})"
  | none => "None"

def message : Problem → String
  | config error => "configuration error: " ++ error.message
  | build error => error.message
  | report cause => "failed to write report: " ++ cause.message
  | mismatch count samples =>
    s!"{count} of {samples} samples resolved to another leaf than the interpreter"
  | checksums interpreted compiled =>
    "benchmark checksums differ: interpreter " ++ checksumText interpreted ++ ", compiled "
      ++ checksumText compiled
  | fault cause => cause.message

def exitCode : Problem → UInt32
  | fault _ => 101
  | _ => 1

end Problem

end Arbor.Command
