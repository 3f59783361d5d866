import Arbor.Fault
import Arbor.Evaluator.Strategy

/-!
# Errors

Requests that are refused and stores that cannot be read or written, by cause. Each type has one
function `message` with the wording. A `Failure` is either an error, which a caller is expected to
handle, or a fault.
-/

namespace Arbor

def maxTreeDepth : Nat := 30

/-- Deepest switch subtree. A switch over `S` levels has `2 ^ (2 ^ S - 1)` cases. -/
def maxSwitchDepth : Nat := 4

inductive Invalid where
  | treeDepth (depth : Nat)
  | zeroDepth
  | switchDepth (depth : Nat)
  | treeMultiple (treeDepth functionDepth : Nat)
  | functionMultiple (functionDepth switchDepth : Nat)
  /-- The number of nodes is not `2 ^ D - 1` for a positive `D`. -/
  | notPerfect (count : Nat)
  | tooDeep (depth : Nat)
  | missingFeature (feature available : Nat)
  | otherDepth (configured depth : Nat)
  | noFeatures
  /-- A refusal that is reported as the reason of another one. -/
  | wrapped (cause : Invalid)
  | described (text : String)
deriving DecidableEq, Repr, Inhabited

def Invalid.heading : String := "Invalid configuration: "

def Invalid.reason : Invalid → String
  | treeDepth depth => s!"tree depth {depth} outside 1..={maxTreeDepth}"
  | zeroDepth => "function depth and switch depth must be positive"
  | switchDepth depth => s!"switch depth {depth} exceeds {maxSwitchDepth}"
  | treeMultiple tree function =>
    s!"tree depth {tree} is not a multiple of function depth {function}"
  | functionMultiple function switch =>
    s!"function depth {function} is not a multiple of switch depth {switch}"
  | notPerfect count => s!"{count} nodes do not form a perfect binary tree"
  | tooDeep depth => s!"tree depth {depth} exceeds {maxTreeDepth}"
  | missingFeature feature available =>
    s!"tree reads feature {feature} but only {available} features are available"
  | otherDepth configured depth =>
    s!"configured tree depth {configured} but tree has depth {depth}"
  | noFeatures => "feature count must be positive"
  | wrapped cause => heading ++ cause.reason
  | described text => text

def Invalid.message (cause : Invalid) : String := heading ++ cause.reason

inductive IoFault where
  | notFound
  | alreadyExists
  | notDirectory
  | isDirectory
  | nameTooLong
  /-- A zero byte would end the path too early. -/
  | nulInPath
  | notText
  | described (text : String)
deriving DecidableEq, Repr, Inhabited

def IoFault.message : IoFault → String
  | notFound => "No such file or directory (os error 2)"
  | alreadyExists => "File exists (os error 17)"
  | notDirectory => "Not a directory (os error 20)"
  | isDirectory => "Is a directory (os error 21)"
  | nameTooLong => "File name too long (os error 36)"
  | nulInPath => "file name contained an unexpected NUL byte"
  | notText => "stream did not contain valid UTF-8"
  | described text => text

inductive EmitCause where
  /-- The strategy consumes no level, too many, or more than a switch may. -/
  | misfit (strategy : Strategy) (remaining root : Nat)
  | undeclared
  /-- The symbol names an intrinsic. -/
  | reserved
  /-- The symbol already has code. -/
  | defined
  | described (text : String)
deriving DecidableEq, Repr, Inhabited

def EmitCause.message : EmitCause → String
  | misfit strategy remaining root =>
    strategy.describe ++ s!" does not fit {remaining} remaining levels at node {root}"
  | undeclared => "symbol not declared"
  | reserved => "symbol is an intrinsic"
  | defined => "symbol is already defined"
  | described text => text

inductive CorruptCause where
  | header
  | symbols
  | functionCount
  /-- The entry holds a list of nodes that is no tree. -/
  | tree (cause : Invalid)
  /-- The entry is not the expected JSON. -/
  | unreadable
  /-- The code of a function cannot be read. -/
  | code
  | described (text : String)
deriving DecidableEq, Repr, Inhabited

def CorruptCause.message : CorruptCause → String
  | header => "header does not match key"
  | symbols => "unexpected symbol set"
  | functionCount => "expected exactly one function"
  | tree cause => cause.message
  | unreadable => "unreadable entry"
  | code => "unreadable code"
  | described text => text

inductive Error where
  | invalid (cause : Invalid)
  | emit (function : String) (cause : EmitCause)
  | corrupt (key : String) (cause : CorruptCause)
  | backendUnavailable (text : String)
  | serialization (text : String)
  | io (cause : IoFault)
deriving DecidableEq, Repr, Inhabited

def Error.message : Error → String
  | invalid cause => cause.message
  | emit function cause => "Emit failure in " ++ function ++ ": " ++ cause.message
  | corrupt key cause => "Cache corruption in " ++ key ++ ": " ++ cause.message
  | backendUnavailable text => "Backend unavailable: " ++ text
  | serialization text => "Serialization error: " ++ text
  | io cause => "IO error: " ++ cause.message

/-- How a computation ends without a result. -/
inductive Failure where
  | error (error : Error)
  | fault (fault : Fault)
deriving DecidableEq, Repr, Inhabited

def Failure.message : Failure → String
  | error e => e.message
  | fault f => f.message

instance : MonadLift (Except Fault) (Except Failure) where
  monadLift
    | .ok a => .ok a
    | .error f => .error (.fault f)

instance : MonadLift (Except Error) (Except Failure) where
  monadLift
    | .ok a => .ok a
    | .error e => .error (.error e)

instance : MonadLift (Except Invalid) (Except Error) where
  monadLift
    | .ok a => .ok a
    | .error c => .error (.invalid c)

end Arbor
