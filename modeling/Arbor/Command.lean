import Arbor.Command.Bench
import Arbor.Command.Line

/-!
# The program

A command line is read and carried out on a host. The exit code is 0 if all went well, 2 if the
command line is wrong, and otherwise that of the problem.
-/

namespace Arbor.Command

def usage : String :=
  "Usage: treeforge [--config <CONFIG>] <COMMAND>\n\n"
    ++ "Commands:\n"
    ++ "  run    Compile a random tree and check it against the interpreter\n"
    ++ "  bench  Compare interpreter and compiled throughput\n"
    ++ "  help   Print this message\n\n"
    ++ "Options of both commands:\n"
    ++ "  -d, --depth <N>           Tree depth\n"
    ++ "  -f, --features <N>        Features per vector\n"
    ++ "      --function-depth <N>  Tree levels per compiled function\n"
    ++ "      --switch-depth <N>    Tree levels per jump table\n"
    ++ "      --cache-dir <PATH>    Directory for cached evaluators\n"
    ++ "  -n, --samples <N>         Feature vectors to evaluate\n"
    ++ "      --seed <N>            Seed for the random tree and data set\n\n"
    ++ "Options of bench:\n"
    ++ "      --warmup <N>          Unmeasured runs before timing\n"
    ++ "      --runs <N>            Measured runs per evaluator\n"
    ++ "      --passes <N>          Passes over the samples per run\n"
    ++ "      --csv <PATH>          Write per-run results as CSV\n"
    ++ "      --markdown <PATH>     Write a Markdown report\n"

variable {m : Type → Type} [Monad m] (host : Host m)

def carryOut (terminal : Terminal m) (invocation : Invocation) : ExceptT Problem m Unit :=
  match invocation.verb with
  | .run arguments => run terminal arguments invocation.config
  | .bench arguments => bench terminal arguments invocation.config

def perform (logSetting : Option String) (invocation : Invocation) : m UInt32 := do
  let start ← host.clock
  host.out banner
  match ← carryOut ⟨host, .ofSetting logSetting, start⟩ invocation with
  | .ok () => return 0
  | .error problem =>
    host.err (Console.bold (Console.Colour.red.paint "error:") ++ " " ++ problem.message ++ "\n")
    return problem.exitCode

/-- The program: its exit code for the words of a command line and the setting of the log filter. -/
def program (logSetting : Option String) (words : List String) : m UInt32 := do
  match Line.parse words with
  | .ok invocation => perform host logSetting invocation
  | .error .version =>
    host.out ("treeforge " ++ version ++ "\n")
    return 0
  | .error .help =>
    host.out usage
    return 0
  | .error .misuse =>
    host.err usage
    return 2

end Arbor.Command
