import CallPlan.Run.CommandLine
/-!
# The program

From the arguments to an exit code and what is printed: 0 for a job that succeeded, 1 for one that failed, 2 for a command
line that asks for nothing, 101 for a job that broke off.
-/
namespace CallPlan

structure Outcome where
  code : Nat
  output : String
  errors : String
  /-- Whether the time that the run took is to be told. -/
  timed : Bool := false
deriving DecidableEq

def versionText : String := "chainplan 0.1.0\n"

def usageText : String :=
  "chainplan — planifier des séquences d'appels de contrats\n\n"
    ++ "Usage: chainplan [OPTIONS] <COMMAND>\n\n"
    ++ "Commands:\n"
    ++ "  plan [SCRIPT] [-o FILE] [-f json|disasm] [--time]  planifier un script JSON\n"
    ++ "  selector <SIGNATURES>...                           calculer des sélecteurs de 4 octets\n"
    ++ "  help                                               afficher cette aide\n\n"
    ++ "Options:\n"
    ++ "  -v, --verbose...    augmenter la verbosité\n"
    ++ "  -q, --quiet         mode silencieux\n"
    ++ "      --color <WHEN>  auto, always ou never\n"
    ++ "  -h, --help          afficher cette aide\n"
    ++ "  -V, --version       afficher la version\n"

/-- Whether a job asks for the time that it takes. -/
def Job.wantsTime : Job → Bool
  | .plan t     => t.time
  | .selector _ => false

/-- The exit code and the texts of a job's result. -/
def Outcome.ofResult (timed : Bool) : Except Failure Report → Outcome
  | .ok r    => ⟨0, r.output, r.status, timed⟩
  | .error f =>
    ⟨if f.isAbort then 101 else 1, "", "error: " ++ (f.within .run).message Wording.plain ++ "\n", false⟩

def Outcome.ofStop : CommandLine.Stop → Outcome
  | .help    => ⟨0, usageText, "", false⟩
  | .version => ⟨0, versionText, "", false⟩
  | .misuse  => ⟨2, "", usageText, false⟩

/-- Runs the program with its arguments. -/
def runProgram {m : Type → Type} [Monad m] (fs : FileSystem m) (stdin : m (Except FileError String))
    (args : List String) : m Outcome := do
  match CommandLine.read args with
  | .error s => return .ofStop s
  | .ok job => return .ofResult job.wantsTime (← job.run fs stdin)

end CallPlan
