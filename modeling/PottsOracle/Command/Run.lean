import PottsOracle.Command.Arguments
import PottsOracle.Command.Path
import PottsOracle.Experiment.Run

/-!
# The command

The command reads settings, prints what they are, and runs the experiment unless it is only to be
announced.  It exits with zero, with one if there are no settings at the given path or the
experiment fails, and with two if its arguments are not understood.
-/

namespace PottsOracle

/-- Why the settings at a path cannot be used. -/
inductive ConfigError where
  /-- What is given as a path is none. -/
  | notAPath
  | tooLong
  | directory
  | document (cause : DocumentError)

/-- How the command ends. -/
inductive CommandOutcome where
  /-- With an exit code, and what it has printed on its two channels. -/
  | exited (code : Nat) (output errors : Text)
  /-- With an exit code and an explanation of its arguments. -/
  | explained (code : Nat)
  /-- With settings that cannot be used. -/
  | failed (cause : ConfigError)

namespace Command

/-- The lines about settings. -/
def announcement (s : Settings) : Text :=
  let say (label : String) (shown : Text) : Text := Text.ofString label ++ shown
  let number (label : String) (x : Number) : Text := say label x.toValue.printed
  say "Config hash: " s.toValue.fingerprint
    ++ number "\nData:    samples=" s.data.samples ++ number ", nodes=" s.data.nodes
    ++ number ", node_dims=" s.data.nodeDims ++ number ", edge_dims=" s.data.edgeDims
    ++ say ", representation=" (Text.ofString s.data.representation.name)
    ++ say "\nProblem: solver=" (Text.ofString s.problem.solver.name)
    ++ number ", threads=" s.problem.threads
    ++ number "\nSeed:    " s.seed ++ [10]

/-- The lines of an experiment that is only announced. -/
def dryRunNote : Text := Text.ofString "\n[dry-run] Config loaded successfully. Exiting.\n"

/-- The message about a path without settings. -/
def notFound (path : Path) : Text :=
  Text.ofString "Error: config file not found: " ++ path.toText ++ [10]

/-- The command on settings. -/
def runSettings (s : Settings) (dryRun : Bool) (draws : Except InputError (Draws Float))
    (elapsed : Text) : CommandOutcome :=
  if dryRun then .exited 0 (announcement s ++ dryRunNote) []
  else
    let report := Experiment.runSettings s draws
    let output := announcement s ++ report.events.flatMap (Event.render elapsed)
    match report.outcome with
    | .ok _ => .exited 0 output []
    | .error _ => .exited 1 output []

/-- The settings at a path; there may be nothing. -/
def settingsAt (find : Path → Found) (path : Path) : Except ConfigError (Option Settings) :=
  match find path with
  | .file content => ((Settings.ofDocument content).mapError .document).map some
  | .directory => .error .directory
  | .tooLong => .error .tooLong
  | .nothing => .ok none

/-- The command.  It looks for settings, draws numbers, and prints how long a stage has taken as it
is told to. -/
def run (arguments : List Text) (find : Path → Found)
    (draws : Except InputError (Draws Float)) (elapsed : Text) : CommandOutcome :=
  match Arguments.read arguments with
  | .help => .explained 0
  | .refused => .explained 2
  | .run ⟨none, dryRun, _⟩ =>
    match Settings.defaults with
    | .error e => .failed (.document (.settings e))
    | .ok s => runSettings s dryRun draws elapsed
  | .run ⟨some .dashes, _, _⟩ => .failed .notAPath
  | .run ⟨some (.path t), dryRun, _⟩ =>
    match settingsAt find (Path.ofText t) with
    | .error e => .failed e
    | .ok none => .exited 1 [] (notFound (Path.ofText t))
    | .ok (some s) => runSettings s dryRun draws elapsed

end Command

end PottsOracle
