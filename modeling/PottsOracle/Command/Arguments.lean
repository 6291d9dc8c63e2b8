import PottsOracle.Text.Basic
import PottsOracle.Text.Digit

/-!
# Arguments of the command

The command has options only: `--config` with a path, `--dry-run`, `--verbose` and `--help`, which
is also `-h`.  A long option may be cut short as long as it stays the only one that starts so, and
the value of `--config` may stand behind an equals sign; of several values the last one counts.

An argument that starts with a dash is an option, except a lone dash, a negative number, and an
argument with a space that is no known option.  Behind two dashes nothing is an option any more.
-/

namespace PottsOracle

/-- What is given as the path of the settings. -/
inductive ConfigArgument where
  | path (t : Text)
  /-- Two dashes behind an equals sign, which are no path. -/
  | dashes
  deriving DecidableEq, Repr

/-- What the arguments ask for. -/
structure Arguments where
  /-- The path of the settings; without one all settings are defaults. -/
  config : Option ConfigArgument
  /-- The experiment is only announced. -/
  dryRun : Bool
  /-- More is logged. -/
  verbose : Bool
  deriving DecidableEq, Repr

/-- What becomes of a list of arguments. -/
inductive Invocation where
  | run (arguments : Arguments)
  | help
  /-- The arguments are not understood. -/
  | refused
  deriving DecidableEq, Repr

/-- An option of the command. -/
inductive CommandOption where
  | help
  | config
  | dryRun
  | verbose
  deriving DecidableEq, Repr

/-- What an argument is. -/
inductive ArgumentKind where
  | value
  /-- Two dashes. -/
  | separator
  /-- An option, with what stands behind its equals sign or, if it has one dash, behind its
  letter. -/
  | option (which : CommandOption) (short : Bool) (attached : Option Text)
  | unknownOption
  /-- The start of more than one option. -/
  | ambiguous
  deriving DecidableEq, Repr

/-- A text that is given as a path. -/
def ConfigArgument.ofText (t : Text) : ConfigArgument := if t = [45, 45] then dashes else path t

namespace CommandOption

/-- The short option. -/
def shortHelp : Text := Text.ofString "-h"

/-- The long options. -/
def long : List (Text × CommandOption) := [
  (Text.ofString "--help", help), (Text.ofString "--config", config),
  (Text.ofString "--dry-run", dryRun), (Text.ofString "--verbose", verbose)]

/-- The option of exactly this name, and whether it is the short one. -/
def named? (name : Text) : Option (CommandOption × Bool) :=
  if name = shortHelp then some (help, true)
  else (long.find? fun (other, _) => other = name).map fun (_, o) => (o, false)

end CommandOption

namespace ArgumentKind

/-- A text split at its first equals sign, if there is one. -/
def splitAtEquals (t : Text) : Text × Option Text :=
  match t.dropWhile (· ≠ 61) with
  | [] => (t, none)
  | _ :: rest => (t.takeWhile (· ≠ 61), some rest)

/-- The options that an argument may abbreviate. -/
def candidates (t : Text) : List ArgumentKind :=
  match t with
  | 45 :: 45 :: _ =>
    let (start, attached) := splitAtEquals t
    (CommandOption.long.filter fun (name, _) => start.isPrefixOf name).map fun (_, o) =>
      .option o false attached
  | 45 :: 104 :: rest => [.option .help true (some rest)]
  | _ => []

/-- Digits of any script. -/
def allDigits (t : Text) : Bool := t.all fun c => (Text.digitValue? c).isSome

/-- A negative number: a dash and digits, with or without a point before the last of them.  A line
end behind it does not count. -/
def isNegativeNumber (t : Text) : Bool :=
  match t with
  | 45 :: rest =>
    let rest := if rest.getLast? = some 10 then rest.dropLast else rest
    let whole := rest.takeWhile (· ≠ 46)
    match rest.dropWhile (· ≠ 46) with
    | [] => whole ≠ [] && allDigits whole
    | _ :: places => places ≠ [] && allDigits whole && allDigits places
  | _ => false

/-- The option that an argument names in full, with or without something attached. -/
def fullName? (t : Text) : Option ArgumentKind :=
  match CommandOption.named? t with
  | some (o, short) => some (.option o short none)
  | none =>
    match splitAtEquals t with
    | (_, none) => none
    | (name, some attached) =>
      (CommandOption.named? name).map fun (o, short) => .option o short (some attached)

/-- What an argument is that stands before any separator. -/
def ofText (t : Text) : ArgumentKind :=
  if t = [45, 45] then .separator
  else if t.head? ≠ some 45 ∨ t.length = 1 then .value
  else
    match fullName? t, candidates t with
    | some kind, _ => kind
    | none, [kind] => kind
    | none, _ :: _ :: _ => .ambiguous
    | none, [] => if isNegativeNumber t || t.contains 32 then .value else .unknownOption

/-- What each of some arguments is: behind a separator all are values. -/
def ofTexts : List Text → List (Text × ArgumentKind)
  | [] => []
  | t :: rest =>
    match ofText t with
    | .separator => (t, .separator) :: rest.map (·, .value)
    | kind => (t, kind) :: ofTexts rest

end ArgumentKind

namespace Arguments

/-- No arguments. -/
def none : Arguments := ⟨.none, false, false⟩

/-- Sets an option that takes no value.  Options with one dash may follow one another in a single
argument, but there is only one of them, which is for help. -/
def flag? (arguments : Arguments) (o : CommandOption) : Option Arguments :=
  match o with
  | .dryRun => some { arguments with dryRun := true }
  | .verbose => some { arguments with verbose := true }
  | .help | .config => .none

/-- What is attached to the short option for help makes sense: nothing, or the same letter
again. -/
def repeatsHelp (attached : Option Text) : Bool :=
  match attached with
  | .none => true
  | some t => t ≠ [] && t.all (· = 104)

/-- Goes through classified arguments.  Values that belong to no option are refused in the end,
unless help is asked for before. -/
def parse (arguments : Arguments) (understood : Bool) :
    List (Text × ArgumentKind) → Invocation
  | [] => if understood then .run arguments else .refused
  | (_, .value) :: rest | (_, .separator) :: rest | (_, .unknownOption) :: rest =>
    arguments.parse false rest
  | (_, .ambiguous) :: _ => .refused
  | (_, .option .config _ (some path)) :: rest =>
    { arguments with config := some (.ofText path) }.parse understood rest
  | (_, .option .config _ .none) :: (path, .value) :: rest =>
    { arguments with config := some (.ofText path) }.parse understood rest
  | (_, .option .config _ .none) :: _ => .refused
  | (_, .option .help short attached) :: _ =>
    if (if short then repeatsHelp attached else attached.isNone) then .help else .refused
  | (_, .option o _ attached) :: rest =>
    match attached, arguments.flag? o with
    | .none, some arguments => arguments.parse understood rest
    | _, _ => .refused

/-- What a list of arguments asks for.  An argument that is the start of several options is refused
before any other is looked at. -/
def read (arguments : List Text) : Invocation :=
  let kinds := ArgumentKind.ofTexts arguments
  if kinds.any fun (_, kind) => kind = .ambiguous then .refused else none.parse true kinds

end Arguments

end PottsOracle
