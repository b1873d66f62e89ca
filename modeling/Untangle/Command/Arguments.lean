import Untangle.Files.Path
import Untangle.Rule.Name
import Untangle.Text.Digit

set_option autoImplicit false

/-!
# Arguments of the command line

Options come in a long form, `--name value` or `--name=value`, and in a short one, `-n value` or
`-nvalue`, where short ones that take no value may be written together.  `--` ends the options.  What
is left are the operands.
-/

namespace Untangle.Command

/-! ## Options in general -/

/-- An option that a command knows. -/
structure Spec (κ : Type) where
  long : Text
  short : Option CodePoint
  takesValue : Bool
  key : κ

/-- Options with their values, and operands, in the order in which they were given. -/
structure Given (κ : Type) where
  options : List (κ × Text)
  operands : List Text

/-- The arguments are wrong. -/
structure UsageError where
  deriving Repr

/-- Puts an option before what is given. -/
def Given.addOption {κ : Type} (key : κ) (value : Text) (g : Given κ) : Given κ :=
  { g with options := (key, value) :: g.options }

/-- Puts an operand before what is given. -/
def Given.addOperand {κ : Type} (operand : Text) (g : Given κ) : Given κ :=
  { g with operands := operand :: g.operands }

/-- A name and what follows an equals sign after it. -/
def splitValue (arg : Text) : Text × Option Text :=
  let name := arg.takeWhile (· != 0x3D)
  match arg.drop name.length with
  | [] => (name, none)
  | _ :: value => (name, some value)

/-- What an argument with short options says. -/
inductive Cluster (κ : Type) where
  /-- All options are there with their values. -/
  | closed (options : List (κ × Text))
  /-- The last option takes the next argument as its value. -/
  | pending (options : List (κ × Text)) (key : κ)

/-- Reads short options that are written together. -/
def readCluster {κ : Type} (specs : List (Spec κ)) : Text → Except UsageError (Cluster κ)
  | [] => .ok (.closed [])
  | c :: rest =>
    match specs.find? fun s => s.short == some c with
    | none => .error {}
    | some s =>
      if s.takesValue then
        .ok (if rest.isEmpty then .pending [] s.key else .closed [(s.key, rest)])
      else do
        match ← readCluster specs rest with
        | .closed os => return .closed ((s.key, []) :: os)
        | .pending os k => return .pending ((s.key, []) :: os) k

/-- The options of an argument that starts with a dash. -/
def readOption {κ : Type} (specs : List (Spec κ)) (arg : Text) : Except UsageError (Cluster κ) :=
  let (name, value) := splitValue arg
  match specs.find? fun s => s.long == name with
  | some s =>
    match s.takesValue, value with
    | true, some v => .ok (.closed [(s.key, v)])
    | true, none => .ok (.pending [] s.key)
    | false, none => .ok (.closed [(s.key, [])])
    | false, some _ => .error {}
  | none => if (Text.of "--").isPrefixOf arg then .error {} else readCluster specs (arg.drop 1)

/-- Whether an argument has the form of an option. -/
def looksLikeOption (arg : Text) : Bool := (Text.of "-").isPrefixOf arg && arg.length > 1

/-- Reads arguments; unless they may be mixed the first operand ends the options. -/
def readArguments {κ : Type} (specs : List (Spec κ)) (mixed : Bool) :
    List Text → Except UsageError (Given κ)
  | [] => .ok ⟨[], []⟩
  | arg :: rest =>
    if arg == Text.of "--" then .ok ⟨[], rest⟩
    else if looksLikeOption arg then
      match readOption specs arg with
      | .error e => .error e
      | .ok (.closed os) => do
        let g ← readArguments specs mixed rest
        return { g with options := os ++ g.options }
      | .ok (.pending os key) =>
        match rest with
        | [] => .error {}
        | value :: rest' => do
          let g ← readArguments specs mixed rest'
          return { g with options := os ++ (key, value) :: g.options }
    else if mixed then do
      let g ← readArguments specs mixed rest
      return g.addOperand arg
    else .ok ⟨[], arg :: rest⟩

/-! ## The commands -/

/-- The options of the commands. -/
inductive Key where
  | help
  | version
  | output
  | beautify
  | noDecode
  | skipRule
  | maxSteps
  | debug
  | debugFile
  | verbose
  deriving DecidableEq, Repr

/-- The options before the command. -/
def groupSpecs : List (Spec Key) :=
  [⟨"--version", none, false, .version⟩, ⟨"--help", none, false, .help⟩]

/-- The options of a simplification. -/
def deobfuscateSpecs : List (Spec Key) :=
  [⟨"--output", some 0x6F, true, .output⟩,
   ⟨"--beautify", none, false, .beautify⟩,
   ⟨"--no-decode", none, false, .noDecode⟩,
   ⟨"--skip-rule", none, true, .skipRule⟩,
   ⟨"--max-steps", none, true, .maxSteps⟩,
   ⟨"--debug", none, false, .debug⟩,
   ⟨"--debug-file", none, true, .debugFile⟩,
   ⟨"--verbose", some 0x76, false, .verbose⟩,
   ⟨"--help", none, false, .help⟩]

/-- The options of an analysis. -/
def analyzeSpecs : List (Spec Key) := [⟨"--help", none, false, .help⟩]

/-- The options of a simplification that were given. -/
structure Request where
  input : Text
  output : Option Path
  beautify : Bool
  noDecode : Bool
  skipRules : List RuleName
  maxSteps : Option Int
  debug : Bool
  debugFile : Option Path
  verbose : Bool

/-- What the arguments ask for. -/
inductive Invocation where
  | help
  | version
  | deobfuscate (r : Request)
  | analyze (input : Text)

namespace Given

/-- Whether an option is given. -/
def has (g : Given Key) (k : Key) : Bool := g.options.any fun o => o.1 == k

/-- The values of an option. -/
def values (g : Given Key) (k : Key) : List Text :=
  (g.options.filter fun o => o.1 == k).map (·.2)

/-- The value of an option that was given last. -/
def value? (g : Given Key) (k : Key) : Option Text := (g.values k).getLast?

/-- The only operand. -/
def operand (g : Given Key) : Except UsageError Text :=
  match g.operands with
  | [t] => .ok t
  | _ => .error {}

end Given

/-- The rules of some words. -/
def rulesOf (words : List Text) : Except UsageError (List RuleName) :=
  words.mapM fun w =>
    match RuleName.ofWord? w with
    | some r => .ok r
    | none => .error {}

/-- The number of an option. -/
def numberOf (value : Option Text) : Except UsageError (Option Int) :=
  match value with
  | none => .ok none
  | some t =>
    match Text.integer? t with
    | some n => .ok (some n)
    | none => .error {}

/-- A simplification that is asked for. -/
def readDeobfuscate (args : List Text) : Except UsageError Invocation := do
  let g ← readArguments deobfuscateSpecs true args
  if g.has .help then return .help
  return .deobfuscate {
    input := ← g.operand
    output := (g.value? .output).map Path.ofText
    beautify := g.has .beautify
    noDecode := g.has .noDecode
    skipRules := ← rulesOf (g.values .skipRule)
    maxSteps := ← numberOf (g.value? .maxSteps)
    debug := g.has .debug
    debugFile := (g.value? .debugFile).map Path.ofText
    verbose := g.has .verbose }

/-- An analysis that is asked for. -/
def readAnalyze (args : List Text) : Except UsageError Invocation := do
  let g ← readArguments analyzeSpecs true args
  if g.has .help then return .help
  return .analyze (← g.operand)

/-- What the arguments ask for.  Of help and version the one that comes first counts. -/
def Invocation.ofArguments (args : List Text) : Except UsageError Invocation := do
  let g ← readArguments groupSpecs false args
  match g.options, g.operands with
  | (Key.version, _) :: _, _ => return .version
  | _ :: _, _ => return .help
  | [], command :: rest =>
    if command == Text.of "deobfuscate" then readDeobfuscate rest
    else if command == Text.of "analyze" then readAnalyze rest
    else throw {}
  | [], [] => throw {}

end Untangle.Command
