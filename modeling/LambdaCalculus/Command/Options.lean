import LambdaCalculus.Reduction.Basic
import LambdaCalculus.Term.Printer

/-!
# Options

The arguments of the command line, read from left to right.  Asking for the
version or for help overrides everything else.  When an argument cannot be
accepted, the options as they stand at that moment are kept beside the error.
-/

namespace LambdaCalculus

/-- What the program is asked to do. -/
inductive Mode
  | usage
  | version
  | run
deriving DecidableEq

/-- The options of the program. -/
structure Options where
  /-- What to do. -/
  mode : Mode
  /-- The file with the term. -/
  termPath : Text
  /-- The file with an argument for the term; empty for none. -/
  argumentPath : Text
  /-- How terms are shown. -/
  style : Style
  /-- Which redexes are contracted. -/
  strategy : Strategy
  /-- The greatest number of contractions; zero for no limit. -/
  maxSteps : Nat
  /-- The greatest number of nodes; zero for no limit. -/
  maxNodes : Nat
  /-- Terms with declared types are checked. -/
  typeCheck : Bool
  /-- Every contraction is shown. -/
  trace : Bool
  /-- Every phase is shown. -/
  verbose : Bool
  /-- The tokens of every file are shown. -/
  dumpTokens : Bool
  /-- The number of source lines around a diagnostic. -/
  contextLines : Nat
deriving DecidableEq

/-- Why an argument is not accepted. -/
inductive OptionError
  /-- The last argument needs another one behind it. -/
  | valueMissing (flag : Text)
  /-- The value of the flag is not a number. -/
  | numberExpected (flag value : Text)
  /-- No strategy has this name. -/
  | unknownStrategy (value : Text)
  /-- No option is called so. -/
  | unknownOption (argument : Text)
  /-- There is a second input file. -/
  | extraInput (argument : Text)
  /-- There is no input file. -/
  | inputMissing
deriving DecidableEq

/-- The text of an error. -/
def OptionError.message : OptionError -> Text
  | .valueMissing flag => flag ++ " requires a value"
  | .numberExpected flag value =>
      flag ++ " expects a non-negative integer, got '" ++ value ++ "'"
  | .unknownStrategy value =>
      "unknown strategy '" ++ value ++ "' (expected whnf or full)"
  | .unknownOption argument => "unknown option '" ++ argument ++ "'"
  | .extraInput argument => "unexpected extra input '" ++ argument ++ "'"
  | .inputMissing => "missing input file"

/-- Options with the error, if any, that ended their reading. -/
structure OptionResult where
  /-- The options as they stand. -/
  options : Options
  /-- Why reading ended early. -/
  error : Option OptionError
deriving DecidableEq

namespace Options

/-- The options before the first argument. -/
def initial : Options where
  mode := .usage
  termPath := []
  argumentPath := []
  style := .named
  strategy := .weakHead
  maxSteps := 1000000
  maxNodes := 0
  typeCheck := true
  trace := false
  verbose := false
  dumpTokens := false
  contextLines := 2

/-- The greatest number of source lines around a diagnostic. -/
def contextLimit : Nat := 64

/-! ## Flags -/

/-- A flag that stands alone. -/
inductive Flag
  | debug
  | indices
  | noCheck
  | trace
  | verbose
  | dumpTokens
deriving DecidableEq

/-- What a flag changes. -/
def Flag.set
    (flag : Flag)
    (options : Options) : Options :=
  match flag with
  | .debug => { options with style := .debug }
  | .indices => { options with style := .indexed }
  | .noCheck => { options with typeCheck := false }
  | .trace => { options with trace := true }
  | .verbose => { options with verbose := true }
  | .dumpTokens => { options with dumpTokens := true }

/-- The spellings of the flags. -/
def flagNames : List (Text × Flag) :=
  [("-d", .debug), ("--debug", .debug), ("--indices", .indices),
    ("--no-check", .noCheck), ("--trace", .trace), ("--verbose", .verbose),
    ("--dump-tokens", .dumpTokens)]

/-- An option that takes the next argument as its value. -/
inductive Setting
  | argument
  | strategy
  | maxSteps
  | maxNodes
  | context
deriving DecidableEq

/-- The spellings of the options with a value. -/
def settingNames : List (Text × Setting) :=
  [("-a", .argument), ("--arg", .argument), ("--strategy", .strategy),
    ("--max-steps", .maxSteps), ("--max-nodes", .maxNodes),
    ("--context", .context)]

/-! ## Numbers -/

/-- Stores the number that a value starts with, and accepts the value if
nothing follows the number. -/
def storeNumber
    (store : Nat -> Options)
    (options : Options)
    (flag value : Text) : OptionResult :=
  { options :=
      match Text.leadingNumber? value with
      | some number => store number
      | none => options
    error :=
      if Text.isNumber value then none
      else some (.numberExpected flag value) }

/-- What an option with a value changes.  A faulty context changes nothing,
while a faulty limit is stored as far as it is a number. -/
def Setting.set
    (setting : Setting)
    (options : Options)
    (flag value : Text) : OptionResult :=
  match setting with
  | .argument => ⟨{ options with argumentPath := value }, none⟩
  | .strategy =>
      match Strategy.ofName? value with
      | some chosen => ⟨{ options with strategy := chosen }, none⟩
      | none => ⟨options, some (.unknownStrategy value)⟩
  | .maxSteps =>
      storeNumber (fun number => { options with maxSteps := number })
        options flag value
  | .maxNodes =>
      storeNumber (fun number => { options with maxNodes := number })
        options flag value
  | .context =>
      if Text.isNumber value then
        ⟨{ options with
          contextLines := min (Text.decimalValue value) contextLimit }, none⟩
      else
        ⟨options, some (.numberExpected flag value)⟩

/-! ## Reading -/

/-- An argument that asks for an option: a dash and at least one more byte. -/
def isDashed : Text -> Bool
  | 0x2D :: _ :: _ => true
  | _ => false

/-- Reads arguments from left to right. -/
def read : List Text -> Options -> OptionResult
  | [], options =>
      if options.termPath.isEmpty then
        ⟨options, some .inputMissing⟩
      else
        ⟨{ options with mode := .run }, none⟩
  | argument :: rest, options =>
      match flagNames.lookup argument with
      | some flag => read rest (flag.set options)
      | none =>
          match settingNames.lookup argument with
          | some setting =>
              match rest with
              | [] => ⟨options, some (.valueMissing argument)⟩
              | value :: rest =>
                  match setting.set options argument value with
                  | ⟨options, none⟩ => read rest options
                  | ⟨options, some error⟩ => ⟨options, some error⟩
          | none =>
              if isDashed argument then
                ⟨options, some (.unknownOption argument)⟩
              else if options.termPath.isEmpty then
                read rest { options with termPath := argument }
              else
                ⟨options, some (.extraInput argument)⟩

/-- The mode that an argument asks for whatever the others say. -/
def overridingMode? (argument : Text) : Option Mode :=
  if argument == "--version" then some .version
  else if argument == "--help" || argument == "-h" then some .usage
  else none

/-- The options that the arguments ask for.  An argument ends at its first
NUL byte. -/
def parse (arguments : List Text) : OptionResult :=
  let arguments := arguments.map Text.beforeNul
  match arguments.findSome? overridingMode? with
  | some mode => ⟨{ initial with mode := mode }, none⟩
  | none => read arguments initial

end Options

/-- How the program is used. -/
def usage : Text :=
  "lcalc <file> [options]\n  --version\n  --help\n\nOptions:\n" ++
    "  -a, --arg <file>        apply the term to the term in <file>\n" ++
    "  -d, --debug             print the structural form\n" ++
    "  --indices               print de Bruijn indices instead of names\n" ++
    "  --strategy whnf|full    weak head (default) or full normal form\n" ++
    "  --max-steps N           reduction step budget " ++
    "(default 1000000, 0 = unlimited)\n" ++
    "  --max-nodes N           term size budget (default 0 = unlimited)\n" ++
    "  --no-check              skip type checking of typed terms\n" ++
    "  --trace                 log every reduction step to stderr\n" ++
    "  --verbose               log pipeline phases to stderr\n" ++
    "  --dump-tokens           print the token stream of each input\n" ++
    "  --context N             source lines around each diagnostic " ++
    "(default 2)\n"

/-- The name and version of the program. -/
def version : Text := "lcalc v0.1.0"

end LambdaCalculus
