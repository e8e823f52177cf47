/-!
# The arguments of the command

* `Options`: what the command is asked to do.
* `Options.ofArguments`: the options that a list of arguments stands for.

The two flags and the path may come in any order. After the argument `--` nothing is a flag, and a
single dash is a path.
-/

namespace ExprCheck

/-- What the command is asked to do. -/
structure Options where
  /-- Show the tokens before reading the program. -/
  showTokens : Bool := false
  /-- Stop after reading the program, and show its tree without types. -/
  parseOnly : Bool := false
  /-- The file to read in place of the standard input. -/
  path? : Option String := none
deriving DecidableEq

/-- What is wrong with the arguments. -/
inductive UsageFault where
  | unknownFlag (argument : String)
  | repeatedFlag (argument : String)
  | secondPath (argument : String)
deriving DecidableEq

namespace UsageFault

/-- What is said of wrong arguments. -/
def message : UsageFault → String
  | unknownFlag argument => "Unknown option: " ++ argument
  | repeatedFlag argument => "Option given twice: " ++ argument
  | secondPath argument => "More than one file: " ++ argument

end UsageFault

namespace Options

/-- The options with a path to read. -/
def withPath (path : String) (options : Options) : Except UsageFault Options :=
  if options.path?.isSome then .error (.secondPath path)
  else .ok { options with path? := some path }

/-- The options with one more argument. -/
def withArgument (argument : String) (options : Options) : Except UsageFault Options :=
  if argument = "--tokens" then
    if options.showTokens then .error (.repeatedFlag argument)
    else .ok { options with showTokens := true }
  else if argument = "--parse-only" then
    if options.parseOnly then .error (.repeatedFlag argument)
    else .ok { options with parseOnly := true }
  else if argument.startsWith "-" && argument != "-" then .error (.unknownFlag argument)
  else options.withPath argument

/-- The options with some more arguments. -/
def withArguments : List String → Options → Except UsageFault Options
  | [], options => .ok options
  | argument :: later, options =>
    if argument = "--" then later.foldlM (fun options path => options.withPath path) options
    else do
      let options ← options.withArgument argument
      options.withArguments later

/-- The options that a list of arguments stands for. -/
def ofArguments (arguments : List String) : Except UsageFault Options :=
  withArguments arguments {}

end Options

end ExprCheck
