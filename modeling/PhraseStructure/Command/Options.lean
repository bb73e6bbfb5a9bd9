/-! The arguments of the command.  A file may be named, a grammar may be chosen with `-g FILE`, and
`-c` asks for the chart.  Both options have a long form, one-letter options can be written together,
and the value of `-g` may follow at once or after an equals sign.  After `--` every argument is the
name of a file.  Nothing may be given twice or be empty. -/

namespace PhraseStructure.Command

/-- Why the arguments are refused. -/
inductive UsageError where
  | unknownOption (option : String)
  | repeated (option : String)
  | missingValue (option : String)
  | emptyValue (option : String)
  | unwantedValue (option : String)
  | secondFile (file : String)
deriving DecidableEq

/-- The error as it is reported. -/
def UsageError.message : UsageError → String
  | unknownOption option => "unknown option " ++ option
  | repeated option => option ++ " is given twice"
  | missingValue option => option ++ " needs a file"
  | emptyValue option => option ++ " has an empty value"
  | unwantedValue option => option ++ " takes no value"
  | secondFile file => "unexpected argument " ++ file

/-- What the command is asked for. -/
structure Options where
  file : Option String
  grammar : Option String
  chart : Bool
deriving DecidableEq

namespace Options

/-- The options with a sentence file. -/
def withFile (options : Options) (file : String) : Except UsageError Options :=
  if file = "" then .error (.emptyValue "FILE")
  else if options.file.isSome then .error (.secondFile file)
  else .ok { options with file := some file }

/-- The options with a grammar file. -/
def withGrammar (options : Options) (file : String) : Except UsageError Options :=
  if file = "" then .error (.emptyValue "--grammar")
  else if options.grammar.isSome then .error (.repeated "--grammar")
  else .ok { options with grammar := some file }

/-- The options with the wish for a chart. -/
def withChart (options : Options) : Except UsageError Options :=
  if options.chart then .error (.repeated "--chart") else .ok { options with chart := true }

/-- The letters of an argument such as `-cg`, and whether the grammar file is still to come. -/
def readLetters (options : Options) : List Char → Except UsageError (Options × Bool)
  | [] => .ok (options, false)
  | 'c' :: rest => do (← options.withChart).readLetters rest
  | ['g'] => .ok (options, true)
  | 'g' :: '=' :: value => do return (← options.withGrammar (String.ofList value), false)
  | 'g' :: value => do return (← options.withGrammar (String.ofList value), false)
  | letter :: _ => .error (.unknownOption (String.ofList ['-', letter]))

/-- An argument that begins with two hyphens, and whether the grammar file is still to come. -/
def readLong (options : Options) (arg : List Char) : Except UsageError (Options × Bool) :=
  let name := arg.takeWhile (· != '=')
  match name == "grammar".toList, name == "chart".toList, arg.dropWhile (· != '=') with
  | true, _, [] => .ok (options, true)
  | true, _, _ :: value => do return (← options.withGrammar (String.ofList value), false)
  | _, true, [] => do return (← options.withChart, false)
  | _, true, _ :: _ => .error (.unwantedValue "--chart")
  | _, _, _ => .error (.unknownOption ("--" ++ String.ofList name))

/-- The arguments from the first one on.  `awaiting` says that a grammar file comes next. -/
def readArgs (options : Options) (awaiting : Bool) : List String → Except UsageError Options
  | [] => if awaiting then .error (.missingValue "--grammar") else .ok options
  | arg :: rest =>
    match arg.toList with
    | '-' :: letter :: more =>
      if awaiting then
        .error (.missingValue "--grammar")
      else if letter != '-' then do
        let (options, awaiting) ← options.readLetters (letter :: more)
        options.readArgs awaiting rest
      else if more.isEmpty then
        rest.foldlM withFile options
      else do
        let (options, awaiting) ← options.readLong more
        options.readArgs awaiting rest
    | _ => do
      let options ← if awaiting then options.withGrammar arg else options.withFile arg
      options.readArgs false rest

/-- The options that the arguments ask for. -/
def ofArgs (args : List String) : Except UsageError Options :=
  readArgs ⟨none, none, false⟩ false args

end Options

end PhraseStructure.Command
