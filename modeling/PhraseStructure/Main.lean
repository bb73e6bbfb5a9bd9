import PhraseStructure.Command.Run

/-! The program: the command in the world of the files and the terminal. -/

open PhraseStructure PhraseStructure.Command

/-- Whether the number that comes with a failure, which may have either sign, is the given one. -/
def isCode (code number : UInt32) : Bool := code == number || code == -number

/-- What a failure to read means, if it is one that is reported. -/
def readErrorOf? : IO.Error → Option ReadError
  | .noFileOrDirectory _ _ _ => some .notFound
  | .permissionDenied _ _ _ => some .noPermission
  | .inappropriateType _ code _ => some (if isCode code 21 then .isDirectory else .notDirectory)
  | .noSuchThing _ code _ => if isCode code 6 then some .noDevice else none
  | .invalidArgument _ code _ =>
    if isCode code 36 then some .nameTooLong
    else if isCode code 40 then some .tooManyLinks
    else none
  | _ => none

/-- The text in a file. -/
def readFile (file : String) : IO (Except ReadError String) := do
  try
    return decodeText (← IO.FS.readBinFile file).toList
  catch error =>
    match readErrorOf? error with
    | some cause => return .error cause
    | none => throw error

/-- The bytes of the next line. -/
partial def readLineBytes (stream : IO.FS.Stream) (before : ByteArray) : IO ByteArray := do
  let next ← stream.read 1
  if next.isEmpty then
    return before
  else if next.toList = [10] then
    return before ++ next
  else
    readLineBytes stream (before ++ next)

/-- The first line that is typed. -/
def readTyped : IO (Except ReadError String) := do
  return decodeFirstLine (← readLineBytes (← IO.getStdin) .empty).toList

/-- The world of the program. -/
def realWorld : World IO where
  readFile := readFile
  readLine := readTyped
  write text := do
    IO.print text
    (← IO.getStdout).flush
  writeError := IO.eprint

def main (args : List String) : IO UInt32 := return (← perform args realWorld).toUInt32
