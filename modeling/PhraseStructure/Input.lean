import PhraseStructure.Input.FileTree

/-! What a run can read: files, and what is typed.  What was typed can be read once.  It can also be
read as a file, under the names of the stream, and then nothing of it is left. -/

namespace PhraseStructure

/-- The files, and the bytes that are still to be read from the terminal. -/
structure Input where
  files : FileTree
  typed : List UInt8
deriving DecidableEq

/-- The first line of what is typed, with its line feed.  What follows it is not looked at. -/
def decodeFirstLine (bytes : List UInt8) : Except ReadError String :=
  decodeText (bytes.takeWhile (· != 10) ++ (bytes.dropWhile (· != 10)).take 1)

namespace Input

/-- The text at a path, and what can be read afterwards. -/
def read (input : Input) (path : String) : Except ReadError String × Input :=
  match input.files.find path with
  | .error cause => (.error cause, input)
  | .ok .directory => (.error .isDirectory, input)
  | .ok .terminal => (.error .noDevice, input)
  | .ok (.file bytes) => (decodeText bytes, input)
  | .ok .stream => (decodeText input.typed, { input with typed := [] })

/-- The first line that is typed. -/
def firstLine (input : Input) : Except ReadError String := decodeFirstLine input.typed

/-- What was typed can be read as a file once. -/
theorem read_stream {input : Input} {path : String} (h : input.files.find path = .ok .stream) :
    input.read path = (decodeText input.typed, ⟨input.files, []⟩) := by
  simp [read, h]

end Input

end PhraseStructure
