/-! Texts as they are stored, and why a text cannot be read. -/

namespace PhraseStructure

/-- Why a text cannot be read. -/
inductive ReadError where
  | notFound
  | isDirectory
  | notDirectory
  | noPermission
  | nameTooLong
  | tooManyLinks
  | noDevice
  | notText
deriving DecidableEq

namespace ReadError

/-- The number, the kind and the description of an error that the file system reports. -/
def system? : ReadError → Option (Nat × String × String)
  | notFound => some (2, "NotFound", "No such file or directory")
  | isDirectory => some (21, "IsADirectory", "Is a directory")
  | notDirectory => some (20, "NotADirectory", "Not a directory")
  | noPermission => some (13, "PermissionDenied", "Permission denied")
  | nameTooLong => some (36, "InvalidFilename", "File name too long")
  | tooManyLinks => some (40, "FilesystemLoop", "Too many levels of symbolic links")
  | noDevice => some (6, "Uncategorized", "No such device or address")
  | notText => none

/-- What is said of bytes that are not a text. -/
def notTextMessage : String := "stream did not contain valid UTF-8"

def message (error : ReadError) : String :=
  match error.system? with
  | some (code, _, text) => text ++ " (os error " ++ toString code ++ ")"
  | none => notTextMessage

def diagnostic (error : ReadError) : String :=
  match error.system? with
  | some (code, kind, text) =>
    "Os \x7b code: " ++ toString code ++ ", kind: " ++ kind ++ ", message: " ++
      "\"" ++ text ++ "\" \x7d"
  | none =>
    "Error \x7b kind: InvalidData, message: \"" ++ notTextMessage ++ "\" \x7d"

end ReadError

def decodeText (bytes : List UInt8) : Except ReadError String :=
  match String.fromUTF8? ⟨bytes.toArray⟩ with
  | some text => .ok text
  | none => .error .notText

end PhraseStructure
