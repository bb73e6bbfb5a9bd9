import PhraseStructure.Command.Options
import PhraseStructure.Input
import PhraseStructure.Parse
import PhraseStructure.Sentence
import PhraseStructure.SentenceGrammar
import PhraseStructure.Tree.Display
import PhraseStructure.Tree.Node

/-! The command: it parses a sentence and writes its trees, each with its noun phrase chunks.  The
grammar is read before the sentence, so a broken grammar is reported whatever the sentence is.
Without a file the command asks for a sentence and reads one line.

`perform` is the command in any world that it can read from and write to.  The program runs it in
the real world, and `run` in one that is made up of what can be read and keeps what is written. -/

namespace PhraseStructure.Command

/-- What a run leaves behind. -/
structure Outcome where
  status : Nat
  output : String
  errors : String
deriving DecidableEq

/-- The question that is written before a sentence is read from the terminal. -/
def prompt : String := "Sentence: "

/-- The chart of the words.  There is none for words that cannot be parsed. -/
def chartBlock (g : Grammar) (words : List String) : String :=
  match g.chart words with
  | .ok chart => "chart:\n" ++ chart.text ++ "\n"
  | .error _ => ""

/-- A tree and its noun phrase chunks, one on each line. -/
def treeBlock (t : Tree) : String :=
  t.display ++ "\n\n" ++ "Noun Phrase Chunks\n" ++
    String.join (t.nounPhraseChunks.map fun node => node.tree.text ++ "\n") ++ "\n"

/-- The trees of the words, or why there are none. -/
def answer (g : Grammar) (words : List String) : String :=
  match g.parse words with
  | .error error => error.message ++ "\n"
  | .ok [] => "Could not parse sentence.\n"
  | .ok trees => String.join (trees.map treeBlock)

/-- What is written about a sentence. -/
def report (g : Grammar) (chart : Bool) (sentence : String) : String :=
  let words := Sentence.words sentence
  (if chart then chartBlock g words else "") ++ answer g words

/-- What the command needs of the world around it. -/
structure World (m : Type → Type) where
  /-- The text in a file. -/
  readFile (path : String) : m (Except ReadError String)
  /-- The first line that is typed. -/
  readLine : m (Except ReadError String)
  write (text : String) : m Unit
  writeError (text : String) : m Unit

section Perform

variable {m : Type → Type} [Monad m]

/-- Reports an error and gives the status of a run that ends with it. -/
def World.fail (world : World m) (diagnostic : String) : m Nat := do
  world.writeError ("Error: " ++ diagnostic ++ "\n")
  return 1

/-- The grammar of the file that is named, or else the grammar of English sentences. -/
def World.readGrammar (world : World m) : Option String → m (Except GrammarError Grammar)
  | none => return SentenceGrammar.grammar
  | some path => return Grammar.ofFile (← world.readFile path)

/-- The text of the file that is named, or else the first line that is typed after the question. -/
def World.readSentence (world : World m) : Option String → m (Except ReadError String)
  | none => do
    world.write prompt
    world.readLine
  | some path => world.readFile path

/-- The run of the command with the given options.  It gives the status with which it ends. -/
def Options.perform (options : Options) (world : World m) : m Nat := do
  match ← world.readGrammar options.grammar with
  | .error error => world.fail error.diagnostic
  | .ok g =>
    match ← world.readSentence options.file with
    | .error error => world.fail error.diagnostic
    | .ok sentence =>
      world.write (report g options.chart sentence)
      return 0

/-- The run of the command with the given arguments. -/
def perform (args : List String) (world : World m) : m Nat := do
  match Options.ofArgs args with
  | .error error =>
    world.writeError ("Error: " ++ error.message ++ "\n")
    return 2
  | .ok options => options.perform world

end Perform

/-- How texts are read from what is there, and what can be read afterwards. -/
structure Reader (σ : Type) where
  file (path : String) (start : σ) : Except ReadError String × σ
  line (start : σ) : Except ReadError String × σ

/-- What can still be read, and what has been written. -/
structure Record (σ : Type) where
  rest : σ
  output : String
  errors : String

/-- The world in which texts are read as the reader says and what is written is kept. -/
def Reader.world {σ : Type} (reader : Reader σ) : World (StateM (Record σ)) where
  readFile path := modifyGet fun record =>
    ((reader.file path record.rest).1, { record with rest := (reader.file path record.rest).2 })
  readLine := modifyGet fun record =>
    ((reader.line record.rest).1, { record with rest := (reader.line record.rest).2 })
  write text := modify fun record => { record with output := record.output ++ text }
  writeError text := modify fun record => { record with errors := record.errors ++ text }

/-- What is left behind when nothing had been written before. -/
def outcome {σ : Type} (program : StateM (Record σ) Nat) (start : σ) : Outcome :=
  let ending := program ⟨start, "", ""⟩
  ⟨ending.1, ending.2.output, ending.2.errors⟩

/-- What a run with the given options leaves behind. -/
def Options.run {σ : Type} (options : Options) (reader : Reader σ) (start : σ) : Outcome :=
  outcome (options.perform reader.world) start

/-- Files and what is typed. -/
def inputReader : Reader Input where
  file path input := input.read path
  line input := (input.firstLine, input)

/-- What a run with the given arguments leaves behind. -/
def run (args : List String) (input : Input) : Outcome :=
  outcome (perform args inputReader.world) input

end PhraseStructure.Command
