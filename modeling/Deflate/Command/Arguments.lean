/-
The arguments of the command.

* `Request`: what the arguments ask for;
* `UsageError`: why they ask for nothing, and the lines that say so;
* `Request.ofArguments`: the arguments are looked at from left to right, and
  help and version are given as soon as they are met; an empty input is
  noticed only when something else is accepted after it or the arguments end;
* `helpText` and `versionText`: what help and version print.

Words of the arguments are quoted without what would steer a terminal.
-/
import Deflate.Command.Likeness
import Deflate.Command.Terminal

namespace Deflate.Command

/-- The name of the command. -/
def programName : String := "rawinflate"

/-- What the arguments ask for. -/
inductive Request where
  /-- Inflate the input of that name, or the standard input. -/
  | inflate (input? : Option String)
  | help
  | version
  deriving Repr, DecidableEq

/-- The long names of the options. -/
def optionNames : List String := ["help", "version"]

/-- Why the arguments ask for nothing. -/
inductive UsageError where
  /-- An option of one letter that there is not. -/
  | unknownLetter (letter : Char)
  /-- A long option that there is not, after an input or none. -/
  | unknownName (name : String) (afterInput : Bool)
  /-- A second input. -/
  | extraInput (argument : String)
  /-- A value for an option that takes none. -/
  | unwantedValue (option value : String)
  /-- An input without a name. -/
  | emptyInput
  deriving Repr, DecidableEq

namespace UsageError

/-- How the usage names an input that may be left out. -/
def optionalInput : String := "[INPUT]"

/-- How the usage names an input that has been given. -/
def givenInput : String := "<INPUT>"

/-- What the usage is for a request with the options named. -/
def usage (options : List String) (input : String) : String :=
  " ".intercalate (["Usage:", programName] ++ options ++ [input])

/-- Where to find out more. -/
def hint : String := "For more information, try '--help'."

/-- That a word was not expected. -/
def unexpected (word : String) : String :=
  s!"error: unexpected argument '{word}' found"

/-- How to pass a word that looks like an option. -/
def passingTip (word : String) : String :=
  s!"  tip: to pass '{word}' as a value, use '-- {word}'"

/-- What is wrong, a line each. -/
def lines : UsageError → List String
  | unknownLetter letter =>
      let option := plainText (String.ofList ['-', letter])
      [unexpected option, "", passingTip option, "", usage [] optionalInput, "", hint]
  | unknownName name afterInput =>
      let option := plainText ("--" ++ name)
      let input := if afterInput then givenInput else optionalInput
      match closest? name optionNames with
      | some similar =>
          [unexpected option, "", s!"  tip: a similar argument exists: '--{similar}'", "",
            usage ["--" ++ similar] input, "", hint]
      | none => [unexpected option, "", passingTip option, "", usage [] input, "", hint]
  | extraInput argument =>
      [unexpected (plainText argument), "", usage [] optionalInput, "", hint]
  | unwantedValue option value =>
      [s!"error: unexpected value '{plainText value}' for '{option}' found; no more were expected",
        "", usage [option] optionalInput, "", hint]
  | emptyInput =>
      [s!"error: a value is required for '{optionalInput}' but none was supplied", "", hint]

end UsageError

/-- What an argument is. -/
inductive Argument where
  /-- The end of the options. -/
  | separator
  /-- An option by its long name, perhaps with a value. -/
  | long (name : List Char) (value? : Option (List Char))
  /-- An option of one letter; any letters after it are further options. -/
  | short (letter : Char)
  /-- An input. -/
  | plain

namespace Argument

/-- What follows an equals sign. -/
def valueOf : List Char → Option (List Char)
  | '=' :: value => some value
  | _ => none

/-- What an argument before the end of the options is. A lone dash is an
input. -/
def ofChars : List Char → Argument
  | ['-', '-'] => separator
  | '-' :: '-' :: name => long (name.takeWhile (· ≠ '=')) (valueOf (name.dropWhile (· ≠ '=')))
  | '-' :: letter :: _ => short letter
  | _ => plain

end Argument

namespace Request

/-- Accepts the input met so far, if any. -/
def accept (input? : Option String) (request : Request) : Except UsageError Request :=
  if input? = some "" then .error .emptyInput else .ok request

/-- Takes one more input. -/
def takeInput (input? : Option String) (argument : String) : Except UsageError String :=
  match input? with
  | none => .ok argument
  | some _ => .error (.extraInput argument)

/-- The request of the arguments after the end of the options. -/
def ofInputs (input? : Option String) : List String → Except UsageError Request
  | [] => accept input? (.inflate input?)
  | argument :: rest => do ofInputs (some (← takeInput input? argument)) rest

/-- What the option of a long name asks for. -/
def ofName? : String → Option Request
  | "help" => some .help
  | "version" => some .version
  | _ => none

/-- The option of a long name, or the error for one. -/
def ofLong (input? : Option String) (name : List Char) (value? : Option (List Char)) :
    Except UsageError Request :=
  let name := String.ofList name
  match ofName? name, value? with
  | some request, none => accept input? request
  | some _, some value => .error (.unwantedValue ("--" ++ name) (String.ofList value))
  | none, _ => .error (.unknownName name input?.isSome)

/-- The option of one letter, or the error for one. -/
def ofShort (input? : Option String) : Char → Except UsageError Request
  | 'h' => accept input? .help
  | 'V' => accept input? .version
  | letter => .error (.unknownLetter letter)

/-- The request of the arguments after an input or none. -/
def ofRest (input? : Option String) : List String → Except UsageError Request
  | [] => accept input? (.inflate input?)
  | argument :: rest =>
      match Argument.ofChars argument.toList with
      | .separator => ofInputs input? rest
      | .long name value? => ofLong input? name value?
      | .short letter => ofShort input? letter
      | .plain => do ofRest (some (← takeInput input? argument)) rest

/-- The request that the arguments make. -/
def ofArguments (arguments : List String) : Except UsageError Request :=
  ofRest none arguments

end Request

/-- What help prints. -/
def helpText : String :=
  "\n".intercalate
    ["Decompress a raw DEFLATE (RFC 1951) stream to stdout", "", UsageError.usage [] UsageError.optionalInput, "",
      "Arguments:", "  [INPUT]  Input file; omit or use \x60-\x60 for stdin", "",
      "Options:", "  -h, --help     Print help", "  -V, --version  Print version", ""]

/-- What version prints. -/
def versionText : String := "inflate-cli 0.1.0\n"

end Deflate.Command
