import ImpLang.Text.Character
import ImpLang.Text.Quoted

/-!
Command line arguments. Long options may be shortened to any unambiguous beginning, a flag takes no
value, two dashes end the options, and one argument may name a script. All arguments are classified
before the first of them takes effect, so an ambiguous option is reported before anything else.
-/

namespace ImpLang.CommandLine

inductive Flag where
  | help
  | parse
  | debug
  | version
  deriving DecidableEq, Repr

def spellings : List (String × Flag) :=
  [("-h", .help), ("--help", .help), ("--parse", .parse), ("--debug", .debug),
   ("--version", .version)]

def Flag.name : Flag → String
  | .help => "-h/--help"
  | .parse => "--parse"
  | .debug => "--debug"
  | .version => "--version"

inductive Argument where
  | plain (text : String)
  | dashes
  /-- An option, whether it is spelled with a single dash, and the value given with it: joined
  directly, or after an equals sign. -/
  | option (flag : Flag) (short : Bool) (value : Option String)
  | unknown (text : String)
  deriving DecidableEq, Repr

def exactFlag? (text : String) : Option Flag :=
  (spellings.find? fun (spelling, _) => spelling = text).map Prod.snd

def isShort (spelling : String) : Bool :=
  !"--".toList.isPrefixOf spelling.toList

def splitValue? (text : String) : Option (String × String) :=
  let cs := text.toList
  if cs.contains '=' then
    some (String.ofList (cs.takeWhile (· != '=')),
      String.ofList ((cs.dropWhile (· != '=')).drop 1))
  else none

/-- The text is a negative number: digits, or digits with a point before the last of them. A line
feed at the end does not matter. -/
def isNegativeNumber (text : String) : Bool :=
  match text.toList with
  | '-' :: digits =>
    let digits := if digits.getLast? = some '\n' then digits.dropLast else digits
    let rest := digits.dropWhile Text.isDecimalDigit
    match rest with
    | [] => !digits.isEmpty
    | '.' :: fraction => !fraction.isEmpty && fraction.all Text.isDecimalDigit
    | _ => false
  | _ => false

/-- The spellings that an argument may stand for when it is spelled in full nowhere, each with the
value that is then joined to it. -/
def candidates (text : String) : List (String × Argument) :=
  match text.toList with
  | '-' :: '-' :: _ =>
    let (beginning, value) :=
      match splitValue? text with
      | some (beginning, value) => (beginning, some value)
      | none => (text, none)
    spellings.filterMap fun (spelling, flag) =>
      if beginning.toList.isPrefixOf spelling.toList then
        some (spelling, .option flag (isShort spelling) value)
      else none
  | '-' :: letter :: rest =>
    spellings.filterMap fun (spelling, flag) =>
      if spelling.toList = ['-', letter] then
        some (spelling, .option flag (isShort spelling) (some (String.ofList rest)))
      else none
  | _ => []

def classify (text : String) : Except String Argument :=
  if text.toList.head? ≠ some '-' then .ok (.plain text)
  else
    match exactFlag? text with
    | some flag => .ok (.option flag (isShort text) none)
    | none =>
      if text = "-" then .ok (.plain text)
      else
        match splitValue? text with
        | some (spelling, value) =>
          match exactFlag? spelling with
          | some flag => .ok (.option flag (isShort spelling) (some value))
          | none => shortened text
        | none => shortened text
where
  shortened (text : String) : Except String Argument :=
    match candidates text with
    | [] =>
      if isNegativeNumber text || text.toList.contains ' ' then .ok (.plain text)
      else .ok (.unknown text)
    | [(_, argument)] => .ok argument
    | several =>
      .error ("ambiguous option: " ++ text ++ " could match " ++
        ", ".intercalate (several.map Prod.fst))

def classifyAll : List String → Except String (List Argument)
  | [] => .ok []
  | text :: rest =>
    if text = "--" then .ok (.dashes :: rest.map .plain)
    else do
      let argument ← classify text
      let others ← classifyAll rest
      return argument :: others

structure Settings where
  script : Option String := none
  parse : Bool := false
  debug : Bool := false
  deriving DecidableEq, Repr

inductive Request where
  | help
  | version
  | run (settings : Settings)
  | misuse (message : String)
  deriving DecidableEq, Repr

structure Reading where
  settings : Settings := {}
  /-- The place for the script has been filled, perhaps with nothing. -/
  scriptRead : Bool := false
  extras : List String := []

def ignoredValue (flag : Flag) (value : String) : Request :=
  .misuse ("argument " ++ flag.name ++ ": ignored explicit argument " ++ Text.quoted value)

/-- The part of a value that a flag has no use for. After a single dash the letters of the value are
further flags, of which only the one for help is known, so a value of such letters alone is no
value at all. -/
def unusedValue? (short : Bool) (value : String) : Option String :=
  if short && !value.isEmpty then
    match value.toList.dropWhile (· == 'h') with
    | [] => none
    | rest => some (String.ofList rest)
  else some value

def valueProblem (flag : Flag) (short : Bool) (value : Option String) : Option Request :=
  (value.bind (unusedValue? short)).map (ignoredValue flag)

/-- Reads the arguments from left to right. Help and version take effect at once. -/
def readArguments (reading : Reading) : List Argument → Request
  | [] =>
    if reading.extras.isEmpty then .run reading.settings
    else .misuse ("unrecognized arguments: " ++ " ".intercalate reading.extras)
  | .option flag short value :: rest =>
    match valueProblem flag short value with
    | some problem => problem
    | none =>
      match flag with
      | .help => .help
      | .version => .version
      | .parse =>
        readArguments { reading with settings := { reading.settings with parse := true } } rest
      | .debug =>
        readArguments { reading with settings := { reading.settings with debug := true } } rest
  | .unknown text :: rest => readArguments { reading with extras := reading.extras ++ [text] } rest
  | .plain text :: rest =>
    if reading.scriptRead then
      readArguments { reading with extras := reading.extras ++ [text] } rest
    else
      let reading :=
        { reading with
          scriptRead := true, settings := { reading.settings with script := some text } }
      match rest with
      | .dashes :: rest => readArguments reading rest
      | rest => readArguments reading rest
  | .dashes :: rest =>
    if reading.scriptRead then
      readArguments { reading with extras := reading.extras ++ ["--"] } rest
    else
      match rest with
      | .plain text :: rest =>
        readArguments
          { reading with
            scriptRead := true, settings := { reading.settings with script := some text } } rest
      | rest => readArguments { reading with scriptRead := true } rest

def request (arguments : List String) : Request :=
  match classifyAll arguments with
  | .error message => .misuse message
  | .ok classified => readArguments {} classified

end ImpLang.CommandLine
