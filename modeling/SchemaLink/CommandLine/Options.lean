/-! # Options

Options have long names and, but for two, letters. A value follows its option as the
next word, after an equals sign, or right after the letter. -/

namespace SchemaLink.CommandLine

structure Options where
  config : Option String := none
  input : Option String := none
  output : Option String := none
  indent : Option Nat := none
  check : Bool := false
  deriving DecidableEq, Repr

/-- What a command line asks for. -/
inductive Request where
  | compile (options : Options)
  | help
  deriving DecidableEq, Repr

inductive Name where
  | config
  | input
  | output
  | indent
  | check
  | help
  deriving DecidableEq, Repr

def longName? : List Char → Option Name
  | ['c', 'o', 'n', 'f', 'i', 'g'] => some .config
  | ['i', 'n', 'p', 'u', 't'] => some .input
  | ['o', 'u', 't', 'p', 'u', 't'] => some .output
  | ['i', 'n', 'd', 'e', 'n', 't'] => some .indent
  | ['c', 'h', 'e', 'c', 'k'] => some .check
  | ['h', 'e', 'l', 'p'] => some .help
  | _ => none

def letter? : Char → Option Name
  | 'c' => some .config
  | 'i' => some .input
  | 'o' => some .output
  | 'h' => some .help
  | _ => none

/-- A word as an option, with the value that is part of the word. -/
def option? : List Char → Option (Name × Option (List Char))
  | '-' :: '-' :: long =>
    let name := long.takeWhile (· != '=')
    let value :=
      match long.dropWhile (· != '=') with
      | [] => none
      | _ :: value => some value
    (longName? name).map fun name => (name, value)
  | '-' :: letter :: '=' :: value => (letter? letter).map fun name => (name, some value)
  | ['-', letter] => (letter? letter).map fun name => (name, none)
  | '-' :: letter :: value => (letter? letter).map fun name => (name, some value)
  | _ => none

/-- A word that cannot be a value, since it looks like an option. -/
def looksLikeOption (word : String) : Bool :=
  match word.toList with
  | '-' :: _ :: _ => true
  | _ => false

/-- A number of at most 64 bits in decimal digits, with or without a plus sign. -/
def number? (text : List Char) : Option Nat :=
  let digits :=
    match text with
    | '+' :: digits => digits
    | digits => digits
  if digits.isEmpty || !digits.all Char.isDigit then none
  else
    let value := digits.foldl (fun value c => value * 10 + (c.toNat - '0'.toNat)) 0
    if value < Nat.pow 2 64 then some value else none

/-- A path that may not be empty. -/
def path? (text : List Char) : Option String :=
  if text.isEmpty then none else some (String.ofList text)

namespace Options

/-- Give an option its value. No option may be given twice. -/
def set (options : Options) (name : Name) (value : List Char) : Option Options :=
  match name with
  | .config =>
    if options.config.isSome then none
    else (path? value).map fun path => { options with config := some path }
  | .input =>
    if options.input.isSome then none
    else (path? value).map fun path => { options with input := some path }
  | .output =>
    if options.output.isSome then none
    else (path? value).map fun path => { options with output := some path }
  | .indent =>
    if options.indent.isSome then none
    else (number? value).map fun width => { options with indent := some width }
  | .check | .help => none

/-- Read words into options, up to the first that is not allowed. -/
def read (options : Options) : List String → Option Request
  | [] => some (.compile options)
  | ["--"] => some (.compile options)
  | word :: words =>
    match option? word.toList with
    | none => none
    | some (.help, value) => if word.startsWith "--" && value.isSome then none else some .help
    | some (.check, some _) => none
    | some (.check, none) =>
      if options.check then none else { options with check := true }.read words
    | some (name, some value) =>
      match options.set name value with
      | none => none
      | some options => options.read words
    | some (name, none) =>
      match words with
      | [] => none
      | value :: words =>
        if looksLikeOption value then none
        else
          match options.set name value.toList with
          | none => none
          | some options => options.read words

end Options

/-- The request that the words of a command line spell; none if they are not allowed. -/
def parse (words : List String) : Option Request := Options.read {} words

end SchemaLink.CommandLine
