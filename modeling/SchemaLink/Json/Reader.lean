import SchemaLink.Json.Basic
import SchemaLink.Json.Token
import SchemaLink.SortedMap

/-! # Readers

A reader takes a value of a certain shape off a list of tokens. It refuses the
value at the first token that does not fit, so of two faults the earlier counts. -/

namespace SchemaLink.Json

/-- Reads a value off the front of a list of tokens. -/
abbrev Reader (α : Type) := List Token → Except Fault (α × List Token)

namespace Reader

variable {α β σ : Type}

/-- A complete text, after whose value nothing may stand. -/
def run (reader : Reader α) (text : String) : Except Fault α :=
  match reader (scan text.toList) with
  | .error fault => .error fault
  | .ok (a, []) => .ok a
  | .ok (_, _ :: _) => .error .malformed

def map (f : α → β) (reader : Reader α) : Reader β := fun tokens =>
  (reader tokens).map fun (a, rest) => (f a, rest)

/-- A fault in the value itself, or else that it is of another shape than the one asked for. -/
def faultOr : Except Fault α → Fault
  | .error fault => fault
  | .ok _ => .misshapen

/-- Refuse whatever stands here. A string or a number is read to its end first, and of a list or
an object only the opening is read. -/
def mismatch : Reader α
  | [] => .error .unfinished
  | .broken fault :: _ => .error fault
  | .number kept _ :: _ => .error (faultOr kept)
  | .string kept _ :: _ => .error (faultOr kept)
  | .null :: _ | .bool _ :: _ | .openList :: _ | .openObject :: _ => .error .misshapen
  | .closeList :: _ | .closeObject :: _ | .comma :: _ | .colon :: _ => .error .malformed

def string : Reader String
  | .string kept _ :: rest => kept.map fun text => (text, rest)
  | tokens => mismatch tokens

/-- A value that may be null. -/
def nullable (reader : Reader α) : Reader (Option α)
  | .null :: rest => .ok (none, rest)
  | tokens => reader.map some tokens

/-! ## Lists and objects -/

/-- The items after the first one, through the closing bracket. No more than `fuel` tokens
follow. -/
def moreItems (item : Reader α) (fuel : Nat) : Reader (List α) := fun tokens =>
  match tokens, fuel with
  | .closeList :: rest, _ => .ok ([], rest)
  | .comma :: rest, fuel + 1 =>
    match item rest with
    | .error fault => .error fault
    | .ok (a, rest) => (moreItems item fuel).map (a :: ·) rest
  | [], _ => .error .unfinished
  | _, _ => .error .malformed

/-- The items of a list, from after the opening bracket through the closing one. -/
def items (item : Reader α) : Reader (List α)
  | .closeList :: rest => .ok ([], rest)
  | tokens =>
    match item tokens with
    | .error fault => .error fault
    | .ok (a, rest) => (moreItems item rest.length).map (a :: ·) rest

/-- A list, whose items may nest one level less than the list itself. -/
def list (item : Nat → Reader α) (depth : Nat) : Reader (List α)
  | .openList :: rest =>
    match depth with
    | 0 => .error .malformed
    | depth + 1 => items (item depth) rest
  | tokens => mismatch tokens

def key : Reader String
  | .string kept _ :: rest => kept.map fun text => (text, rest)
  | [] => .error .unfinished
  | _ => .error .malformed

/-- The colon after a key, and a value. -/
def afterColon (reader : Reader α) : Reader α
  | .colon :: rest => reader rest
  | [] => .error .unfinished
  | _ => .error .malformed

/-- A member. By its key and the state so far, `read` takes the rest of it into the state. -/
def member (read : String → σ → Reader σ) (state : σ) : Reader σ := fun tokens =>
  match key tokens with
  | .error fault => .error fault
  | .ok (name, rest) => read name state rest

/-- The members after the first one, through the closing brace. No more than `fuel` tokens
follow. -/
def moreMembers (read : String → σ → Reader σ) (fuel : Nat) (state : σ) : Reader σ := fun tokens =>
  match tokens, fuel with
  | .closeObject :: rest, _ => .ok (state, rest)
  | .comma :: rest, fuel + 1 =>
    match member read state rest with
    | .error fault => .error fault
    | .ok (state, rest) => moreMembers read fuel state rest
  | [], _ => .error .unfinished
  | _, _ => .error .malformed

/-- The members of an object, from after the opening brace through the closing one. -/
def members (read : String → σ → Reader σ) (state : σ) : Reader σ
  | .closeObject :: rest => .ok (state, rest)
  | tokens =>
    match member read state tokens with
    | .error fault => .error fault
    | .ok (state, rest) => moreMembers read rest.length state rest

/-- An object with members of one shape; of members with one key the last counts. -/
def dict (item : Nat → Reader α) (depth : Nat) : Reader (SortedMap String α)
  | .openObject :: rest =>
    match depth with
    | 0 => .error .malformed
    | depth + 1 =>
      members (fun name found => afterColon ((item depth).map fun a => found.insert name a))
        .empty rest
  | tokens => mismatch tokens

/-- Any value that is kept. Objects are kept in key order, the last of equal keys counting. -/
def value (depth : Nat) : Reader Json := fun tokens =>
  match tokens with
  | .null :: rest => .ok (.null, rest)
  | .bool b :: rest => .ok (.bool b, rest)
  | .number kept _ :: rest => kept.map fun n => (.number n, rest)
  | .string kept _ :: rest => kept.map fun text => (.string text, rest)
  | .openList :: rest =>
    match depth with
    | 0 => .error .malformed
    | depth + 1 => (items (value depth)).map .list rest
  | .openObject :: rest =>
    match depth with
    | 0 => .error .malformed
    | depth + 1 =>
      (members (fun name found =>
        afterColon ((value depth).map fun v => SortedMap.insertEntry name v found)) []).map
          .object rest
  | tokens => mismatch tokens

/-! ## Values that are skipped -/

inductive Container where
  | list
  | object
  deriving DecidableEq, Repr

/-- What has to come next in a value that is skipped. -/
inductive Awaited where
  | value
  | itemOrClose
  | keyOrClose
  | key
  | colon
  | commaOrClose
  deriving DecidableEq, Repr

/-- The containers that are open, innermost first, and what has to come next in them. -/
structure Progress where
  containers : List Container
  awaited : Awaited

namespace Progress

/-- The value at hand is complete. -/
def completed (containers : List Container) : Progress := ⟨containers, .commaOrClose⟩

def finished (progress : Progress) : Bool :=
  progress.containers.isEmpty && progress.awaited == .commaOrClose

/-- The start of a value. -/
def enter (containers : List Container) : Token → Except Fault Progress
  | .null | .bool _ => .ok (completed containers)
  | .number _ skipped => skipped.map fun _ => completed containers
  | .string _ skipped => skipped.map fun _ => completed containers
  | .openList => .ok ⟨.list :: containers, .itemOrClose⟩
  | .openObject => .ok ⟨.object :: containers, .keyOrClose⟩
  | .broken fault => .error fault
  | .closeList | .closeObject | .comma | .colon => .error .malformed

def enterKey (containers : List Container) : Token → Except Fault Progress
  | .string _ skipped => skipped.map fun _ => ⟨containers, .colon⟩
  | _ => .error .malformed

def next : Progress → Token → Except Fault Progress
  | ⟨containers, .value⟩, token => enter containers token
  | ⟨_ :: containers, .itemOrClose⟩, .closeList => .ok (completed containers)
  | ⟨containers, .itemOrClose⟩, token => enter containers token
  | ⟨_ :: containers, .keyOrClose⟩, .closeObject => .ok (completed containers)
  | ⟨containers, .keyOrClose⟩, token => enterKey containers token
  | ⟨containers, .key⟩, token => enterKey containers token
  | ⟨containers, .colon⟩, .colon => .ok ⟨containers, .value⟩
  | ⟨.list :: containers, .commaOrClose⟩, .comma => .ok ⟨.list :: containers, .value⟩
  | ⟨.list :: containers, .commaOrClose⟩, .closeList => .ok (completed containers)
  | ⟨.object :: containers, .commaOrClose⟩, .comma => .ok ⟨.object :: containers, .key⟩
  | ⟨.object :: containers, .commaOrClose⟩, .closeObject => .ok (completed containers)
  | _, _ => .error .malformed

end Progress

def skipFrom (progress : Progress) : List Token → Except Fault (List Token)
  | [] => .error .unfinished
  | token :: rest =>
    match progress.next token with
    | .error fault => .error fault
    | .ok progress => if progress.finished then .ok rest else skipFrom progress rest

/-- Pass over a value, however deep. -/
def skip : Reader Unit := fun tokens =>
  (skipFrom ⟨[], .value⟩ tokens).map fun rest => ((), rest)

end Reader

/-- The value that a text spells. -/
def parse (text : String) : Except Fault Json := (Reader.value depthLimit).run text

end SchemaLink.Json
