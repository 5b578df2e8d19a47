import SchemaLink.Json.Numeral
import SchemaLink.Json.Quoted

/-! # Tokens of JSON text

A text is cut into tokens up to its end or to the first place where no token can
stand. Strings and numbers are read for a value that is kept and for one that is
skipped, since it depends on the reader which of the two they will be. -/

namespace SchemaLink.Json

inductive Token where
  | openList
  | closeList
  | openObject
  | closeObject
  | comma
  | colon
  | null
  | bool (value : Bool)
  | number (kept : Except Fault Number) (skipped : Except Fault Unit)
  | string (kept : Except Fault String) (skipped : Except Fault Unit)
  /-- The text goes on in a way that starts no token. -/
  | broken (fault : Fault)

def isBlank (c : Char) : Bool := c == ' ' || c == '\n' || c == '\t' || c == '\r'

/-- What follows the first letter of a word, if the text goes on with the rest of the word. -/
def readWord : List Char → List Char → Except Fault (List Char)
  | [], text => .ok text
  | _ :: _, [] => .error .unfinished
  | c :: cs, d :: ds => if c = d then readWord cs ds else .error .malformed

theorem readWord_length {word text rest : List Char} (h : readWord word text = .ok rest) :
    rest.length ≤ text.length := by
  fun_induction readWord word text <;> grind

/-- A word, whose first letter has been read. -/
def wordToken (token : Token) (word : String) (text : List Char) : Token × Option (List Char) :=
  match readWord word.toList text with
  | .ok rest => (token, some rest)
  | .error fault => (.broken fault, none)

def stringToken (text : List Char) : Token × Option (List Char) :=
  let kept := (readString text).map fun (content, _) => String.ofList content
  match skipString text with
  | .ok rest => (.string kept (.ok ()), some rest)
  | .error fault => (.string kept (.error fault), none)

def numberToken (negative : Bool) (text : List Char) : Token × Option (List Char) :=
  let kept := readMagnitude negative text
  match skipMagnitude text with
  | .ok rest => (.number kept (.ok ()), some rest)
  | .error fault => (.number kept (.error fault), none)

/-- The token that a character starts, and the text after it unless the text is broken off. -/
def readToken (c : Char) (rest : List Char) : Token × Option (List Char) :=
  match c with
  | '[' => (.openList, some rest)
  | ']' => (.closeList, some rest)
  | '{' => (.openObject, some rest)
  | '}' => (.closeObject, some rest)
  | ',' => (.comma, some rest)
  | ':' => (.colon, some rest)
  | 'n' => wordToken .null "ull" rest
  | 't' => wordToken (.bool true) "rue" rest
  | 'f' => wordToken (.bool false) "alse" rest
  | '"' => stringToken rest
  | '-' => numberToken true rest
  | c => if isDigit c then numberToken false (c :: rest) else (.broken .malformed, none)

theorem wordToken_length {token : Token} {word : String} {text rest : List Char}
    (h : (wordToken token word text).2 = some rest) : rest.length ≤ text.length := by
  unfold wordToken at h
  split at h
  · next hword => cases h; exact readWord_length hword
  · cases h

theorem stringToken_length {text rest : List Char} (h : (stringToken text).2 = some rest) :
    rest.length < text.length := by
  simp only [stringToken] at h
  split at h
  · next hskip => cases h; exact skipString_length hskip
  · cases h

theorem numberToken_length {negative : Bool} {text rest : List Char}
    (h : (numberToken negative text).2 = some rest) : rest.length < text.length := by
  simp only [numberToken] at h
  split at h
  · next hskip => cases h; exact skipMagnitude_length hskip
  · cases h

theorem readToken_length {c : Char} {text rest : List Char}
    (h : (readToken c text).2 = some rest) : rest.length ≤ text.length := by
  unfold readToken at h
  split at h
  case h_7 | h_8 | h_9 => exact wordToken_length h
  case h_10 => exact Nat.le_of_lt (stringToken_length h)
  case h_11 => exact Nat.le_of_lt (numberToken_length h)
  case h_12 =>
    split at h
    · exact Nat.le_of_lt_succ (numberToken_length h)
    · cases h
  all_goals cases h; exact Nat.le_refl _

/-- The tokens of a text. -/
def scan (text : List Char) : List Token :=
  match text with
  | [] => []
  | c :: rest =>
    if isBlank c then scan rest
    else
      match _h : readToken c rest with
      | (token, none) => [token]
      | (token, some after) => token :: scan after
termination_by text.length
decreasing_by
  · simp
  · have := readToken_length (congrArg Prod.snd ‹_›)
    simp only [List.length_cons]
    exact Nat.lt_succ_of_le this

end SchemaLink.Json
