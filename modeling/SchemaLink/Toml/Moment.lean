/-! # Dates and times of TOML text

A moment is a date, a time of day, or a date and a time, and only then it may have
an offset. Every part has a fixed number of digits and a range. -/

namespace SchemaLink.Toml

/-- A number with just so many digits in a range, and the text after it. -/
def readPart (digits least greatest : Nat) (text : List Char) : Option (Nat × List Char) :=
  let part := text.take digits
  let value := part.foldl (fun value c => value * 10 + (c.toNat - '0'.toNat)) 0
  if part.length = digits && part.all Char.isDigit && least ≤ value && value ≤ greatest then
    some (value, text.drop digits)
  else none

/-- The text after a mark between two parts. -/
def afterMark? (mark : Char) : List Char → Option (List Char)
  | [] => none
  | c :: rest => if c = mark then some rest else none

def isLeapYear (year : Nat) : Bool := year % 4 == 0 && (year % 100 != 0 || year % 400 == 0)

def daysIn (year month : Nat) : Nat :=
  if month = 2 then if isLeapYear year then 29 else 28
  else if month = 4 || month = 6 || month = 9 || month = 11 then 30
  else 31

/-- The text after a date. -/
def afterDate? (text : List Char) : Option (List Char) := do
  let (year, rest) ← readPart 4 0 9999 text
  let (month, rest) ← readPart 2 1 12 (← afterMark? '-' rest)
  let (_, rest) ← readPart 2 1 (daysIn year month) (← afterMark? '-' rest)
  some rest

/-- The text after an hour and a minute. -/
def afterMinute? (text : List Char) : Option (List Char) := do
  let (_, rest) ← readPart 2 0 23 text
  let (_, rest) ← readPart 2 0 59 (← afterMark? ':' rest)
  some rest

/-- The text after a fraction of a second, if there is one. -/
def afterFraction : List Char → List Char
  | '.' :: digit :: rest =>
    if digit.isDigit then rest.dropWhile Char.isDigit else '.' :: digit :: rest
  | text => text

/-- The text after a time of day, which may be in a leap second. -/
def afterTime? (text : List Char) : Option (List Char) := do
  let rest ← afterMinute? text
  let (_, rest) ← readPart 2 0 60 (← afterMark? ':' rest)
  some (afterFraction rest)

/-- The text after an offset. -/
def afterOffset? : List Char → Option (List Char)
  | 'Z' :: rest => some rest
  | 'z' :: rest => some rest
  | '+' :: rest => afterMinute? rest
  | '-' :: rest => afterMinute? rest
  | _ => none

def isTimeMark (c : Char) : Bool := c == 'T' || c == 't' || c == ' '

/-- The text after a moment. -/
def afterMoment? (text : List Char) : Option (List Char) :=
  match afterDate? text with
  | none => afterTime? text
  | some [] => some []
  | some (mark :: rest) =>
    match if isTimeMark mark then afterTime? rest else none with
    | none => some (mark :: rest)
    | some rest => some ((afterOffset? rest).getD rest)

end SchemaLink.Toml
