import SchemaLink.Json.Fault

/-! # Quoted text

A string is read in one of two ways: for a value that is kept its escapes are
resolved, and for one that is skipped they only have to follow the grammar. -/

namespace SchemaLink.Json

def hexDigit? (c : Char) : Option Nat :=
  if '0' ≤ c && c ≤ '9' then some (c.toNat - '0'.toNat)
  else if 'a' ≤ c && c ≤ 'f' then some (c.toNat - 'a'.toNat + 10)
  else if 'A' ≤ c && c ≤ 'F' then some (c.toNat - 'A'.toNat + 10)
  else none

/-- The four hexadecimal digits of an escape. Fewer than four bytes end the text too early. -/
def readHex : List Char → Except Fault (Nat × List Char)
  | a :: b :: c :: d :: rest =>
    match hexDigit? a, hexDigit? b, hexDigit? c, hexDigit? d with
    | some a, some b, some c, some d => .ok (((a * 16 + b) * 16 + c) * 16 + d, rest)
    | _, _, _, _ => .error .malformed
  | short =>
    if (String.ofList short).utf8ByteSize < 4 then .error .unfinished else .error .malformed

theorem readHex_length {text : List Char} {found : Nat × List Char}
    (h : readHex text = .ok found) : found.2.length < text.length := by
  unfold readHex at h
  split at h
  · split at h
    · cases h; simp only [List.length_cons]; omega
    · cases h
  · split at h <;> cases h

/-- The character of an escape of one letter. -/
def simpleEscape? : Char → Option Char
  | '"' => some '"'
  | '\\' => some '\\'
  | '/' => some '/'
  | 'b' => some '\x08'
  | 'f' => some '\x0c'
  | 'n' => some '\n'
  | 'r' => some '\r'
  | 't' => some '\t'
  | _ => none

def isHighSurrogate (unit : Nat) : Bool := 0xD800 ≤ unit && unit < 0xDC00

def isLowSurrogate (unit : Nat) : Bool := 0xDC00 ≤ unit && unit < 0xE000

/-- The character that a high and a low surrogate stand for together. -/
def surrogateChar (high low : Nat) : Char :=
  Char.ofNat (0x10000 + (high - 0xD800) * 0x400 + (low - 0xDC00))

/-- The character of a numbered escape. A high surrogate needs a low one in the next escape,
and a low one may not stand alone. -/
def readUnicode (text : List Char) : Except Fault (Char × List Char) :=
  match readHex text with
  | .error fault => .error fault
  | .ok (unit, rest) =>
    if isLowSurrogate unit then .error .malformed
    else if isHighSurrogate unit then
      match rest with
      | [] => .error .unfinished
      | ['\\'] => .error .unfinished
      | '\\' :: 'u' :: low =>
        match readHex low with
        | .error fault => .error fault
        | .ok (second, rest) =>
          if isLowSurrogate second then
            .ok (surrogateChar unit second, rest)
          else .error .malformed
      | _ => .error .malformed
    else .ok (Char.ofNat unit, rest)

/-- The character of an escape, from after its backslash. -/
def readEscape : List Char → Except Fault (Char × List Char)
  | [] => .error .unfinished
  | 'u' :: rest => readUnicode rest
  | c :: rest =>
    match simpleEscape? c with
    | some char => .ok (char, rest)
    | none => .error .malformed

theorem readUnicode_length {text : List Char} {found : Char × List Char}
    (h : readUnicode text = .ok found) : found.2.length < text.length := by
  unfold readUnicode at h
  split at h
  · cases h
  · next unit rest hunit =>
    have hrest := readHex_length hunit
    split at h
    · cases h
    · split at h
      · split at h
        · cases h
        · cases h
        · split at h
          · cases h
          · next second last hsecond =>
            have hlast := readHex_length hsecond
            simp only [List.length_cons] at hrest hlast
            split at h
            · rw [← Except.ok.inj h]
              simp only
              omega
            · cases h
        · cases h
      · rw [← Except.ok.inj h]
        exact hrest

theorem readEscape_length {text : List Char} {found : Char × List Char}
    (h : readEscape text = .ok found) : found.2.length < text.length := by
  unfold readEscape at h
  split at h
  · cases h
  · have := readUnicode_length h
    simp only [List.length_cons]; omega
  · split at h
    · cases h; simp
    · cases h

def isControl (c : Char) : Bool := c.toNat < 0x20

/-- The content of a string, from after its opening quote, and the text after it. -/
def readString (text : List Char) : Except Fault (List Char × List Char) :=
  match text with
  | [] => .error .unfinished
  | '"' :: rest => .ok ([], rest)
  | '\\' :: rest =>
    match _h : readEscape rest with
    | .error fault => .error fault
    | .ok (c, rest) => (readString rest).map fun (cs, rest) => (c :: cs, rest)
  | c :: rest =>
    if isControl c then .error .malformed
    else (readString rest).map fun (cs, rest) => (c :: cs, rest)
termination_by text.length
decreasing_by
  · have := readEscape_length ‹_›
    simp only [List.length_cons]
    exact Nat.lt_succ_of_lt this
  · simp

/-- Pass over an escape, whose numbers may be any. -/
def skipEscape : List Char → Except Fault (List Char)
  | [] => .error .unfinished
  | 'u' :: rest => (readHex rest).map Prod.snd
  | c :: rest => if (simpleEscape? c).isSome then .ok rest else .error .malformed

theorem skipEscape_length {text rest : List Char} (h : skipEscape text = .ok rest) :
    rest.length < text.length := by
  unfold skipEscape at h
  split at h
  · cases h
  · next digits =>
    cases hdigits : readHex digits with
    | error fault => rw [hdigits] at h; cases h
    | ok found =>
      rw [hdigits] at h
      cases h
      have := readHex_length hdigits
      simp only [List.length_cons]; omega
  · split at h
    · cases h; simp
    · cases h

/-- Pass over a string, from after its opening quote. -/
def skipString (text : List Char) : Except Fault (List Char) :=
  match text with
  | [] => .error .unfinished
  | '"' :: rest => .ok rest
  | '\\' :: rest =>
    match _h : skipEscape rest with
    | .error fault => .error fault
    | .ok rest => skipString rest
  | c :: rest => if isControl c then .error .malformed else skipString rest
termination_by text.length
decreasing_by
  · have := skipEscape_length ‹_›
    simp only [List.length_cons]
    exact Nat.lt_succ_of_lt this
  · simp

theorem skipString_length {text rest : List Char} (h : skipString text = .ok rest) :
    rest.length < text.length := by
  fun_induction skipString text generalizing rest with
  | case1 => cases h
  | case2 => cases h; simp
  | case3 => cases h
  | case4 _ after hafter ih =>
    have := skipEscape_length hafter
    have := ih h
    simp only [List.length_cons]; omega
  | case5 => cases h
  | case6 _ _ _ _ _ ih =>
    have := ih h
    simp only [List.length_cons]; omega

end SchemaLink.Json
