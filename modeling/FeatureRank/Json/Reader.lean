import FeatureRank.Json.Value

/-! # Reading JSON

    A reader takes a value off the front of a text and leaves the rest.  Blanks
    around values are skipped, nothing but blanks may follow the last one, and
    containers nest to a fixed depth.  A number is read in one step of binary64
    arithmetic: the digits that fit 64 bits, times or over a power of ten. -/

namespace FeatureRank.Json

/-- What a reader takes off a text, and the rest. -/
abbrev Taken (α : Type) := Option (α × List Char)

def isSpace (c : Char) : Bool := c = ' ' || c = '\n' || c = '\t' || c = '\r'

def skipSpace (text : List Char) : List Char := text.dropWhile isSpace

def digitValue (c : Char) : Nat := c.toNat - '0'.toNat

def hexValue? (c : Char) : Option Nat :=
  if c.isDigit then some (digitValue c)
  else if 'a' ≤ c ∧ c ≤ 'f' then some (c.toNat - 'a'.toNat + 10)
  else if 'A' ≤ c ∧ c ≤ 'F' then some (c.toNat - 'A'.toNat + 10)
  else none

/-! ## Numbers -/

/-- The greatest significand that is kept; further digits only count places. -/
def significandLimit : Nat := FeatureRank.Number.twoTo 64

/-- Digits before the point: the significand, the places dropped, the rest. -/
def wholeDigits (significand : Nat) : List Char → Nat × Nat × List Char
  | [] => (significand, 0, [])
  | c :: rest =>
    if c.isDigit then
      let more := significand * 10 + digitValue c
      if more < significandLimit then wholeDigits more rest
      else
        (significand, ((c :: rest).takeWhile Char.isDigit).length,
          (c :: rest).dropWhile Char.isDigit)
    else (significand, 0, c :: rest)

/-- Digits after the point: the significand, the places it gained, the rest. -/
def fractionDigits (significand places : Nat) : List Char → Nat × Nat × List Char
  | [] => (significand, places, [])
  | c :: rest =>
    if c.isDigit then
      let more := significand * 10 + digitValue c
      if more < significandLimit then fractionDigits more (places + 1) rest
      else (significand, places, (c :: rest).dropWhile Char.isDigit)
    else (significand, places, c :: rest)

/-- The digits of a text as a number, and the rest; one digit at least. -/
def digits? (text : List Char) : Taken Nat :=
  match text.takeWhile Char.isDigit with
  | [] => none
  | ds => some (ds.foldl (fun n c => n * 10 + digitValue c) 0, text.dropWhile Char.isDigit)

/-- An exponent, if one follows. -/
def exponent? : List Char → Taken Int
  | 'e' :: rest | 'E' :: rest =>
    match rest with
    | '+' :: more => (digits? more).map fun (n, r) => ((n : Int), r)
    | '-' :: more => (digits? more).map fun (n, r) => (-(n : Int), r)
    | _ => (digits? rest).map fun (n, r) => ((n : Int), r)
  | text => some (0, text)

def powerOfTen (n : Nat) : Float := Float.ofScientific 1 false n

/-- `x` times a power of ten, in steps of at most 308 places; no number when it
    grows beyond binary64.  After three steps down nothing is left of `x`. -/
def scale : Nat → Float → Int → Option Float
  | 0, x, _ => some x
  | steps + 1, x, places =>
    if places.natAbs ≤ 308 then
      if 0 ≤ places then
        let y := x * powerOfTen places.toNat
        if y.isInf then none else some y
      else some (x / powerOfTen places.natAbs)
    else if x == 0.0 then some x
    else if 0 ≤ places then none
    else scale steps (x / powerOfTen 308) (places + 308)

def realNumber (negative : Bool) (significand : Nat) (places : Int) : Option Number :=
  (scale 4 (Float.ofNat significand) places).map fun x => .real (if negative then -x else x)

/-- A whole number where its 64 bits hold it, else the nearest binary64 one;
    `-0` is a binary64 number too. -/
def wholeNumber (negative : Bool) (n : Nat) : Number :=
  if !negative then .integer n
  else if 0 < n && n ≤ FeatureRank.Number.twoTo 63 then .integer (-(n : Int))
  else .real (-(Float.ofNat n))

/-- A number without its sign. -/
def unsigned? (negative : Bool) (text : List Char) : Taken Number :=
  let start :=
    match text with
    | '0' :: rest =>
      if (rest.head?.map Char.isDigit).getD false then none else some (0, 0, rest)
    | c :: rest => if c.isDigit then some (wholeDigits (digitValue c) rest) else none
    | [] => none
  match start with
  | none => none
  | some (significand, dropped, '.' :: rest) =>
    if (rest.head?.map Char.isDigit).getD false then
      let (significand, places, rest) := fractionDigits significand 0 rest
      match exponent? rest with
      | none => none
      | some (e, rest) =>
        (realNumber negative significand ((dropped : Int) - places + e)).map (·, rest)
    else none
  | some (significand, dropped, rest) =>
    let written := rest.head? == some 'e' || rest.head? == some 'E'
    match exponent? rest with
    | none => none
    | some (e, rest) =>
      if written || dropped ≠ 0 then
        (realNumber negative significand ((dropped : Int) + e)).map (·, rest)
      else some (wholeNumber negative significand, rest)

def number? : List Char → Taken Number
  | '-' :: rest => unsigned? true rest
  | text => unsigned? false text

/-! ## Strings -/

def hex4? : List Char → Option (Nat × List Char)
  | a :: b :: c :: d :: rest => do
    let a ← hexValue? a
    let b ← hexValue? b
    let c ← hexValue? c
    let d ← hexValue? d
    return (((a * 16 + b) * 16 + c) * 16 + d, rest)
  | _ => none

/-- The character of an escape after its backslash.  Two surrogates make one
    character, and one alone makes none. -/
def escape? : List Char → Option (Char × List Char)
  | '"' :: rest => some ('"', rest)
  | '\\' :: rest => some ('\\', rest)
  | '/' :: rest => some ('/', rest)
  | 'b' :: rest => some ('\x08', rest)
  | 'f' :: rest => some ('\x0c', rest)
  | 'n' :: rest => some ('\n', rest)
  | 'r' :: rest => some ('\r', rest)
  | 't' :: rest => some ('\t', rest)
  | 'u' :: rest => do
    let (high, rest) ← hex4? rest
    if 0xD800 ≤ high ∧ high < 0xDC00 then
      match rest with
      | '\\' :: 'u' :: more =>
        let (low, more) ← hex4? more
        if 0xDC00 ≤ low ∧ low < 0xE000 then
          some (Char.ofNat (0x10000 + (high - 0xD800) * 0x400 + (low - 0xDC00)), more)
        else none
      | _ => none
    else if 0xDC00 ≤ high ∧ high < 0xE000 then none
    else some (Char.ofNat high, rest)
  | _ => none

/-- The characters up to a closing quote, each at least one step of `fuel`. -/
def characters? : Nat → List Char → List Char → Taken String
  | 0, _, _ => none
  | fuel + 1, done, text =>
    match text with
    | '"' :: rest => some (String.ofList done.reverse, rest)
    | '\\' :: rest =>
      match escape? rest with
      | some (c, rest) => characters? fuel (c :: done) rest
      | none => none
    | c :: rest => if c.toNat < 0x20 then none else characters? fuel (c :: done) rest
    | [] => none

/-- A string after its opening quote. -/
def string? (text : List Char) : Taken String := characters? (text.length + 1) [] text

/-! ## Containers -/

/-- The items of an array after its opening bracket and blanks. -/
def items? (value : List Char → Taken Json) : Nat → List Json → List Char → Taken (List Json)
  | 0, _, _ => none
  | fuel + 1, done, text =>
    match value text with
    | none => none
    | some (item, rest) =>
      match skipSpace rest with
      | ',' :: rest => items? value fuel (item :: done) (skipSpace rest)
      | ']' :: rest => some ((item :: done).reverse, rest)
      | _ => none

/-- The members of an object after its opening brace and blanks. -/
def members? (value : List Char → Taken Json) :
    Nat → List (String × Json) → List Char → Taken (List (String × Json))
  | 0, _, _ => none
  | fuel + 1, done, text =>
    match text with
    | '"' :: rest =>
      match string? rest with
      | none => none
      | some (key, rest) =>
        match skipSpace rest with
        | ':' :: rest =>
          match value (skipSpace rest) with
          | none => none
          | some (item, rest) =>
            match skipSpace rest with
            | ',' :: rest => members? value fuel (put key item done) (skipSpace rest)
            | '}' :: rest => some (put key item done, rest)
            | _ => none
        | _ => none
    | _ => none

/-- A value that holds containers to a given depth. -/
def value? : Nat → List Char → Taken Json
  | depth, text =>
    match text with
    | '"' :: rest => (string? rest).map fun (s, r) => (.string s, r)
    | 'n' :: 'u' :: 'l' :: 'l' :: rest => some (.null, rest)
    | 't' :: 'r' :: 'u' :: 'e' :: rest => some (.bool true, rest)
    | 'f' :: 'a' :: 'l' :: 's' :: 'e' :: rest => some (.bool false, rest)
    | '[' :: rest =>
      match depth with
      | 0 => none
      | depth + 1 =>
        match skipSpace rest with
        | ']' :: rest => some (.array [], rest)
        | rest => (items? (value? depth) (rest.length + 1) [] rest).map fun (xs, r) => (.array xs, r)
    | '{' :: rest =>
      match depth with
      | 0 => none
      | depth + 1 =>
        match skipSpace rest with
        | '}' :: rest => some (.object [], rest)
        | rest =>
          (members? (value? depth) (rest.length + 1) [] rest).map fun (ms, r) => (.object ms, r)
    | _ => (number? text).map fun (n, r) => (.number n, r)

/-- How deep containers may nest. -/
def greatestDepth : Nat := 127

/-- The value that a text is, blanks around it aside. -/
def parse? (text : String) : Option Json :=
  match value? greatestDepth (skipSpace text.toList) with
  | some (value, rest) => if (skipSpace rest).isEmpty then some value else none
  | none => none

end FeatureRank.Json
