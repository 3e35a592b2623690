import FeatureRank.Record.Content
import FeatureRank.Yaml.Token

/-! # YAML documents

    The tokens of a text make a tree of scalars, sequences and mappings.  What a
    plain scalar stands for, a number say, is left to whoever reads the tree:
    where a text is expected it is the text as written, and `content?` gives it
    the type that its form has. -/

namespace FeatureRank.Yaml

inductive Node where
  | scalar (plain : Bool) (text : String)
  | sequence (items : List Node)
  | mapping (entries : List (Node × Node))

instance : Inhabited Node := ⟨.scalar true ""⟩

/-- The node of a place that is left empty. -/
def Node.empty : Node := .scalar true ""

/-! ## From tokens -/

/-- A node and the tokens after it. -/
abbrev Parsed (α : Type) := Option (α × List Token)

/-- Whether a node begins at these tokens, or the place is empty. -/
def isAbsent (ends : List Token) : List Token → Bool
  | t :: _ => ends.contains t
  | [] => true

/-- The end of an entry of a block mapping. -/
def mappingEnds : List Token := [.key, .value, .blockEnd]

mutual

/-- A node; where `indentless` is set it may be a sequence whose entries stand as
    deep as the key above them. -/
def node : Nat → Bool → List Token → Parsed Node
  | 0, _, _ => none
  | fuel + 1, indentless, tokens =>
    match tokens with
    | .scalar plain text :: rest => some (.scalar plain text, rest)
    | .blockSequence :: rest => (blockItems fuel rest).map fun (xs, r) => (.sequence xs, r)
    | .blockMapping :: rest => (blockEntries fuel rest).map fun (es, r) => (.mapping es, r)
    | .flowSequence :: rest => (flowItems fuel true rest).map fun (xs, r) => (.sequence xs, r)
    | .flowMapping :: rest => (flowEntries fuel true rest).map fun (es, r) => (.mapping es, r)
    | .blockEntry :: _ =>
      if indentless then (plainItems fuel tokens).map fun (xs, r) => (.sequence xs, r) else none
    | _ => none

/-- The node at a place, an empty one where one of `ends` follows. -/
def nodeOr : Nat → List Token → Bool → List Token → Parsed Node
  | 0, _, _, _ => none
  | fuel + 1, ends, indentless, tokens =>
    if isAbsent ends tokens then some (.empty, tokens) else node fuel indentless tokens

/-- The items of a block sequence. -/
def blockItems : Nat → List Token → Parsed (List Node)
  | 0, _ => none
  | fuel + 1, tokens =>
    match tokens with
    | .blockEnd :: rest => some ([], rest)
    | .blockEntry :: rest =>
      match nodeOr fuel [.blockEntry, .blockEnd] false rest with
      | none => none
      | some (item, rest) => (blockItems fuel rest).map fun (xs, r) => (item :: xs, r)
    | _ => none

/-- The items of a sequence without a block of its own. -/
def plainItems : Nat → List Token → Parsed (List Node)
  | 0, _ => none
  | fuel + 1, tokens =>
    match tokens with
    | .blockEntry :: rest =>
      match nodeOr fuel (.blockEntry :: mappingEnds) false rest with
      | none => none
      | some (item, rest) => (plainItems fuel rest).map fun (xs, r) => (item :: xs, r)
    | _ => some ([], tokens)

/-- The entries of a block mapping. -/
def blockEntries : Nat → List Token → Parsed (List (Node × Node))
  | 0, _ => none
  | fuel + 1, tokens =>
    match tokens with
    | .blockEnd :: rest => some ([], rest)
    | .key :: rest =>
      match nodeOr fuel mappingEnds true rest with
      | none => none
      | some (key, rest) => entryValue fuel key rest
    | _ => none

/-- The value of an entry of a block mapping, and the entries after it. -/
def entryValue : Nat → Node → List Token → Parsed (List (Node × Node))
  | 0, _, _ => none
  | fuel + 1, key, tokens =>
    match tokens with
    | .value :: rest =>
      match nodeOr fuel mappingEnds true rest with
      | none => none
      | some (value, rest) => (blockEntries fuel rest).map fun (es, r) => ((key, value) :: es, r)
    | _ => (blockEntries fuel tokens).map fun (es, r) => ((key, .empty) :: es, r)

/-- The items of a flow sequence; an item may be a mapping of one entry. -/
def flowItems : Nat → Bool → List Token → Parsed (List Node)
  | 0, _, _ => none
  | fuel + 1, first, tokens =>
    match tokens, first with
    | .flowSequenceEnd :: rest, _ => some ([], rest)
    | .flowEntry :: rest, false => flowItem fuel rest
    | tokens, true => flowItem fuel tokens
    | _, false => none

def flowItem : Nat → List Token → Parsed (List Node)
  | 0, _ => none
  | fuel + 1, tokens =>
    match tokens with
    | .flowSequenceEnd :: rest => some ([], rest)
    | .key :: rest =>
      match flowItemEntry fuel rest with
      | none => none
      | some (entry, rest) =>
        (flowItems fuel false rest).map fun (xs, r) => (.mapping [entry] :: xs, r)
    | tokens =>
      match node fuel false tokens with
      | none => none
      | some (item, rest) => (flowItems fuel false rest).map fun (xs, r) => (item :: xs, r)

/-- A key and its value as an item of a flow sequence.  A key that is left empty
    takes the mark that stands in its place. -/
def flowItemEntry : Nat → List Token → Parsed (Node × Node)
  | 0, _ => none
  | fuel + 1, tokens =>
    if isAbsent [.value, .flowEntry, .flowSequenceEnd] tokens then
      flowValue fuel .flowSequenceEnd .empty (tokens.drop 1)
    else
      match node fuel false tokens with
      | none => none
      | some (key, rest) => flowValue fuel .flowSequenceEnd key rest

/-- A key and its value in a flow mapping. -/
def flowPairEntry : Nat → List Token → Parsed (Node × Node)
  | 0, _ => none
  | fuel + 1, tokens =>
    match nodeOr fuel [.value, .flowEntry, .flowMappingEnd] false tokens with
    | none => none
    | some (key, rest) => flowValue fuel .flowMappingEnd key rest

/-- A key with its value in a flow collection that ends with the given token. -/
def flowValue : Nat → Token → Node → List Token → Parsed (Node × Node)
  | 0, _, _, _ => none
  | fuel + 1, ending, key, tokens =>
    match tokens with
    | .value :: rest =>
      (nodeOr fuel [.flowEntry, ending] false rest).map fun (value, r) => ((key, value), r)
    | rest => some ((key, .empty), rest)

/-- The entries of a flow mapping; a key may stand alone. -/
def flowEntries : Nat → Bool → List Token → Parsed (List (Node × Node))
  | 0, _, _ => none
  | fuel + 1, first, tokens =>
    match tokens, first with
    | .flowMappingEnd :: rest, _ => some ([], rest)
    | .flowEntry :: rest, false => flowPair fuel rest
    | tokens, true => flowPair fuel tokens
    | _, false => none

def flowPair : Nat → List Token → Parsed (List (Node × Node))
  | 0, _ => none
  | fuel + 1, tokens =>
    match tokens with
    | .flowMappingEnd :: rest => some ([], rest)
    | .key :: rest =>
      match flowPairEntry fuel rest with
      | none => none
      | some (entry, rest) => (flowEntries fuel false rest).map fun (es, r) => (entry :: es, r)
    | tokens =>
      match node fuel false tokens with
      | none => none
      | some (key, rest) => (flowEntries fuel false rest).map fun (es, r) => ((key, .empty) :: es, r)

end

/-- The steps that reading a tree takes at most: each token is at the start of a
    few readers, which call one another without taking a token only downwards. -/
def fuelFor (tokens : List Token) : Nat := 4 * tokens.length + 4

/-- The document of a text: `none` inside when there is nothing in the text, and
    none at all when it is no YAML or holds a second document. -/
def parse? (text : String) : Option (Option Node) := do
  let tokens ← tokens? text
  let fuel := fuelFor tokens
  match tokens with
  | [] => return none
  | .documentStart :: rest => last (← nodeOr fuel [.documentStart, .documentEnd] false rest)
  | _ => last (← node fuel false tokens)
where
  /-- The only document of a text, with what follows it. -/
  last : Node × List Token → Option (Option Node)
    | (root, rest) =>
      if (rest.dropWhile (· == .documentEnd)).isEmpty then some (some root) else none

/-! ## What a plain scalar stands for -/

def isNull (s : String) : Bool := s = "" || s = "~" || s = "null" || s = "Null" || s = "NULL"

def bool? (s : String) : Option Bool :=
  if s = "true" || s = "True" || s = "TRUE" then some true
  else if s = "false" || s = "False" || s = "FALSE" then some false
  else none

def digitIn? (base : Nat) (c : Char) : Option Nat :=
  (hexValue? c).bind fun d => if d < base then some d else none

/-- The value of a non-empty run of digits. -/
def digits? (base : Nat) (cs : List Char) : Option Nat :=
  if cs.isEmpty then none
  else (cs.mapM (digitIn? base)).map fun ds => ds.foldl (fun n d => n * base + d) 0

/-- A number in base 16, 8 or 2 with its mark. -/
def basedNatural? : List Char → Option Nat
  | '0' :: 'x' :: cs => digits? 16 cs
  | '0' :: 'o' :: cs => digits? 8 cs
  | '0' :: 'b' :: cs => digits? 2 cs
  | _ => none

/-- Digits that begin with a zero, which are not a number. -/
def isPadded (cs : List Char) : Bool :=
  match cs with
  | '0' :: d :: rest => (d :: rest).all Char.isDigit
  | _ => false

/-- A text without a sign of one kind. -/
def unsign (sign : Char) : List Char → List Char
  | c :: rest => if c = sign then rest else c :: rest
  | [] => []

def natural? (cs : List Char) : Option Nat :=
  let cs := unsign '+' cs
  match basedNatural? cs with
  | some n => some n
  | none => if isPadded cs then none else digits? 10 cs

/-- A whole number: whether it has a minus sign, and its magnitude. -/
def integer? : List Char → Option (Bool × Nat)
  | '-' :: cs =>
    match basedNatural? cs with
    | some n => some (true, n)
    | none => if isPadded cs then none else (digits? 10 cs).map fun n => (true, n)
  | cs => (natural? cs).map fun n => (false, n)

/-- The number `digits · 10 ^ exponent` rounded to binary64, none when too large. -/
def decimal? (negative : Bool) (digits : Nat) (exponent : Int) : Option Float :=
  let magnitude := (toString digits).length + exponent
  let field :=
    if digits = 0 || magnitude < -400 then 0
    else if 400 < magnitude then Number.binary64.infinityField
    else if 0 ≤ exponent then Number.binary64.nearest (digits * Number.tenTo exponent.toNat) 1
    else Number.binary64.nearest digits (Number.tenTo (-exponent).toNat)
  if field = Number.binary64.infinityField then none
  else
    let x := Float.ofBits (UInt64.ofNat field)
    some (if negative then -x else x)

/-- An exponent at the end of a number. -/
def exponent? : List Char → Option Int
  | [] => some 0
  | e :: cs =>
    if e = 'e' || e = 'E' then
      match cs with
      | '-' :: cs => (digits? 10 cs).map fun n => -(n : Int)
      | cs => (digits? 10 (unsign '+' cs)).map fun n => (n : Int)
    else none

/-- A decimal number with a point or an exponent. -/
def real? (cs : List Char) : Option Float :=
  let negative := cs.head? == some '-'
  let cs := if negative then cs.drop 1 else unsign '+' cs
  let whole := cs.takeWhile Char.isDigit
  let rest := cs.dropWhile Char.isDigit
  let (fraction, rest) :=
    match rest with
    | '.' :: rest => (rest.takeWhile Char.isDigit, rest.dropWhile Char.isDigit)
    | rest => ([], rest)
  match digits? 10 (whole ++ fraction), exponent? rest with
  | some n, some e => decimal? negative n (e - fraction.length)
  | _, _ => none

/-- A number that is not finite. -/
def special? (s : String) : Option Float :=
  if s = ".inf" || s = ".Inf" || s = ".INF" || s = "+.inf" || s = "+.Inf" || s = "+.INF" then
    some (1.0 / 0.0)
  else if s = "-.inf" || s = "-.Inf" || s = "-.INF" then some (-1.0 / 0.0)
  else if s = ".nan" || s = ".NaN" || s = ".NAN" then some (0.0 / 0.0)
  else none

/-- A plain scalar that may be a finite real number. -/
def realContent (s : String) : Content :=
  ((real? s.toList).map Content.real).getD (.text s)

/-- The value of a plain scalar; a whole number beyond 64 bits has none, unless
    it is beyond 128 too and counts as a real one. -/
def plainContent? (s : String) : Option Content :=
  if isNull s then some .null
  else match bool? s with
    | some b => some (.bool b)
    | none =>
      match integer? s.toList with
      | some (false, n) =>
        if n < Number.twoTo 64 then some (.natural n)
        else if n < Number.twoTo 128 then none
        else some (realContent s)
      | some (true, n) =>
        if n ≤ Number.twoTo 63 then some (.minus n)
        else if n ≤ Number.twoTo 127 then none
        else some (realContent s)
      | none =>
        if isPadded (unsign '-' (unsign '+' s.toList)) then some (.text s)
        else match special? s with
          | some x => some (.real x)
          | none => some (realContent s)

/-- The text of a scalar, as it is written. -/
def Node.text? : Node → Option String
  | .scalar _ text => some text
  | _ => none

mutual

/-- A node with its plain scalars as what they stand for, where at most `room`
    collections stand one inside the other. -/
def Node.content? : Nat → Node → Option Content
  | _, .scalar plain text => if plain then plainContent? text else some (.text text)
  | 0, _ => none
  | room + 1, .sequence items => (itemContents? room items).map .list
  | room + 1, .mapping entries => (entryContents? room entries).map .map

def itemContents? : Nat → List Node → Option (List Content)
  | _, [] => some []
  | room, item :: rest =>
    match item.content? room, itemContents? room rest with
    | some x, some xs => some (x :: xs)
    | _, _ => none

def entryContents? : Nat → List (Node × Node) → Option (List (Content × Content))
  | _, [] => some []
  | room, (key, value) :: rest =>
    match key.content? room, value.content? room, entryContents? room rest with
    | some k, some v, some es => some ((k, v) :: es)
    | _, _, _ => none

end

end FeatureRank.Yaml
