/-! # Tokens of a YAML text

    A text is cut into scalars and marks.  Indentation becomes marks too: a
    deeper line opens a block and a shallower one closes it.  Whether a scalar
    or a flow collection is a key shows only at the colon behind it, so the
    places where one began are kept, and the marks of the key are put there
    afterwards.

    Anchors, tags and directives are not read: a text with one has no tokens. -/

namespace FeatureRank.Yaml

inductive Token where
  | documentStart
  | documentEnd
  | blockSequence
  | blockMapping
  | blockEnd
  | flowSequence
  | flowSequenceEnd
  | flowMapping
  | flowMappingEnd
  | blockEntry
  | flowEntry
  | key
  | value
  | scalar (plain : Bool) (text : String)
deriving DecidableEq, Repr

/-! ## Characters -/

def isBlank (c : Char) : Bool := c = ' ' || c = '\t'

def isBreak (c : Char) : Bool :=
  c = '\n' || c = '\r' || c = '\u0085' || c = '\u2028' || c = '\u2029'

/-- Whether a text ends here or goes on with a blank or a line end. -/
def atGap : List Char → Bool
  | [] => true
  | c :: _ => isBlank c || isBreak c

def isFlowMark (c : Char) : Bool := c = ',' || c = '[' || c = ']' || c = '\x7b' || c = '\x7d'

/-- The characters that a text may hold. -/
def isPrintable (c : Char) : Bool :=
  let n := c.toNat
  n = 0x9 || n = 0xA || n = 0xD || (0x20 ≤ n && n ≤ 0x7E) || n = 0x85 ||
    (0xA0 ≤ n && n ≤ 0xFFFD) || 0x10000 ≤ n

/-- A mark between documents. -/
def isDocumentMark : List Char → Bool
  | '-' :: '-' :: '-' :: rest | '.' :: '.' :: '.' :: rest => atGap rest
  | _ => false

/-! ## The place in a text -/

/-- The rest of a text, and where it begins. -/
structure Place where
  rest : List Char
  /-- the bytes before it on its line and the lines above -/
  index : Nat := 0
  line : Nat := 0
  column : Nat := 0

namespace Place

/-- Past a character of the line. -/
def step (p : Place) : Place :=
  match p.rest with
  | c :: rest => { p with rest, index := p.index + c.utf8Size, column := p.column + 1 }
  | [] => p

/-- Past some characters of the line. -/
def skip (p : Place) : Nat → Place
  | 0 => p
  | n + 1 => p.step.skip n

/-- Past a line end. -/
def nextLine (p : Place) : Place :=
  match p.rest with
  | '\r' :: '\n' :: rest => ⟨rest, p.index + 2, p.line + 1, 0⟩
  | _ :: rest => ⟨rest, p.index + 1, p.line + 1, 0⟩
  | [] => p

/-- The line end at a place as it counts in a text. -/
def breakText (p : Place) : List Char :=
  match p.rest with
  | c :: _ => if c = '\u2028' || c = '\u2029' then [c] else ['\n']
  | [] => []

def skipBlanks (p : Place) : Place := p.skip (p.rest.takeWhile isBlank).length

/-- Past the characters up to the end of the line. -/
def skipToBreak (p : Place) : Place := p.skip (p.rest.takeWhile (!isBreak ·)).length

def atDocumentMark (p : Place) : Bool := p.column = 0 && isDocumentMark p.rest

end Place

/-! ## Blanks inside a scalar -/

/-- The blanks between two parts of a scalar: those of one line, or the first
    line end and the further ones. -/
structure Gap where
  blanks : List Char := []
  firstBreak : List Char := []
  breaks : List Char := []
  hasBreak : Bool := false

/-- What a gap stands for: a single line end is a space, of several the first
    goes away, and blanks of one line stay. -/
def Gap.text (g : Gap) : List Char :=
  if g.hasBreak then
    if g.firstBreak = ['\n'] then (if g.breaks.isEmpty then [' '] else g.breaks)
    else g.firstBreak ++ g.breaks
  else g.blanks

/-- The gap at a place, and the place after it.  A tab may not stand before
    column `least` of a further line.  There are to be more steps than characters
    left, here and in the readers below. -/
def takeGap (least : Nat) : Nat → Place → Gap → Option (Gap × Place)
  | 0, _, _ => none
  | fuel + 1, p, g =>
    match p.rest with
    | [] => some (g, p)
    | c :: _ =>
      if isBlank c then
        if g.hasBreak then
          if c = '\t' && p.column < least then none else takeGap least fuel (p.skip 1) g
        else takeGap least fuel (p.skip 1) { g with blanks := g.blanks ++ [c] }
      else if isBreak c then
        let g :=
          if g.hasBreak then { g with breaks := g.breaks ++ p.breakText }
          else { g with blanks := [], firstBreak := p.breakText, hasBreak := true }
        takeGap least fuel p.nextLine g
      else some (g, p)

/-! ## Plain scalars -/

/-- The characters of a plain scalar up to the next gap or mark. -/
def plainRun (flow : Bool) : List Char → Option (List Char)
  | [] => some []
  | c :: rest =>
    if isBlank c || isBreak c then some []
    else if c = ':' && atGap rest then some []
    else if flow && c = ':' && (rest.head?.any fun d => isFlowMark d || d = '?') then none
    else if flow && isFlowMark c then some []
    else (plainRun flow rest).map (c :: ·)

/-- A plain scalar after the reversed text that was read of it and a gap: its
    text, the place after it, and whether a line ended since its last character. -/
def plainFrom (flow : Bool) (least : Nat) :
    Nat → Place → List Char → Gap → Option (List Char × Place × Bool)
  | 0, _, _, _ => none
  | fuel + 1, p, done, gap =>
    if p.atDocumentMark || p.rest.head? == some '#' then some (done.reverse, p, gap.hasBreak)
    else
      match plainRun flow p.rest with
      | none => none
      | some [] => some (done.reverse, p, gap.hasBreak)
      | some run =>
        let done := run.reverseAux (gap.text.reverseAux done)
        let p := p.skip run.length
        match takeGap least (fuel + 1) p {} with
        | none => none
        | some (gap, after) =>
          if after.index = p.index then some (done.reverse, p, false)
          else if !flow && after.column < least then some (done.reverse, after, gap.hasBreak)
          else plainFrom flow least fuel after done gap

/-! ## Quoted scalars -/

def hexValue? (c : Char) : Option Nat :=
  if c.isDigit then some (c.toNat - '0'.toNat)
  else if 'a' ≤ c ∧ c ≤ 'f' then some (c.toNat - 'a'.toNat + 10)
  else if 'A' ≤ c ∧ c ≤ 'F' then some (c.toNat - 'A'.toNat + 10)
  else none

/-- The character of a number of hexadecimal digits. -/
def hexEscape? (width : Nat) (text : List Char) : Option (Char × Nat) := do
  let ds ← (text.take width).mapM hexValue?
  let n := ds.foldl (fun n d => n * 16 + d) 0
  if ds.length = width ∧ n.isValidChar then some (Char.ofNat n, width + 1) else none

/-- The character of an escape after the backslash, and its length. -/
def escape? : List Char → Option (Char × Nat)
  | 'x' :: rest => hexEscape? 2 rest
  | 'u' :: rest => hexEscape? 4 rest
  | 'U' :: rest => hexEscape? 8 rest
  | c :: _ =>
    match c with
    | '0' => some ('\x00', 1)
    | 'a' => some ('\x07', 1)
    | 'b' => some ('\x08', 1)
    | 't' | '\t' => some ('\t', 1)
    | 'n' => some ('\n', 1)
    | 'v' => some ('\x0b', 1)
    | 'f' => some ('\x0c', 1)
    | 'r' => some ('\r', 1)
    | 'e' => some ('\x1b', 1)
    | ' ' => some (' ', 1)
    | '"' => some ('"', 1)
    | '/' => some ('/', 1)
    | '\\' => some ('\\', 1)
    | 'N' => some ('\u0085', 1)
    | '_' => some ('\u00a0', 1)
    | 'L' => some ('\u2028', 1)
    | 'P' => some ('\u2029', 1)
    | _ => none
  | [] => none

/-- A quoted scalar after the reversed text that was read of it: its text and the
    place after the closing quote. -/
def quotedFrom (double : Bool) : Nat → Place → List Char → Option (List Char × Place)
  | 0, _, _ => none
  | fuel + 1, p, done =>
    if p.atDocumentMark then none
    else
      match p.rest with
      | [] => none
      | c :: rest =>
        if isBlank c || isBreak c then
          match takeGap 0 (fuel + 1) p {} with
          | some (gap, p) => quotedFrom double fuel p (gap.text.reverseAux done)
          | none => none
        else if !double && c = '\'' && rest.head? == some '\'' then
          quotedFrom double fuel (p.skip 2) ('\'' :: done)
        else if c = (if double then '"' else '\'') then some (done.reverse, p.skip 1)
        else if double && c = '\\' then
          if rest.head?.any isBreak then
            match takeGap 0 (fuel + 1) (p.skip 1).nextLine { hasBreak := true } with
            | some (gap, p) => quotedFrom double fuel p (gap.text.reverseAux done)
            | none => none
          else
            match escape? rest with
            | some (d, n) => quotedFrom double fuel (p.skip (n + 1)) (d :: done)
            | none => none
        else quotedFrom double fuel (p.skip 1) (c :: done)

/-! ## Block scalars -/

/-- What becomes of the line ends at the end of a block scalar. -/
inductive Chomp where
  | strip
  | clip
  | keep
deriving DecidableEq, Repr

/-- The chomping and the indentation that a header gives, and its length. -/
def blockHeader : List Char → Option (Chomp × Option Nat × Nat)
  | text =>
    let chomp? (c : Char) : Option Chomp :=
      if c = '+' then some .keep else if c = '-' then some .strip else none
    let indent? (c : Char) : Option (Option Nat) :=
      if c = '0' then none
      else if c.isDigit then some (some (c.toNat - '0'.toNat)) else some none
    match text with
    | c :: rest =>
      match chomp? c with
      | some chomp =>
        match rest with
        | d :: _ =>
          match indent? d with
          | none => none
          | some none => some (chomp, none, 1)
          | some n => some (chomp, n, 2)
        | [] => some (chomp, none, 1)
      | none =>
        match indent? c with
        | none => none
        | some none => some (.clip, none, 0)
        | some n =>
          match rest.head?.bind chomp? with
          | some chomp => some (chomp, n, 2)
          | none => some (.clip, n, 1)
    | [] => some (.clip, none, 0)

/-- The empty lines at a place: the line ends, the place after them, and the
    deepest column reached.  An indentation that is not known yet is `none`. -/
def emptyLines (indent : Option Nat) :
    Nat → Place → List Char → Nat → Option (List Char × Place × Nat)
  | 0, _, _, _ => none
  | fuel + 1, p, breaks, deepest =>
    let spaces := (p.rest.takeWhile (· = ' ')).length
    let width := match indent with
      | some n => min spaces (n - p.column)
      | none => spaces
    let p := p.skip width
    let deepest := max deepest p.column
    let inIndent := match indent with
      | some n => p.column < n
      | none => true
    match p.rest with
    | c :: _ =>
      if c = '\t' && inIndent then none
      else if isBreak c then emptyLines indent fuel p.nextLine (breaks ++ p.breakText) deepest
      else some (breaks, p, deepest)
    | [] => some (breaks, p, deepest)

/-- The lines of a block scalar after the reversed text of those before.  `before`
    is the line end not written yet, `breaks` the empty lines after it, and
    `afterBlank` whether the last line began with a blank, which keeps its line
    end in a folded scalar. -/
def blockLines (folded : Bool) (indent : Nat) :
    Nat → Place → List Char → List Char → List Char → Bool →
      Option (List Char × List Char × List Char × Place)
  | 0, _, _, _, _, _ => none
  | fuel + 1, p, done, before, breaks, afterBlank =>
    if p.column ≠ indent || p.rest.isEmpty then some (done, before, breaks, p)
    else
      let blank := p.rest.head?.any isBlank
      let between :=
        if folded && before = ['\n'] && !afterBlank && !blank then
          if breaks.isEmpty then [' '] else breaks
        else before ++ breaks
      let after := p.skipToBreak
      let line := p.rest.take (after.column - p.column)
      let breakText := after.breakText
      match emptyLines (some indent) (fuel + 1) after.nextLine [] 0 with
      | none => none
      | some (breaks, next, _) =>
        blockLines folded indent fuel next (line.reverseAux (between.reverseAux done)) breakText
          breaks blank

/-- A block scalar at its mark, inside a block at `parent`. -/
def blockScalar (steps : Nat) (folded : Bool) (parent : Int) (p : Place) :
    Option (List Char × Place) :=
  let p := p.skip 1
  match blockHeader p.rest with
  | none => none
  | some (chomp, increment, n) =>
    let p := (p.skip n).skipBlanks
    let p := if p.rest.head? == some '#' then p.skipToBreak else p
    if !p.rest.isEmpty && !(p.rest.head?.any isBreak) then none
    else
      let p := p.nextLine
      let known := increment.map fun n => if 0 ≤ parent then parent.toNat + n else n
      match emptyLines known (steps + 1) p [] 0 with
      | none => none
      | some (breaks, p, deepest) =>
        let indent := known.getD (max (max deepest (parent + 1).toNat) 1)
        match blockLines folded indent (steps + 1) p [] [] breaks false with
        | none => none
        | some (done, before, breaks, p) =>
          some (done.reverse ++ (match chomp with
            | .strip => []
            | .clip => before
            | .keep => before ++ breaks), p)

/-! ## The tokens -/

/-- Where a key may have begun: the number of tokens before it, and its place. -/
structure KeyStart where
  /-- a line of a block that must turn out to be a key -/
  required : Bool
  token : Nat
  index : Nat
  line : Nat
  column : Nat

structure Scan where
  place : Place
  tokens : Array Token := #[]
  /-- the columns of the open blocks, the innermost first -/
  blocks : List Nat := []
  /-- for each open flow collection and the block around them, a possible key -/
  keys : List (Option KeyStart) := [none]
  keyAllowed : Bool := true

namespace Scan

/-- The column of the innermost block, `-1` outside of all. -/
def indent (s : Scan) : Int :=
  match s.blocks with
  | column :: _ => column
  | [] => -1

def inFlow (s : Scan) : Bool := 1 < s.keys.length

def emit (s : Scan) (t : Token) : Scan := { s with tokens := s.tokens.push t }

/-- Emits a mark of some characters. -/
def mark (s : Scan) (t : Token) (n : Nat) : Scan :=
  { s with tokens := s.tokens.push t, place := s.place.skip n }

/-- Closes the blocks deeper than a column. -/
def closeBlocks (s : Scan) (column : Int) : Scan :=
  if s.inFlow then s
  else
    let closed := s.blocks.takeWhile fun (c : Nat) => column < (c : Int)
    { s with
      blocks := s.blocks.drop closed.length
      tokens := s.tokens ++ Array.replicate closed.length .blockEnd }

/-- Opens a block at a column, unless one is open there; its mark goes before
    the token of a number. -/
def openBlock (s : Scan) (column token : Nat) (t : Token) : Scan :=
  if s.inFlow || (column : Int) ≤ s.indent then s
  else
    { s with
      blocks := column :: s.blocks
      tokens := s.tokens.insertIdxIfInBounds token t }

/-- Gives up a possible key, which is an error where one is required. -/
def dropKey (s : Scan) : Option Scan :=
  match s.keys with
  | some k :: rest => if k.required then none else some { s with keys := none :: rest }
  | _ => some s

/-- Notes that a key may begin here. -/
def noteKey (s : Scan) : Option Scan :=
  if s.keyAllowed then
    match s.dropKey with
    | none => none
    | some s =>
      let start : KeyStart :=
        { required := !s.inFlow && s.indent = s.place.column
          token := s.tokens.size, index := s.place.index, line := s.place.line
          column := s.place.column }
      some { s with keys := some start :: s.keys.drop 1 }
  else some s

/-- Gives up the keys that can no longer be: one must end on its line, within
    1024 bytes. -/
def dropStaleKeys (s : Scan) : Option Scan := do
  let keys ← s.keys.mapM fun key =>
    match key with
    | some k =>
      if k.line < s.place.line || k.index + 1024 < s.place.index then
        if k.required then none else some none
      else some (some k)
    | none => some none
  return { s with keys }

/-- Past blanks, comments and line ends; outside flow collections a line end
    lets a key begin.  A byte order mark at the start of a line is passed over and
    takes a column. -/
def toToken : Nat → Scan → Scan
  | 0, s => s
  | fuel + 1, s =>
    let p := s.place
    let p := if p.column = 0 && p.rest.head? == some '\ufeff' then p.skip 1 else p
    let tabs := s.inFlow || !s.keyAllowed
    let p := p.skip (p.rest.takeWhile fun c => c = ' ' || (tabs && c = '\t')).length
    let p := if p.rest.head? == some '#' then p.skipToBreak else p
    match p.rest with
    | c :: _ =>
      if isBreak c then
        toToken fuel { s with place := p.nextLine, keyAllowed := s.keyAllowed || !s.inFlow }
      else { s with place := p }
    | [] => { s with place := p }

def flowStart (s : Scan) (t : Token) : Option Scan := do
  let s ← s.noteKey
  let keys := none :: s.keys
  return { s.mark t 1 with keys, keyAllowed := true }

def flowEnd (s : Scan) (t : Token) : Option Scan := do
  let s ← s.dropKey
  let s := if s.inFlow then { s with keys := s.keys.drop 1 } else s
  return { s.mark t 1 with keyAllowed := false }

def blockEntry (s : Scan) : Option Scan :=
  if !s.inFlow && !s.keyAllowed then none
  else do
    let s := s.openBlock s.place.column s.tokens.size .blockSequence
    let s ← s.dropKey
    return { s.mark .blockEntry 1 with keyAllowed := true }

def explicitKey (s : Scan) : Option Scan :=
  if !s.inFlow && !s.keyAllowed then none
  else do
    let s := s.openBlock s.place.column s.tokens.size .blockMapping
    let s ← s.dropKey
    return { s.mark .key 1 with keyAllowed := !s.inFlow }

def value (s : Scan) : Option Scan :=
  match s.keys with
  | some k :: rest =>
    let s := { s with keys := none :: rest, tokens := s.tokens.insertIdxIfInBounds k.token .key }
    let s := s.openBlock k.column k.token .blockMapping
    some { s.mark .value 1 with keyAllowed := false }
  | _ =>
    if s.inFlow then some { s.mark .value 1 with keyAllowed := false }
    else if s.keyAllowed then
      let s := s.openBlock s.place.column s.tokens.size .blockMapping
      some { s.mark .value 1 with keyAllowed := true }
    else none

def scalar (s : Scan) (plain : Bool) (text : List Char) (place : Place) (keyAllowed : Bool) : Scan :=
  { s.emit (.scalar plain (String.ofList text)) with place, keyAllowed }

def plainScalar (s : Scan) (steps : Nat) : Option Scan := do
  let s ← s.noteKey
  let least := (s.indent + 1).toNat
  let (text, place, broken) ← plainFrom s.inFlow least steps s.place [] {}
  return s.scalar true text place broken

def quotedScalar (s : Scan) (steps : Nat) (double : Bool) : Option Scan := do
  let s ← s.noteKey
  let (text, place) ← quotedFrom double steps (s.place.skip 1) []
  return s.scalar false text place false

def blockScalarToken (s : Scan) (steps : Nat) (folded : Bool) : Option Scan := do
  let s ← s.dropKey
  let (text, place) ← blockScalar steps folded s.indent s.place
  return s.scalar false text place true

def documentMark (s : Scan) (t : Token) : Option Scan := do
  let s ← (s.closeBlocks (-1)).dropKey
  return { s.mark t 3 with keyAllowed := false }

/-- The next token of a text that has not ended. -/
def token (s : Scan) (steps : Nat) (c : Char) (rest : List Char) : Option Scan :=
  if s.place.column = 0 && c = '%' then none
  else if s.place.atDocumentMark then
    s.documentMark (if c = '-' then .documentStart else .documentEnd)
  else if c = '[' then s.flowStart .flowSequence
  else if c = '\x7b' then s.flowStart .flowMapping
  else if c = ']' then s.flowEnd .flowSequenceEnd
  else if c = '\x7d' then s.flowEnd .flowMappingEnd
  else if c = ',' then do
    let s ← s.dropKey
    return { s.mark .flowEntry 1 with keyAllowed := true }
  else if c = '-' && atGap rest then s.blockEntry
  else if c = '?' && (s.inFlow || atGap rest) then s.explicitKey
  else if c = ':' && (s.inFlow || atGap rest) then s.value
  else if c = '*' || c = '&' || c = '!' then none
  else if (c = '|' || c = '>') && !s.inFlow then s.blockScalarToken steps (c = '>')
  else if c = '\'' then s.quotedScalar steps false
  else if c = '"' then s.quotedScalar steps true
  else if c = '|' || c = '>' || c = '%' || c = '@' || c = '\x60' || c = '\t' then none
  else s.plainScalar steps

/-- All tokens of the rest of a text; each takes a character at least. -/
def all : Nat → Scan → Option (Array Token)
  | 0, _ => none
  | fuel + 1, s => do
    let s := s.toToken (fuel + 1)
    let s ← s.dropStaleKeys
    match s.place.rest with
    | [] => return (← (s.closeBlocks (-1)).dropKey).tokens
    | c :: rest => all fuel (← (s.closeBlocks s.place.column).token (fuel + 1) c rest)

end Scan

/-- The tokens of a text. -/
def tokens? (text : String) : Option (List Token) :=
  let chars := text.toList
  if chars.all isPrintable then
    ((Scan.mk { rest := chars } #[] [] [none] true).all (chars.length + 1)).map Array.toList
  else none

end FeatureRank.Yaml
