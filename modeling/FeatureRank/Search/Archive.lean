import FeatureRank.Search.Engine

/-! # Archives

    An engine as bytes: its dictionary and its shards, without settings and
    counters, which start afresh.  A number has a fixed width and its lowest byte
    first; a sequence starts with its length in eight bytes.  The words of the
    dictionary stand twice, first with their numbers and then in order; reading
    takes the second.  What follows the engine is passed over. -/

namespace FeatureRank

namespace Archive

/-! ## Writing -/

/-- A number of a width in bytes, the lowest byte first. -/
def number : Nat → Nat → List UInt8
  | 0, _ => []
  | width + 1, n => UInt8.ofNat n :: number width (n / 256)

def sequence {α : Type} (item : α → List UInt8) (items : List α) : List UInt8 :=
  number 8 items.length ++ items.flatMap item

def text (s : String) : List UInt8 := sequence (fun byte => [byte]) s.toUTF8.toList

def dictionary (d : Dictionary) : List UInt8 :=
  sequence (fun (word, index) => text word ++ number 4 (index + 1)) d.words.toList.zipIdx ++
    sequence text d.words.toList

def posting (p : Posting) : List UInt8 :=
  number 4 p.doc ++ number 4 p.frequency ++ sequence (number 4) p.positions.toList

def segment (s : Segment) : List UInt8 :=
  sequence (fun (term, postings) => number 4 term ++ sequence posting postings.toList)
      s.postings.toList ++
    sequence (number 4) s.lengths.toList ++ number 8 s.tokens

def shard (s : Shard) : List UInt8 :=
  sequence segment s.segments.toList ++ sequence text s.keys.toList

/-! ## Reading -/

/-- A reader takes a value from the front of some bytes, unless they do not start
    with one. -/
abbrev Reader := StateT (List UInt8) Option

def byte? : Reader UInt8 := fun
  | [] => none
  | b :: rest => some (b, rest)

def number? : Nat → Reader Nat
  | 0 => return 0
  | width + 1 => do
    let low ← byte?
    return low.toNat + 256 * (← number? width)

def items? {α : Type} (item : Reader α) : Nat → Reader (List α)
  | 0 => return []
  | count + 1 => do
    let first ← item
    return first :: (← items? item count)

def sequence? {α : Type} (item : Reader α) : Reader (List α) := do
  items? item (← number? 8)

def text? : Reader String := do
  let bytes ← sequence? byte?
  match String.fromUTF8? ⟨bytes.toArray⟩ with
  | some s => return s
  | none => failure

def dictionary? : Reader Dictionary := do
  let _ ← sequence? do
    let word ← text?
    return (word, ← number? 4)
  return ⟨(← sequence? text?).toArray⟩

def posting? : Reader Posting := do
  return ⟨← number? 4, ← number? 4, (← sequence? (number? 4)).toArray⟩

def segment? : Reader Segment := do
  let postings ← sequence? do
    let term ← number? 4
    return (term, (← sequence? posting?).toArray)
  return {
    postings := postings.foldl (fun m (term, list) => m.insert term list) {}
    lengths := (← sequence? (number? 4)).toArray
    tokens := ← number? 8 }

def shard? : Reader Shard := do
  return ⟨(← sequence? segment?).toArray, (← sequence? text?).toArray⟩

end Archive

namespace Engine

def archive (e : Engine) : List UInt8 :=
  Archive.dictionary e.dictionary ++ Archive.sequence Archive.shard e.shards.toList

/-- The engine that an archive holds, with the default settings. -/
def ofArchive (bytes : List UInt8) : Except Refusal Engine :=
  let read : Archive.Reader Engine := do
    let dictionary ← Archive.dictionary?
    return { dictionary, shards := (← Archive.sequence? Archive.shard?).toArray }
  match read bytes with
  | some (engine, _) => .ok engine
  | none => .error (.unreadable .archive)

end Engine

end FeatureRank
