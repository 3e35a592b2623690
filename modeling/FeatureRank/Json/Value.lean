import FeatureRank.Number.Text

/-! # JSON values

    A number keeps how it was written: as a whole number, which has at most 64
    bits, or as a binary64 number.  The members of an object that was read stand
    in the order of their keys, one for each key. -/

namespace FeatureRank

/-- A JSON number.  `single` is a number that is only written, with the digits
    of its 32 bits. -/
inductive Json.Number where
  | integer (n : Int)
  | real (x : Float)
  | single (x : Float32)

inductive Json where
  | null
  | bool (value : Bool)
  | number (value : Json.Number)
  | string (value : String)
  | array (items : List Json)
  | object (members : List (String × Json))

instance : Inhabited Json := ⟨.null⟩

namespace Json

/-- Members with a value under a key: an older value is replaced, and a new key
    goes before the first greater one. -/
def put (key : String) (value : Json) : List (String × Json) → List (String × Json)
  | [] => [(key, value)]
  | (k, v) :: rest =>
    if key = k then (key, value) :: rest
    else if key < k then (key, value) :: (k, v) :: rest
    else (k, v) :: put key value rest

/-- The member of an object, `null` where there is none. -/
def member (value : Json) (key : String) : Json :=
  match value with
  | .object members => (members.lookup key).getD .null
  | _ => .null

/-- A whole number that is not negative. -/
def natural? : Json → Option Nat
  | .number (.integer (.ofNat n)) => some n
  | _ => none

def text? : Json → Option String
  | .string s => some s
  | _ => none

def bool? : Json → Option Bool
  | .bool b => some b
  | _ => none

/-- A number of 32 bits, as JSON holds it; NaN and the infinities have no number. -/
def ofFloat32 (x : Float32) : Json :=
  if x.isFinite then .number (.real (Number.widen x)) else .null

namespace Number

/-- A number rounded to 32 bits. -/
def toFloat32 : Number → Float32
  | .integer n => Float32.ofInt n
  | .real x => FeatureRank.Number.narrow x
  | .single x => x

end Number

end Json

end FeatureRank
