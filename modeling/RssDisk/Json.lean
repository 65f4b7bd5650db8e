import RssDisk.BasefuncStd

/-!
# JSON values

`Json::Value` with the questions that the rest of the program asks of it, and the text that
`Json::FastWriter` prints for it. A number is an integer or a finite binary floating-point value;
an integral floating-point value answers as an integer but is printed through its own text.
-/

namespace RssDisk

/-- A finite `double`, as a signed mantissa with a power of two. -/
structure Double where
  negative : Bool
  mantissa : Nat
  exponent : Int
deriving DecidableEq, Repr

namespace Double

/-- The value when it is integral. -/
def integral (d : Double) : Option Int :=
  let magnitude : Option Nat :=
    if 0 ≤ d.exponent then some (d.mantissa * 2 ^ d.exponent.toNat)
    else if d.mantissa % 2 ^ (-d.exponent).toNat = 0 then
      some (d.mantissa / 2 ^ (-d.exponent).toNat)
    else none
  magnitude.map (fun n => if d.negative then -(n : Int) else n)

end Double

/-- `Json::Value`. -/
inductive Json where
  | null
  | bool (value : Bool)
  /-- `intValue` and, from `2 ^ 63` on, `uintValue`. -/
  | int (value : Int)
  | real (value : Double)
  | string (value : Bytes)
  | array (items : List Json)
  /-- `objectValue`, with its members in the order of their names. -/
  | object (members : List (Bytes × Json))

namespace Json

def isObject : Json → Bool
  | .object _ => true
  | _ => false

def isArray : Json → Bool
  | .array _ => true
  | _ => false

def isString : Json → Bool
  | .string _ => true
  | _ => false

/-- The value of a number when it is integral. -/
def integral : Json → Option Int
  | .int value => some value
  | .real value => value.integral
  | _ => none

def isInt (value : Json) : Bool :=
  match value.integral with
  | some n => -2 ^ 31 ≤ n && n < 2 ^ 31
  | none => false

def isInt64 (value : Json) : Bool :=
  match value.integral with
  | some n => -2 ^ 63 ≤ n && n < 2 ^ 63
  | none => false

/-- `asInt` and `asInt64` of a value that answers `isInt` or `isInt64`. -/
def asInt (value : Json) : Int := value.integral.getD 0

/-- A value that can be asked for a member; `find` throws on any other one. -/
def hasMembers : Json → Bool
  | .null => true
  | .object _ => true
  | _ => false

/-- `find`: the member of an object. -/
def find (value : Json) (name : Bytes) : Option Json :=
  match value with
  | .object members => members.lookup name
  | _ => none

def isMember (value : Json) (name : Bytes) : Bool := (value.find name).isSome

/-- `operator[]` on an object: a member, or the null value. -/
def get (value : Json) (name : Bytes) : Json := (value.find name).getD .null

def getMemberNames : Json → List Bytes
  | .object members => members.map Prod.fst
  | _ => []

/-- What an iteration over a value visits. -/
def elements : Json → List Json
  | .array items => items
  | .object members => members.map Prod.snd
  | _ => []

/-- An upper-case hexadecimal digit. -/
def hexDigit (n : UInt8) : UInt8 := if n < 10 then 48 + n else 55 + n

/-- The text of one byte in a quoted string. -/
def escape (c : UInt8) : Bytes :=
  if c = 34 then [92, 34]
  else if c = 92 then [92, 92]
  else if c = 8 then [92, 98]
  else if c = 12 then [92, 102]
  else if c = 10 then [92, 110]
  else if c = 13 then [92, 114]
  else if c = 9 then [92, 116]
  else if c < 32 then [92, 117, 48, 48, hexDigit (c / 16), hexDigit (c % 16)]
  else [c]

/-- `valueToQuotedStringN`. -/
def quote (value : Bytes) : Bytes := 34 :: value.flatMap escape ++ [34]

mutual

/-- `Value::toString`, the text of `FastWriter` without a line feed; `realText` is the text of a
floating-point value. -/
def toString (realText : Double → Bytes) : Json → Bytes
  | .null => [110, 117, 108, 108]
  | .bool true => [116, 114, 117, 101]
  | .bool false => [102, 97, 108, 115, 101]
  | .int value => BasefuncStd.toString value
  | .real value => realText value
  | .string value => quote value
  | .array items => 91 :: itemsText realText items ++ [93]
  | .object members => 123 :: membersText realText members ++ [125]

/-- The texts of the elements of an array, with commas between them. -/
def itemsText (realText : Double → Bytes) : List Json → Bytes
  | [] => []
  | item :: items =>
    toString realText item ++ if items.isEmpty then [] else 44 :: itemsText realText items

/-- The texts of the members of an object, with commas between them. -/
def membersText (realText : Double → Bytes) : List (Bytes × Json) → Bytes
  | [] => []
  | (name, value) :: members =>
    quote name ++ 58 :: (toString realText value ++
      if members.isEmpty then [] else 44 :: membersText realText members)

end

mutual

/-- A value that the parser can return: its integers fit 64 bits, and its members are in strict
order of their names. -/
def Canonical : Json → Prop
  | .int value => -2 ^ 63 ≤ value ∧ value < 2 ^ 64
  | .array items => CanonicalItems items
  | .object members => CanonicalMembers members ∧ (members.map Prod.fst).Pairwise (· < ·)
  | _ => True

/-- The elements of an array are canonical. -/
def CanonicalItems : List Json → Prop
  | [] => True
  | item :: items => Canonical item ∧ CanonicalItems items

/-- The values of members are canonical. -/
def CanonicalMembers : List (Bytes × Json) → Prop
  | [] => True
  | (_, value) :: members => Canonical value ∧ CanonicalMembers members

end

theorem canonicalItems_iff (items : List Json) :
    CanonicalItems items ↔ ∀ item ∈ items, item.Canonical := by
  induction items with
  | nil => simp [CanonicalItems]
  | cons item items ih => simp [CanonicalItems, ih]

theorem canonicalMembers_iff (members : List (Bytes × Json)) :
    CanonicalMembers members ↔ ∀ member ∈ members, member.2.Canonical := by
  induction members with
  | nil => simp [CanonicalMembers]
  | cons member members ih => simp [CanonicalMembers, ih]

end Json

end RssDisk
