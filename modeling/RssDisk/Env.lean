import RssDisk.DateTime
import RssDisk.Json
import RssDisk.Lib.Unordered

/-!
# What the program takes from outside

The compressor, the JSON reader, the text of a floating-point number, the hash of a string, the
conversion of local time, the decryption and the order in which a hash map is walked are those of
libraries. They are collected in one record, and the laws that results rely on are stated about
it.
-/

namespace RssDisk

open Lib

/-- The library functions that the program calls. -/
structure Env where
  /-- `commpression_zlib::compress_string`. -/
  compress : Bytes → Bytes
  /-- `inflate` on a non-empty string. -/
  inflate : Bytes → Bytes
  /-- `Json::Reader().parse`; `none` when it reports an error. -/
  parse : Bytes → Option Json
  /-- `Json::valueToString(double)`. -/
  realText : Double → Bytes
  /-- `std::hash<std::string>`. -/
  hash : Bytes → UInt64
  mktime : Date → Time → Int64
  /-- `CRYPTOPP.decrypt` of a content with a key and an initial vector. -/
  decrypt : Bytes → Bytes → Bytes → Bytes
  order : {κ α : Type} → UMap κ α → List (κ × α)
  /-- The records that the reader reads back from their printed lists; the text of a number may be
  that of another one, and a deep nesting is refused. -/
  readsBack : Json → Prop

namespace Env

variable (env : Env)

/-- `commpression_zlib::decompress_string`. -/
def decompressString (str : Bytes) : Bytes := if str = [] then [] else env.inflate str

/-- `Value::toString`. -/
def text (value : Json) : Bytes := value.toString env.realText

/-- `parseJsonData`: an empty text leaves the null value. -/
def parseJsonData (data : Bytes) : Option Json := if data = [] then some .null else env.parse data

/-- zlib inverts itself. -/
def ZlibInverse : Prop := ∀ str, env.decompressString (env.compress str) = str

/-- The JSON reader returns integers of 64 bits, and members in the order of their names. -/
def ReadsShaped : Prop := ∀ data value, env.parse data = some value → value.Canonical

/-- The JSON reader reads back the text of a list of records that it reads back. -/
def JsonInverse : Prop :=
  ∀ records : List Json, (∀ record ∈ records, env.readsBack record) →
    env.parse (env.text (.array records)) = some (.array records)

/-- The JSON reader refuses commas without values between them. -/
def RefusesCommas : Prop := ∀ n, env.parse (91 :: List.replicate (n + 1) 44 ++ [93]) = none

/-- Walking a hash map visits each of its entries once. -/
def WalksAll : Prop :=
  ∀ {κ α : Type} (map : UMap κ α),
    (env.order map).Perm (map.entries.map (fun entry => (entry.1, entry.2)))

/-- The laws of the libraries. -/
structure Lawful : Prop where
  zlib : env.ZlibInverse
  shape : env.ReadsShaped
  json : env.JsonInverse
  walk : env.WalksAll

end Env

end RssDisk
