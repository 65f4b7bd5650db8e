import RssDisk.Server.Remove

/-!
# The client

`client::write_file` up to the request that it sends, `fetch_content`, which takes a stored file
apart, and the decompression in `client::read_file`.
-/

namespace RssDisk.Client

open Bitbase

variable (env : Env)

/-- The types whose content is sent as it is. -/
def isSentRaw : WType → Bool
  | .updatableWithoutCompress | .insertOnlyWithoutCompress | .jdb | .ajdb | .cdb | .cdbm
  | .appendable => true
  | _ => false

/-- The content that is sent; `none` when nothing is left of a content after its compression. -/
def sentContent (type : WType) (content : Bytes) : Option Bytes :=
  if content = [] then some []
  else
    let sent := if isSentRaw type then content else env.compress content
    if sent = [] then none else some sent

/-- The start of a database that was formed before. -/
def jdbText : Bytes := [106, 100, 98]

def flagsOf (type : WType) (content : Bytes) (tms crc32 : Int64) : Bytes :=
  match type with
  | .jdb =>
    (if content.take 3 = jdbText then WType.jdbFormed else WType.jdb).digits ++ i64ToChars tms ++
      i64ToChars crc32
  | .updatable | .updatableWithoutCompress | .ajdb => type.digits ++ i64ToChars tms ++
      i64ToChars crc32
  | .insertOnlyWithoutCompress => type.digits
  | .appendable => type.digits ++ i64ToChars tms
  | _ => [48]

/-- The request of `write_file` behind its number and identifier. -/
def writeRequest (type : WType) (filename content : Bytes) (ttl : Int) (tms crc32 : Int64) :
    Option Bytes :=
  (sentContent env type content).map (fun sent =>
    [97, 117, 116, 104, 32] ++ filename ++ 32 :: BasefuncStd.toString ttl ++
      32 :: flagsOf type sent tms crc32 ++ 32 :: sent)

structure ReadInfo where
  fileType : WType := .insertOnly
  fileTms : Int64 := 0
  fileCrc32 : Int64 := 0
  /-- The date and time of the write; absent when they cannot be read. -/
  fileCreated : Option DateTime := none
  ttlDays : Int := -1
  header : Bytes := []
  content : Bytes := []
deriving DecidableEq, Repr

/-- The scan over the number of days: its text, and the place behind it. -/
def readTtl (message : Bytes) : Nat → Nat → Bytes → Bytes × Nat
  | 0, i, ttl => (ttl, i)
  | n + 1, i, ttl =>
    if message.getD i 0 = 32 then (ttl, i + 1)
    else readTtl message n (i + 1) (ttl ++ [message.getD i 0])

/-- A number as the `std::int16_t` that holds its low bits. -/
def toInt16 (n : Int) : Int := (n + 2 ^ 15) % 2 ^ 16 - 2 ^ 15

def fetchContent (message : Bytes) (startFrom : Nat) : ReadInfo :=
  let field (start size : Nat) : Bytes := (message.drop start).take size
  let fileType := WType.ofText (field startFrom 2)
  let start := startFrom + 2
  let dated (ri : ReadInfo) (start : Nat) : ReadInfo :=
    let (ttl, last) := readTtl message 10 (start + 19) []
    let ri := { ri with
      fileCreated := DateTime.parseDateTime (field start 19)
      ttlDays := ((BasefuncStd.stoi ttl).map toInt16).getD (-1) }
    if last < message.length then
      { ri with header := message.take last, content := message.drop last }
    else ri
  match fileType with
  | .cdb =>
    { fileType, fileTms := charsToI64 (field 16 8), fileCrc32 := charsToI64 (field 24 8)
      content := message.drop 32 }
  | .updatable | .updatableWithoutCompress | .jdb | .ajdb =>
    dated { fileType, fileTms := charsToI64 (field start 8)
            fileCrc32 := charsToI64 (field (start + 8) 8) } (start + 16)
  | .appendable => dated { fileType, fileTms := charsToI64 (field start 8) } (start + 8)
  | _ => dated { fileType } start

/-- The content that `read_file` returns for what was fetched. -/
def decompressed (ri : ReadInfo) : Bytes :=
  if ri.content = [] then []
  else
    match ri.fileType with
    | .insertOnlyWithoutCompress | .updatableWithoutCompress | .appendable => ri.content
    | _ => if ri.content.take 3 = jdbText then ri.content else env.decompressString ri.content

/-- What `read_file` makes of the answer to a request for a file: the parts of a stored file, with
the content decompressed; `none` for an answer that is not `ok`, or that is too short. -/
def readReply (message : Bytes) : Option ReadInfo :=
  if 32 < message.length ∧ (message.drop 2).take 2 = [48, 49] then
    let ri := fetchContent message 9
    let content := decompressed env ri
    if content = [] then none else some { ri with content }
  else none

end RssDisk.Client
