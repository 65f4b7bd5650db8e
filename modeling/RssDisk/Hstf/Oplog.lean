import RssDisk.Files
import RssDisk.BasefuncStd
import RssDisk.Lib.Cut

/-!
# The log of writes

`hstf`: a server numbers its writes and keeps their names, times and check sums in records of 88
bytes, in memory and in a file. `get` answers with the records that stand behind the number of a
client, counted back from the end of what is kept. `hstf_client` asks for them, processes each
record and keeps the number of the last one.
-/

namespace RssDisk

open Lib Bitbase

/-- `hstf` with its file. -/
structure Hstf where
  /-- `size`, from which records are dropped. -/
  size : Nat := 0
  content : Bytes := []
  /-- `p`, the number of the last record. -/
  p : UInt64 := 0
  file : Option Bytes := none
deriving DecidableEq, Repr

namespace Hstf

/-- `ssgmt`, the size of a record. -/
def ssgmt : Nat := 88

def maxSize : Nat := 10000000

/-- What a write is known by. -/
structure Entry where
  name : Bytes
  tms : Int64
  crc32 : Int64
deriving DecidableEq, Repr

/-- The `std::size_t` of a setting, cut to `max_size`. -/
def sizeOf (oplogSizeBytes : Int64) : Nat := min oplogSizeBytes.toUInt64.toNat maxSize

/-- `hstf::init` on a file. One that is not made of whole records is removed. -/
def init (oplogSizeBytes : Int64) (file : Option Bytes) : Hstf :=
  match file with
  | none => { size := sizeOf oplogSizeBytes }
  | some content =>
    if content.length % ssgmt ≠ 0 then { size := sizeOf oplogSizeBytes }
    else if content ≠ [] then
      { size := sizeOf oplogSizeBytes, content, file
        p := charsToU64 ((content.drop (content.length - ssgmt)).take 8) }
    else { size := sizeOf oplogSizeBytes, file }

def record (p : UInt64) (e : Entry) : Bytes :=
  let a := u64ToChars p ++ (i64ToChars e.tms ++ (i64ToChars e.crc32 ++ e.name))
  if ssgmt < a.length then a.take ssgmt else a ++ List.replicate (ssgmt - a.length) 0

/-- `hstf::add`. -/
def add (h : Hstf) (e : Entry) : Hstf :=
  { h with
    p := h.p + 1
    content := h.content ++ record (h.p + 1) e
    file := some (h.file.getD [] ++ record (h.p + 1) e) }

/-- `hstf::clear`. -/
def clear (h : Hstf) : Hstf :=
  if h.size < h.content.length then
    let kept := h.content.drop ((h.content.length - h.size) / ssgmt * ssgmt)
    { h with content := kept, file := some kept }
  else h

/-- What `hstf::get` answers. -/
structure Reply where
  p : UInt64
  /-- `d`, when there is something new. -/
  d : Option Bytes
deriving DecidableEq, Repr

/-- The number in a query. -/
def cursorOf (qry : Bytes) : UInt64 :=
  match cut [112, 61] qry with
  | some (_, number) => (BasefuncStd.stoul (number.takeWhile (· ≠ 38))).getD 0
  | none => 0

/-- `hstf::get`, which throws when it counts back to a place behind the end. -/
def get (h : Hstf) (qry : Bytes) : Option Reply :=
  if cursorOf qry < h.p then
    let sb := toInt64 ((h.p - cursorOf qry) * UInt64.ofNat ssgmt).toNat
    let start := ((h.content.length : Int) - sb).toNat
    if start ≤ h.content.length then some ⟨h.p, some (h.content.drop start)⟩ else none
  else some ⟨h.p, none⟩

/-- `hstf_client::item::process` up to the call of the server. -/
def parse (v : Bytes) : Entry where
  name := cStr (v.drop 24)
  tms := charsToI64 ((v.drop 8).take 8)
  crc32 := charsToI64 ((v.drop 16).take 8)

/-- The loop over the records of an answer, in which places are computed in 32 bits. -/
def records (d : Bytes) : Nat → Nat → List Bytes
  | _, 0 => []
  | el, fuel + 1 =>
    let next := toInt32 (ssgmt * (el + 1) : Nat)
    if 0 ≤ next ∧ next ≤ d.length then (d.drop (ssgmt * el)).take ssgmt :: records d (el + 1) fuel
    else []

def query (remote : UInt64) : Bytes := [112, 61] ++ BasefuncStd.toString remote.toNat

/-- One turn of the loop of a client: the records that it processes, and `remote` afterwards. A
number that is no `std::int64_t` throws. -/
def poll (h : Hstf) (remote : UInt64) : List Bytes × UInt64 :=
  match h.get (query remote) with
  | some reply =>
    (match reply.d with
      | some d => records d 0 d.length
      | none => [],
      if reply.p.toNat < 2 ^ 63 then reply.p else remote)
  | none => ([], remote)

end Hstf

end RssDisk
