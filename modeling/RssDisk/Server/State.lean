import RssDisk.Disk
import RssDisk.Env

/-!
# The state of a server

`rssdisk::w_type`, the answers of a server, its settings and its files. The settings of a
directory hold the size that the server accounts for it, so they are part of the state.
-/

namespace RssDisk

open Lib

/-- `rssdisk::w_type`. The number comes from a request, so it can be one without a name. -/
inductive WType where
  | insertOnly
  | updatable
  | insertOnlyWithoutCompress
  | updatableWithoutCompress
  | jdb
  | jdbFormed
  | jdbData
  | none
  | edb
  | ajdb
  | cdb
  | cdbm
  | appendable
  | unnamed
deriving DecidableEq, Repr

namespace WType

def ofInt (n : Int) : WType :=
  if n = 0 then insertOnly
  else if n = 1 then updatable
  else if n = 2 then insertOnlyWithoutCompress
  else if n = 3 then updatableWithoutCompress
  else if n = 4 then jdb
  else if n = 5 then jdbFormed
  else if n = 6 then jdbData
  else if n = 7 then none
  else if n = 8 then edb
  else if n = 9 then ajdb
  else if n = 10 then cdb
  else if n = 11 then cdbm
  else if n = 12 then appendable
  else unnamed

/-- The two digits of a type in a header. -/
def digits : WType → Bytes
  | insertOnly => [48, 48]
  | updatable => [48, 49]
  | insertOnlyWithoutCompress => [48, 50]
  | updatableWithoutCompress => [48, 51]
  | jdb => [48, 52]
  | jdbFormed => [48, 53]
  | jdbData => [48, 54]
  | none => [48, 55]
  | edb => [48, 56]
  | ajdb => [48, 57]
  | cdb => [49, 48]
  | cdbm => [49, 49]
  | appendable => [49, 50]
  | unnamed => []

/-- The type that `basefunc_std::stoi` reads into a number which was zero. -/
def ofText (text : Bytes) : WType := ofInt ((BasefuncStd.stoi text).getD 0)

theorem ofText_digits (type : WType) (named : type ≠ unnamed) : ofText type.digits = type := by
  cases type <;> first | decide | exact absurd rfl named

end WType

/-- `rssdisk::server_response::status`. -/
inductive Status where
  | ok
  | toSmallContentSize
  | allDirectoriesAreFull
  | cantWriteFileToDisk
  | fileNameMustNotBeEmpty
  | cantReadFile
  | fileNotFound
  | fileBusy
  | tooLongFilename
  | authFailed
  | incorrectSecureKey
  | writeIsDisabled
  | readIsDisabled
  | subfolderNotFound
deriving DecidableEq, Repr

namespace Server

/-- `server_conf::directory`. -/
structure Directory where
  enabled : Bool := false
  p : Bytes := []
  maxSizeB : Int := 0
  currSizeB : Int := 0
  fsBlockSizeB : Nat := 0
deriving DecidableEq, Repr

def Directory.incCurrDiskSize (d : Directory) (sz : Int) : Directory :=
  { d with currSizeB := d.currSizeB + sz }

structure ServerConf where
  enableRead : Bool := true
  enableWrite : Bool := true
  /-- `ttl_conf.p`, the folder of the lists of files to remove. -/
  ttlPath : Bytes := []
  auth : Bytes := []
  aesKey : Bytes := []
  iv : Bytes := []
  threads : Nat := 0
  dirs : UMap Bytes Directory := ∅

structure State where
  conf : ServerConf
  files : Files

/-- Change the accounted size of the directory of a subfolder. -/
def State.incCurrDiskSize (s : State) (subfolder : Bytes) (sz : Int) : State :=
  match s.conf.dirs.lookup subfolder with
  | some d =>
    { s with conf := { s.conf with dirs := s.conf.dirs.insert subfolder (d.incCurrDiskSize sz) } }
  | none => s

/-- A name behind its subfolder, which ends at the first slash. -/
def splitSubfolder (name : Bytes) : Bytes × Bytes :=
  if 47 ∈ name then (name.takeWhile (· ≠ 47), (name.dropWhile (· ≠ 47)).drop 1) else ([], name)

variable (env : Env)

def getSegmentFolder (name : Bytes) : Nat := (env.hash name).toNat % 1000

/-- The path of a name below its directory: the folder of its segment and the name. -/
def segmentPath (name : Bytes) : Bytes :=
  BasefuncStd.toString (getSegmentFolder env name) ++ 47 :: name

end Server

end RssDisk
