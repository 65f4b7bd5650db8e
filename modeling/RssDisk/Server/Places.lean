import RssDisk.Server.Database
import RssDisk.Server.Remove

/-!
# Where a request looks for a file

Five places of the server turn the text of a request into a subfolder, a segment folder and a file:
`accept_file`, `read_file`, `read_file_info`, `remove_file_by_tms` and the handler of `file_exists`.
They split at the first slash, cut the text behind `?jdb` off and compute the segment in different
orders. `read_file` splits before it cuts, so a slash in a query is taken for the one behind the
subfolder; `read_file_info` computes the segment without the extension of data files.
-/

namespace RssDisk.Server

open Lib Bitbase JManager List Disk

/-- `basefunc_std::replaceAll` with an empty replacement: the search goes on where the text was
erased. -/
def eraseAll (search : Bytes) : Nat → Bytes → Bytes
  | 0, s => s
  | fuel + 1, s =>
    match cut search s with
    | some (before, behind) => before ++ eraseAll search fuel behind
    | none => s

/-- Where a request looks for a file. -/
structure Place where
  subfolder : Bytes
  segment : Nat
  file : Bytes
deriving DecidableEq, Repr

/-- `qry`: the path below the directory of the subfolder. -/
def Place.qry (place : Place) : Bytes := BasefuncStd.toString place.segment ++ 47 :: place.file

/-- The text of a request without its query. -/
def withoutQuery (request : Bytes) : Bytes := (splitQuery [] request).1

variable (env : Env)

/-- The place of `accept_file`. -/
def acceptPlace (fileName : Bytes) : Place where
  subfolder := (splitSubfolder fileName).1
  segment := getSegmentFolder env (splitSubfolder fileName).2
  file := (splitSubfolder fileName).2

/-- The place of `remove_file_by_tms`. -/
def removePlace (fileName : Bytes) : Place where
  subfolder := (splitSubfolder fileName).1
  segment := getSegmentFolder env (splitSubfolder fileName).2
  file := (splitSubfolder fileName).2

/-- The place of `read_file`, which splits before it cuts. -/
def readPlace (request : Bytes) : Place where
  subfolder := (splitSubfolder request).1
  segment := getSegmentFolder env (withoutQuery (splitSubfolder request).2)
  file := withoutQuery (splitSubfolder request).2

/-- The place of `read_file_info`, which cuts before it splits. -/
def infoPlace (request : Bytes) : Place :=
  let name := (splitSubfolder (withoutQuery request)).2
  { subfolder := (splitSubfolder (withoutQuery request)).1
    segment := getSegmentFolder env (eraseAll jExtensionName name.length name)
    file := name }

/-- The place of the handler of `file_exists`, which cuts before it splits. -/
def existsPlace (request : Bytes) : Place where
  subfolder := (splitSubfolder (withoutQuery request)).1
  segment := getSegmentFolder env (splitSubfolder (withoutQuery request)).2
  file := (splitSubfolder (withoutQuery request)).2

/-- The handler of `file_exists`: the status and the text that is sent back. -/
def fileExists (s : State) (request : Bytes) : Status × Bytes :=
  let place := existsPlace env request
  match s.conf.dirs.lookup place.subfolder with
  | none => (.fileNotFound, place.file)
  | some d =>
    if isFileExists s.files (d.p ++ place.qry) then (.ok, place.qry)
    else (.fileNotFound, place.qry)

/-- The end of the number of days in a header, at most ten characters on. -/
def ttlEnd (content : Bytes) : Nat → Nat → Nat
  | 0, l => l
  | n + 1, l => if content.getD l 0 = 32 then l else ttlEnd content n (l + 1)

/-- The header of a file as `read_file_info` sends it. -/
def infoHeader (content : Bytes) : Bytes :=
  let type := WType.ofInt ((BasefuncStd.stoi (content.take 2)).getD 7)
  let l :=
    if type = .updatable ∨ type = .updatableWithoutCompress ∨ type = .jdb ∨ type = .ajdb then 18
    else 2
  let last := ttlEnd content 10 (l + 20)
  if last < content.length then content.take last else content.take 18

/-- `read_file_info`: the status and the content. `crc32` is the check sum of the file of data, an
`int`. -/
def readFileInfo (crc32 : Bytes → UInt32) (m : Moment) (s : State) (request : Bytes) :
    Status × Bytes :=
  let place := infoPlace env request
  if m.busy place.qry then (.fileBusy, [])
  else if !s.conf.enableRead then (.readIsDisabled, [])
  else
    match s.conf.dirs.lookup place.subfolder with
    | none => (.fileNotFound, [])
    | some d =>
      let path := d.p ++ place.qry
      if Disk.isFileExists s.files path then
        if (cut jExtensionName place.qry).isSome then
          let r := crc32 ((Disk.readFile s.files path 0).getD [])
          if r = 0 then (.cantReadFile, []) else (.ok, WType.jdbData.digits ++ u32ToChars r)
        else
          let content := if m.reads path then (Disk.readFile s.files path 64).getD [] else []
          if content = [] then (.cantReadFile, [])
          else if 18 < content.length then (.ok, infoHeader content)
          else (.cantReadFile, content)
      else (.fileNotFound, [])

theorem pathOf_eq (conf : ServerConf) (fileName : Bytes) :
    pathOf env conf fileName = (conf.dirs.lookup (acceptPlace env fileName).subfolder).map
      (fun d => d.p ++ (acceptPlace env fileName).qry) :=
  rfl

theorem readFile_eq (m : Moment) (s : State) (request : Bytes) (ro : ReadOptions) :
    readFile env m s request ro =
      if m.busy (readPlace env request).qry then (.fileBusy, [])
      else if !s.conf.enableRead then (.readIsDisabled, [])
      else
        match s.conf.dirs.lookup (readPlace env request).subfolder with
        | none => (.fileNotFound, [])
        | some d =>
          let path := d.p ++ (readPlace env request).qry
          if Disk.isFileExists s.files path then
            let content :=
              match (splitQuery [] (splitSubfolder request).2).2 with
              | some jsonSearch => fetch env s.files path jsonSearch ro
              | none => if m.reads path then (Disk.readFile s.files path 0).getD [] else []
            (if content ≠ [] then .ok else .cantReadFile, content)
          else (.fileNotFound, []) :=
  rfl

/-- The text of a request for a name, with a query or without one. -/
def requestText (name : Bytes) : Option Bytes → Bytes
  | some query => name ++ (jdbMark ++ query)
  | none => name

theorem splitQuery_eq (before text : Bytes) :
    splitQuery before text =
      match cut jdbMark text with
      | some (name, query) => (before ++ name, some query)
      | none => (before ++ text, none) := by
  induction text generalizing before with
  | nil => simp [splitQuery, cut, jdbMark]
  | cons c text ih =>
    rw [splitQuery, cut]
    by_cases starts : jdbMark <+: c :: text
    · rw [if_pos starts, if_pos (List.isPrefixOf_iff_prefix.mpr starts)]
      simp [jdbMark]
    · rw [if_neg starts, if_neg (fun isPrefix => starts (List.isPrefixOf_iff_prefix.mp isPrefix)),
        ih]
      cases cut jdbMark text with
      | none => simp
      | some parts => simp

variable {env} {name : Bytes}

theorem splitQuery_requestText (noMark : ¬ jdbMark <:+: name) (query : Option Bytes) :
    splitQuery [] (requestText name query) = (name, query) := by
  rw [splitQuery_eq]
  cases query with
  | none => simp [requestText, cut_eq_none noMark]
  | some query =>
    have found : cut jdbMark (requestText name (some query)) = some (name, query) :=
      cut_append (by decide) noMark query
    simp [found]

theorem splitSubfolder_slash {subfolder : Bytes} (first : 47 ∉ subfolder) (name : Bytes) :
    splitSubfolder (subfolder ++ 47 :: name) = (subfolder, name) := by
  have before : ∀ c ∈ subfolder, decide (c ≠ 47) = true := by
    grind
  rw [splitSubfolder, if_pos (by simp), takeWhile_append_of_pos before,
    dropWhile_append_of_pos before]
  simp

theorem splitSubfolder_plain (plain : 47 ∉ name) : splitSubfolder name = ([], name) := by
  rw [splitSubfolder, if_neg plain]

theorem splitSubfolder_requestText {query : Option Bytes}
    (slash : 47 ∈ name ∨ ∀ text ∈ query, 47 ∉ text) :
    splitSubfolder (requestText name query) =
      ((splitSubfolder name).1, requestText (splitSubfolder name).2 query) := by
  cases query with
  | none => rfl
  | some query =>
    by_cases inside : 47 ∈ name
    · obtain ⟨subfolder, base, rfl, first⟩ := eq_append_cons_of_mem inside
      rw [splitSubfolder_slash first]
      simp only [requestText]
      rw [append_assoc, cons_append, splitSubfolder_slash first]
    · have plain : 47 ∉ name ++ (jdbMark ++ query) := by
        simp [inside, jdbMark, slash.resolve_left inside query rfl]
      rw [splitSubfolder_plain inside]
      exact splitSubfolder_plain plain

theorem noMark_splitSubfolder (noMark : ¬ jdbMark <:+: name) :
    ¬ jdbMark <:+: (splitSubfolder name).2 := by
  by_cases inside : 47 ∈ name
  · obtain ⟨subfolder, base, rfl, first⟩ := eq_append_cons_of_mem inside
    rw [splitSubfolder_slash first]
    have part : base <:+: subfolder ++ 47 :: base := ⟨subfolder ++ [47], [], by simp⟩
    exact fun marked => noMark (marked.trans part)
  · rw [splitSubfolder_plain inside]
    exact noMark

theorem readPlace_eq (noMark : ¬ jdbMark <:+: name) {query : Option Bytes}
    (slash : 47 ∈ name ∨ ∀ text ∈ query, 47 ∉ text) :
    readPlace env (requestText name query) = acceptPlace env name := by
  have base : withoutQuery (splitSubfolder (requestText name query)).2 =
      (splitSubfolder name).2 := by
    rw [withoutQuery, splitSubfolder_requestText slash,
      splitQuery_requestText (noMark_splitSubfolder noMark)]
  rw [readPlace, base, splitSubfolder_requestText slash]
  rfl

theorem readPlace_marked (env : Env) {query : Bytes} (plain : 47 ∉ name) (slash : 47 ∈ query) :
    name ++ jdbMark <+: (readPlace env (requestText name (some query))).subfolder := by
  have before : ∀ c ∈ name ++ jdbMark, decide (c ≠ 47) = true := by
    intro c present
    have apart : 47 ∉ name ++ jdbMark := by simp [plain, jdbMark]
    simpa using fun isSlash : c = 47 => apart (isSlash ▸ present)
  rw [readPlace, requestText, splitSubfolder, if_pos (by simp [slash]), ← append_assoc,
    takeWhile_append_of_pos before]
  exact prefix_append _ _

/-- All five places are the same exactly when the name has a slash or the query has none, and the
segment of the name does not depend on the extension of data files. -/
theorem places_agree_iff {name : Bytes} (noMark : ¬ jdbMark <:+: name) (query : Option Bytes) :
    (readPlace env (requestText name query) = acceptPlace env name ∧
      infoPlace env (requestText name query) = acceptPlace env name ∧
      existsPlace env (requestText name query) = acceptPlace env name ∧
      removePlace env name = acceptPlace env name) ↔
    (47 ∈ name ∨ ∀ text ∈ query, 47 ∉ text) ∧
      getSegmentFolder env (eraseAll jExtensionName (splitSubfolder name).2.length
        (splitSubfolder name).2) = getSegmentFolder env (splitSubfolder name).2 := by
  have cutFirst : withoutQuery (requestText name query) = name := by
    rw [withoutQuery, splitQuery_requestText noMark]
  constructor
  · rintro ⟨read, info, _, _⟩
    constructor
    · by_contra both
      simp only [not_or, not_forall, not_not] at both
      obtain ⟨plain, text, isQuery, slash⟩ := both
      cases isQuery
      have marked := readPlace_marked env plain slash
      rw [read, acceptPlace, splitSubfolder_plain plain, prefix_nil] at marked
      simp [jdbMark] at marked
    · have segment := congrArg Place.segment info
      simpa only [infoPlace, cutFirst, acceptPlace] using segment
  · rintro ⟨slash, segment⟩
    refine ⟨readPlace_eq noMark slash, ?_, ?_, rfl⟩
    · simp only [infoPlace, cutFirst, segment]
      rfl
    · simp only [existsPlace, cutFirst]
      rfl

/-- A name with a subfolder and a query with a slash. -/
theorem places_agree_iff_sample :
    readPlace Reference.env (requestText [115, 47, 97] (some [47])) =
      acceptPlace Reference.env [115, 47, 97] := by
  have noMark : ¬ jdbMark <:+: [115, 47, 97] := by decide
  exact ((places_agree_iff noMark (some [47])).mpr ⟨.inl (by decide), by decide⟩).1

/-- A slash in the query of a name without a subfolder: `read_file` looks in another subfolder, and
does not find a database that was written. -/
theorem places_differ :
    ¬ jdbMark <:+: [97] ∧
      (readPlace Reference.env (requestText [97] (some [47]))).subfolder = [97, 63, 106, 100, 98] ∧
      (acceptPlace Reference.env [97]).subfolder = [] ∧
      (readFile Reference.env sampleMoment
        ((sampleCall [97] [sampleRecord (.int 1)]).run Reference.env sampleState).state
        (requestText [97] (some [47])) ⟨true, true⟩).1 = .fileNotFound ∧
      (fileExists Reference.env
        ((sampleCall [97] [sampleRecord (.int 1)]).run Reference.env sampleState).state
        (requestText [97] (some [47]))).1 = .ok := by
  decide

end RssDisk.Server
