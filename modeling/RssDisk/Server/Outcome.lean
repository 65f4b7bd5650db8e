import RssDisk.Server.Accept

/-!
# What a request changes

A request is refused before anything is changed, or it reaches a directory, where a database is
prepared and the file is written. The settings of the server stay as they are, besides the
accounted sizes of its directories.
-/

namespace RssDisk.Server

open Lib Bitbase JManager Option Disk

/-- A directory without its accounted size. -/
def Directory.fixed (d : Directory) : Directory := { d with currSizeB := 0 }

/-- Settings that differ in the accounted sizes of the directories only. -/
structure ServerConf.Alike (a b : ServerConf) : Prop where
  rest : b = { a with dirs := b.dirs }
  dirs : ∀ subfolder,
    (a.dirs.lookup subfolder).map Directory.fixed = (b.dirs.lookup subfolder).map Directory.fixed

namespace ServerConf

variable {a b c : ServerConf}

theorem Alike.refl (a : ServerConf) : a.Alike a := ⟨rfl, fun _ => rfl⟩

theorem Alike.trans (first : a.Alike b) (second : b.Alike c) : a.Alike c :=
  ⟨by rw [second.rest, first.rest], fun subfolder =>
    (first.dirs subfolder).trans (second.dirs subfolder)⟩

theorem Alike.lookup (alike : a.Alike b) {subfolder : Bytes} {d : Directory}
    (found : b.dirs.lookup subfolder = some d) :
    ∃ old, a.dirs.lookup subfolder = some old ∧ old.p = d.p ∧
      old.fsBlockSizeB = d.fsBlockSizeB := by
  have same := alike.dirs subfolder
  rw [found, map_some, map_eq_some_iff] at same
  obtain ⟨old, before, fixed⟩ := same
  have path : old.fixed.p = d.fixed.p := by rw [fixed]
  have blocks : old.fixed.fsBlockSizeB = d.fixed.fsBlockSizeB := by rw [fixed]
  exact ⟨old, before, path, blocks⟩

end ServerConf

theorem State.incCurrDiskSize_lookup (s : State) (subfolder : Bytes) (sz : Int) (other : Bytes) :
    (s.incCurrDiskSize subfolder sz).conf.dirs.lookup other =
      if other = subfolder then (s.conf.dirs.lookup subfolder).map (·.incCurrDiskSize sz)
      else s.conf.dirs.lookup other := by
  unfold State.incCurrDiskSize
  split
  · rename_i d found
    by_cases same : other = subfolder
    · subst same
      simp [found]
    · simp [same, AList.lookup_insert_ne]
  · rename_i missing
    by_cases same : other = subfolder
    · subst same
      simp [missing]
    · simp [same]

@[simp]
theorem State.incCurrDiskSize_files (s : State) (subfolder : Bytes) (sz : Int) :
    (s.incCurrDiskSize subfolder sz).files = s.files := by
  unfold State.incCurrDiskSize
  split <;> rfl

theorem State.incCurrDiskSize_alike (s : State) (subfolder : Bytes) (sz : Int) :
    s.conf.Alike (s.incCurrDiskSize subfolder sz).conf := by
  refine ⟨?_, fun other => ?_⟩
  · unfold State.incCurrDiskSize
    split <;> rfl
  · rw [State.incCurrDiskSize_lookup]
    split
    · rename_i same
      subst same
      cases s.conf.dirs.lookup other <;> rfl
    · rfl

variable (env : Env)

/-- The path of the file of a name, when its directory is known. -/
def pathOf (conf : ServerConf) (fileName : Bytes) : Option Bytes :=
  (conf.dirs.lookup (splitSubfolder fileName).1).map
    (fun d => d.p ++ segmentPath env (splitSubfolder fileName).2)

theorem pathOf_alike {a b : ServerConf} (alike : a.Alike b) (fileName : Bytes) :
    pathOf env a fileName = pathOf env b fileName := by
  have same := congrArg (Option.map (fun d : Directory =>
    d.p ++ segmentPath env (splitSubfolder fileName).2)) (alike.dirs (splitSubfolder fileName).1)
  rw [map_map, map_map] at same
  exact same

/-- The fields of a request. -/
def line (conf : ServerConf) (content : Bytes) (needCheckAuth needCheckAes : Bool) : Request :=
  requestOf conf (received env conf content needCheckAes) needCheckAuth

/-- The content behind the line. -/
def payload (conf : ServerConf) (content : Bytes) (needCheckAuth needCheckAes : Bool) : Bytes :=
  (received env conf content needCheckAes).drop
    ((line env conf content needCheckAuth needCheckAes).startContentFrom + 1)

/-- What is done with a request that has passed the checks of its own fields. -/
def place (m : Moment) (s : State) (name : Bytes × Bytes) (r : Request) (data : Bytes) : Outcome :=
  match s.conf.dirs.lookup name.1 with
  | none => { state := s, response := { status := .subfolderNotFound } }
  | some d =>
    if isFileExists s.files (d.p ++ segmentPath env name.2) ∨
        (d.enabled ∧ d.currSizeB < d.maxSizeB) then
      storeFile m s name.1 d (d.p ++ segmentPath env name.2) r
        (prepare env m s.files d (d.p ++ segmentPath env name.2) r.type data)
    else { state := s, response := { status := .allDirectoriesAreFull } }

variable {env} {m : Moment} {s : State} {content : Bytes} {needCheckAuth needCheckAes : Bool}

theorem acceptFile_cases (env : Env) (m : Moment) (s : State) (content : Bytes)
    (needCheckAuth needCheckAes : Bool) :
    let r := line env s.conf content needCheckAuth needCheckAes
    let name := splitSubfolder r.fileName
    (∃ status, status ≠ .ok ∧ acceptFile env m s content needCheckAuth needCheckAes =
        { state := s, response := { status } }) ∨
      ∃ d, s.conf.dirs.lookup name.1 = some d ∧
        acceptFile env m s content needCheckAuth needCheckAes =
          storeFile m s name.1 d (d.p ++ segmentPath env name.2) r
            (prepare env m s.files d (d.p ++ segmentPath env name.2) r.type
              (payload env s.conf content needCheckAuth needCheckAes)) := by
  intro r name
  have shape : acceptFile env m s content needCheckAuth needCheckAes =
      if content.length ≤ 2 then { state := s, response := { status := .toSmallContentSize } }
      else if !s.conf.enableWrite then { state := s, response := { status := .writeIsDisabled } }
      else if (received env s.conf content needCheckAes).length ≤ 2 then
        { state := s, response := { status := .incorrectSecureKey } }
      else if 64 < r.fileName.length then
        { state := s, response := { status := .tooLongFilename } }
      else if !r.isAuthOk then { state := s, response := { status := .authFailed } }
      else if name.2 = [] then
        { state := s, response := { status := .fileNameMustNotBeEmpty } }
      else if m.busy (segmentPath env name.2) then
        { state := s, response := { status := .fileBusy } }
      else place env m s name r (payload env s.conf content needCheckAuth needCheckAes) := rfl
  by_cases small : content.length ≤ 2
  · exact .inl ⟨_, by decide, shape.trans (if_pos small)⟩
  rw [if_neg small] at shape
  by_cases disabled : (!s.conf.enableWrite) = true
  · exact .inl ⟨_, by decide, shape.trans (if_pos disabled)⟩
  rw [if_neg disabled] at shape
  by_cases garbled : (received env s.conf content needCheckAes).length ≤ 2
  · exact .inl ⟨_, by decide, shape.trans (if_pos garbled)⟩
  rw [if_neg garbled] at shape
  by_cases long : 64 < r.fileName.length
  · exact .inl ⟨_, by decide, shape.trans (if_pos long)⟩
  rw [if_neg long] at shape
  by_cases unauthorized : (!r.isAuthOk) = true
  · exact .inl ⟨_, by decide, shape.trans (if_pos unauthorized)⟩
  rw [if_neg unauthorized] at shape
  by_cases nameless : name.2 = []
  · exact .inl ⟨_, by decide, shape.trans (if_pos nameless)⟩
  rw [if_neg nameless] at shape
  by_cases busy : m.busy (segmentPath env name.2) = true
  · exact .inl ⟨_, by decide, shape.trans (if_pos busy)⟩
  rw [if_neg busy] at shape
  rw [place] at shape
  cases found : s.conf.dirs.lookup name.1 with
  | none =>
    rw [found] at shape
    exact .inl ⟨_, by decide, shape⟩
  | some d =>
    rw [found] at shape
    by_cases open_ : isFileExists s.files (d.p ++ segmentPath env name.2) = true ∨
        (d.enabled = true ∧ d.currSizeB < d.maxSizeB)
    · exact .inr ⟨d, rfl, shape.trans (if_pos open_)⟩
    · exact .inl ⟨_, by decide, shape.trans (if_neg open_)⟩

theorem acceptFile_ok
    (accepted : (acceptFile env m s content needCheckAuth needCheckAes).response.status = .ok) :
    let r := line env s.conf content needCheckAuth needCheckAes
    let name := splitSubfolder r.fileName
    ∃ d, s.conf.dirs.lookup name.1 = some d ∧
      acceptFile env m s content needCheckAuth needCheckAes =
        storeFile m s name.1 d (d.p ++ segmentPath env name.2) r
          (prepare env m s.files d (d.p ++ segmentPath env name.2) r.type
            (payload env s.conf content needCheckAuth needCheckAes)) := by
  rcases acceptFile_cases env m s content needCheckAuth needCheckAes with
    ⟨_, refused, same⟩ | stored
  · rw [same] at accepted
    exact absurd accepted refused
  · exact stored

variable {subfolder : Bytes} {d : Directory} {path : Bytes} {r : Request} {p : Prepared}

theorem appendToFirst_read (files : Files) (line : Bytes) {paths : List Bytes} {other : Bytes}
    (apart : ∀ path ∈ paths, cStr other ≠ cStr path) :
    (appendToFirst m files line paths).1.read other = files.read other := by
  induction paths with
  | nil => rfl
  | cons path paths ih =>
    rw [appendToFirst]
    split
    · exact Files.read_append_of_ne files (apart path List.mem_cons_self) line
    · exact ih (fun path present => apart path (List.mem_cons_of_mem _ present))

/-- The header of the file that a request writes. -/
def Request.headerText (r : Request) (m : Moment) : Bytes := Disk.headerText m r.ttl r.headers.1

/-- The files after a file was written whole, or removed when there is nothing to write. -/
def writtenFiles (m : Moment) (files : Files) (path : Bytes) (r : Request) (toWrite : Bytes) :
    Files :=
  if toWrite = [] then files.remove path else files.write path (r.headerText m ++ toWrite)

@[simp]
theorem countData_files : (countData s subfolder p).files = p.files := by
  unfold countData
  split
  · rw [State.incCurrDiskSize_files]
  · rfl

theorem countData_alike : s.conf.Alike (countData s subfolder p).conf := by
  unfold countData
  split
  · exact State.incCurrDiskSize_alike { s with files := p.files } subfolder _
  · exact .refl _

theorem storeFile_status : (storeFile m s subfolder d path r p).response.status = .ok ↔
    p.ok = true ∧ (writeFile m d path r (isFileExists s.files path) p).2.2 = true := by
  unfold storeFile
  dsimp only
  split
  · grind
  · grind

theorem storeFile_alike : s.conf.Alike (storeFile m s subfolder d path r p).state.conf := by
  unfold storeFile
  dsimp only
  split
  · exact countData_alike.trans (State.incCurrDiskSize_alike _ subfolder _)
  · exact countData_alike

theorem storeFile_failed
    (refused : (storeFile m s subfolder d path r p).response.status ≠ .ok) :
    (storeFile m s subfolder d path r p).state.files = p.files := by
  rw [Ne, storeFile_status] at refused
  rw [storeFile, if_neg refused, countData_files]

theorem storeFile_files
    (accepted : (storeFile m s subfolder d path r p).response.status = .ok) :
    (storeFile m s subfolder d path r p).state.files =
      (listFile m s.conf (writeFile m d path r (isFileExists s.files path) p).1 path r
        p.isAppend).1 := by
  rw [storeFile_status] at accepted
  rw [storeFile, if_pos accepted]

theorem writeFile_whole (m : Moment) (d : Directory) (path : Bytes) (p : Prepared) {existed : Bool}
    (whole : ¬ (r.type = .appendable ∧ existed)) :
    (writeFile m d path r existed p).1 =
        (if p.toWrite = [] ∨ m.opens path then writtenFiles m p.files path r p.toWrite
        else p.files) ∧
      ((writeFile m d path r existed p).2.2 = true ↔ p.toWrite = [] ∨ m.opens path = true) := by
  rw [writeFile, if_neg whole, Disk.writeFileToDisk]
  by_cases empty : p.toWrite = []
  · simp [empty, writtenFiles]
  · by_cases opens : m.opens path = true
    · simp [empty, opens, writtenFiles, Request.headerText]
    · simp [empty, opens]

theorem listFile_read {conf : ServerConf} {files : Files} {isAppend : Bool} {other : Bytes}
    (apart : 0 < r.ttl → ∀ list ∈ ttlFiles conf (DateTime.addDays m.now r.ttl).date,
      cStr other ≠ cStr list) :
    (listFile m conf files path r isAppend).1.read other = files.read other := by
  unfold listFile
  split
  · grind [appendToFirst_read]
  · rfl

theorem acceptFile_alike :
    s.conf.Alike (acceptFile env m s content needCheckAuth needCheckAes).state.conf := by
  rcases acceptFile_cases env m s content needCheckAuth needCheckAes with
    ⟨_, _, refused⟩ | ⟨d, _, stored⟩
  · rw [refused]
    exact .refl _
  · rw [stored]
    exact storeFile_alike

end RssDisk.Server
