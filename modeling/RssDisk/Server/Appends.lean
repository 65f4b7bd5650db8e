import RssDisk.Server.Sizes
import RssDisk.Server.WholeBlocks

/-!
# Accounted sizes of appends

An append to a file is accounted for with the whole blocks of what is appended, as if it started a
block of its own, and an append to the data file of a database with its bytes. A removal takes the
whole blocks of the files that are there.
-/

namespace RssDisk.Server

open Lib JManager Disk Option Directory Files

section

variable {env : Env} {m : Moment} {s : State} {subfolder path : Bytes} {d : Directory} {r : Request}
  {p : Prepared}

theorem storeFile_size (found : s.conf.dirs.lookup subfolder = some d)
    (accepted : (storeFile m s subfolder d path r p).response.status = .ok) :
    ((storeFile m s subfolder d path r p).state.conf.dirs.lookup subfolder).map
        currSizeB =
      some (d.currSizeB + p.bytesWrittenJdb.getD 0 +
        (writeFile m d path r (isFileExists s.files path) p).2.1) := by
  have counted : (countData s subfolder p).conf.dirs.lookup subfolder =
      some (d.incCurrDiskSize (p.bytesWrittenJdb.getD 0)) := by
    unfold countData
    cases p.bytesWrittenJdb with
    | none => simp [found, incCurrDiskSize]
    | some bytes =>
      simp only
      rw [State.incCurrDiskSize_lookup, if_pos rfl, found]
      rfl
  rw [storeFile_status] at accepted
  unfold storeFile
  simp only [if_pos accepted]
  rw [State.incCurrDiskSize_lookup, if_pos rfl, counted]
  rfl

/-- The lists that a request may be put on are other files than the two of its name. -/
def Request.Unlisted (r : Request) (m : Moment) (conf : ServerConf) (path : Bytes) : Prop :=
  0 < r.ttl → ∀ list ∈ ttlFiles conf (DateTime.addDays m.now r.ttl).date,
    ∀ file, IsOwn path file → cStr file ≠ cStr list

end

/-- What is appended to: a file of the type that is appended to, or the data file of a database. -/
inductive AppendKind where
  | file
  | data
deriving DecidableEq, Repr

/-- The file that is appended to. -/
def AppendKind.place : AppendKind → Bytes → Bytes
  | .file, path => path
  | .data, path => path ++ jExtensionName

/-- The accounted change of an append is exact for a size and bytes behind it. A file is accounted
for the whole blocks of what is appended, a data file for its bytes. -/
def AppendKind.Exact (fsBlockSize size n : Nat) : AppendKind → Prop
  | .file => n = 0 ∨ 2 ^ 32 ≤ fsBlockSize ∨ fsBlockSize ≤ size % fsBlockSize + n % fsBlockSize
  | .data => fsBlockSize ∣ n

instance (fsBlockSize size n : Nat) :
    (kind : AppendKind) → Decidable (kind.Exact fsBlockSize size n)
  | .file => inferInstanceAs (Decidable (_ ∨ _))
  | .data => inferInstanceAs (Decidable (_ ∣ _))

/-- What a call appends at a path, when it does: the content behind its line to a file that exists,
or the body of the database that is built to the data file. -/
def Call.appended (env : Env) (s : State) (call : Call) (path : Bytes) :
    Option (AppendKind × Bytes) :=
  if (call.request env s.conf).type = .appendable then
    if isFileExists s.files path then some (.file, call.body env s.conf) else none
  else if (call.request env s.conf).type = .ajdb then
    match splitPayload (call.body env s.conf) with
    | some (jsonSettings, jsonData) =>
      let jdb := createDatabaseContent env s.files path jsonData jsonSettings true
      if jdb.append ∧ jdb.version = 2 then some (.data, jdb.body) else none
    | none => none
  else none

/-- A call stores a file at a path of a directory, and its lists are other files. -/
structure Call.Stores (env : Env) (s : State) (call : Call) (subfolder : Bytes) (d : Directory)
    (path : Bytes) : Prop where
  /-- The call is answered `ok`. -/
  accepted : (call.run env s).response.status = .ok
  named : (splitSubfolder (call.request env s.conf).fileName).1 = subfolder
  found : s.conf.dirs.lookup subfolder = some d
  here : path = d.p ++ segmentPath env (splitSubfolder (call.request env s.conf).fileName).2
  unlisted : (call.request env s.conf).Unlisted call.moment s.conf path

def Call.prepared (env : Env) (s : State) (call : Call) (d : Directory) (path : Bytes) : Prepared :=
  prepare env call.moment s.files d path (call.request env s.conf).type (call.body env s.conf)

def Call.written (env : Env) (s : State) (call : Call) (d : Directory) (path : Bytes) :
    Files × Int × Bool :=
  writeFile call.moment d path (call.request env s.conf) (isFileExists s.files path)
    (call.prepared env s d path)

section

variable {env : Env} {s : State} {call : Call} {subfolder path : Bytes} {d : Directory}

theorem Call.written_whole
    (whole : ¬ ((call.request env s.conf).type = .appendable ∧ isFileExists s.files path = true)) :
    call.written env s d path = writeFileToDisk call.moment (call.prepared env s d path).files path
      (call.prepared env s d path).toWrite 0 (call.request env s.conf).ttl d.fsBlockSizeB
      (call.request env s.conf).headers.1 true := by
  rw [Call.written, writeFile, if_neg whole]

theorem Call.Stores.spec (stores : call.Stores env s subfolder d path) :
    (call.prepared env s d path).ok = true ∧ (call.written env s d path).2.2 = true ∧
      ((call.run env s).state.conf.dirs.lookup subfolder).map currSizeB =
        some (d.currSizeB + (call.prepared env s d path).bytesWrittenJdb.getD 0 +
          (call.written env s d path).2.1) ∧
      ∀ file, IsOwn path file →
        (call.run env s).state.files.read file = (call.written env s d path).1.read file := by
  obtain ⟨accepted, rfl, found, rfl, unlisted⟩ := stores
  obtain ⟨d', found', stored⟩ := acceptFile_ok accepted
  cases found.symm.trans found'
  have run : call.run env s = _ := stored
  rw [run] at accepted ⊢
  obtain ⟨ok, done⟩ := storeFile_status.mp accepted
  refine ⟨ok, done, storeFile_size found accepted, fun file own => ?_⟩
  rw [storeFile_files accepted]
  exact listFile_read (fun positive list present => unlisted positive list present file own)

theorem retrieveCompressedData_size {files : Files}
    (positive : 0 < (retrieveCompressedData env files path).size) :
    (∃ c, files.read path = some c ∧ c ≠ []) ∧
      ∃ data, files.read (path ++ jExtensionName) = some data := by
  cases data : files.read (path ++ jExtensionName) with
  | none =>
    grind [retrieveCompressedData_missing]
  | some content =>
    refine ⟨?_, content, rfl⟩
    cases read : files.read path with
    | none =>
      simp [retrieveCompressedData, read] at positive
    | some title =>
      refine ⟨title, rfl, ?_⟩
      rintro rfl
      simp [retrieveCompressedData, read, MemoryMappedItem.read] at positive

theorem createDatabaseContent_append {files : Files} {jsonData jsonSettings : Bytes} {append : Bool}
    (appends : (createDatabaseContent env files path jsonData jsonSettings append).append = true) :
    (createDatabaseContent env files path jsonData jsonSettings append).title ≠ [] ∧
      (∃ c, files.read path = some c ∧ c ≠ []) ∧
      ∃ data, files.read (path ++ jExtensionName) = some data := by
  have built : ∀ (settings : Settings) (data : Json),
      (buildContent env files path settings data append).append = (append && decide (0 <
          (if append then retrieveCompressedData env files path else {}).size)) ∧
        (buildContent env files path settings data append).title ≠ [] := by
    intro settings data
    cases data <;> exact ⟨rfl, List.cons_ne_nil _ _⟩
  unfold createDatabaseContent at appends ⊢
  split at appends
  · rw [(built _ _).1, Bool.and_eq_true, decide_eq_true_eq] at appends
    rw [if_pos appends.1] at appends
    exact ⟨(built _ _).2, retrieveCompressedData_size appends.2⟩
  · cases appends

theorem Call.appended_cases {kind : AppendKind} {more : Bytes}
    (appended : call.appended env s path = some (kind, more)) :
    kind = .file ∧ (call.request env s.conf).type = .appendable ∧
        isFileExists s.files path = true ∧ call.body env s.conf = more ∨
      kind = .data ∧ (call.request env s.conf).type = .ajdb ∧ ∃ jsonSettings jsonData,
        splitPayload (call.body env s.conf) = some (jsonSettings, jsonData) ∧
        (createDatabaseContent env s.files path jsonData jsonSettings true).append = true ∧
        (createDatabaseContent env s.files path jsonData jsonSettings true).version = 2 ∧
        (createDatabaseContent env s.files path jsonData jsonSettings true).body = more := by
  unfold Call.appended at appended
  split at appended
  · rename_i type
    rw [ite_none_right_eq_some] at appended
    grind
  · split at appended
    · rename_i type
      split at appended
      · rename_i jsonSettings jsonData payload
        dsimp only at appended
        rw [ite_none_right_eq_some] at appended
        grind
      · cases appended
    · cases appended

theorem writeDatabase_append {m : Moment} {files : Files} {jdb : DatabaseContent}
    (append : jdb.append = true) (version : jdb.version = 2)
    (done : (writeDatabase m files d path jdb).ok = true) :
    (writeDatabase m files d path jdb).bytesWrittenJdb = some (toInt32 jdb.body.length) ∧
      (writeDatabase m files d path jdb).files = files.append (path ++ jExtensionName) jdb.body ∧
      (writeDatabase m files d path jdb).toWrite = jdb.title := by
  have later : ¬ jdb.version = 1 := by
    rw [version]
    decide
  unfold writeDatabase at done ⊢
  by_cases error : jdb.errorOccurred = true
  · rw [if_pos error] at done
    cases done
  · rw [if_neg error, if_neg later, if_pos version, if_pos append] at done ⊢
    unfold appendToFile at done ⊢
    by_cases opens : m.opens (path ++ jExtensionName) = true
    · rw [if_pos opens]
      exact ⟨rfl, rfl, rfl⟩
    · rw [if_neg opens] at done
      cases done

/-- A call that appends to one of the files of its name, below 2 GiB. -/
structure Call.Appends (env : Env) (s : State) (call : Call) (subfolder : Bytes) (d : Directory)
    (path : Bytes) (kind : AppendKind) (old more : Bytes) : Prop
    extends call.Stores env s subfolder d path where
  appended : call.appended env s path = some (kind, more)
  read : s.files.read (kind.place path) = some old
  grown : old.length + more.length < 2 ^ 31
  before : ∀ c, s.files.read path = some c → c.length < 2 ^ 31
  after : ∀ c, (call.run env s).state.files.read path = some c → c.length < 2 ^ 31

variable {kind : AppendKind} {old more : Bytes} {k : Nat}

theorem Call.Appends.file_spec (appends : call.Appends env s subfolder d path .file old more) :
    (call.prepared env s d path).bytesWrittenJdb = none ∧
      (call.written env s d path).1 = s.files.append path more ∧
      (call.written env s d path).2.1 = toInt32 (roundedSize more.length d.fsBlockSizeB) := by
  obtain ⟨-, done, -, -⟩ := appends.toStores.spec
  obtain ⟨-, type, exists_, content⟩ | ⟨impossible, -⟩ := Call.appended_cases appends.appended
  rotate_left
  · cases impossible
  have prepared : call.prepared env s d path = { files := s.files, toWrite := more } := by
    rw [Call.prepared, prepare, if_neg (by rw [type]; decide), content]
  rw [Call.written, writeFile, if_pos ⟨type, exists_⟩, prepared] at done ⊢
  refine ⟨rfl, ?_, rfl⟩
  unfold appendToFile at done ⊢
  split
  · rfl
  · rename_i closed
    rw [if_neg closed] at done
    cases done

theorem Call.Appends.data_spec (appends : call.Appends env s subfolder d path .data old more) :
    (call.prepared env s d path).bytesWrittenJdb = some (toInt32 more.length) ∧
      (call.prepared env s d path).files = s.files.append (path ++ jExtensionName) more ∧
      (call.prepared env s d path).toWrite ≠ [] ∧
      (call.written env s d path) = writeFileToDisk call.moment
        (call.prepared env s d path).files path (call.prepared env s d path).toWrite 0
        (call.request env s.conf).ttl d.fsBlockSizeB (call.request env s.conf).headers.1 true ∧
      ∃ title, s.files.read path = some title ∧ title ≠ [] := by
  obtain ⟨ok, -, -, -⟩ := appends.toStores.spec
  obtain ⟨impossible, -⟩ | ⟨-, type, jsonSettings, jsonData, payload, append, version, body⟩ :=
    Call.appended_cases appends.appended
  · cases impossible
  obtain ⟨titled, title, -⟩ := createDatabaseContent_append append
  have prepared : call.prepared env s d path = writeDatabase call.moment s.files d path
      (createDatabaseContent env s.files path jsonData jsonSettings true) := by
    rw [Call.prepared, prepare, if_pos (.inr type), payload, type]
    rfl
  rw [prepared] at ok
  obtain ⟨bytes, files, toWrite⟩ := writeDatabase_append append version ok
  rw [← prepared] at bytes files toWrite
  rw [body] at bytes files
  refine ⟨bytes, files, by rwa [toWrite], Call.written_whole ?_, title⟩
  exact fun both => by cases type.symm.trans both.1

theorem Call.Appends.size_iff (appends : call.Appends env s subfolder d path kind old more)
    (power : d.fsBlockSizeB = 2 ^ k) :
    ((call.run env s).state.conf.dirs.lookup subfolder).map currSizeB =
        some (d.currSizeB +
          (filesSize d.fsBlockSizeB (call.run env s).state.files path -
            filesSize d.fsBlockSizeB s.files path)) ↔
      kind.Exact d.fsBlockSizeB old.length more.length := by
  obtain ⟨-, done, size, same⟩ := appends.toStores.spec
  have grown := appends.grown
  rw [filesSize_congr same, size, Option.some.injEq]
  cases kind with
  | file =>
    have read : s.files.read path = some old := appends.read
    obtain ⟨bytes, files, counted⟩ := appends.file_spec
    have touched := @filesSize_touched d.fsBlockSizeB s.files (s.files.append path more) path path
      (.inl rfl) (fun key apart => lookup_append_of_ne apart more)
    rw [blocksOf_append read, blocksOf_read read] at touched
    rw [bytes, files, counted, touched, AppendKind.Exact, ← roundedSize_append_iff power grown,
      getD_none]
    omega
  | data =>
    have read : s.files.read (path ++ jExtensionName) = some old := appends.read
    obtain ⟨bytes, files, some_, whole, title, present, filled⟩ := appends.data_spec
    have positive : 0 < d.fsBlockSizeB := by
      grind
    -- the data file
    have first := @filesSize_touched d.fsBlockSizeB s.files _ path (path ++ jExtensionName)
      (.inr rfl) (fun key apart => lookup_append_of_ne apart more)
    rw [blocksOf_append read, blocksOf_read read, ← files] at first
    -- the file itself, which may be the data file
    obtain ⟨now, there, filled', small⟩ : ∃ now,
        (call.prepared env s d path).files.read path = some now ∧ now ≠ [] ∧
          now.length < 2 ^ 31 := by
      by_cases alias_ : cStr path = cStr (path ++ jExtensionName)
      · have twin : ∀ files : Files, files.read path = files.read (path ++ jExtensionName) := by
          intro files
          rw [Files.read, Files.read, alias_]
        have equal : title = old := by
          grind
        refine ⟨old ++ more, ?_, ?_, ?_⟩
        · rw [twin, files, read_append_self, read, getD_some]
        · rw [← equal]
          simp [filled]
        · grind
      · refine ⟨title, ?_, filled, appends.before title present⟩
        rw [files, read_append_of_ne _ alias_, present]
    have after : ∀ c, (call.written env s d path).1.read path = some c → c.length < 2 ^ 31 := by
      intro c written
      rw [← same path (.inl rfl)] at written
      exact appends.after c written
    have second : (call.written env s d path).2.1 =
        blocksOf d.fsBlockSizeB ((call.written env s d path).1.read path) -
          blocksOf d.fsBlockSizeB ((call.prepared env s d path).files.read path) := by
      rw [whole] at done after ⊢
      exact writeFileToDisk_blocks power there filled' small some_ done after
    have third := @filesSize_touched d.fsBlockSizeB (call.prepared env s d path).files
      (call.written env s d path).1 path path (.inl rfl) (fun key apart => by
        rw [whole]
        exact writeFileToDisk_lookup apart)
    have exact_ : toInt32 more.length = more.length := toInt32_eq (by omega) (by omega)
    have cancel : ∀ size grown title now blocks n : Int,
        size + n + (title - now) = size + (blocks + grown + (title - now) - blocks) ↔
          n = grown := by
      intro size grown title now blocks n
      constructor <;> intro equal <;> linarith
    rw [bytes, second, third, first, getD_some, exact_, cancel, AppendKind.Exact]
    exact append_blocks_iff positive

end

/-- What a directory is accounted for besides the files of a name. -/
def State.rest (s : State) (subfolder path : Bytes) : Option Int :=
  (s.conf.dirs.lookup subfolder).map
    (fun d => d.currSizeB - filesSize d.fsBlockSizeB s.files path)

theorem Call.run_alike {env : Env} {s : State} (call : Call) :
    s.conf.Alike (call.run env s).state.conf := acceptFile_alike

section

variable {env : Env} {s t : State} {call : Call} {subfolder path file : Bytes} {d : Directory}
  {k : Nat}

theorem State.rest_eq (alike : s.conf.Alike t.conf) (found : s.conf.dirs.lookup subfolder = some d)
    (size : (t.conf.dirs.lookup subfolder).map currSizeB = some (d.currSizeB +
      (filesSize d.fsBlockSizeB t.files path - filesSize d.fsBlockSizeB s.files path))) :
    t.rest subfolder path = s.rest subfolder path := by
  obtain ⟨d', found', changed⟩ := map_eq_some_iff.mp size
  obtain ⟨old, before, -, same⟩ := alike.lookup found'
  cases found.symm.trans before
  rw [State.rest, State.rest, found, found', map_some, map_some, changed, ← same]
  exact congrArg some (by ring)

theorem State.rest_absent (found : s.conf.dirs.lookup subfolder = some d)
    (absent : ∀ file, IsOwn path file → s.files.read file = none) :
    s.rest subfolder path = some d.currSizeB := by
  have nothing : filesSize d.fsBlockSizeB s.files path = 0 := by
    apply Finset.sum_eq_zero
    intro key present
    rcases Finset.mem_insert.mp present with rfl | later
    · exact congrArg _ (absent path (.inl rfl))
    · rw [Finset.mem_singleton.mp later]
      exact congrArg _ (absent _ (.inr rfl))
  rw [State.rest, found, map_some, nothing, sub_zero]

theorem prepared_isAppend (missing : s.files.read (path ++ jExtensionName) = none) :
    (call.prepared env s d path).isAppend = false := by
  have fresh : ∀ jsonData jsonSettings append,
      (createDatabaseContent env s.files path jsonData jsonSettings append).append = false := by
    intro jsonData jsonSettings append
    by_contra appends
    obtain ⟨-, -, data, found⟩ := createDatabaseContent_append (eq_true_of_ne_false appends)
    cases missing.symm.trans found
  unfold Call.prepared prepare
  split
  · split
    · unfold writeDatabase
      rw [fresh]
      repeat' split
      all_goals first
        | rfl
        | contradiction
    · rfl
  · rfl

/-- A call that stores a file where there is none, with blocks below 2 GiB. -/
structure Call.Creates (env : Env) (s : State) (call : Call) (subfolder : Bytes) (d : Directory)
    (path : Bytes) : Prop extends call.Stores env s subfolder d path where
  absent : ∀ file, IsOwn path file → s.files.read file = none
  data : ∀ c, (call.prepared env s d path).files.read (path ++ jExtensionName) = some c →
    FitsBlocks d.fsBlockSizeB c
  fits : ∀ c, (call.run env s).state.files.read path = some c → FitsBlocks d.fsBlockSizeB c

theorem Call.Creates.rest (creates : call.Creates env s subfolder d path)
    (power : d.fsBlockSizeB = 2 ^ k) :
    (call.run env s).state.rest subfolder path = some d.currSizeB := by
  have missing := creates.absent path (.inl rfl)
  have noData := creates.absent _ (.inr rfl)
  obtain ⟨-, -, size, same⟩ := creates.toStores.spec
  -- the data file
  have first : filesSize d.fsBlockSizeB (call.prepared env s d path).files path =
      filesSize d.fsBlockSizeB s.files path +
        (call.prepared env s d path).bytesWrittenJdb.getD 0 ∧
      ∀ c, (call.prepared env s d path).files.read path = some c →
        c ≠ [] ∧ FitsBlocks d.fsBlockSizeB c := by
    rcases prepare_counted (prepared_isAppend noData) with ⟨bytes, files⟩ | ⟨body, bytes, files⟩
    · have bytes : (call.prepared env s d path).bytesWrittenJdb = none := bytes
      have files : (call.prepared env s d path).files = s.files := files
      rw [bytes, files, missing]
      exact ⟨(add_zero _).symm, fun c read => by cases read⟩
    · have bytes : (call.prepared env s d path).bytesWrittenJdb = _ := bytes
      have files : (call.prepared env s d path).files = _ := files
      have absent : ∀ c, s.files.read (path ++ jExtensionName) = some c → c ≠ [] ∧
          FitsBlocks d.fsBlockSizeB c := by
        intro c read
        rw [noData] at read
        cases read
      have new := creates.data
      rw [bytes, files]
      rw [files] at new
      refine ⟨filesSize_written power (.inr rfl) absent new, fun c read => ?_⟩
      by_cases alias_ : cStr path = cStr (path ++ jExtensionName)
      · rw [Files.read, alias_] at read
        exact ⟨writeFileToDisk_ne_nil (fun c read => (absent c read).1) read, new c read⟩
      · grind [Files.read, writeFileToDisk_lookup]
  -- the file itself
  have whole : call.written env s d path = _ :=
    Call.written_whole (fun both => by simp [isFileExists, missing] at both)
  have second : filesSize d.fsBlockSizeB (call.written env s d path).1 path =
      filesSize d.fsBlockSizeB (call.prepared env s d path).files path +
        (call.written env s d path).2.1 := by
    have new := creates.fits
    rw [same path (.inl rfl)] at new
    rw [whole] at new ⊢
    exact filesSize_written power (.inl rfl) first.2 new
  rw [← State.rest_absent creates.found creates.absent]
  apply State.rest_eq call.run_alike creates.found
  rw [size, filesSize_congr same, second, first.1]
  exact congrArg some (by ring)

/-- A call that appends, and whose accounted change is exact. -/
def ExactAppend (env : Env) (subfolder path : Bytes) (s : State) (call : Call) : Prop :=
  ∃ d kind old more, call.Appends env s subfolder d path kind old more ∧
    kind.Exact d.fsBlockSizeB old.length more.length

/-- The calls, one after another. -/
def callStep (env : Env) (s : State) (call : Call) : Option State := some (call.run env s).state

section

variable (found : s.conf.dirs.lookup subfolder = some d) (power : d.fsBlockSizeB = 2 ^ k)

include found power

theorem appends_rest (reached : Reaches (callStep env) (ExactAppend env subfolder path) s t) :
    t.rest subfolder path = s.rest subfolder path ∧ s.conf.Alike t.conf := by
  apply reached.invariant
    (fun t => t.rest subfolder path = s.rest subfolder path ∧ s.conf.Alike t.conf) ⟨rfl, .refl _⟩
  rintro u call v ⟨same, alike⟩ ⟨now, kind, old, more, appends, exact_⟩ taken
  cases taken
  obtain ⟨first, before, -, blocks⟩ := alike.lookup appends.found
  cases found.symm.trans before
  rw [blocks] at power
  have size := (appends.size_iff power).mpr exact_
  exact ⟨(State.rest_eq call.run_alike appends.found size).trans same,
    alike.trans call.run_alike⟩

theorem removeAccounted_rest (own : IsOwn path file) {e : Directory}
    (same : e.fsBlockSizeB = d.fsBlockSizeB)
    (fits : ∀ c, s.files.read file = some c → FitsBlocks d.fsBlockSizeB c) :
    (removeAccounted s subfolder e file).rest subfolder path = s.rest subfolder path := by
  apply State.rest_eq (removeAccounted_alike s subfolder e file) found
  have gone : (s.files.remove file).read file = none := read_remove_self _ _
  have touched := @filesSize_touched d.fsBlockSizeB s.files (s.files.remove file) path file own
    (fun key apart => AList.lookup_erase_ne apart)
  rw [removeAccounted, State.incCurrDiskSize_files, State.incCurrDiskSize_lookup, if_pos rfl, found,
    same, getFileSizeFsBlockSize_eq power fits, occupied_eq_blocksOf power fits, touched, gone]
  simp only [map_some, incCurrDiskSize, blocksOf, map_none,
    getD_none]
  exact congrArg some (by ring)

theorem removeWithData_rest
    (fits : ∀ file, IsOwn path file → ∀ c, s.files.read file = some c → FitsBlocks d.fsBlockSizeB c)
    : (removeWithData s subfolder d path).rest subfolder path = s.rest subfolder path := by
  have first : (removeAccounted s subfolder d path).rest subfolder path = s.rest subfolder path :=
    removeAccounted_rest found power (.inl rfl) rfl (fits path (.inl rfl))
  rw [removeWithData]
  split
  · obtain ⟨now, after, -, blocks⟩ :=
      (removeAccounted_alike s subfolder d path).symm.lookup found
    refine (removeAccounted_rest after (by rw [blocks]; exact power) (.inr rfl) blocks.symm
      ?_).trans first
    intro c read
    rw [removeAccounted_read] at read
    split at read
    · cases read
    · rw [blocks]
      exact fits _ (.inr rfl) c read
  · exact first

end

/-- `remove_file_by_tms` removes the file of a name. -/
structure Removes (env : Env) (m : Moment) (s : State) (subfolder : Bytes) (d : Directory)
    (path fileName : Bytes) (tms crc32 : Int64) (force : Bool) : Prop where
  named : (splitSubfolder fileName).1 = subfolder
  found : s.conf.dirs.lookup subfolder = some d
  here : path = d.p ++ segmentPath env (splitSubfolder fileName).2
  existed : isFileExists s.files path = true
  fits : ∀ file, IsOwn path file → ∀ c, s.files.read file = some c → FitsBlocks d.fsBlockSizeB c
  gone : isFileExists (removeFileByTms env m s fileName tms crc32 force).1.files path = false

theorem Removes.size {m : Moment} {fileName : Bytes} {tms crc32 : Int64} {force : Bool}
    (removes : Removes env m s subfolder d path fileName tms crc32 force)
    (power : d.fsBlockSizeB = 2 ^ k) :
    ((removeFileByTms env m s fileName tms crc32 force).1.conf.dirs.lookup subfolder).map
      currSizeB = s.rest subfolder path := by
  obtain ⟨rfl, found, rfl, existed, fits, gone⟩ := removes
  rcases removeFileByTms_cases env m s fileName tms crc32 force with same | ⟨d', found', removed⟩
  · grind
  · cases found.symm.trans found'
    rw [removed, ← removeWithData_rest found power fits]
    obtain ⟨now, after, -, -⟩ := (removeWithData_alike s (splitSubfolder fileName).1 d
      (d.p ++ segmentPath env (splitSubfolder fileName).2)).symm.lookup found
    rw [State.rest_absent after, after]
    · rfl
    · rintro file (rfl | rfl)
      · rw [removeWithData_read, if_pos (.inl rfl)]
      · rw [removeWithData_read, if_pos (.inr rfl)]

/-- Every append changes the accounted size of the directory as the blocks of the files that it
touches, exactly when it appends nothing or fills a block of the file, or appends whole blocks to
the data file. Along every run of such appends, from the creation of a file to its removal, the
accounted size comes back to the one before. -/
theorem appends_accounted (env : Env) (subfolder path : Bytes) :
    (∀ (s : State) (call : Call) (d : Directory) (kind : AppendKind) (old more : Bytes) (k : Nat),
      call.Appends env s subfolder d path kind old more → d.fsBlockSizeB = 2 ^ k →
      (((call.run env s).state.conf.dirs.lookup subfolder).map currSizeB =
          some (d.currSizeB +
            (filesSize d.fsBlockSizeB (call.run env s).state.files path -
              filesSize d.fsBlockSizeB s.files path)) ↔
        kind.Exact d.fsBlockSizeB old.length more.length)) ∧
    ∀ (s t : State) (call : Call) (d e : Directory) (k : Nat) (m : Moment) (fileName : Bytes)
      (tms crc32 : Int64) (force : Bool),
      call.Creates env s subfolder d path → d.fsBlockSizeB = 2 ^ k →
      Reaches (callStep env) (ExactAppend env subfolder path) (call.run env s).state t →
      Removes env m t subfolder e path fileName tms crc32 force →
      ((removeFileByTms env m t fileName tms crc32 force).1.conf.dirs.lookup subfolder).map
        currSizeB = some d.currSizeB := by
  refine ⟨fun s call d kind old more k appends power => appends.size_iff power, ?_⟩
  intro s t call d e k m fileName tms crc32 force creates power reached removes
  obtain ⟨now, after, -, blocks⟩ := call.run_alike.symm.lookup creates.found
  rw [← blocks] at power
  obtain ⟨same, alike⟩ := appends_rest after power reached
  obtain ⟨first, before, -, blocks'⟩ := alike.lookup removes.found
  cases after.symm.trans before
  rw [removes.size (blocks'.symm.trans power), same]
  exact creates.rest (blocks.symm.trans power)

end

section

/-- A write of the type that is appended to, under the name `a`. -/
def tailCall (content : Bytes) : Call where
  moment := sampleMoment
  content := lineText [97, 117, 116, 104] [97] [48]
    (WType.appendable.digits ++ List.replicate 8 0) ++ content

/-- The path of the name `a`. -/
def appendPath : Bytes := [47, 100, 47] ++ segmentPath Reference.env [97]

/-- The server with blocks of 16 bytes, after a file of 33 bytes was created. -/
def createdState : State :=
  ((tailCall [104, 105]).run Reference.env (sizedState (2 ^ 4))).state

/-- The server after 15 bytes were appended. -/
def grownState : State :=
  ((tailCall (List.replicate 15 104)).run Reference.env createdState).state

theorem tailCall_stores {content : Bytes} {s : State} {d : Directory}
    (accepted : ((tailCall content).run Reference.env s).response.status = .ok)
    (found : s.conf.dirs.lookup [] = some d) (place : d.p = [47, 100, 47])
    (name : ((tailCall content).request Reference.env s.conf).fileName = [97])
    (days : ((tailCall content).request Reference.env s.conf).ttl = 0) :
    (tailCall content).Stores Reference.env s [] d appendPath where
  accepted := accepted
  named := by
    rw [name]
    rfl
  found := found
  here := by
    rw [name, place]
    rfl
  unlisted := by
    intro positive
    rw [days] at positive
    cases positive

theorem lookup_sample {s : State} (only : (s.conf.dirs.lookup []).any
      (fun d => d.p = [47, 100, 47] ∧ d.fsBlockSizeB = 2 ^ 4) = true) :
    ∃ d, s.conf.dirs.lookup [] = some d ∧ d.p = [47, 100, 47] ∧ d.fsBlockSizeB = 2 ^ 4 := by
  cases found : s.conf.dirs.lookup [] with
  | none =>
    grind
  | some d =>
    rw [found] at only
    exact ⟨d, rfl, of_decide_eq_true only⟩

/-- A file is created, 15 bytes are appended to it, which fill a block, and it is removed. -/
theorem appends_accounted_sample :
    ∃ d e : Directory, (sizedState (2 ^ 4)).conf.dirs.lookup [] = some d ∧
      createdState.conf.dirs.lookup [] = some e ∧
      (grownState.conf.dirs.lookup []).map currSizeB =
        some (e.currSizeB + (filesSize e.fsBlockSizeB grownState.files appendPath -
          filesSize e.fsBlockSizeB createdState.files appendPath)) ∧
      ((removeFileByTms Reference.env sampleMoment grownState [97] 0 0 true).1.conf.dirs.lookup
        []).map currSizeB = some d.currSizeB := by
  obtain ⟨d, found, place, blocks⟩ := @lookup_sample (sizedState (2 ^ 4)) (by decide +kernel)
  obtain ⟨e, found', place', blocks'⟩ := @lookup_sample createdState (by decide +kernel)
  obtain ⟨f, found'', place'', blocks''⟩ := @lookup_sample grownState (by decide +kernel)
  have creates : (tailCall [104, 105]).Creates Reference.env (sizedState (2 ^ 4)) [] d
      appendPath := by
    refine ⟨tailCall_stores (by decide +kernel) found place (by decide +kernel)
      (by decide +kernel), ?_, ?_, ?_⟩
    · rintro file (rfl | rfl)
      · decide +kernel
      · decide +kernel
    · intro c read
      rw [Call.prepared, prepare, if_neg (by decide +kernel)] at read
      cases read
    · rw [blocks]
      show ∀ c ∈ createdState.files.read appendPath, FitsBlocks (2 ^ 4) c
      decide +kernel
  let old := (createdState.files.read appendPath).getD []
  have appends : (tailCall (List.replicate 15 104)).Appends Reference.env createdState [] e
      appendPath .file old (List.replicate 15 104) := by
    refine ⟨tailCall_stores (by decide +kernel) found' place' (by decide +kernel)
      (by decide +kernel), by decide +kernel, by decide +kernel, by decide +kernel, ?_, ?_⟩
    · show ∀ c ∈ createdState.files.read appendPath, c.length < 2 ^ 31
      decide +kernel
    · show ∀ c ∈ grownState.files.read appendPath, c.length < 2 ^ 31
      decide +kernel
  have exact_ :
      AppendKind.Exact e.fsBlockSizeB old.length (List.replicate 15 104).length .file := by
    rw [blocks']
    decide +kernel
  have removes : Removes Reference.env sampleMoment grownState [] f appendPath [97] 0 0 true := by
    refine ⟨rfl, found'', ?_, by decide +kernel, ?_, by decide +kernel⟩
    · rw [place'']
      rfl
    · rw [blocks'']
      rintro file (rfl | rfl)
      · show ∀ c ∈ grownState.files.read appendPath, FitsBlocks (2 ^ 4) c
        decide +kernel
      · show ∀ c ∈ grownState.files.read (appendPath ++ jExtensionName), FitsBlocks (2 ^ 4) c
        decide +kernel
  obtain ⟨step, run⟩ := appends_accounted Reference.env [] appendPath
  exact ⟨d, e, found, found', (step _ _ _ _ _ _ 4 appends blocks').mpr exact_,
    run _ _ _ _ _ 4 _ _ _ _ _ creates blocks
      (Reaches.start.next _ ⟨_, _, _, _, appends, exact_⟩ rfl) removes⟩

/-- A write of one record to a database under the name `b`, which is appended to. -/
def recordCall (value : Int) : Call :=
  databaseCall sampleMoment .ajdb [98] [48] (List.replicate 16 0) (Reference.env.text versionTwo)
    (Reference.env.text (.array [sampleRecord (.int value)]))

/-- One byte that is appended to a file of 33 bytes is accounted for with a block of 16 bytes, while
the file keeps its three blocks: with the removal of the file the directory is accounted for a block
too many. A record of 8 bytes behind a data file of 8 bytes is accounted for with 8 bytes, while it
takes a block: the removal takes 8 bytes too many. -/
theorem appends_drift :
    (let appended := (tailCall [104]).run Reference.env createdState
     appended.response.status = .ok ∧
       (tailCall [104]).appended Reference.env createdState appendPath = some (.file, [104]) ∧
       filesSize 16 appended.state.files appendPath = filesSize 16 createdState.files appendPath ∧
       (createdState.conf.dirs.lookup []).map currSizeB = some (16000 + 48) ∧
       (appended.state.conf.dirs.lookup []).map currSizeB = some (16000 + 48 + 16) ∧
       ((removeFileByTms Reference.env sampleMoment appended.state [97] 0 0 true).1.conf.dirs.lookup
         []).map currSizeB = some (16000 + 16)) ∧
    (let created := ((recordCall 1).run Reference.env (sizedState (2 ^ 4))).state
     let path := [47, 100, 47] ++ segmentPath Reference.env [98]
     let appended := (recordCall 2).run Reference.env created
     appended.response.status = .ok ∧
       ((recordCall 2).appended Reference.env created path).any
         (fun change => change.1 = .data ∧ change.2.length = 8) ∧
       filesSize 16 appended.state.files path = filesSize 16 created.files path + 32 ∧
       (created.conf.dirs.lookup []).map currSizeB = some (16000 + 112) ∧
       (appended.state.conf.dirs.lookup []).map currSizeB = some (16000 + 112 + 24) ∧
       ((removeFileByTms Reference.env sampleMoment appended.state [98] 0 0 true).1.conf.dirs.lookup
         []).map currSizeB = some (16000 - 8)) ∧
    ((sizedState (2 ^ 4)).conf.dirs.lookup []).map currSizeB = some 16000 := by
  decide +kernel

end

end RssDisk.Server
