import RssDisk.Server.Balance

/-!
# Accounted sizes along runs

Every operation adds to the accounted size of a directory what it computes from the sizes of files
before and after, in whole blocks and 32 bits. A restart computes the size from the files that are
there.
-/

namespace RssDisk.Server

open Lib JManager Disk List AList

section

variable {env : Env} {m : Moment} {s : State} {subfolder path : Bytes} {d : Directory} {r : Request}

theorem Balanced.written (balanced : Balanced env s) (found : s.conf.dirs.lookup subfolder = some d)
    (below : d.p <+: cStr path) {fsBlockSize : Nat} (blocks : fsBlockSize = d.fsBlockSizeB)
    {content : Bytes} {ttl : Int} {headers : List Bytes} {writeHeaders : Bool}
    (new : ∀ c, (writeFileToDisk m s.files path content 0 ttl fsBlockSize headers
      writeHeaders).1.read path = some c → FitsBlocks fsBlockSize c) :
    Balanced env
      ({ s with
        files := (writeFileToDisk m s.files path content 0 ttl fsBlockSize headers
          writeHeaders).1 }.incCurrDiskSize subfolder
        (writeFileToDisk m s.files path content 0 ttl fsBlockSize headers writeHeaders).2.1) := by
  subst blocks
  obtain ⟨k, power⟩ := balanced.layout.power subfolder d found
  have old := balanced.sized found below
  apply balanced.touch found below
  · intro key apart
    exact writeFileToDisk_lookup apart
  · intro c read
    exact ⟨writeFileToDisk_ne_nil (fun c read => (old c read).1) read, new c read⟩
  · exact writeFileToDisk_size power old new

/-- What is prepared has written the data file whole and accounts for it, or changed nothing. -/
def Prepared.Counted (m : Moment) (files : Files) (d : Directory) (path : Bytes) (p : Prepared) :
    Prop :=
  (p.bytesWrittenJdb = none ∧ p.files = files) ∨ ∃ body,
    p.bytesWrittenJdb = some (writeFileToDisk m files (path ++ jExtensionName) body 0 0
      d.fsBlockSizeB [] false).2.1 ∧
    p.files = (writeFileToDisk m files (path ++ jExtensionName) body 0 0 d.fsBlockSizeB []
      false).1

theorem writeDatabase_counted {files : Files} {jdb : DatabaseContent}
    (whole : (writeDatabase m files d path jdb).isAppend = false) :
    (writeDatabase m files d path jdb).Counted m files d path := by
  unfold writeDatabase at whole ⊢
  by_cases error : jdb.errorOccurred = true
  · rw [if_pos error]
    exact .inl ⟨rfl, rfl⟩
  by_cases one : jdb.version = 1
  · rw [if_neg error, if_pos one]
    exact .inl ⟨rfl, rfl⟩
  by_cases two : jdb.version = 2
  · by_cases append : jdb.append = true
    · rw [if_neg error, if_neg one, if_pos two, if_pos append] at whole
      cases whole
    · rw [if_neg error, if_neg one, if_pos two, if_neg append]
      cases ok : (writeFileToDisk m files (path ++ jExtensionName) jdb.body 0 0 d.fsBlockSizeB []
          false).2.2 with
      | true =>
        right
        refine ⟨jdb.body, ?_, rfl⟩
        simp only [ok, ↓reduceIte]
      | false =>
        left
        simp only [ok, Bool.false_eq_true, ↓reduceIte, true_and]
        rcases writeFileToDisk_cases m files (path ++ jExtensionName) jdb.body 0 d.fsBlockSizeB []
            false with ⟨-, result⟩ | ⟨-, result⟩ | result
        · grind
        · grind
        · rw [result]
  · rw [if_neg error, if_neg one, if_neg two]
    exact .inl ⟨rfl, rfl⟩

theorem prepare_counted {files : Files} {type : WType} {content : Bytes}
    (whole : (prepare env m files d path type content).isAppend = false) :
    (prepare env m files d path type content).Counted m files d path := by
  unfold prepare at whole ⊢
  split
  · rename_i database
    rw [if_pos database] at whole
    split
    · grind [writeDatabase_counted]
    · exact .inl ⟨rfl, rfl⟩
  · exact .inl ⟨rfl, rfl⟩

theorem Balanced.listed (balanced : Balanced env s) (named : Named env s.conf path) {date : Date}
    {list : Bytes} (present : list ∈ ttlFiles s.conf date) :
    Balanced env { s with files := s.files.append list (path ++ [10]) } := by
  apply balanced.outside
  · intro subfolder d found key below
    apply lookup_insert_ne
    exact (balanced.layout.list_ne found below present).symm
  · intro other list' present'
    obtain ⟨items, text, lines⟩ := balanced.lines other list' present'
    by_cases here : cStr list' = cStr list
    · have read : ∀ files : Files, files.read list' = files.read list := by
        intro files
        rw [Files.read, Files.read, here]
      refine ⟨items ++ [path], ?_, ?_⟩
      · rw [read, Files.read_append_self, Option.getD_some, ← read s.files, text, listText_append]
      · intro item inside
        cases mem_append.mp inside with
        | inl old => exact lines item old
        | inr new =>
          grind
    · exact ⟨items, by rw [Files.read_append_of_ne _ here, text], lines⟩

theorem Balanced.listFile (balanced : Balanced env s) (named : Named env s.conf path)
    {conf : ServerConf} (alike : conf.Alike s.conf) (isAppend : Bool) :
    Balanced env { s with files := (listFile m conf s.files path r isAppend).1 } := by
  unfold Server.listFile
  split
  · cases appendToFirst_cases m s.files (path ++ [10])
        (ttlFiles conf (DateTime.addDays m.now r.ttl).date) with
    | inl same =>
      rw [same]
      exact balanced
    | inr grown =>
      obtain ⟨list, present, grown⟩ := grown
      rw [grown]
      rw [← ttlFiles_alike alike] at present
      exact balanced.listed named present
  · exact balanced

theorem Named.paths (layout : Layout s.conf) (found : s.conf.dirs.lookup subfolder = some d)
    {name : Bytes} (plain : PlainName name) (here : path = d.p ++ segmentPath env name) :
    d.p <+: cStr path ∧ d.p <+: cStr (path ++ jExtensionName) ∧
      cStr (path ++ jExtensionName) ≠ cStr path := by
  have isFolder := layout.folder subfolder d found
  have noZero : 0 ∉ path := by
    rw [here]
    exact (segmentPath_plain isFolder plain).1
  obtain ⟨seen, data, different⟩ := cStr_dataFile noZero
  rw [seen, data]
  refine ⟨?_, ?_, different.symm⟩
  · grind
  · grind

theorem Balanced.storeFile (balanced : Balanced env s)
    (found : s.conf.dirs.lookup subfolder = some d) {name : Bytes} (plain : PlainName name)
    (here : path = d.p ++ segmentPath env name) {p : Prepared}
    (data : p.Counted m s.files d path)
    (whole : ¬ (r.type = .appendable ∧ isFileExists s.files path))
    (fits : Fits (storeFile m s subfolder d path r p).state) :
    Balanced env (storeFile m s subfolder d path r p).state := by
  obtain ⟨below, belowData, apart⟩ := Named.paths balanced.layout found plain here
  have lists : ∀ {file : Bytes}, d.p <+: cStr file → 0 < r.ttl →
      ∀ list ∈ ttlFiles s.conf (DateTime.addDays m.now r.ttl).date, cStr file ≠ cStr list :=
    fun inside _ list present => (balanced.layout.list_ne found inside present).symm
  have small : ∀ {file c : Bytes}, d.p <+: cStr file →
      (Server.storeFile m s subfolder d path r p).state.files.read file = some c →
      FitsBlocks d.fsBlockSizeB c := by
    intro file c inside read
    obtain ⟨now, after, place, blocks⟩ :=
      (@storeFile_alike m s subfolder d path r p).symm.lookup found
    rw [← place] at inside
    rw [← blocks]
    exact fits subfolder now after (cStr file) c read inside
  -- the data file
  have counted : Balanced env (countData s subfolder p) := by
    unfold countData
    cases data with
    | inl nothing =>
      rw [nothing.1, nothing.2]
      exact balanced
    | inr written =>
      obtain ⟨body, bytes, files⟩ := written
      rw [bytes, files]
      apply balanced.written found belowData rfl
      intro c read
      apply small belowData
      rw [storeFile_read_of_ne apart (lists belowData), files]
      exact read
  unfold Server.storeFile at small ⊢
  dsimp only at small ⊢
  split
  · -- the file itself
    rename_i accepted
    have writes : writeFile m d path r (isFileExists s.files path) p =
        writeFileToDisk m p.files path p.toWrite 0 r.ttl d.fsBlockSizeB r.headers.1 true :=
      if_neg whole
    obtain ⟨now, after, place, blocks⟩ :=
      (@countData_alike s subfolder p).symm.lookup found
    rw [if_pos accepted, writes] at small
    rw [writes]
    have inside : now.p <+: cStr path := by
      rw [place]
      exact below
    have second := @Balanced.written env m (countData s subfolder p) subfolder path now counted
      after inside d.fsBlockSizeB blocks.symm p.toWrite r.ttl r.headers.1 true (by
        intro c read
        rw [countData_files] at read
        apply small below
        rw [listFile_read (lists below)]
        exact read)
    rw [countData_files] at second
    generalize writeFileToDisk m p.files path p.toWrite 0 r.ttl d.fsBlockSizeB r.headers.1 true =
      written at second
    have alike : s.conf.Alike ({ countData s subfolder p with files := written.1 }.incCurrDiskSize
        subfolder written.2.1).conf :=
      countData_alike.trans (State.incCurrDiskSize_alike
        { countData s subfolder p with files := written.1 } subfolder written.2.1)
    have named : Named env s.conf path := ⟨subfolder, d, name, found, plain, here⟩
    have listed := @Balanced.listFile env m _ path r second (named.of_alike alike) s.conf alike
      p.isAppend
    have conf : ((countData s subfolder p).incCurrDiskSize subfolder written.2.1).conf =
        ({ countData s subfolder p with files := written.1 }.incCurrDiskSize subfolder
          written.2.1).conf := by
      apply State.incCurrDiskSize_conf
      rfl
    rw [State.incCurrDiskSize_files, ← conf] at listed
    exact listed
  · exact counted

/-- A call that does not append: neither to the blocks of a database, nor to a file. -/
def Call.Replaces (env : Env) (s : State) (call : Call) : Prop :=
  ∀ d ∈ s.conf.dirs.lookup (splitSubfolder (call.request env s.conf).fileName).1,
    (prepare env call.moment s.files d
      (d.p ++ segmentPath env (splitSubfolder (call.request env s.conf).fileName).2)
      (call.request env s.conf).type (call.body env s.conf)).isAppend = false ∧
    ¬ ((call.request env s.conf).type = .appendable ∧ isFileExists s.files
      (d.p ++ segmentPath env (splitSubfolder (call.request env s.conf).fileName).2))

instance (env : Env) (s : State) (call : Call) : Decidable (call.Replaces env s) := by
  unfold Call.Replaces
  infer_instance

theorem run_nameless {call : Call}
    (nameless : (splitSubfolder (call.request env s.conf).fileName).2 = []) :
    (call.run env s).state = s := by
  have refused : ∀ r content, (splitSubfolder r.fileName).2 = [] →
      (acceptRequest env call.moment s r content).state = s := by
    intro r content nameless
    unfold acceptRequest
    simp only [nameless, ↓reduceIte]
    split
    · rfl
    · split
      · rfl
      · rfl
  unfold Call.run acceptFile
  dsimp only
  split
  · rfl
  · split
    · rfl
    · split
      · rfl
      · exact refused _ _ nameless

theorem Balanced.run (balanced : Balanced env s) {call : Call}
    (plain : (splitSubfolder (call.request env s.conf).fileName).2 ≠ [] →
      PlainName (splitSubfolder (call.request env s.conf).fileName).2)
    (replaces : call.Replaces env s) (fits : Fits (call.run env s).state) :
    Balanced env (call.run env s).state := by
  by_cases nameless : (splitSubfolder (call.request env s.conf).fileName).2 = []
  · rw [run_nameless nameless]
    exact balanced
  · cases acceptFile_cases env call.moment s call.content call.needCheckAuth call.needCheckAes with
    | inl refused =>
      obtain ⟨status, -, refused⟩ := refused
      have same : (call.run env s).state = s := congrArg Outcome.state refused
      rw [same]
      exact balanced
    | inr stored =>
      obtain ⟨d, found, stored⟩ := stored
      obtain ⟨whole, notAppended⟩ := replaces d found
      have stored : (call.run env s).state = _ := congrArg Outcome.state stored
      rw [stored] at fits ⊢
      exact balanced.storeFile found (plain nameless) rfl (prepare_counted whole) notAppended fits

end

/-- One action; each one can be taken. -/
def fileStep (env : Env) (s : State) : FileAction → Option State
  | .write call => some (call.run env s).state
  | .remove moment fileName tms crc32 force =>
    some (removeFileByTms env moment s fileName tms crc32 force).1
  | .expire now => some (runTtlRemover now s)

/-- Writes that do not append, of names without white space, slashes and zero bytes, after which the
whole blocks of every file are below 2 GiB. -/
def Countable (env : Env) (s : State) : FileAction → Prop
  | .write call => ((splitSubfolder (call.request env s.conf).fileName).2 ≠ [] →
      PlainName (splitSubfolder (call.request env s.conf).fileName).2) ∧
    call.Replaces env s ∧ Fits (call.run env s).state
  | .remove .. => True
  | .expire _ => True

/-- Along every run of such writes, removals and removals of files whose days are over, the
accounted sizes are those of a restart. -/
theorem sizes_of_restart {env : Env} {s t : State} (start : Balanced env s)
    (reached : Reaches (fileStep env) (Countable env) s t) :
    ∀ subfolder d, t.conf.dirs.lookup subfolder = some d →
      d.currSizeB =
        getDirSize t.files d.p d.fsBlockSizeB + d.fsBlockSizeB * countSegmentFolders := by
  have balanced : Balanced env t := by
    apply reached.invariant (Balanced env) start
    intro s action u balanced countable taken
    cases action with
    | write call =>
      cases taken
      exact balanced.run countable.1 countable.2.1 countable.2.2
    | remove moment fileName tms crc32 force =>
      cases taken
      exact balanced.removeFileByTms moment fileName tms crc32 force
    | expire now =>
      cases taken
      exact balanced.runTtlRemover now
  exact balanced.accounted

section

/-- It can be decided whether the blocks of all files are below 2 GiB. -/
instance (s : State) : Decidable (Fits s) :=
  decidable_of_iff (∀ entry ∈ s.conf.dirs.entries, ∀ file ∈ s.files.entries,
      isBelow entry.2.p file.1 = true → FitsBlocks entry.2.fsBlockSizeB file.2) (by
    simp only [isBelow, List.isPrefixOf_iff_prefix]
    constructor
    · intro fits subfolder d found key content read
      exact fits ⟨subfolder, d⟩ (mem_lookup_iff.mp found) ⟨key, content⟩
        (mem_lookup_iff.mp read)
    · intro fits entry found file read
      exact fits entry.1 entry.2 (mem_lookup_iff.mpr found) file.1 file.2
        (mem_lookup_iff.mpr read))

instance (env : Env) (s : State) : DecidablePred (Countable env s)
  | .write _ => inferInstanceAs (Decidable (_ ∧ _))
  | .remove .. => isTrue trivial
  | .expire _ => isTrue trivial

/-- A server with one directory and no files, for a size of blocks. -/
def sizedState (fsBlockSize : Nat) : State where
  conf := { ttlPath := [47, 116, 47]
            dirs := AList.singleton [] { enabled := true, p := [47, 100, 47], maxSizeB := 2 ^ 50
                                         currSizeB := fsBlockSize * 1000
                                         fsBlockSizeB := fsBlockSize } }
  files := ∅

theorem sizedState_lookup {fsBlockSize : Nat} {subfolder : Bytes} {d : Directory}
    (found : (sizedState fsBlockSize).conf.dirs.lookup subfolder = some d) :
    subfolder = [] ∧ d.p = [47, 100, 47] ∧ d.fsBlockSizeB = fsBlockSize ∧
      d.currSizeB = fsBlockSize * 1000 := by
  have only := mem_singleton.mp (mem_lookup_iff.mp found)
  cases only
  exact ⟨rfl, rfl, rfl, rfl⟩

theorem sizedState_balanced (env : Env) (k : Nat) : Balanced env (sizedState (2 ^ k)) where
  layout := {
    power := fun subfolder d found => ⟨k, (sizedState_lookup found).2.2.1⟩
    folder := by
      intro subfolder d found
      rw [(sizedState_lookup found).2.1]
      exact ⟨⟨[[100]], by decide, rfl⟩, by decide, by decide⟩
    apart := by
      intro subfolder d other e found foundOther different
      exact absurd ((sizedState_lookup found).1.trans (sizedState_lookup foundOther).1.symm)
        different
    lists := by
      intro subfolder d found date
      rw [(sizedState_lookup found).2.1]
      constructor
      · rintro ⟨rest, same⟩
        cases same
      · rintro ⟨rest, same⟩
        cases same
    plain := by simp [sizedState] }
  accounted := by
    intro subfolder d found
    obtain ⟨-, -, blocks, size⟩ := sizedState_lookup found
    have empty : getDirSize (sizedState (2 ^ k)).files d.p d.fsBlockSizeB = 0 := rfl
    rw [Directory.restartSize, empty, blocks, size, zero_add]
    rfl
  filled := by
    intro subfolder d found key content read
    cases read
  fits := by
    intro subfolder d found key content read
    cases read
  lines := by
    intro date list present
    exact ⟨[], rfl, fun item inside => by cases inside⟩

/-- A file whose day is over, and a database with a data file. -/
theorem sizes_of_restart_sample :
    ∃ (t : State) (d : Directory),
      (t.conf.dirs.lookup [] = some d ∧ d.currSizeB = 4096000 + 2 * 4096) ∧
      d.currSizeB = getDirSize t.files d.p d.fsBlockSizeB +
        d.fsBlockSizeB * countSegmentFolders := by
  have ran : ∃ t,
      Reaches (fileStep Reference.env) (Countable Reference.env) (sizedState (2 ^ 12)) t ∧
        (t.conf.dirs.lookup []).map Directory.currSizeB = some (4096000 + 2 * 4096) :=
    Reaches.of_runActions_any
      [.write (daysCall [49]), .write (sampleCall [98] [sampleRecord (.int 1)]),
        .write (sampleCall [99] [sampleRecord (.int 1)]), .remove sampleMoment [99] 0 0 true,
        .expire { date := ⟨2024, 1, 3⟩ }] (by decide +kernel)
  obtain ⟨t, reached, size⟩ := ran
  obtain ⟨d, found, size⟩ := Option.map_eq_some_iff.mp size
  exact ⟨t, d, ⟨found, size⟩,
    sizes_of_restart (sizedState_balanced Reference.env 12) reached [] d found⟩

/-- A write of one byte under a name, with one day. -/
def dayCall (name : Bytes) : Call where
  moment := sampleMoment
  content := lineText [97, 117, 116, 104] name [49] [48] ++ [104]

/-- A name with a zero byte: when its day is over the file is accounted for twice, as itself and as
its data file. And a block of 2 GiB is counted as a negative number of bytes. -/
theorem sizes_differ :
    (∀ c ∈ ([97, 0] : Bytes), BasefuncStd.isSpace c = false ∧ c ≠ 47) ∧
    (∃ t, Reaches (fileStep Reference.env) (fun _ _ => True) (sizedState (2 ^ 12)) t ∧
      (t.conf.dirs.lookup []).any (fun d => d.currSizeB + 4096 = d.restartSize t.files)) ∧
    ∃ t, Reaches (fileStep Reference.env) (fun _ _ => True) (sizedState (2 ^ 31)) t ∧
      (t.conf.dirs.lookup []).any (fun d => d.currSizeB + 2 ^ 32 = d.restartSize t.files) := by
  refine ⟨by decide +kernel, ?_, ?_⟩
  · apply Reaches.of_runActions_any [.write (dayCall [97, 0]), .expire { date := ⟨2024, 1, 3⟩ }]
    decide +kernel
  · apply Reaches.of_runActions_any [.write (dayCall [97])]
    decide +kernel

end

end RssDisk.Server
