import RssDisk.Server.Database

/-!
# Which files a request changes

A request writes the file of its name, the data file beside it, and a list of files to remove. All
other files stay as they are.
-/

namespace RssDisk.Server

open Lib JManager Disk Files

variable {env : Env} {m : Moment} {s : State} {files : Files} {d : Directory}
  {subfolder path other : Bytes} {r : Request} {p : Prepared}

theorem writeDatabase_read_of_ne {c : DatabaseContent}
    (apart : cStr other ≠ cStr (path ++ jExtensionName)) :
    (writeDatabase m files d path c).files.read other = files.read other := by
  have written : ∀ content, (writeFileToDisk m files (path ++ jExtensionName) content 0 0
      d.fsBlockSizeB [] false).1.read other = files.read other := by
    intro content
    rw [(writeFileToDisk_data m files _ content d.fsBlockSizeB).1]
    split
    · exact read_remove_of_ne files apart
    · split
      · exact read_write_of_ne files apart _
      · rfl
  have appended : ∀ content, (appendToFile m files (path ++ jExtensionName)
      content).1.read other = files.read other := by
    intro content
    rw [appendToFile]
    split
    · exact read_append_of_ne files apart _
    · rfl
  unfold writeDatabase
  repeat' split
  all_goals first
    | exact written _
    | exact appended _
    | rfl

theorem prepare_read_of_ne {type : WType} {content : Bytes}
    (apart : cStr other ≠ cStr (path ++ jExtensionName)) :
    (prepare env m files d path type content).files.read other = files.read other := by
  unfold prepare
  repeat' split
  all_goals first
    | exact writeDatabase_read_of_ne apart
    | rfl

theorem writeFile_read_of_ne {existed : Bool} (apart : cStr other ≠ cStr path) :
    (writeFile m d path r existed p).1.read other = p.files.read other := by
  by_cases whole : r.type = .appendable ∧ existed = true
  · rw [writeFile, if_pos whole, appendToFile]
    split
    · exact read_append_of_ne _ apart _
    · rfl
  · rw [(writeFile_whole m d path p whole).1]
    split
    · rw [writtenFiles]
      split
      · exact read_remove_of_ne _ apart
      · exact read_write_of_ne _ apart _
    · rfl

theorem storeFile_read_of_ne (own : cStr other ≠ cStr path)
    (lists : 0 < r.ttl → ∀ list ∈ ttlFiles s.conf (DateTime.addDays m.now r.ttl).date,
      cStr other ≠ cStr list) :
    (storeFile m s subfolder d path r p).state.files.read other = p.files.read other := by
  by_cases accepted : (storeFile m s subfolder d path r p).response.status = .ok
  · rw [storeFile_files accepted, listFile_read lists, writeFile_read_of_ne own]
  · rw [storeFile_failed accepted]

theorem storeFile_onWrite : (storeFile m s subfolder d path r p).onWrite =
    if (storeFile m s subfolder d path r p).response.status = .ok ∧ r.headers.2 then
      some (r.fileName, Bitbase.charsToI64 (r.headers.1.getD 1 []),
        Bitbase.charsToI64 (r.headers.1.getD 2 []))
    else none := by
  unfold storeFile
  dsimp only
  split
  · simp
  · simp

namespace Call

variable {call : Call}

/-- The lists that the request may be put on are no given file. -/
def ListsApart (env : Env) (conf : ServerConf) (call : Call) (other : Bytes) : Prop :=
  0 < (call.request env conf).ttl → ∀ list ∈ ttlFiles conf
    (DateTime.addDays call.moment.now (call.request env conf).ttl).date, cStr other ≠ cStr list

section

variable (place : pathOf env s.conf (call.request env s.conf).fileName = some path)

include place

theorem run_cases :
    (∃ status, status ≠ .ok ∧ call.run env s = { state := s, response := { status } }) ∨
      ∃ d, call.run env s = storeFile call.moment s
        (splitSubfolder (call.request env s.conf).fileName).1 d path (call.request env s.conf)
        (prepare env call.moment s.files d path (call.request env s.conf).type
          (call.body env s.conf)) := by
  rcases acceptFile_cases env call.moment s call.content call.needCheckAuth call.needCheckAes with
    refused | ⟨d, found, stored⟩
  · exact .inl refused
  · rw [pathOf] at place
    obtain ⟨_, same, here⟩ := Option.map_eq_some_iff.mp place
    cases Option.some.inj (found.symm.trans same)
    right
    rw [← here]
    exact ⟨d, stored⟩

theorem run_read_of_ne (own : cStr other ≠ cStr path)
    (data : cStr other ≠ cStr (path ++ jExtensionName)) (lists : ListsApart env s.conf call other) :
    (call.run env s).state.files.read other = s.files.read other := by
  rcases run_cases place with ⟨_, _, refused⟩ | ⟨d, stored⟩
  · rw [refused]
  · rw [stored, storeFile_read_of_ne own lists, prepare_read_of_ne data]

/-- What a request that is answered `ok` leaves at the path of its name, when it does not append to
a file: the header with something behind it, or no file. -/
theorem run_read_own (data : cStr path ≠ cStr (path ++ jExtensionName))
    (lists : ListsApart env s.conf call path) (whole : (call.request env s.conf).type ≠ .appendable)
    : ((call.run env s).response.status ≠ .ok ∧
        (call.run env s).state.files.read path = s.files.read path) ∨
      ((call.run env s).response.status = .ok ∧
        ((call.run env s).state.files.read path = none ∨
          ∃ toWrite, (call.run env s).state.files.read path =
            some (call.header env s.conf ++ toWrite))) := by
  rcases run_cases place with ⟨status, notOk, refused⟩ | ⟨d, stored⟩
  · rw [refused]
    exact .inl ⟨notOk, rfl⟩
  · by_cases accepted : (call.run env s).response.status = .ok
    · refine .inr ⟨accepted, ?_⟩
      rw [stored] at accepted ⊢
      obtain ⟨_, opened⟩ := storeFile_status.mp accepted
      have notAppended : ¬ ((call.request env s.conf).type = .appendable ∧
          isFileExists s.files path = true) := fun appends => whole appends.1
      obtain ⟨written, opens⟩ := writeFile_whole call.moment d path
        (prepare env call.moment s.files d path (call.request env s.conf).type
          (call.body env s.conf)) notAppended
      rw [storeFile_files accepted, listFile_read lists, written, if_pos (opens.mp opened),
        writtenFiles]
      split
      · exact .inl (read_remove_self _ _)
      · exact .inr ⟨_, read_write_self _ _ _⟩
    · refine .inl ⟨accepted, ?_⟩
      rw [stored] at accepted ⊢
      rw [storeFile_failed accepted, prepare_read_of_ne data]

/-- What a request that is answered `ok` leaves at the path of its name, when it writes its content
as it is: the content behind the file when it appends to one, and behind the header otherwise. -/
theorem run_read_content (lists : ListsApart env s.conf call path)
    (plain : (call.request env s.conf).type ≠ .jdb ∧ (call.request env s.conf).type ≠ .ajdb)
    (some : call.body env s.conf ≠ []) (ok : (call.run env s).response.status = .ok) :
    (call.run env s).state.files.read path = .some
      ((if (call.request env s.conf).type = .appendable ∧ isFileExists s.files path then
        (s.files.read path).getD [] else call.header env s.conf) ++ call.body env s.conf) := by
  rcases run_cases place with ⟨status, notOk, refused⟩ | ⟨d, stored⟩
  · grind
  · have prepared : prepare env call.moment s.files d path (call.request env s.conf).type
        (call.body env s.conf) = { files := s.files, toWrite := call.body env s.conf } := by
      rw [prepare, if_neg (not_or.mpr plain)]
    rw [stored, prepared] at ok ⊢
    rw [storeFile_files ok, listFile_read lists]
    obtain ⟨_, opened⟩ := storeFile_status.mp ok
    by_cases appends : (call.request env s.conf).type = .appendable ∧
        isFileExists s.files path = true
    · rw [writeFile, if_pos appends] at opened ⊢
      unfold appendToFile at opened ⊢
      by_cases opens : call.moment.opens path = true
      · rw [if_pos opens, if_pos appends]
        exact read_append_self _ _ _
      · rw [if_neg opens] at opened
        cases opened
    · obtain ⟨written, opens⟩ := writeFile_whole call.moment d path
        { files := s.files, toWrite := call.body env s.conf } appends
      rw [written, if_pos (opens.mp opened), writtenFiles, if_neg some, if_neg appends,
        read_write_self]
      rfl

theorem run_onWrite :
    (call.run env s).onWrite =
      if (call.run env s).response.status = .ok ∧ (call.request env s.conf).headers.2 then
        some ((call.request env s.conf).fileName,
          Bitbase.charsToI64 ((call.request env s.conf).headers.1.getD 1 []),
          Bitbase.charsToI64 ((call.request env s.conf).headers.1.getD 2 []))
      else none := by
  rcases run_cases place with ⟨status, notOk, refused⟩ | ⟨d, stored⟩
  · rw [refused]
    simp [notOk]
  · rw [stored]
    exact storeFile_onWrite

end

end Call

end RssDisk.Server
