import RssDisk.Lib.Reach
import RssDisk.Server.Frame
import RssDisk.Server.Places
import RssDisk.Server.Removal

/-!
# Names that do not disturb each other

Whatever is written to a name or removed from it, reading another name of the same subfolder gives
what it gave before. The data file of one name may be the file of another.
-/

namespace RssDisk.Server

open Lib JManager List Option BasefuncStd Disk MemoryMappedItem

variable (env : Env)

inductive NameAction where
  /-- `accept_file`. -/
  | accept (call : Call)
  /-- `remove_file_by_tms`. -/
  | remove (moment : Moment) (tms crc32 : Int64) (force : Bool)

def act (f : Bytes) (s : State) : NameAction → Option State
  | .accept call =>
    if (call.request env s.conf).fileName = f then some (call.run env s).state else none
  | .remove moment tms crc32 force => some (removeFileByTms env moment s f tms crc32 force).1

/-- The lists of files to remove are not the files of a name. -/
def ListsBeside (g : Bytes) (s : State) : NameAction → Prop
  | .accept call => ∀ path, pathOf env s.conf g = some path →
    call.ListsApart env s.conf path ∧ call.ListsApart env s.conf (path ++ jExtensionName)
  | .remove _ _ _ _ => True

/-- Two names of one subfolder whose files are different. -/
structure NamesApart (f g : Bytes) : Prop where
  subfolder : (splitSubfolder f).1 = (splitSubfolder g).1
  differ : (splitSubfolder f).2 ≠ (splitSubfolder g).2
  /-- In one segment, neither is the other one with the extension of data files. -/
  data : getSegmentFolder env (splitSubfolder f).2 = getSegmentFolder env (splitSubfolder g).2 →
    (splitSubfolder g).2 ≠ (splitSubfolder f).2 ++ jExtensionName ∧
      (splitSubfolder f).2 ≠ (splitSubfolder g).2 ++ jExtensionName
  plain : 0 ∉ (splitSubfolder f).2 ∧ 0 ∉ (splitSubfolder g).2

variable {env} {f g : Bytes} {s t : State}

theorem segmentPath_append_inj {a b x y : Bytes}
    (same : segmentPath env a ++ x = segmentPath env b ++ y) :
    getSegmentFolder env a = getSegmentFolder env b ∧ a ++ x = b ++ y := by
  have noSlash : ∀ n : Int, 47 ∉ BasefuncStd.toString n := by
    intro n present
    have byte := BasefuncStd.toString_bytes present
    revert byte
    decide
  have parts := congrArg splitSubfolder same
  simp only [segmentPath, append_assoc, cons_append] at parts
  rw [splitSubfolder_slash (noSlash _), splitSubfolder_slash (noSlash _), Prod.mk.injEq] at parts
  exact ⟨by exact_mod_cast BasefuncStd.toString_inj parts.1, parts.2⟩

theorem NamesApart.paths (apart : NamesApart env f g) (folder : Bytes) :
    let pathF := folder ++ segmentPath env (splitSubfolder f).2
    let pathG := folder ++ segmentPath env (splitSubfolder g).2
    pathG ≠ pathF ∧ pathG ≠ pathF ++ jExtensionName ∧ pathG ++ jExtensionName ≠ pathF ∧
      pathG ++ jExtensionName ≠ pathF ++ jExtensionName := by
  intro pathF pathG
  have parts {x y : Bytes} (same : pathG ++ x = pathF ++ y) :
      getSegmentFolder env (splitSubfolder f).2 = getSegmentFolder env (splitSubfolder g).2 ∧
        (splitSubfolder g).2 ++ x = (splitSubfolder f).2 ++ y := by
    rw [append_assoc, append_assoc] at same
    obtain ⟨segment, names⟩ := segmentPath_append_inj (append_cancel_left same)
    exact ⟨segment.symm, names⟩
  have own : pathG ≠ pathF := by
    intro same
    exact apart.differ (append_cancel_right (parts (congrArg (· ++ []) same)).2).symm
  have dataF : pathG ≠ pathF ++ jExtensionName := by
    intro same
    obtain ⟨segment, names⟩ := parts ((append_nil _).trans same)
    grind [apart.data]
  have dataG : pathG ++ jExtensionName ≠ pathF := by
    intro same
    obtain ⟨segment, names⟩ := parts (same.trans (append_nil _).symm)
    grind [apart.data]
  exact ⟨own, dataF, dataG, fun same => own (append_cancel_right same)⟩

theorem fetch_congr {files others : Files} {path : Bytes} (own : others.read path = files.read path)
    (data : others.read (path ++ jExtensionName) = files.read (path ++ jExtensionName))
    (jsonSearch : Bytes) (ro : ReadOptions) :
    fetch env others path jsonSearch ro = fetch env files path jsonSearch ro := by
  have mapped : ∀ {file}, others.read file = files.read file →
      read others file = read files file := by
    intro file same
    rw [MemoryMappedItem.read, MemoryMappedItem.read, same]
  have opened : openData env others path = openData env files path := by
    funext m v queue l
    unfold openData
    rw [data, mapped data]
  unfold fetch
  rw [own, mapped own, opened]

theorem readFile_congr {request : Bytes} (alike : s.conf.Alike t.conf)
    (files : ∀ d, s.conf.dirs.lookup (readPlace env request).subfolder = some d →
      t.files.read (d.p ++ (readPlace env request).qry) =
          s.files.read (d.p ++ (readPlace env request).qry) ∧
        t.files.read (d.p ++ (readPlace env request).qry ++ jExtensionName) =
          s.files.read (d.p ++ (readPlace env request).qry ++ jExtensionName))
    (m : Moment) (ro : ReadOptions) :
    readFile env m t request ro = readFile env m s request ro := by
  have enabled : t.conf.enableRead = s.conf.enableRead := by rw [alike.rest]
  have folder := alike.dirs (readPlace env request).subfolder
  rw [readFile_eq, readFile_eq, enabled]
  cases found : s.conf.dirs.lookup (readPlace env request).subfolder with
  | none =>
    rw [found, map_none, eq_comm, map_eq_none_iff] at folder
    rw [folder]
  | some d =>
    rw [found, map_some, eq_comm, map_eq_some_iff] at folder
    obtain ⟨d', found', same⟩ := folder
    have path : d'.fixed.p = d.fixed.p := by rw [same]
    have path : d'.p = d.p := path
    obtain ⟨own, data⟩ := files d found
    rw [found']
    dsimp only
    rw [path]
    have present : Disk.isFileExists t.files (d.p ++ (readPlace env request).qry) =
        Disk.isFileExists s.files (d.p ++ (readPlace env request).qry) := by
      rw [Disk.isFileExists, Disk.isFileExists, own]
    have whole : Disk.readFile t.files (d.p ++ (readPlace env request).qry) 0 =
        Disk.readFile s.files (d.p ++ (readPlace env request).qry) 0 := by
      rw [Disk.readFile, Disk.readFile, own]
    rw [present, whole]
    cases (splitQuery [] (splitSubfolder request).2).2 with
    | none => rfl
    | some jsonSearch => simp only [fetch_congr own data]

/-- What the actions on one name keep of another one. -/
structure Untouched (env : Env) (g : Bytes) (s t : State) : Prop where
  alike : s.conf.Alike t.conf
  files : ∀ path, pathOf env s.conf g = some path → t.files.read path = s.files.read path ∧
    t.files.read (path ++ jExtensionName) = s.files.read (path ++ jExtensionName)

theorem Untouched.refl (env : Env) (g : Bytes) (s : State) : Untouched env g s s :=
  ⟨.refl _, fun _ _ => ⟨rfl, rfl⟩⟩

theorem Untouched.trans {u : State} (first : Untouched env g s t) (second : Untouched env g t u) :
    Untouched env g s u := by
  refine ⟨first.alike.trans second.alike, fun path place => ?_⟩
  obtain ⟨own, data⟩ := first.files path place
  obtain ⟨own', data'⟩ := second.files path (by rw [← pathOf_alike env first.alike, place])
  exact ⟨own'.trans own, data'.trans data⟩

theorem NamesApart.seen (apart : NamesApart env f g)
    (plain : ∀ d, s.conf.dirs.lookup (splitSubfolder g).1 = some d → 0 ∉ d.p) {path : Bytes}
    (place : pathOf env s.conf g = some path) :
    ∃ pathF, pathOf env s.conf f = some pathF ∧
      cStr path ≠ cStr pathF ∧ cStr path ≠ cStr (pathF ++ jExtensionName) ∧
      cStr (path ++ jExtensionName) ≠ cStr pathF ∧
      cStr (path ++ jExtensionName) ≠ cStr (pathF ++ jExtensionName) := by
  obtain ⟨d, found, rfl⟩ := map_eq_some_iff.mp place
  have plain := plain d found
  have segment : ∀ name : Bytes, 0 ∉ name → 0 ∉ d.p ++ segmentPath env name := by
    intro name noZero
    have digits : 0 ∉ BasefuncStd.toString (getSegmentFolder env name) := by
      intro present
      have byte := BasefuncStd.toString_bytes present
      revert byte
      decide
    simp [segmentPath, plain, digits, noZero]
  obtain ⟨seenF, seenDataF, _⟩ := cStr_dataFile (segment _ apart.plain.1)
  obtain ⟨seenG, seenDataG, _⟩ := cStr_dataFile (segment _ apart.plain.2)
  refine ⟨_, by rw [pathOf, apart.subfolder, found, map_some], ?_⟩
  rw [seenF, seenDataF, seenG, seenDataG]
  exact apart.paths d.p

theorem NamesApart.act (apart : NamesApart env f g) {action : NameAction}
    (plain : ∀ d, s.conf.dirs.lookup (splitSubfolder g).1 = some d → 0 ∉ d.p)
    (beside : ListsBeside env g s action) (taken : act env f s action = some t) :
    Untouched env g s t := by
  cases action with
  | accept call =>
    rw [Server.act] at taken
    split at taken
    · rename_i isName
      cases taken
      refine ⟨acceptFile_alike, fun path place => ?_⟩
      obtain ⟨pathF, placeF, own, ownData, dataOwn, dataData⟩ := apart.seen plain place
      rw [← isName] at placeF
      obtain ⟨lists, dataLists⟩ := beside path place
      exact ⟨Call.run_read_of_ne placeF own ownData lists,
        Call.run_read_of_ne placeF dataOwn dataData dataLists⟩
    · cases taken
  | remove moment tms crc32 force =>
    cases taken
    refine ⟨removeFileByTms_alike, fun path place => ?_⟩
    obtain ⟨pathF, placeF, own, ownData, dataOwn, dataData⟩ := apart.seen plain place
    rcases removeFileByTms_cases env moment s f tms crc32 force with same | ⟨d', found', removed⟩
    · grind
    · have here : d'.p ++ segmentPath env (splitSubfolder f).2 = pathF := by
        rw [pathOf, found', map_some] at placeF
        exact Option.some.inj placeF
      rw [removed, here, removeWithData_read, removeWithData_read, if_neg (by simp [own, ownData]),
        if_neg (by simp [dataOwn, dataData])]
      exact ⟨rfl, rfl⟩

/-- Whatever is done to one name, `read_file` returns for the other name what it returned before,
plain and with any query. -/
theorem readFile_untouched (apart : NamesApart env f g) (noMark : ¬ jdbMark <:+: g)
    (folders : ∀ subfolder d, s.conf.dirs.lookup subfolder = some d →
      0 ∉ d.p ∧ ¬ jdbMark <:+: subfolder)
    (reached : Reaches (act env f) (ListsBeside env g) s t) (query : Option Bytes) (m : Moment)
    (ro : ReadOptions) :
    readFile env m t (requestText g query) ro = readFile env m s (requestText g query) ro := by
  have untouched : Untouched env g s t := by
    apply reached.invariant (Untouched env g s) (.refl env g s)
    intro before action after kept beside taken
    apply kept.trans (apart.act (fun d' found' => ?_) beside taken)
    obtain ⟨d, found, same, -⟩ := kept.alike.lookup found'
    grind
  apply readFile_congr untouched.alike
  intro d found
  by_cases slash : 47 ∈ g ∨ ∀ text ∈ query, 47 ∉ text
  · rw [readPlace_eq noMark slash] at found ⊢
    exact untouched.files _ (by rw [pathOf_eq, found, map_some])
  · simp only [not_or, not_forall, not_not] at slash
    obtain ⟨plain, text, isQuery, slash⟩ := slash
    cases isQuery
    have marked := readPlace_marked env plain slash
    have inside : jdbMark <:+: (readPlace env (requestText g (some text))).subfolder :=
      (suffix_append g jdbMark).isInfix.trans marked.isInfix
    exact absurd inside (folders _ d found).2

/-- An environment in which all names are in one segment. -/
def oneSegment : Env := { Reference.env with hash := fun _ => 0 }

/-- A write of a file that replaces another one, of one byte. -/
def sampleFile (name : Bytes) : Call where
  moment := sampleMoment
  content := lineText [97, 117, 116, 104] name [48]
    (WType.updatable.digits ++ List.replicate 16 0) ++ [120]

/-- The sample server with a file of a name. -/
def sampleKeeper (name : Bytes) : State := ((sampleFile name).run oneSegment sampleState).state

/-- A database under the name `a` and a file under the name `b` of one segment. -/
theorem readFile_untouched_sample :
    readFile oneSegment sampleMoment
      ((sampleCall [97] [sampleRecord (.int 1)]).run oneSegment (sampleKeeper [98])).state
      [98] ⟨true, true⟩ =
    readFile oneSegment sampleMoment (sampleKeeper [98]) [98] ⟨true, true⟩ := by
  have apart : NamesApart oneSegment [97] [98] :=
    ⟨by decide, by decide, fun _ => by decide, by decide⟩
  have folders : ∀ subfolder d, (sampleKeeper [98]).conf.dirs.lookup subfolder = some d →
      0 ∉ d.p ∧ ¬ jdbMark <:+: subfolder := by
    intro subfolder d found
    have alike : sampleState.conf.Alike (sampleKeeper [98]).conf := acceptFile_alike
    obtain ⟨old, before, same, -⟩ := alike.lookup found
    by_cases main : subfolder = []
    · subst main
      cases before
      rw [← same]
      decide
    · have inside : subfolder ∈ sampleState.conf.dirs :=
        AList.lookup_isSome.mp (isSome_of_eq_some before)
      exact absurd (mem_singleton.mp inside) main
  have reached : Reaches (act oneSegment [97]) (ListsBeside oneSegment [98]) (sampleKeeper [98])
      ((sampleCall [97] [sampleRecord (.int 1)]).run oneSegment (sampleKeeper [98])).state := by
    apply Reaches.start.next (.accept (sampleCall [97] [sampleRecord (.int 1)]))
    · intro path _
      have days : ¬ 0 < ((sampleCall [97] [sampleRecord (.int 1)]).request oneSegment
          (sampleKeeper [98]).conf).ttl := by
        decide +kernel
      exact ⟨fun some => absurd some days, fun some => absurd some days⟩
    · have isName : ((sampleCall [97] [sampleRecord (.int 1)]).request oneSegment
          (sampleKeeper [98]).conf).fileName = [97] := by
        decide +kernel
      rw [act, if_pos isName]
  exact readFile_untouched apart (by decide) folders reached none sampleMoment ⟨true, true⟩

/-- A database under the name `a` replaces the file under the name `a.jdb_data`. -/
theorem readFile_disturbed :
    ∃ t, Reaches (act oneSegment [97]) (fun _ _ => True) (sampleKeeper ([97] ++ jExtensionName)) t ∧
      readFile oneSegment sampleMoment t ([97] ++ jExtensionName) ⟨true, true⟩ ≠
        readFile oneSegment sampleMoment (sampleKeeper ([97] ++ jExtensionName))
          ([97] ++ jExtensionName) ⟨true, true⟩ :=
  Reaches.of_runActions_any [.accept (sampleCall [97] [sampleRecord (.int 1)])]
    (by decide +kernel)

end RssDisk.Server
