import RssDisk.Server.Outcome
import RssDisk.Server.Remove

/-!
# What a removal changes

`server::remove_file_by_tms` leaves everything as it is, or removes a file and its data file. The
settings stay as they are, besides the accounted sizes.
-/

namespace RssDisk.Server

open Lib JManager

variable {env : Env} {m : Moment} {s : State} {subfolder : Bytes} {d : Directory}
  {path fileName : Bytes} {tms crc32 : Int64} {force : Bool}

theorem removeAccounted_read (s : State) (subfolder : Bytes) (d : Directory) (path other : Bytes) :
    (removeAccounted s subfolder d path).files.read other =
      if cStr other = cStr path then none else s.files.read other := by
  rw [removeAccounted, State.incCurrDiskSize_files, Files.read_remove]

theorem removeWithData_read (s : State) (subfolder : Bytes) (d : Directory) (path other : Bytes) :
    (removeWithData s subfolder d path).files.read other =
      if cStr other = cStr path ∨ cStr other = cStr (path ++ jExtensionName) then none
      else s.files.read other := by
  rw [removeWithData]
  by_cases data : Disk.isFileExists (removeAccounted s subfolder d path).files
      (path ++ jExtensionName) = true
  · rw [if_pos data, removeAccounted_read, removeAccounted_read]
    by_cases first : cStr other = cStr path
    · simp [first]
    · by_cases second : cStr other = cStr (path ++ jExtensionName)
      · simp [second]
      · simp [first, second]
  · have absent :
        (removeAccounted s subfolder d path).files.read (path ++ jExtensionName) = none := by
      simpa [Disk.isFileExists] using data
    rw [if_neg data, removeAccounted_read]
    by_cases first : cStr other = cStr path
    · simp [first]
    · by_cases second : cStr other = cStr (path ++ jExtensionName)
      · rw [removeAccounted_read, ← second, if_neg first] at absent
        have same : s.files.read other = s.files.read (path ++ jExtensionName) := by
          rw [Files.read, Files.read, second]
        simp [second, same, absent]
      · simp [first, second]

theorem removeAccounted_alike (s : State) (subfolder : Bytes) (d : Directory) (path : Bytes) :
    s.conf.Alike (removeAccounted s subfolder d path).conf :=
  State.incCurrDiskSize_alike { s with files := s.files.remove path } subfolder _

theorem removeWithData_alike (s : State) (subfolder : Bytes) (d : Directory) (path : Bytes) :
    s.conf.Alike (removeWithData s subfolder d path).conf := by
  rw [removeWithData]
  split
  · exact (removeAccounted_alike s subfolder d path).trans (removeAccounted_alike _ _ _ _)
  · exact removeAccounted_alike s subfolder d path

theorem removeFileByTms_eq (free : m.busy (segmentPath env (splitSubfolder fileName).2) = false)
    (found : s.conf.dirs.lookup (splitSubfolder fileName).1 = some d)
    (here : d.p ++ segmentPath env (splitSubfolder fileName).2 = path) :
    removeFileByTms env m s fileName tms crc32 force =
      match s.files.read path with
      | none => (s, true)
      | some content =>
        if !force ∧ !m.reads path then (s, false)
        else if force ∨ needRemove (content.take 64) tms crc32 then
          (removeWithData s (splitSubfolder fileName).1 d path, true)
        else (s, true) := by
  unfold removeFileByTms
  simp only [free, found, here, Disk.isFileExists, Disk.readFile]
  cases s.files.read path with
  | none => simp
  | some content => simp

theorem removeFileByTms_read_own (place : pathOf env s.conf fileName = some path)
    (done : (removeFileByTms env m s fileName tms crc32 false).2 = true) :
    (removeFileByTms env m s fileName tms crc32 false).1.files.read path =
      (s.files.read path).filter (fun content => !needRemove (content.take 64) tms crc32) := by
  obtain ⟨d, found, here⟩ := Option.map_eq_some_iff.mp place
  cases busy : m.busy (segmentPath env (splitSubfolder fileName).2) with
  | true => simp [removeFileByTms, busy] at done
  | false =>
    rw [removeFileByTms_eq busy found here] at done ⊢
    cases content : s.files.read path with
    | none => simp [content]
    | some bytes =>
      cases reads : m.reads path with
      | false => simp [content, reads] at done
      | true =>
        cases remove : needRemove (bytes.take 64) tms crc32 with
        | true => simp [Option.filter, remove, removeWithData_read]
        | false => simp [Option.filter, remove, content]

theorem removeFileByTms_cases (env : Env) (m : Moment) (s : State) (fileName : Bytes)
    (tms crc32 : Int64) (force : Bool) :
    (removeFileByTms env m s fileName tms crc32 force).1 = s ∨
      ∃ d, s.conf.dirs.lookup (splitSubfolder fileName).1 = some d ∧
        (removeFileByTms env m s fileName tms crc32 force).1 =
          removeWithData s (splitSubfolder fileName).1 d
            (d.p ++ segmentPath env (splitSubfolder fileName).2) := by
  cases busy : m.busy (segmentPath env (splitSubfolder fileName).2) with
  | true =>
    left
    simp [removeFileByTms, busy]
  | false =>
    cases found : s.conf.dirs.lookup (splitSubfolder fileName).1 with
    | none =>
      left
      simp [removeFileByTms, busy, found]
    | some d =>
      rw [removeFileByTms_eq busy found rfl]
      repeat' split
      all_goals first
        | exact .inl rfl
        | exact .inr ⟨d, rfl, rfl⟩

theorem removeFileByTms_alike :
    s.conf.Alike (removeFileByTms env m s fileName tms crc32 force).1.conf := by
  rcases removeFileByTms_cases env m s fileName tms crc32 force with same | ⟨d, _, removed⟩
  · rw [same]
    exact .refl _
  · rw [removed]
    exact removeWithData_alike _ _ _ _

end RssDisk.Server
