import RssDisk.Lib.Reach
import RssDisk.Server.Frame
import RssDisk.Server.TtlLists

/-!
# Files whose days are over

Writes, removals and runs of `run_ttl_remover` one after another. The lists of files to remove only
grow, and know nothing about the write of a file that came last.
-/

namespace RssDisk.Server

open Lib JManager DateTime List

/-- What changes the files of a server. -/
inductive FileAction where
  /-- `accept_file`. -/
  | write (call : Call)
  /-- `remove_file_by_tms`. -/
  | remove (moment : Moment) (fileName : Bytes) (tms crc32 : Int64) (force : Bool)
  /-- `run_ttl_remover` at a time. -/
  | expire (now : DateTime)

/-- A server with the write of each file that was accepted last: its time and its number of days. -/
structure WriteLog where
  state : State
  last : Bytes → Option (DateTime × Int) := fun _ => none

variable {date : Date} {list path : Bytes}

namespace WriteLog

variable (env : Env)

/-- A write that is accepted is the last one of its file. -/
def write (h : WriteLog) (call : Call) : WriteLog where
  state := (call.run env h.state).state
  last := fun path =>
    if (call.run env h.state).response.status = .ok ∧
        (pathOf env h.state.conf (call.request env h.state.conf).fileName).map cStr = some path then
      some (call.moment.now, (call.request env h.state.conf).ttl)
    else h.last path

/-- One action; each one can be taken. -/
def step (h : WriteLog) : FileAction → Option WriteLog
  | .write call => some (h.write env call)
  | .remove moment fileName tms crc32 force =>
    some { h with state := (removeFileByTms env moment h.state fileName tms crc32 force).1 }
  | .expire now => some { h with state := runTtlRemover now h.state }

/-- A path that is a line of a list as it is, and neither it nor its data file is in the folder of
the lists. -/
structure PlainPath (conf : ServerConf) (path : Bytes) : Prop where
  noZero : 0 ∉ path
  noBreak : 10 ∉ path
  trimmed : Disk.trim path = path
  outside : ¬ conf.ttlPath <+: path
  dataOutside : ¬ conf.ttlPath <+: path ++ jExtensionName

/-- The days of a write end at or before a day. -/
def EndsBy (write : DateTime × Int) (date : Date) : Prop :=
  0 < write.2 ∧ dayNumber write.1.date + write.2 ≤ dayNumber date

/-- A write whose path is plain and on no list of a day before the last one of the write. -/
structure Punctual (h : WriteLog) (call : Call) (path : Bytes) : Prop where
  plain : PlainPath h.state.conf path
  fits : call.moment.now.date.day + (call.request env h.state.conf).ttl < 2 ^ 31
  /-- The days of the write are over on every day for which its path is listed. -/
  endsBy : ∀ date, Listed h.state date path →
    EndsBy (call.moment.now, (call.request env h.state.conf).ttl) date

/-- The writes of a run are punctual, and the clock shows dates of the calendar. -/
def Allowed (h : WriteLog) : FileAction → Prop
  | .write call => ∀ path,
      pathOf env h.state.conf (call.request env h.state.conf).fileName = some path →
        Punctual env h call path
  | .remove .. => True
  | .expire now => now.IsCalendar

/-- A line of the list of a day: a path whose last write ends by this day. -/
structure Due (h : WriteLog) (date : Date) (item : Bytes) : Prop where
  noZero : 0 ∉ item
  noBreak : 10 ∉ item
  trimmed : Disk.trim item = item
  isDate : IsDate date
  endsBy : ∃ write, h.last item = some write ∧ EndsBy write date

/-- The lists hold due lines only. -/
structure Timely (h : WriteLog) : Prop where
  plain : 0 ∉ h.state.conf.ttlPath
  lists : ∀ date, ∀ list ∈ ttlFiles h.state.conf date, ∃ items,
    (h.state.files.read list).getD [] = listText items ∧ ∀ item ∈ items, Due h date item

variable {env} {h : WriteLog}

theorem Timely.due (timely : Timely h) {item : Bytes} (listed : Listed h.state date item) :
    Due h date item := by
  obtain ⟨list, present, line, inside, rfl, _⟩ := listed
  obtain ⟨items, text, due⟩ := timely.lists date list present
  rw [linesOf, text, getlines_listText (fun item there => (due item there).noBreak)] at inside
  rw [(due line inside).trimmed]
  exact due line inside

theorem listed_of_text {s : State} (present : list ∈ ttlFiles s.conf date) {items : List Bytes}
    (text : (s.files.read list).getD [] = listText items) (due : ∀ item ∈ items, Due h date item)
    {item : Bytes} (inside : item ∈ items) (some : item ≠ []) :
    Listed s date item := by
  refine ⟨list, present, item, ?_, (due item inside).trimmed, some⟩
  rw [linesOf, text, getlines_listText (fun item there => (due item there).noBreak)]
  exact inside

theorem Timely.of_removed (timely : Timely h) {t : State} (alike : h.state.conf.Alike t.conf)
    (removed : ∀ path, t.files.read path = h.state.files.read path ∨ t.files.read path = none) :
    Timely { h with state := t } := by
  have ttlPath : t.conf.ttlPath = h.state.conf.ttlPath := by rw [alike.rest]
  have files : ∀ date, ttlFiles t.conf date = ttlFiles h.state.conf date := by
    intro date
    rw [alike.rest]
    rfl
  refine ⟨by rw [ttlPath]; exact timely.plain, fun date list present => ?_⟩
  rw [files] at present
  rcases removed list with same | gone
  · obtain ⟨items, text, due⟩ := timely.lists date list present
    refine ⟨items, by rw [same]; exact text, fun item inside => ?_⟩
    have old := due item inside
    exact ⟨old.noZero, old.noBreak, old.trimmed, old.isDate, old.endsBy⟩
  · exact ⟨[], by rw [gone]; rfl, fun item inside => by cases inside⟩

theorem PlainPath.apart {conf : ServerConf} (plain : PlainPath conf path)
    (folder : 0 ∉ conf.ttlPath) (present : list ∈ ttlFiles conf date) :
    cStr list ≠ cStr path ∧ cStr list ≠ cStr (path ++ jExtensionName) := by
  have noZero : 0 ∉ path ++ jExtensionName := by simp [plain.noZero, jExtensionName]
  have inside : conf.ttlPath <+: list := by
    obtain ⟨rest, rfl, _⟩ := mem_ttlFiles present
    exact prefix_append _ _
  rw [cStr_ttlFiles folder present, cStr_eq_self plain.noZero, cStr_eq_self noZero]
  constructor
  · rintro rfl
    exact plain.outside inside
  · rintro rfl
    exact plain.dataOutside inside

theorem run_lists {s : State} {call : Call} (folder : 0 ∉ s.conf.ttlPath)
    (place : pathOf env s.conf (call.request env s.conf).fileName = some path)
    (plain : PlainPath s.conf path) (present : list ∈ ttlFiles s.conf date) :
    (call.run env s).state.files.read list = s.files.read list ∨
      ((call.run env s).response.status = .ok ∧ 0 < (call.request env s.conf).ttl ∧
        date = (addDays call.moment.now (call.request env s.conf).ttl).date ∧
        (call.run env s).state.files.read list =
          some ((s.files.read list).getD [] ++ (path ++ [10]))) := by
  obtain ⟨own, data⟩ := plain.apart folder present
  rcases Call.run_cases place with ⟨_, _, refused⟩ | ⟨d, stored⟩
  · grind
  · generalize prepared : prepare env call.moment s.files d path (call.request env s.conf).type
      (call.body env s.conf) = p at stored
    have before : p.files.read list = s.files.read list := by
      rw [← prepared]
      exact prepare_read_of_ne data
    rw [stored]
    by_cases ok : (storeFile call.moment s (splitSubfolder (call.request env s.conf).fileName).1 d
        path (call.request env s.conf) p).response.status = .ok
    · rw [storeFile_files ok]
      generalize written : (writeFile call.moment d path (call.request env s.conf)
        (Disk.isFileExists s.files path) p).1 = files
      have kept : files.read list = s.files.read list := by
        rw [← written, writeFile_read_of_ne own, before]
      unfold listFile
      split
      · rename_i listed
        rcases appendToFirst_cases call.moment files (path ++ [10]) (ttlFiles s.conf
            (addDays call.moment.now (call.request env s.conf).ttl).date) with
          same | ⟨first, there, grown⟩
        · dsimp only
          rw [same]
          exact .inl kept
        · dsimp only
          rw [grown]
          by_cases here : cStr list = cStr first
          · have read : ∀ files : Files, files.read list = files.read first := by
              intro files
              rw [Files.read, Files.read, here]
            refine .inr ⟨ok, listed.1, ttlFiles_date folder present there here, ?_⟩
            rw [read, Files.read_append_self, ← read files, kept]
          · rw [Files.read_append_of_ne _ here]
            exact .inl kept
      · exact .inl kept
    · rw [storeFile_failed ok]
      exact .inl before

theorem pathOf_ne_nil {conf : ServerConf} {fileName : Bytes}
    (place : pathOf env conf fileName = some path) : path ≠ [] := by
  obtain ⟨d, _, rfl⟩ := Option.map_eq_some_iff.mp place
  simp [segmentPath]

theorem last_write {call : Call}
    (place : pathOf env h.state.conf (call.request env h.state.conf).fileName = some path)
    (item : Bytes) :
    (h.write env call).last item =
      if (call.run env h.state).response.status = .ok ∧ cStr path = item then
        some (call.moment.now, (call.request env h.state.conf).ttl)
      else h.last item := by
  simp only [WriteLog.write, place, Option.map_some, Option.some.injEq]

theorem Timely.write (timely : Timely h) {call : Call}
    (punctual : Allowed env h (.write call)) : Timely (h.write env call) := by
  have alike : h.state.conf.Alike (call.run env h.state).state.conf := acceptFile_alike
  cases place : pathOf env h.state.conf (call.request env h.state.conf).fileName with
  | none =>
    -- the directory of the name is not known, so that the request is refused
    rcases acceptFile_cases env call.moment h.state call.content call.needCheckAuth
        call.needCheckAes with ⟨status, notOk, refused⟩ | ⟨d, found, _⟩
    · have same : h.write env call = h := by
        have refused :
            call.run env h.state = { state := h.state, response := { status } } := refused
        rw [WriteLog.write, refused]
        simp [notOk]
      rw [same]
      exact timely
    · rw [pathOf] at place
      have found : h.state.conf.dirs.lookup
        (splitSubfolder (call.request env h.state.conf).fileName).1 = some d := found
      grind
  | some path =>
    have punctual : Punctual env h call path := punctual path place
    have ttlPath : (h.write env call).state.conf.ttlPath = h.state.conf.ttlPath := by
      show (call.run env h.state).state.conf.ttlPath = _
      rw [alike.rest]
    have files : ∀ date, ttlFiles (h.write env call).state.conf date =
        ttlFiles h.state.conf date := by
      intro date
      show ttlFiles (call.run env h.state).state.conf date = _
      rw [alike.rest]
      rfl
    have seen : cStr path = path := cStr_eq_self punctual.plain.noZero
    -- lines of the lists before stay due
    have kept : ∀ date item, (item = path → Listed h.state date path) → Due h date item →
        Due (h.write env call) date item := by
      intro date item listed due
      refine ⟨due.noZero, due.noBreak, due.trimmed, due.isDate, ?_⟩
      by_cases accepted : (call.run env h.state).response.status = .ok ∧ path = item
      · obtain ⟨ok, rfl⟩ := accepted
        refine ⟨_, ?_, punctual.endsBy date (listed rfl)⟩
        rw [last_write place, seen, if_pos ⟨ok, rfl⟩]
      · obtain ⟨old, last, ends⟩ := due.endsBy
        refine ⟨old, ?_, ends⟩
        rw [last_write place, seen, if_neg accepted, last]
    refine ⟨by rw [ttlPath]; exact timely.plain, fun date list present => ?_⟩
    rw [files] at present
    obtain ⟨items, text, due⟩ := timely.lists date list present
    have still : ∀ item ∈ items, Due (h.write env call) date item := by
      intro item inside
      refine kept date item (fun same => ?_) (due item inside)
      subst same
      exact listed_of_text present text due inside (pathOf_ne_nil place)
    rcases run_lists timely.plain place punctual.plain present with
      same | ⟨ok, positive, day, grown⟩
    · refine ⟨items, ?_, still⟩
      show ((call.run env h.state).state.files.read list).getD [] = _
      rw [same, text]
    · refine ⟨items ++ [path], ?_, ?_⟩
      · show ((call.run env h.state).state.files.read list).getD [] = _
        rw [grown, Option.getD_some, text, listText_append]
      · intro item inside
        rcases mem_append.mp inside with old | new
        · exact still item old
        · rw [mem_singleton.mp new]
          obtain ⟨isDate, number⟩ := addDays_spec call.moment.calendar (le_of_lt positive)
            punctual.fits
          refine ⟨punctual.plain.noZero, punctual.plain.noBreak, punctual.plain.trimmed,
            by rw [day]; exact isDate, (call.moment.now, (call.request env h.state.conf).ttl), ?_,
            positive, by rw [day, number]⟩
          rw [last_write place, seen, if_pos ⟨ok, rfl⟩]

theorem Timely.step (timely : Timely h) {action : FileAction} (allowed : Allowed env h action)
    {t : WriteLog} (taken : h.step env action = some t) : Timely t := by
  cases action with
  | write call =>
    obtain rfl := Option.some.inj taken
    exact timely.write allowed
  | remove moment fileName tms crc32 force =>
    obtain rfl := Option.some.inj taken
    refine timely.of_removed removeFileByTms_alike (fun path => ?_)
    rcases removeFileByTms_cases env moment h.state fileName tms crc32 force with
      same | ⟨d, _, removed⟩
    · rw [same]
      exact .inl rfl
    · rw [removed, removeWithData_read]
      split
      · exact .inr rfl
      · exact .inl rfl
  | expire now =>
    obtain rfl := Option.some.inj taken
    have cleared := runTtlRemover_cleared now h.state
    apply timely.of_removed cleared.alike
    exact fun path => (cleared.kept path).imp id And.left

end WriteLog

open WriteLog in
/-- Along every run whose writes are punctual, `run_ttl_remover` removes a file only when its last
accepted write gave it a number of days and as many days have passed since then. -/
theorem removed_after_days {env : Env} {s : State} (folder : 0 ∉ s.conf.ttlPath)
    (unlisted : ∀ date, ∀ list ∈ ttlFiles s.conf date, s.files.read list = none) {h : WriteLog}
    (reached : Reaches (WriteLog.step env) (Allowed env) { state := s } h) {now : DateTime}
    (clock : now.IsCalendar) {path : Bytes} (outside : ¬ h.state.conf.ttlPath <+: cStr path)
    (noData : ¬ jExtensionName <:+ cStr path) (there : (h.state.files.read path).isSome = true)
    (gone : (runTtlRemover now h.state).files.read path = none) :
    ∃ write, h.last (cStr path) = some write ∧ 0 < write.2 ∧
      dayNumber write.1.date + write.2 ≤ dayNumber now.date := by
  have timely : Timely h := reached.invariant Timely
    ⟨folder, fun date list present => ⟨[], by rw [unlisted date list present]; rfl,
      fun item inside => by cases inside⟩⟩
    (fun _ _ _ timely allowed taken => timely.step allowed taken)
  rcases (runTtlRemover_cleared now h.state).kept path with same | ⟨_, removable⟩
  · rw [← same, gone] at there
    cases there
  rcases removable with ⟨date, item, past, listed, named⟩ | inside
  · have due := timely.due listed
    obtain ⟨write, last, positive, ends⟩ := due.endsBy
    rcases named with own | data
    · rw [own, cStr_eq_self due.noZero]
      exact ⟨write, last, positive, ends.trans (dayNumber_le due.isDate clock.isDate past)⟩
    · have noZero : 0 ∉ item ++ jExtensionName := by simp [due.noZero, jExtensionName]
      rw [data, cStr_eq_self noZero] at noData
      exact absurd (suffix_append _ _) noData
  · exact absurd inside outside

/-- A write of one byte under the name `a` of the sample server. -/
def daysCall (days : Bytes) : Call where
  moment := sampleMoment
  content := lineText [97, 117, 116, 104] [97] days [48] ++ [104]

/-- A file with one day is removed two days later. -/
theorem removed_after_days_sample :
    let h := ({ state := sampleState } : WriteLog).write Reference.env (daysCall [49])
    (runTtlRemover { date := ⟨2024, 1, 3⟩ } h.state).files.read (samplePathOf [97]) = none ∧
      ∃ write, h.last (samplePathOf [97]) = some write ∧ 0 < write.2 ∧
        dayNumber write.1.date + write.2 ≤ dayNumber ⟨2024, 1, 3⟩ := by
  have plain : WriteLog.PlainPath sampleState.conf (samplePathOf [97]) :=
    ⟨by decide, by decide, by decide, by decide, by decide⟩
  have allowed :
      WriteLog.Allowed Reference.env { state := sampleState } (.write (daysCall [49])) := by
    intro path place
    have own : pathOf Reference.env sampleState.conf
        ((daysCall [49]).request Reference.env sampleState.conf).fileName =
        some (samplePathOf [97]) := by decide
    obtain rfl := Option.some.inj (place.symm.trans own)
    refine ⟨plain, by decide, ?_⟩
    rintro date ⟨list, _, line, inside, _⟩
    cases inside
  have reached : Reaches (WriteLog.step Reference.env) (WriteLog.Allowed Reference.env)
      { state := sampleState }
      (({ state := sampleState } : WriteLog).write Reference.env (daysCall [49])) :=
    Reaches.start.next (.write (daysCall [49])) allowed rfl
  have gone : (runTtlRemover { date := ⟨2024, 1, 3⟩ } (({ state := sampleState } : WriteLog).write
      Reference.env (daysCall [49])).state).files.read (samplePathOf [97]) = none := by
    decide +kernel
  exact ⟨gone, removed_after_days (by decide) (fun _ _ _ => rfl) reached (by decide) (by decide)
    (by decide) (by decide +kernel) gone⟩

/-- A file with one day is written again without one. Its old line on the list removes it. -/
theorem removed_after_days_rewritten :
    let h := (({ state := sampleState } : WriteLog).write Reference.env (daysCall [49])).write
      Reference.env (daysCall [48])
    (h.last (samplePathOf [97])).map Prod.snd = some 0 ∧
      (h.state.files.read (samplePathOf [97])).isSome = true ∧
      (runTtlRemover { date := ⟨2024, 1, 2⟩ } h.state).files.read (samplePathOf [97]) = none := by
  decide +kernel

end RssDisk.Server
