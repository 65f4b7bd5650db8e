import RssDisk.Calendar
import RssDisk.Server.Removal

/-!
# Lists of files to remove

A file with a number of days is put on the list of its last day, one line for each write. The
lists of a day are read line by line when it is over: `run_ttl_remover` removes the files that the
lines name, with their data files, and then the folder of the day. It removes nothing else.
-/

namespace RssDisk.Server

open Lib JManager List DateTime Disk

theorem getlines_append {delim : UInt8} {text : Bytes} (whole : delim ∉ text) (line rest : Bytes) :
    getlines delim line (text ++ rest) = getlines delim (line ++ text) rest := by
  induction text generalizing line with
  | nil => simp
  | cons c text ih =>
    rw [mem_cons, not_or] at whole
    rw [cons_append, getlines, if_neg (Ne.symm whole.1), ih whole.2]
    simp

theorem getlines_line {delim : UInt8} {text : Bytes} (whole : delim ∉ text) (line rest : Bytes) :
    getlines delim line (text ++ delim :: rest) =
      (line ++ text) :: getlines delim [] rest := by
  rw [getlines_append whole, getlines, if_pos rfl]

def listText (items : List Bytes) : Bytes := items.flatMap (fun item => item ++ [10])

theorem getlines_listText {items : List Bytes} (whole : ∀ item ∈ items, 10 ∉ item) :
    getlines 10 [] (listText items) = items := by
  induction items with
  | nil => rfl
  | cons item items ih =>
    have rest := ih (fun other present => whole other (mem_cons_of_mem _ present))
    unfold listText at rest ⊢
    rw [flatMap_cons, append_assoc, cons_append, nil_append,
      getlines_line (whole item mem_cons_self), rest, nil_append]

theorem listText_append (items : List Bytes) (item : Bytes) :
    listText (items ++ [item]) = listText items ++ (item ++ [10]) := by
  simp [listText]

variable {conf : ServerConf} {date : Date} {list : Bytes}

theorem mem_ttlFiles (present : list ∈ ttlFiles conf date) :
    ∃ rest, list = conf.ttlPath ++ (getDate date ++ 47 :: rest) ∧ 0 ∉ rest := by
  unfold ttlFiles ttlFile at present
  rcases mem_cons.mp present with rfl | numbered
  · exact ⟨[116, 116, 108], by simp, by decide⟩
  · obtain ⟨i, _, rfl⟩ := mem_map.mp numbered
    refine ⟨[116, 116, 108] ++ BasefuncStd.toString i, by simp, ?_⟩
    intro zero
    rcases mem_append.mp zero with text | number
    · exact absurd text (by decide)
    · have byte := BasefuncStd.toString_bytes number
      revert byte
      decide

theorem cStr_ttlFiles (plain : 0 ∉ conf.ttlPath) (present : list ∈ ttlFiles conf date) :
    cStr list = list := by
  obtain ⟨rest, rfl, noZero⟩ := mem_ttlFiles present
  apply cStr_eq_self
  intro zero
  simp only [mem_append, mem_cons] at zero
  rcases zero with folder | day | slash | name
  · exact plain folder
  · have byte := getDate_bytes day
    revert byte
    decide
  · exact absurd slash (by decide)
  · exact noZero name

theorem ttlFiles_date (plain : 0 ∉ conf.ttlPath) {other : Date} {list' : Bytes}
    (present : list ∈ ttlFiles conf date) (present' : list' ∈ ttlFiles conf other)
    (same : cStr list = cStr list') : date = other := by
  rw [cStr_ttlFiles plain present, cStr_ttlFiles plain present'] at same
  obtain ⟨rest, rfl, _⟩ := mem_ttlFiles present
  obtain ⟨rest', rfl, _⟩ := mem_ttlFiles present'
  have noSlash : ∀ date : Date, ∀ c ∈ getDate date, decide (c ≠ 47) = true := by
    intro date c inside
    rcases getDate_bytes inside with digit | rfl
    · simp only [decide_eq_true_eq]
      rintro rfl
      exact absurd digit (by decide)
    · decide
  have days := congrArg (List.takeWhile (fun c => decide (c ≠ 47))) (append_cancel_left same)
  rw [takeWhile_append_of_pos (noSlash date), takeWhile_append_of_pos (noSlash other),
    takeWhile_cons_of_neg (by decide), takeWhile_cons_of_neg (by decide),
    append_nil, append_nil] at days
  exact getDate_inj days

theorem appendToFirst_cases (m : Moment) (files : Files) (line : Bytes) (paths : List Bytes) :
    (appendToFirst m files line paths).1 = files ∨
      ∃ list ∈ paths, (appendToFirst m files line paths).1 = files.append list line := by
  induction paths with
  | nil => exact .inl rfl
  | cons path paths ih =>
    rw [appendToFirst]
    split
    · exact .inr ⟨path, mem_cons_self, rfl⟩
    · rcases ih with same | ⟨list, present, appended⟩
      · exact .inl same
      · exact .inr ⟨list, mem_cons_of_mem _ present, appended⟩

def linesOf (files : Files) (list : Bytes) : List Bytes :=
  getlines 10 [] ((files.read list).getD [])

theorem accountRemoval_frame (s : State) (subfolder path : Bytes) :
    s.conf.Alike (accountRemoval s subfolder path).conf ∧
      (accountRemoval s subfolder path).files = s.files := by
  unfold accountRemoval
  split
  · exact ⟨State.incCurrDiskSize_alike _ _ _, State.incCurrDiskSize_files _ _ _⟩
  · exact ⟨.refl _, rfl⟩

theorem clearItem_cases (s : State) (item : Bytes) :
    ∃ t : State, s.conf.Alike t.conf ∧ t.files = s.files ∧ clearItem s item =
      { t with files := (t.files.remove item).remove (item ++ jExtensionName) } := by
  unfold clearItem
  split
  · rename_i subfolder _
    obtain ⟨alike, files⟩ := accountRemoval_frame s subfolder item
    dsimp only
    split
    · obtain ⟨alike', files'⟩ := accountRemoval_frame (accountRemoval s subfolder item) subfolder
        (item ++ jExtensionName)
      exact ⟨_, alike.trans alike', files'.trans files, rfl⟩
    · exact ⟨_, alike, files, rfl⟩
  · exact ⟨s, .refl _, rfl, rfl⟩

theorem clearItem_alike (s : State) (item : Bytes) : s.conf.Alike (clearItem s item).conf := by
  obtain ⟨t, alike, -, result⟩ := clearItem_cases s item
  rw [result]
  exact alike

theorem clearItem_read (s : State) (item path : Bytes) :
    (clearItem s item).files.read path =
      if cStr path = cStr item ∨ cStr path = cStr (item ++ jExtensionName) then none
      else s.files.read path := by
  obtain ⟨t, -, files, result⟩ := clearItem_cases s item
  rw [result, files, Files.read_remove, Files.read_remove]
  by_cases data : cStr path = cStr (item ++ jExtensionName)
  · rw [if_pos data, if_pos (.inr data)]
  · simp only [data, ↓reduceIte, or_false]

/-- A line on a list of a day names a path. -/
def Listed (s : State) (date : Date) (item : Bytes) : Prop :=
  ∃ list ∈ ttlFiles s.conf date, ∃ line ∈ linesOf s.files list, trim line = item ∧ item ≠ []

/-- What may be removed at a time: files that a list of a day that is over names, their data files,
and what is in the folder of all lists. -/
def Removable (now : Date) (s : State) (path : Bytes) : Prop :=
  (∃ date item, date.le now = true ∧ Listed s date item ∧
    (cStr path = cStr item ∨ cStr path = cStr (item ++ jExtensionName))) ∨
  s.conf.ttlPath <+: cStr path

/-- A state in which nothing was removed but what may be removed. -/
structure Cleared (now : Date) (s u : State) : Prop where
  alike : s.conf.Alike u.conf
  kept : ∀ path, u.files.read path = s.files.read path ∨
    u.files.read path = none ∧ Removable now s path

namespace Cleared

variable {now : Date} {s u : State}

theorem refl (now : Date) (s : State) : Cleared now s s :=
  ⟨.refl _, fun _ => .inl rfl⟩

section

variable {date : Date} (cleared : Cleared now s u)

include cleared

theorem remove {t : State} (alike : u.conf.Alike t.conf)
    (removed : ∀ path, t.files.read path = u.files.read path ∨
      t.files.read path = none ∧ Removable now s path) : Cleared now s t := by
  refine ⟨cleared.alike.trans alike, fun path => ?_⟩
  rcases removed path with same | gone
  · rw [same]
    exact cleared.kept path
  · exact .inr gone

theorem ttlFiles_eq (date : Date) : ttlFiles u.conf date = ttlFiles s.conf date := by
  rw [cleared.alike.rest]
  rfl

theorem clearItem {item : Bytes} (past : date.le now = true) (listed : Listed s date item) :
    Cleared now s (Server.clearItem u item) := by
  refine cleared.remove (clearItem_alike u item) (fun path => ?_)
  rw [clearItem_read]
  split
  · rename_i named
    exact .inr ⟨rfl, .inl ⟨date, item, past, listed, named⟩⟩
  · exact .inl rfl

theorem clearLines (past : date.le now = true) {lines : List Bytes}
    (listed : ∀ line ∈ lines, trim line ≠ [] → Listed s date (trim line))
    (removed : List Bytes) :
    Cleared now s (Server.clearLines u removed lines) := by
  induction lines generalizing u removed with
  | nil => exact cleared
  | cons line lines ih =>
    have later : ∀ other ∈ lines, trim other ≠ [] → Listed s date (trim other) :=
      fun other present => listed other (mem_cons_of_mem _ present)
    rw [clearLines_cons]
    split
    · rename_i fresh
      exact ih (cleared.clearItem past (listed line mem_cons_self fresh.2)) later _
    · exact ih cleared later removed

theorem clearList (past : date.le now = true) {list : Bytes} (present : list ∈ ttlFiles s.conf date)
    : Cleared now s (Server.clearList u list) := by
  refine cleared.clearLines past (fun line inside some => ?_) []
  have text : (Disk.readFile u.files list 0).getD [] = (u.files.read list).getD [] := by
    simp [Disk.readFile]
  rw [text] at inside
  rcases cleared.kept list with same | ⟨gone, _⟩
  · rw [same] at inside
    exact ⟨list, present, line, inside, rfl, some⟩
  · rw [gone] at inside
    cases inside

theorem removeAll (folder : Bytes) :
    Cleared now s
      { u with files := Disk.removeAll u.files (u.conf.ttlPath ++ folder) } := by
  have ttlPath : u.conf.ttlPath = s.conf.ttlPath := by rw [cleared.alike.rest]
  refine cleared.remove (.refl _) (fun path => ?_)
  simp only [Disk.removeAll]
  have below : ∀ key ∈ u.files.keys.filter (fun key => key = u.conf.ttlPath ++ folder ∨
      Disk.isBelow (u.conf.ttlPath ++ folder ++ [47]) key), s.conf.ttlPath <+: key := by
    intro key present
    have named := (mem_filter.mp present).2
    simp only [Bool.decide_or, Bool.or_eq_true, decide_eq_true_eq, Disk.isBelow,
      List.isPrefixOf_iff_prefix] at named
    rw [← ttlPath]
    rcases named with rfl | inside
    · exact prefix_append _ _
    · grind [prefix_append]
  by_cases own : cStr path ∈ u.files.keys.filter (fun key => key = u.conf.ttlPath ++ folder ∨
      Disk.isBelow (u.conf.ttlPath ++ folder ++ [47]) key)
  · exact .inr ⟨(Disk.foldl_erase_lookup ..).trans (if_pos own), .inr (below _ own)⟩
  · exact .inl ((Disk.foldl_erase_lookup ..).trans (if_neg own))

theorem removeDate (past : date.le now = true) : Cleared now s (Server.removeDate u date) := by
  unfold Server.removeDate
  apply Cleared.removeAll
  refine foldlRecOn (motive := Cleared now s) _ _ cleared (fun v done path present => ?_)
  grind [cleared.ttlFiles_eq, done.clearList]

end

end Cleared

theorem runTtlRemover_cleared (now : DateTime) (s : State) :
    Cleared now.date s (runTtlRemover now s) := by
  refine foldlRecOn (motive := Cleared now.date s) _ _ (.refl _ _) (fun u cleared date _ => ?_)
  split
  · exact cleared.removeDate (by assumption)
  · exact cleared

end RssDisk.Server
