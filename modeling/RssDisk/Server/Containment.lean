import RssDisk.Server.Listing

/-!
# The files that a name can reach

A name is put behind its directory and its segment as it is. The parts of the path that are two dots
lead out of the directory again, and a line break in the name makes `run_ttl_remover` remove what
stands behind it.
-/

namespace RssDisk.Server

open Lib JManager Disk List DateTime

/-- One part of a path, from a folder on. -/
def walk (folder : List Bytes) (part : Bytes) : List Bytes :=
  if part = [] ∨ part = [46] then folder
  else if part = [46, 46] then folder.dropLast
  else folder ++ [part]

/-- The folders and the name that an absolute path leads to, when no folder is a link. -/
def resolve (path : Bytes) : List Bytes := (split (cStr path) 47).foldl walk []

/-- An absolute path leads into a folder. -/
def Inside (folder path : Bytes) : Prop :=
  (cStr path).head? = some 47 ∧ resolve folder <+: resolve path ∧ resolve folder ≠ resolve path

instance (folder path : Bytes) : Decidable (Inside folder path) :=
  inferInstanceAs (Decidable (_ ∧ _))

theorem Inside.congr {folder path other : Bytes} (inside : Inside folder path)
    (same : cStr path = cStr other) : Inside folder other := by
  unfold Inside resolve at *
  rwa [← same]

theorem getlines_last (delim : UInt8) (line text : Bytes) :
    ∃ init last, getlines delim line text = init ++ (if last = [] then [] else [last]) ∧
      ∀ more, delim ∉ more → more ≠ [] →
        getlines delim line (text ++ more) = init ++ [last ++ more] := by
  induction text generalizing line with
  | nil =>
    refine ⟨[], line, by rw [getlines, nil_append], fun more whole some => ?_⟩
    have rest := getlines_append whole line []
    rw [append_nil] at rest
    rw [nil_append, rest, getlines, if_neg (by simp [some]), nil_append]
  | cons c text ih =>
    rw [getlines]
    by_cases ends : c = delim
    · obtain ⟨init, last, parts, longer⟩ := ih []
      refine ⟨line :: init, last, by rw [if_pos ends, parts, cons_append],
        fun more whole some => ?_⟩
      rw [cons_append, getlines, if_pos ends, longer more whole some, cons_append]
    · obtain ⟨init, last, parts, longer⟩ := ih (line ++ [c])
      refine ⟨init, last, by rw [if_neg ends, parts], fun more whole some => ?_⟩
      rw [cons_append, getlines, if_neg ends, longer more whole some]

theorem walk_isPrefix {folder at_ : List Bytes} {part : Bytes} (leads : folder <+: walk at_ part)
    (other : folder ≠ walk at_ part) : folder <+: at_ := by
  unfold walk at leads other
  split at leads
  · exact leads
  · split at leads
    · exact leads.trans (List.dropLast_prefix at_)
    · rename_i dots dotDots
      rw [if_neg dots, if_neg dotDots] at other
      exact (prefix_concat_iff.mp leads).resolve_left other

theorem cStr_data_of_zero {path : Bytes} (zero : 0 ∈ path) :
    cStr path = cStr (path ++ jExtensionName) := by
  obtain ⟨before, after, rfl, plain⟩ := eq_append_cons_of_mem zero
  have cut (rest : Bytes) : cStr (before ++ 0 :: rest) = before := by
    have whole := cStr_eq_self plain
    rw [cStr, takeWhile_eq_self_iff] at whole
    rw [cStr, takeWhile_append_of_pos whole, takeWhile_cons_of_neg (by decide),
      append_nil]
  rw [cut, append_assoc, cons_append, cut]

theorem Inside.data {folder path : Bytes} (inside : Inside folder path) :
    Inside folder (path ++ jExtensionName) := by
  by_cases zero : 0 ∈ path
  · exact inside.congr (cStr_data_of_zero zero)
  · obtain ⟨own, long, -⟩ := cStr_dataFile zero
    obtain ⟨head, leads, other⟩ := inside
    obtain ⟨init, last, parts, longer⟩ := getlines_last 47 [] path
    have short : resolve path = walk (init.foldl walk []) last := by
      rw [resolve, own, split, parts, foldl_append]
      split
      · rename_i none
        rw [none]
        rfl
      · rfl
    have data : resolve (path ++ jExtensionName) =
        init.foldl walk [] ++ [last ++ jExtensionName] := by
      rw [resolve, long, split, longer jExtensionName (by decide) (by decide), foldl_append]
      have size : 9 ≤ (last ++ jExtensionName).length := by simp [jExtensionName]
      have named : ∀ dots : Bytes, dots.length < 9 → last ++ jExtensionName ≠ dots := by
        rintro dots few rfl
        omega
      simp [walk, named [] (by decide), named [46] (by decide), named [46, 46] (by decide)]
    rw [short] at leads other
    have above := walk_isPrefix leads other
    rw [Inside, long, data]
    refine ⟨?_, above.trans (prefix_append _ _), fun same => ?_⟩
    · rw [own] at head
      grind
    · have size := above.length_le
      rw [same, length_append, length_singleton] at size
      omega

theorem walk_of_mem {folder : List Bytes} {part : Bytes} {c : UInt8} (member : c ∈ part)
    (other : c ≠ 46) : walk folder part = folder ++ [part] := by
  have named : ∀ dots : Bytes, c ∉ dots → part ≠ dots := by
    rintro dots absent rfl
    exact absent member
  rw [walk, if_neg (not_or.mpr ⟨named [] (by simp), named [46] (by simp [other])⟩),
    if_neg (named [46, 46] (by simp [other]))]

theorem inside_ttlFiles {conf : ServerConf} (isFolder : IsFolder conf.ttlPath) {date : Date}
    {list : Bytes} (present : list ∈ ttlFiles conf date) : Inside conf.ttlPath list := by
  have plain := cStr_ttlFiles isFolder.noZero present
  obtain ⟨parts, whole, folder⟩ := isFolder.parts
  obtain ⟨number, rfl, digits⟩ : ∃ number, list = conf.ttlPath ++ (getDate date ++
      47 :: ([116, 116, 108] ++ number)) ∧ 47 ∉ number := by
    rcases mem_cons.mp present with rfl | numbered
    · exact ⟨[], by simp [ttlFile], not_mem_nil⟩
    · obtain ⟨i, -, rfl⟩ := mem_map.mp numbered
      refine ⟨BasefuncStd.toString i, by simp [ttlFile], fun slash => ?_⟩
      have byte := BasefuncStd.toString_bytes slash
      revert byte
      decide
  have noSlash : 47 ∉ getDate date := by
    intro slash
    have byte := getDate_bytes slash
    revert byte
    decide
  have dash : 45 ∈ getDate date := by simp [getDate]
  have leads (text : Bytes) (uncut : cStr (conf.ttlPath ++ text) = conf.ttlPath ++ text) :
      resolve (conf.ttlPath ++ text) = (getlines 47 [] text).foldl walk (parts.foldl walk []) := by
    rw [resolve, uncut, folder, append_assoc, singleton_append, split,
      getlines_parts fun part member => (whole part member).2, foldl_cons, foldl_append]
    rfl
  have start := leads [] (by rw [append_nil]; exact cStr_eq_self isFolder.noZero)
  have last : getlines 47 [] ([116, 116, 108] ++ number) = [[116, 116, 108] ++ number] := by
    have rest := getlines_append (show 47 ∉ [116, 116, 108] ++ number by simp [digits]) [] []
    rw [append_nil, nil_append] at rest
    rw [rest, getlines, if_neg (by simp)]
  have end_ := leads _ plain
  rw [getlines_line noSlash, last, nil_append, foldl_cons, foldl_cons,
    walk_of_mem dash (by decide), walk_of_mem (c := 116) (by simp) (by decide)] at end_
  rw [append_nil] at start
  refine ⟨?_, ?_, ?_⟩
  · rw [plain, folder]
    cases parts <;> rfl
  · rw [start, end_, append_assoc]
    exact prefix_append _ _
  · rw [start, end_, append_assoc]
    simp [getlines]

variable {env : Env} {conf : ServerConf} {d : Directory} {name : Bytes}

/-- The path leads into a directory or into the folder of the lists. -/
def Allowed (conf : ServerConf) (d : Directory) (path : Bytes) : Prop :=
  Inside d.p path ∨ Inside conf.ttlPath path

instance (conf : ServerConf) (d : Directory) (path : Bytes) : Decidable (Allowed conf d path) :=
  inferInstanceAs (Decidable (_ ∨ _))

theorem Allowed.ne {path other : Bytes} (allowed : Allowed conf d path)
    (outside : ¬ Allowed conf d other) : cStr other ≠ cStr path := by
  intro same
  exact outside (allowed.imp (·.congr same.symm) (·.congr same.symm))

theorem Allowed.data {path : Bytes} (allowed : Allowed conf d path) :
    Allowed conf d (path ++ jExtensionName) := allowed.imp Inside.data Inside.data

/-- What is done for a name in a directory leaves all files outside of it alone. -/
structure Contained (env : Env) (conf : ServerConf) (d : Directory) (name : Bytes) : Prop where
  /-- `accept_file`, which writes or appends. -/
  writes : ∀ (s : State) (call : Call), s.conf = conf →
    (call.request env conf).fileName = name → ∀ other, ¬ Allowed conf d other →
      (call.run env s).state.files.read other = s.files.read other
  /-- `remove_file_by_tms`, forced or for an entry of the log. -/
  removals : ∀ (s : State) (m : Moment) (tms crc32 : Int64) (force : Bool), s.conf = conf →
    ∀ other, ¬ Allowed conf d other →
      (removeFileByTms env m s name tms crc32 force).1.files.read other = s.files.read other
  /-- `run_ttl_remover`, on a list that the file was put on. -/
  expiry : ∀ (s : State) (date : Date), s.conf = conf → ∀ list ∈ ttlFiles conf date,
    (s.files.read list).getD [] = listText [d.p ++ segmentPath env (splitSubfolder name).2] →
      ∀ other, ¬ Allowed conf d other → (clearList s list).files.read other = s.files.read other

/-- The paths that are removed when the days of the file with a path are over. -/
def expired (path : Bytes) : List Bytes := processed [] (getlines 10 [] (listText [path]))

theorem clearList_read {s : State} {list path : Bytes}
    (text : (s.files.read list).getD [] = listText [path]) (other : Bytes) :
    (clearList s list).files.read other =
      if ∃ item ∈ expired path, cStr other = cStr item ∨ cStr other = cStr (item ++ jExtensionName)
      then none else s.files.read other := by
  have read : (Disk.readFile s.files list 0).getD [] = listText [path] := by
    rw [← text]
    simp [Disk.readFile]
  rw [clearList, read, clearLines_eq, expired]
  generalize processed [] (getlines 10 [] (listText [path])) = items
  clear text read
  induction items generalizing s with
  | nil => simp
  | cons item items ih =>
    rw [foldl_cons, ih, clearItem_read]
    by_cases later : ∃ item ∈ items, cStr other = cStr item ∨
        cStr other = cStr (item ++ jExtensionName)
    · rw [if_pos later, if_pos (later.imp fun _ h => ⟨mem_cons_of_mem _ h.1, h.2⟩)]
    · rw [if_neg later]
      by_cases own : cStr other = cStr item ∨ cStr other = cStr (item ++ jExtensionName)
      · rw [if_pos own, if_pos ⟨item, mem_cons_self, own⟩]
      · rw [if_neg own, if_neg]
        rintro ⟨found, member, named⟩
        rcases mem_cons.mp member with rfl | member
        · exact own named
        · exact later ⟨found, member, named⟩

/-- What is done for a name stays in its directory and in the folder of the lists if and only if its
path and all lines of its path lead there. -/
theorem contained_iff (found : conf.dirs.lookup (splitSubfolder name).1 = some d)
    (lists : IsFolder conf.ttlPath) :
    Contained env conf d name ↔
      ∀ path ∈ (d.p ++ segmentPath env (splitSubfolder name).2) ::
        expired (d.p ++ segmentPath env (splitSubfolder name).2), Allowed conf d path := by
  have place : pathOf env conf name = some (d.p ++ segmentPath env (splitSubfolder name).2) := by
    rw [pathOf, found]
    rfl
  generalize own : d.p ++ segmentPath env (splitSubfolder name).2 = path at *
  constructor
  · intro contained item member
    by_contra outside
    rcases mem_cons.mp member with rfl | member
    · -- a file at the path is removed by force
      have kept := contained.removals ⟨conf, (∅ : Files).write item []⟩ sampleMoment 0 0 true rfl
        item outside
      rw [removeFileByTms_eq rfl found own] at kept
      simp [Files.read_write_self, removeWithData_read] at kept
    · -- a file that a line of the path names is removed with the list
      have present : ttlFile conf {} ∈ ttlFiles conf {} := mem_cons_self
      have apart := Allowed.ne (.inr (inside_ttlFiles lists present)) outside
      obtain ⟨files, there, text⟩ : ∃ files : Files, files.read item = some [] ∧
          (files.read (ttlFile conf {})).getD [] = listText [path] := by
        refine ⟨((∅ : Files).write (ttlFile conf {}) (listText [path])).write item [],
          Files.read_write_self _ _ _, ?_⟩
        rw [Files.read_write_of_ne _ apart.symm, Files.read_write_self]
        rfl
      have kept := contained.expiry ⟨conf, files⟩ {} rfl _ present (by rw [own]; exact text) item
        outside
      rw [@clearList_read ⟨conf, files⟩ _ _ text, if_pos ⟨item, member, .inl rfl⟩, there] at kept
      cases kept
  · intro allowed
    have self : Allowed conf d path := allowed path mem_cons_self
    refine ⟨?_, ?_, ?_⟩
    · rintro s call rfl rfl other outside
      exact Call.run_read_of_ne place (self.ne outside) (self.data.ne outside) fun _ list present =>
        Allowed.ne (.inr (inside_ttlFiles lists present)) outside
    · rintro s m tms crc32 force rfl other outside
      rcases removeFileByTms_cases env m s name tms crc32 force with same | ⟨e, here, removed⟩
      · rw [same]
      · cases Option.some.inj (found.symm.trans here)
        rw [removed, own, removeWithData_read,
          if_neg (not_or.mpr ⟨self.ne outside, self.data.ne outside⟩)]
    · rintro s date rfl list - text other outside
      rw [own] at text
      rw [clearList_read text, if_neg]
      rintro ⟨item, member, named⟩
      have inside := allowed item (mem_cons_of_mem _ member)
      exact named.elim (inside.ne outside) (inside.data.ne outside)

theorem sampleLists_isFolder : IsFolder sampleState.conf.ttlPath :=
  ⟨⟨[[116]], by decide, rfl⟩, by decide, by decide⟩

theorem contained_iff_plain :
    ∃ d, sampleState.conf.dirs.lookup [] = some d ∧
      Contained Reference.env sampleState.conf d [97] :=
  ⟨_, rfl, (contained_iff rfl sampleLists_isFolder).mpr (by decide +kernel)⟩

/-- The name `/../../e` in the directory `/d/` is the file `/e`. -/
theorem dots_lead_outside :
    let path := [47, 100, 47] ++ segmentPath Reference.env [46, 46, 47, 46, 46, 47, 101]
    let s : State := { sampleState with files := (∅ : Files).write path [49] }
    resolve path = [[101]] ∧ ¬ Inside [47, 100, 47] path ∧ ¬ Inside s.conf.ttlPath path ∧
      (removeFileByTms Reference.env sampleMoment s [47, 46, 46, 47, 46, 46, 47, 101] 0 0
        true).1.files.read path = none := by
  decide +kernel

end RssDisk.Server
