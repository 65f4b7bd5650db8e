import RssDisk.DirSize
import RssDisk.Server.Expiry

/-!
# Accounted sizes and removals

The size of a directory that a restart computes from its files, and what keeps the accounted size
equal to it: a change of one file has to be accounted for with what the file adds to the directory
more than before. `remove_file_by_tms` does so for every name. `run_ttl_remover` finds the directory
of a file from the parts of its path, and does so for the paths of names without zero bytes, in
directories that are apart from each other and from the folders of lists.
-/

namespace RssDisk.Server

open Lib JManager Disk List BasefuncStd AList Directory

def countSegmentFolders : Nat := 1000

/-- The size that a restart computes for a directory. -/
def Directory.restartSize (d : Directory) (files : Files) : Int :=
  getDirSize files d.p d.fsBlockSizeB + d.fsBlockSizeB * countSegmentFolders

/-- The accounted sizes are those of a restart. -/
def Accounted (s : State) : Prop :=
  ∀ subfolder d, s.conf.dirs.lookup subfolder = some d → d.currSizeB = d.restartSize s.files

/-- A path of a directory: absolute and normalised, with a last slash. A zero byte would end it, and
a line break would end the line of a list. -/
structure IsFolder (path : Bytes) : Prop where
  parts : ∃ parts : List Bytes, (∀ part ∈ parts, part ≠ [] ∧ 47 ∉ part) ∧
    path = parts.flatMap (fun part => 47 :: part) ++ [47]
  noZero : 0 ∉ path
  noBreak : 10 ∉ path

/-- A name without white space, slashes and zero bytes. -/
structure PlainName (name : Bytes) : Prop where
  some : name ≠ []
  plain : ∀ c ∈ name, isSpace c = false ∧ c ≠ 47 ∧ c ≠ 0

instance (name : Bytes) : Decidable (PlainName name) :=
  decidable_of_iff
    (name ≠ [] ∧ name.all (fun c => isSpace c = false ∧ c ≠ 47 ∧ c ≠ 0) = true)
    ⟨fun both => ⟨both.1, fun c inside => of_decide_eq_true (all_eq_true.mp both.2 c inside)⟩,
      fun plain => ⟨plain.some,
        all_eq_true.mpr (fun c inside => decide_eq_true (plain.plain c inside))⟩⟩

/-- Neither of two paths is the start of the other one. -/
def Apart (a b : Bytes) : Prop := ¬ a <+: b ∧ ¬ b <+: a

theorem Apart.not_below {a b key : Bytes} (apart : Apart a b) (below : a <+: key) :
    ¬ b <+: key := by
  intro other
  cases prefix_or_prefix_of_prefix below other with
  | inl first => exact apart.1 first
  | inr second => exact apart.2 second

theorem trim_eq_self {first last : UInt8} {text : Bytes} (head : isSpace first = false)
    (end_ : isSpace last = false) :
    trim (first :: (text ++ [last])) = first :: (text ++ [last]) := by
  have back : (first :: (text ++ [last])).reverse.dropWhile isSpace =
      (first :: (text ++ [last])).reverse := by
    rw [reverse_cons, reverse_append, reverse_singleton, append_assoc,
      singleton_append, dropWhile_cons_of_neg (by rw [end_]; decide)]
  rw [trim, back, reverse_reverse, dropWhile_cons_of_neg (by rw [head]; decide)]

theorem getlines_parts {parts : List Bytes} (whole : ∀ part ∈ parts, 47 ∉ part)
    (line text : Bytes) :
    getlines 47 line (parts.flatMap (fun part => 47 :: part) ++ 47 :: text) =
      line :: (parts ++ getlines 47 [] text) := by
  induction parts generalizing line with
  | nil => simp [getlines]
  | cons part parts ih =>
    have own : 47 ∉ part := whole part mem_cons_self
    have rest := ih (fun other present => whole other (mem_cons_of_mem _ present)) part
    rw [flatMap_cons, cons_append, cons_append, getlines, if_pos rfl,
      append_assoc, getlines_append own, nil_append, rest, cons_append]

theorem segment_plain (n : Nat) {c : UInt8} (present : c ∈ BasefuncStd.toString n) :
    c ≠ 47 ∧ c ≠ 0 ∧ c ≠ 10 := by
  have byte := BasefuncStd.toString_bytes present
  refine ⟨?_, ?_, ?_⟩
  all_goals
    rintro rfl
    revert byte
    decide

section

variable {env : Env} {folder name : Bytes}

theorem directoryOf_segmentPath (isFolder : IsFolder folder) (plain : PlainName name) :
    directoryOf (folder ++ segmentPath env name) = folder := by
  obtain ⟨parts, whole, rfl⟩ := isFolder.parts
  have noSlash : 47 ∉ name := fun slash => (plain.plain 47 slash).2.1 rfl
  have segment : 47 ∉ BasefuncStd.toString (getSegmentFolder env name) :=
    fun slash => (segment_plain _ slash).1 rfl
  have last : getlines 47 [] name = [name] := by
    have split := getlines_append noSlash [] []
    rw [append_nil, nil_append] at split
    rw [split, getlines, if_neg plain.some]
  have parted : split (parts.flatMap (fun part => 47 :: part) ++ [47] ++ segmentPath env name) 47 =
      [] :: (parts ++ [BasefuncStd.toString (getSegmentFolder env name), name]) := by
    rw [split, append_assoc, singleton_append,
      getlines_parts (fun part present => (whole part present).2), segmentPath,
      getlines_line segment, last, nil_append]
  have front : ∀ a b : Bytes, ([] :: (parts ++ [a, b])).dropLast.dropLast = [] :: parts := by
    intro a b
    have shape : [] :: (parts ++ [a, b]) = ([] :: parts ++ [a]) ++ [b] := by simp
    rw [shape, dropLast_concat, dropLast_concat]
  rw [directoryOf, parted, front, filter_cons_of_neg (by simp), filter_eq_self.mpr]
  intro part present
  exact decide_eq_true (whole part present).1

theorem segmentPath_plain (isFolder : IsFolder folder) (plain : PlainName name) :
    0 ∉ folder ++ segmentPath env name ∧ 10 ∉ folder ++ segmentPath env name := by
  simp only [segmentPath, mem_append, mem_cons, not_or]
  refine ⟨⟨isFolder.noZero, fun zero => (segment_plain _ zero).2.1 rfl, by decide,
    fun zero => (plain.plain 0 zero).2.2 rfl⟩, isFolder.noBreak,
    fun break_ => (segment_plain _ break_).2.2 rfl, by decide, fun break_ => ?_⟩
  have space := (plain.plain 10 break_).1
  revert space
  decide

theorem IsFolder.slash (isFolder : IsFolder folder) : ∃ rest, folder = 47 :: rest := by
  obtain ⟨parts, -, rfl⟩ := isFolder.parts
  cases parts with
  | nil => exact ⟨[], rfl⟩
  | cons part parts => exact ⟨_, rfl⟩

theorem PlainName.ends (plain : PlainName name) :
    ∀ c ∈ name.getLast?, isSpace c = false :=
  fun c last => (plain.plain c (mem_of_getLast? last)).1

theorem trim_segmentPath (isFolder : IsFolder folder)
    (ends : ∀ c ∈ name.getLast?, BasefuncStd.isSpace c = false) :
    trim (folder ++ segmentPath env name) = folder ++ segmentPath env name := by
  obtain ⟨rest, front⟩ := isFolder.slash
  obtain ⟨init, last, back, end_⟩ :
      ∃ init last, 47 :: name = init ++ [last] ∧ BasefuncStd.isSpace last = false := by
    rcases eq_nil_or_concat name with rfl | ⟨init, last, rfl⟩
    · exact ⟨[], 47, rfl, by decide⟩
    · exact ⟨47 :: init, last, by simp, ends last (by simp)⟩
  have shape : folder ++ segmentPath env name =
      47 :: ((rest ++ BasefuncStd.toString (getSegmentFolder env name) ++ init) ++ [last]) := by
    rw [segmentPath, front, back]
    simp
  rw [shape]
  exact trim_eq_self (by decide) end_

end

/-- The folder of the lists of a day. -/
def dateFolder (conf : ServerConf) (date : Date) : Bytes :=
  conf.ttlPath ++ (DateTime.getDate date ++ [47])

/-- Settings whose directories and lists are apart from each other. -/
structure Layout (conf : ServerConf) : Prop where
  power : ∀ subfolder d, conf.dirs.lookup subfolder = some d → ∃ k, d.fsBlockSizeB = 2 ^ k
  /-- The paths are absolute and normalised, with a last slash. -/
  folder : ∀ subfolder d, conf.dirs.lookup subfolder = some d → IsFolder d.p
  apart : ∀ subfolder d other e, conf.dirs.lookup subfolder = some d →
    conf.dirs.lookup other = some e → subfolder ≠ other → Apart d.p e.p
  /-- No folder of lists is inside of a directory, or the other way round. -/
  lists : ∀ subfolder d, conf.dirs.lookup subfolder = some d → ∀ date,
    Apart d.p (dateFolder conf date)
  plain : 0 ∉ conf.ttlPath

/-- A path of a name in a directory. -/
def Named (env : Env) (conf : ServerConf) (item : Bytes) : Prop :=
  ∃ subfolder d name, conf.dirs.lookup subfolder = some d ∧ PlainName name ∧
    item = d.p ++ segmentPath env name

/-- The files in directories are not empty. -/
def Filled (s : State) : Prop :=
  ∀ subfolder d, s.conf.dirs.lookup subfolder = some d → ∀ key content,
    s.files.lookup key = some content → d.p <+: key → content ≠ []

/-- The whole blocks of every file in a directory are below 2 GiB. -/
def Fits (s : State) : Prop :=
  ∀ subfolder d, s.conf.dirs.lookup subfolder = some d → ∀ key content,
    s.files.lookup key = some content → d.p <+: key → FitsBlocks d.fsBlockSizeB content

/-- The lines of lists are paths of names. -/
def Lines (env : Env) (s : State) : Prop :=
  ∀ date, ∀ list ∈ ttlFiles s.conf date, ∃ items,
    (s.files.read list).getD [] = listText items ∧ ∀ item ∈ items, Named env s.conf item

/-- What a run keeps. -/
structure Balanced (env : Env) (s : State) : Prop where
  layout : Layout s.conf
  accounted : Accounted s
  filled : Filled s
  fits : Fits s
  lines : Lines env s

theorem ServerConf.Alike.symm {a b : ServerConf} (alike : a.Alike b) : b.Alike a :=
  ⟨by rw [alike.rest], fun subfolder => (alike.dirs subfolder).symm⟩

variable {item : Bytes}

section

variable {a b : ServerConf} (alike : a.Alike b)

include alike

theorem dateFolder_alike (date : Date) : dateFolder b date = dateFolder a date := by
  rw [alike.rest]
  rfl

theorem ttlFiles_alike (date : Date) : ttlFiles b date = ttlFiles a date := by
  rw [alike.rest]
  rfl

theorem Layout.of_alike (layout : Layout a) : Layout b where
  power := by
    intro subfolder d found
    obtain ⟨old, before, -, blocks⟩ := alike.lookup found
    rw [← blocks]
    exact layout.power subfolder old before
  folder := by
    intro subfolder d found
    obtain ⟨old, before, path, -⟩ := alike.lookup found
    rw [← path]
    exact layout.folder subfolder old before
  apart := by
    intro subfolder d other e found foundOther different
    obtain ⟨old, before, path, -⟩ := alike.lookup found
    obtain ⟨oldOther, beforeOther, pathOther, -⟩ := alike.lookup foundOther
    rw [← path, ← pathOther]
    exact layout.apart subfolder old other oldOther before beforeOther different
  lists := by
    intro subfolder d found date
    obtain ⟨old, before, path, -⟩ := alike.lookup found
    rw [← path, dateFolder_alike alike]
    exact layout.lists subfolder old before date
  plain := by
    rw [alike.rest]
    exact layout.plain

theorem Named.of_alike {env : Env} (named : Named env a item) : Named env b item := by
  obtain ⟨subfolder, d, name, found, plain, rfl⟩ := named
  obtain ⟨new, after, path, -⟩ := alike.symm.lookup found
  exact ⟨subfolder, new, name, after, plain, by rw [path]⟩

end

variable {date : Date} {list : Bytes}

section

variable {env : Env} {s t : State} {subfolder : Bytes} {d : Directory}

theorem State.incCurrDiskSize_conf (same : s.conf = t.conf) (subfolder : Bytes) (sz : Int) :
    (s.incCurrDiskSize subfolder sz).conf = (t.incCurrDiskSize subfolder sz).conf := by
  unfold State.incCurrDiskSize
  rw [same]
  split
  · rfl
  · exact same

theorem Accounted.change (layout : Layout s.conf) (accounted : Accounted s)
    (found : s.conf.dirs.lookup subfolder = some d) {sz : Int}
    (sizes : ∀ other, t.conf.dirs.lookup other =
      if other = subfolder then some (d.incCurrDiskSize sz) else s.conf.dirs.lookup other)
    (outside : ∀ key, ¬ d.p <+: key → t.files.lookup key = s.files.lookup key)
    (size : getDirSize t.files d.p d.fsBlockSizeB = getDirSize s.files d.p d.fsBlockSizeB + sz) :
    Accounted t := by
  intro other e after
  rw [sizes] at after
  split at after
  · cases after
    have before := accounted subfolder d found
    simp only [restartSize, incCurrDiskSize] at before ⊢
    omega
  · rename_i different
    have before := accounted other e after
    have apart := layout.apart other e subfolder d after found different
    rw [before, restartSize, restartSize,
      getDirSize_congr (fun key below => outside key (apart.not_below below))]

theorem dateFolder_below {conf : ServerConf} (plain : 0 ∉ conf.ttlPath)
    (present : list ∈ ttlFiles conf date) : dateFolder conf date <+: cStr list := by
  rw [cStr_ttlFiles plain present]
  obtain ⟨rest, rfl, -⟩ := mem_ttlFiles present
  exact ⟨rest, by simp [dateFolder]⟩

theorem Lines.of_read (lines : Lines env s) (alike : s.conf.Alike t.conf)
    (read : ∀ date, ∀ list ∈ ttlFiles s.conf date,
      t.files.read list = s.files.read list ∨ t.files.read list = none) : Lines env t := by
  intro date list present
  rw [ttlFiles_alike alike] at present
  cases read date list present with
  | inl same =>
    obtain ⟨items, text, named⟩ := lines date list present
    exact ⟨items, by rw [same, text], fun item inside => (named item inside).of_alike alike⟩
  | inr gone => exact ⟨[], by rw [gone]; rfl, fun item inside => by cases inside⟩

theorem Layout.list_ne (layout : Layout s.conf) (found : s.conf.dirs.lookup subfolder = some d)
    {key : Bytes} (below : d.p <+: key) (present : list ∈ ttlFiles s.conf date) :
    cStr list ≠ key := by
  rintro rfl
  exact (layout.lists subfolder d found date).not_below below
    (dateFolder_below layout.plain present)

theorem Balanced.touch (balanced : Balanced env s) (found : s.conf.dirs.lookup subfolder = some d)
    {path : Bytes} (below : d.p <+: cStr path) {after : Files}
    (same : ∀ key, key ≠ cStr path → after.lookup key = s.files.lookup key)
    (new : ∀ c, after.read path = some c → c ≠ [] ∧ FitsBlocks d.fsBlockSizeB c) {sz : Int}
    (size : sz = occupied after path d.fsBlockSizeB - occupied s.files path d.fsBlockSizeB) :
    Balanced env ({ s with files := after }.incCurrDiskSize subfolder sz) := by
  have alike := State.incCurrDiskSize_alike { s with files := after } subfolder sz
  have files : ({ s with files := after }.incCurrDiskSize subfolder sz).files = after :=
    State.incCurrDiskSize_files _ _ _
  constructor
  · exact balanced.layout.of_alike alike
  · apply balanced.accounted.change balanced.layout found
    · intro other
      rw [State.incCurrDiskSize_lookup, found]
      rfl
    · intro key outside
      rw [files]
      grind
    · rw [files, size]
      exact getDirSize_touched below same _
  · intro other e lookup key content read inside
    rw [files] at read
    by_cases own : key = cStr path
    · subst own
      exact (new content read).1
    · rw [same key own] at read
      obtain ⟨old, before, place, -⟩ := alike.lookup lookup
      rw [← place] at inside
      exact balanced.filled other old before key content read inside
  · intro other e lookup key content read inside
    rw [files] at read
    obtain ⟨old, before, place, blocks⟩ := alike.lookup lookup
    rw [← place] at inside
    rw [← blocks]
    by_cases own : key = cStr path
    · subst own
      by_cases here : other = subfolder
      · subst here
        cases found.symm.trans before
        exact (new content read).2
      · have apart := balanced.layout.apart other old subfolder d before found here
        exact absurd below (apart.not_below inside)
    · rw [same key own] at read
      exact balanced.fits other old before key content read inside
  · apply balanced.lines.of_read alike
    intro date list present
    rw [files]
    exact .inl (same _ (balanced.layout.list_ne found below present))

theorem Balanced.outside (balanced : Balanced env s) {files : Files}
    (inside : ∀ subfolder d, s.conf.dirs.lookup subfolder = some d → ∀ key, d.p <+: key →
      files.lookup key = s.files.lookup key)
    (lines : Lines env { s with files }) : Balanced env { s with files } where
  layout := balanced.layout
  accounted := by
    intro subfolder d found
    rw [balanced.accounted subfolder d found, restartSize, restartSize,
      getDirSize_congr (inside subfolder d found)]
  filled := by
    intro subfolder d found key content read below
    rw [inside subfolder d found key below] at read
    exact balanced.filled subfolder d found key content read below
  fits := by
    intro subfolder d found key content read below
    rw [inside subfolder d found key below] at read
    exact balanced.fits subfolder d found key content read below
  lines := lines

theorem Balanced.remove_outside (balanced : Balanced env s) {files : Files}
    (inside : ∀ subfolder d, s.conf.dirs.lookup subfolder = some d → ∀ key, d.p <+: key →
      files.lookup key = s.files.lookup key)
    (lists : ∀ path, files.read path = s.files.read path ∨ files.read path = none) :
    Balanced env { s with files } := by
  apply balanced.outside inside
  exact balanced.lines.of_read (.refl _) (fun _ list _ => lists list)

end

section

variable {env : Env} {s : State} {subfolder path : Bytes} {d : Directory}

section

variable (balanced : Balanced env s) (found : s.conf.dirs.lookup subfolder = some d)
  (below : d.p <+: cStr path)

include balanced found below

theorem Balanced.sized : ∀ c, s.files.read path = some c → c ≠ [] ∧ FitsBlocks d.fsBlockSizeB c :=
  fun c read => ⟨balanced.filled subfolder d found _ c read below,
    balanced.fits subfolder d found _ c read below⟩

theorem Balanced.removeAccounted {e : Directory} (blocks : e.fsBlockSizeB = d.fsBlockSizeB) :
    Balanced env (removeAccounted s subfolder e path) := by
  obtain ⟨k, power⟩ := balanced.layout.power subfolder d found
  have gone : occupied (s.files.remove path) path d.fsBlockSizeB = 0 := by
    rw [occupied, Files.read_remove_self]
    rfl
  rw [Server.removeAccounted, blocks]
  apply balanced.touch found below
  · intro key apart
    exact lookup_erase_ne apart
  · grind [Files.read_remove_self]
  · rw [gone, getFileSizeFsBlockSize_eq power (fun c read => (balanced.sized found below c read).2),
      zero_sub]

theorem Balanced.removeWithData (data : d.p <+: cStr (path ++ jExtensionName)) :
    Balanced env (removeWithData s subfolder d path) := by
  have first : Balanced env (Server.removeAccounted s subfolder d path) :=
    balanced.removeAccounted found below rfl
  rw [Server.removeWithData]
  split
  · obtain ⟨now, after, place, blocks⟩ :=
      (removeAccounted_alike s subfolder d path).symm.lookup found
    grind [first.removeAccounted]
  · exact first

end

theorem below_segmentPath {folder : Bytes} (noZero : 0 ∉ folder) (rest : Bytes) :
    folder <+: cStr (folder ++ rest) := by
  have seen : cStr (folder ++ rest) = folder ++ cStr rest := by
    rw [cStr, cStr]
    apply takeWhile_append_of_pos
    intro c present
    simp only [decide_eq_true_eq]
    grind
  rw [seen]
  exact prefix_append _ _

theorem Balanced.removeFileByTms (balanced : Balanced env s) (m : Moment) (fileName : Bytes)
    (tms crc32 : Int64) (force : Bool) :
    Balanced env (removeFileByTms env m s fileName tms crc32 force).1 := by
  cases removeFileByTms_cases env m s fileName tms crc32 force with
  | inl same =>
    rw [same]
    exact balanced
  | inr removed =>
    obtain ⟨d, found, removed⟩ := removed
    have noZero : 0 ∉ d.p := (balanced.layout.folder _ d found).noZero
    rw [removed]
    apply balanced.removeWithData found
    · exact below_segmentPath noZero _
    · rw [append_assoc]
      exact below_segmentPath noZero _

end

section

variable {env : Env} {s t : State} {subfolder : Bytes} {d : Directory}

theorem pathIndex_eq (layout : Layout s.conf) (found : s.conf.dirs.lookup subfolder = some d) :
    pathIndex s.conf d.p = some subfolder := by
  have present : ⟨subfolder, d⟩ ∈ s.conf.dirs.entries := mem_lookup_iff.mp found
  rw [pathIndex]
  cases first : s.conf.dirs.entries.find? (fun entry => entry.2.p = d.p) with
  | none =>
    grind
  | some entry =>
    have inside : s.conf.dirs.lookup entry.1 = some entry.2 :=
      mem_lookup_iff.mpr (mem_of_find?_eq_some first)
    have path : entry.2.p = d.p := by
      have named := find?_some first
      rwa [decide_eq_true_eq] at named
    rw [Option.map_some]
    by_contra different
    have apart := layout.apart entry.1 entry.2 subfolder d inside found
      (fun same => different (congrArg some same))
    rw [path] at apart
    exact apart.1 (prefix_refl _)

theorem getFileSizeFsBlockSize_congr {files others : Files} {path : Bytes}
    (same : files.read path = others.read path) (fsBlockSize : Nat) :
    getFileSizeFsBlockSize files path fsBlockSize =
      getFileSizeFsBlockSize others path fsBlockSize := by
  rw [getFileSizeFsBlockSize, getFileSizeFsBlockSize, getFileSize, getFileSize, same]

theorem clearItem_eq (found : s.conf.dirs.lookup subfolder = some d)
    (index : pathIndex s.conf (directoryOf item) = some subfolder) (noZero : 0 ∉ item) :
    (clearItem s item).conf = (removeWithData s subfolder d item).conf ∧
      ∀ key, (clearItem s item).files.lookup key =
        (removeWithData s subfolder d item).files.lookup key := by
  obtain ⟨seen, data, different⟩ := cStr_dataFile noZero
  have apart : cStr (item ++ jExtensionName) ≠ cStr item := by
    grind
  have before : (removeAccounted s subfolder d item).files.read (item ++ jExtensionName) =
      s.files.read (item ++ jExtensionName) := by
    rw [removeAccounted_read, if_neg apart]
  have first : accountRemoval s subfolder item = s.incCurrDiskSize subfolder
      (-toInt32 (getFileSizeFsBlockSize s.files item d.fsBlockSizeB)) := by
    rw [accountRemoval, found]
  have second : accountRemoval (accountRemoval s subfolder item) subfolder
      (item ++ jExtensionName) = (accountRemoval s subfolder item).incCurrDiskSize subfolder
        (-toInt32 (getFileSizeFsBlockSize s.files (item ++ jExtensionName) d.fsBlockSizeB)) := by
    have now : (accountRemoval s subfolder item).conf.dirs.lookup subfolder =
        some (d.incCurrDiskSize (-toInt32 (getFileSizeFsBlockSize s.files item
          d.fsBlockSizeB))) := by
      rw [first, State.incCurrDiskSize_lookup, if_pos rfl, found]
      rfl
    have files : (accountRemoval s subfolder item).files = s.files := by
      rw [first, State.incCurrDiskSize_files]
    rw [accountRemoval, now, files]
    rfl
  have firstConf : (accountRemoval s subfolder item).conf =
      (removeAccounted s subfolder d item).conf := by
    rw [first, removeAccounted]
    apply State.incCurrDiskSize_conf
    rfl
  have firstFiles : (accountRemoval s subfolder item).files = s.files := by
    rw [first, State.incCurrDiskSize_files]
  have exists_ : isFileExists (removeAccounted s subfolder d item).files (item ++ jExtensionName) =
      isFileExists s.files (item ++ jExtensionName) := by
    rw [isFileExists, isFileExists, before]
  rw [clearItem, index, removeWithData]
  simp only [firstFiles, exists_]
  split
  · have size := getFileSizeFsBlockSize_congr before d.fsBlockSizeB
    constructor
    · rw [second, removeAccounted, size]
      apply State.incCurrDiskSize_conf
      exact firstConf
    · intro key
      rw [second, State.incCurrDiskSize_files, firstFiles, removeAccounted,
        State.incCurrDiskSize_files, removeAccounted, State.incCurrDiskSize_files]
  · rename_i missing
    refine ⟨firstConf, fun key => ?_⟩
    rw [firstFiles, removeAccounted, State.incCurrDiskSize_files]
    by_cases own : key = cStr (item ++ jExtensionName)
    · subst own
      have gone : (s.files.remove item).lookup (cStr (item ++ jExtensionName)) = none := by
        have absent : s.files.read (item ++ jExtensionName) = none := by
          simpa [isFileExists] using missing
        rw [← absent]
        exact Files.read_remove_of_ne _ apart
      rw [gone]
      exact lookup_erase _ _
    · exact lookup_erase_ne own

theorem Balanced.clearItem (balanced : Balanced env s) (named : Named env s.conf item) :
    Balanced env (clearItem s item) ∧ s.conf.Alike (clearItem s item).conf := by
  obtain ⟨subfolder, d, name, found, plain, here⟩ := named
  have isFolder := balanced.layout.folder subfolder d found
  have noZero : 0 ∉ item := by
    rw [here]
    exact (segmentPath_plain isFolder plain).1
  have index : pathIndex s.conf (directoryOf item) = some subfolder := by
    rw [here, directoryOf_segmentPath isFolder plain]
    exact pathIndex_eq balanced.layout found
  have below : d.p <+: cStr item := by
    rw [here]
    exact below_segmentPath isFolder.noZero _
  have data : d.p <+: cStr (item ++ jExtensionName) := by
    rw [here, append_assoc]
    exact below_segmentPath isFolder.noZero _
  have removed := balanced.removeWithData found below data
  obtain ⟨conf, files⟩ := clearItem_eq found index noZero
  have same : Balanced env { conf := (Server.removeWithData s subfolder d item).conf
                             files := (Server.clearItem s item).files } := by
    apply removed.remove_outside
    · grind
    · intro path
      exact .inl (files (cStr path))
  rw [← conf] at same
  rw [conf]
  exact ⟨same, removeWithData_alike _ _ _ _⟩

theorem Balanced.clearLines (balanced : Balanced env s) {lines : List Bytes}
    (named : ∀ line ∈ lines, Named env s.conf (trim line)) (removed : List Bytes) :
    Balanced env (clearLines s removed lines) ∧ s.conf.Alike (clearLines s removed lines).conf := by
  induction lines generalizing s removed with
  | nil => exact ⟨balanced, .refl _⟩
  | cons line lines ih =>
    have later : ∀ other ∈ lines, Named env s.conf (trim other) :=
      fun other present => named other (mem_cons_of_mem _ present)
    rw [clearLines_cons]
    split
    · obtain ⟨next, alike⟩ := balanced.clearItem (named line mem_cons_self)
      obtain ⟨last, more⟩ := ih next (fun other present => (later other present).of_alike alike) _
      exact ⟨last, alike.trans more⟩
    · exact ih balanced later removed

theorem Named.line (layout : Layout s.conf) (named : Named env s.conf item) :
    10 ∉ item ∧ trim item = item := by
  obtain ⟨subfolder, d, name, found, plain, rfl⟩ := named
  have isFolder := layout.folder subfolder d found
  exact ⟨(segmentPath_plain isFolder plain).2, trim_segmentPath isFolder plain.ends⟩

theorem Balanced.clearList (balanced : Balanced env s) (present : list ∈ ttlFiles s.conf date) :
    Balanced env (clearList s list) ∧ s.conf.Alike (clearList s list).conf := by
  obtain ⟨items, text, named⟩ := balanced.lines date list present
  have whole : (Disk.readFile s.files list 0).getD [] = listText items := by
    rw [← text, Disk.readFile]
    simp
  have lines := getlines_listText (fun item inside => ((named item inside).line balanced.layout).1)
  rw [Server.clearList, whole, lines]
  apply balanced.clearLines
  intro item inside
  rw [((named item inside).line balanced.layout).2]
  exact named item inside

theorem Balanced.removeAll (balanced : Balanced env s) (date : Date) :
    Balanced env
      { s with files := removeAll s.files (s.conf.ttlPath ++ DateTime.getDate date) } := by
  apply balanced.remove_outside
  · intro subfolder d found key below
    rw [Disk.removeAll, Disk.foldl_erase_lookup, if_neg]
    intro present
    have apart := balanced.layout.lists subfolder d found date
    have named := (mem_filter.mp present).2
    simp only [Bool.decide_or, Bool.or_eq_true, decide_eq_true_eq, isBelow,
      List.isPrefixOf_iff_prefix, append_assoc] at named
    cases named with
    | inl folder =>
      have longer : d.p <+: dateFolder s.conf date := by
        rw [folder] at below
        grind [dateFolder]
      exact apart.1 longer
    | inr inside => exact apart.not_below below inside
  · intro path
    rw [Files.read, Disk.removeAll, Disk.foldl_erase_lookup]
    split
    · exact .inr rfl
    · exact .inl rfl

theorem Balanced.removeDate (balanced : Balanced env s) (date : Date) :
    Balanced env (removeDate s date) := by
  have lists : Balanced env ((ttlFiles s.conf date).foldl Server.clearList s) ∧
      s.conf.Alike ((ttlFiles s.conf date).foldl Server.clearList s).conf := by
    refine foldlRecOn (motive := fun t => Balanced env t ∧ s.conf.Alike t.conf) _ _
      ⟨balanced, .refl _⟩ ?_
    rintro t ⟨balanced, alike⟩ path present
    obtain ⟨next, more⟩ := balanced.clearList (by rw [ttlFiles_alike alike]; exact present)
    exact ⟨next, alike.trans more⟩
  exact lists.1.removeAll date

theorem Balanced.runTtlRemover (balanced : Balanced env s) (now : DateTime) :
    Balanced env (runTtlRemover now s) := by
  refine foldlRecOn (motive := Balanced env) _ _ balanced (fun s balanced date _ => ?_)
  split
  · exact balanced.removeDate date
  · exact balanced

end

end RssDisk.Server
