import RssDisk.Server.Balance

/-!
# What a list of files to remove is read as

`accept_file` puts the path of a file on a list as one line. `run_ttl_remover` splits the list at
line breaks, trims every line, and takes the directory of the file from the parts of the line: all
but the last two of them, counted without a sign. A name may hold any byte but a space, so it may
break its line or end in white space, and then other files are removed than those that were listed.
-/

namespace RssDisk.Server

open Lib Disk List BasefuncStd

/-- A file with a number of days, as `accept_file` puts it on a list. -/
structure Listing where
  moment : Moment
  request : Request
  d : Directory
  name : Bytes

namespace Listing

variable (env : Env)

def path (w : Listing) : Bytes := w.d.p ++ segmentPath env w.name

/-- The days of the file end on a date, whose list can be opened. -/
structure Expires (conf : ServerConf) (date : Date) (w : Listing) : Prop where
  positive : 0 < w.request.ttl
  day : (DateTime.addDays w.moment.now w.request.ttl).date = date
  opens : w.moment.opens (ttlFile conf date) = true
  folder : IsFolder w.d.p

/-- The files after some files were listed one after the other. -/
def listAll (conf : ServerConf) (files : Files) (writes : List Listing) : Files :=
  writes.foldl (fun files w => (listFile w.moment conf files (w.path env) w.request false).1) files

variable {env} {conf : ServerConf} {date : Date}

theorem listFile_eq {w : Listing} (expires : w.Expires conf date) (files : Files) :
    (listFile w.moment conf files (w.path env) w.request false).1 =
      files.append (ttlFile conf date) (w.path env ++ [10]) := by
  rw [listFile, if_pos ⟨expires.positive, rfl⟩, ttlFiles, expires.day, appendToFirst,
    if_pos expires.opens]

theorem read_listAll {writes : List Listing} (expires : ∀ w ∈ writes, w.Expires conf date)
    (files : Files) :
    ((listAll env conf files writes).read (ttlFile conf date)).getD [] =
      (files.read (ttlFile conf date)).getD [] ++ listText (writes.map (path env)) := by
  induction writes generalizing files with
  | nil => simp [listAll, listText]
  | cons w writes ih =>
    have rest := ih (fun other present => expires other (mem_cons_of_mem _ present))
      (files.append (ttlFile conf date) (w.path env ++ [10]))
    rw [listAll] at rest
    rw [listAll, foldl_cons, listFile_eq (expires w mem_cons_self), rest,
      Files.read_append_self]
    simp [listText]

end Listing

/-- The items of some lines for which `f_clear` removes a file, besides those already removed. -/
def processed (removed : List Bytes) : List Bytes → List Bytes
  | [] => []
  | line :: lines =>
    if trim line ∉ removed ∧ trim line ≠ [] then
      trim line :: processed (trim line :: removed) lines
    else processed removed lines

@[simp]
theorem processed_nil (removed : List Bytes) : processed removed [] = [] := rfl

theorem processed_cons (removed : List Bytes) (line : Bytes) (lines : List Bytes) :
    processed removed (line :: lines) =
      if trim line ∉ removed ∧ trim line ≠ [] then
        trim line :: processed (trim line :: removed) lines
      else processed removed lines := rfl

theorem clearLines_eq (s : State) (removed lines : List Bytes) :
    clearLines s removed lines = (processed removed lines).foldl clearItem s := by
  induction lines generalizing s removed with
  | nil => rfl
  | cons line lines ih =>
    rw [clearLines_cons, processed_cons]
    split
    · rw [ih, foldl_cons]
    · exact ih s removed

theorem mem_processed {removed lines : List Bytes} {item : Bytes} :
    item ∈ processed removed lines ↔
      item ∉ removed ∧ item ≠ [] ∧ ∃ line ∈ lines, trim line = item := by
  induction lines generalizing removed with
  | nil => simp
  | cons line lines ih =>
    rw [processed_cons]
    by_cases own : trim line = item
    · subst own
      by_cases fresh : trim line ∉ removed ∧ trim line ≠ []
      · simp [fresh]
      · rw [if_neg fresh, ih]
        tauto
    · split <;> simp [ih, own, Ne.symm own]

theorem nodup_processed (removed lines : List Bytes) : (processed removed lines).Nodup := by
  induction lines generalizing removed with
  | nil => exact nodup_nil
  | cons line lines ih =>
    rw [processed_cons]
    split
    · exact nodup_cons.mpr ⟨fun again => (mem_processed.mp again).1 mem_cons_self, ih _⟩
    · exact ih removed

/-- The loop over the parts of an item reads only parts that there are: `exp.size() - 2` is a
`std::size_t`. -/
def PartsInside (item : Bytes) : Prop :=
  ∀ i < sizeSub (split item 47).length 2, i < (split item 47).length

/-- What `f_clear` does with the list in which some paths were written. -/
structure Faithful (lines paths : List Bytes) : Prop where
  same : ∀ item, item ∈ processed [] lines ↔ item ∈ paths
  once : (processed [] lines).Nodup
  inside : ∀ item ∈ processed [] lines, PartsInside item

theorem not_mem_getlines {delim : UInt8} {line text : Bytes} (whole : delim ∉ line) :
    ∀ other ∈ getlines delim line text, delim ∉ other := by
  fun_induction getlines delim line text with
  | case1 => simp
  | case2 line some => simpa using whole
  | case3 line text ih =>
    intro other present
    rcases mem_cons.mp present with rfl | later
    · exact whole
    · exact ih not_mem_nil other later
  | case4 line c text apart ih => exact ih (by simp [whole, Ne.symm apart])

theorem getlines_ne_nil {delim : UInt8} {line text : Bytes} (some : line ≠ [] ∨ text ≠ []) :
    getlines delim line text ≠ [] := by
  fun_induction getlines delim line text with
  | case1 => simp at some
  | case2 line some => exact cons_ne_nil _ _
  | case3 line text ih => exact cons_ne_nil _ _
  | case4 line c text apart ih => exact ih (.inl (by simp))

theorem trim_suffix (text : Bytes) :
    trim text <:+ (text.reverse.dropWhile isSpace).reverse := dropWhile_suffix _

theorem mem_of_mem_trim {text : Bytes} {c : UInt8} (inside : c ∈ trim text) : c ∈ text := by
  have kept := (trim_suffix text).subset inside
  rw [mem_reverse] at kept
  exact mem_reverse.mp ((dropWhile_sublist _).subset kept)

theorem getLast_trim {text : Bytes} {c : UInt8} (last : (trim text).getLast? = some c) :
    isSpace c = false := by
  obtain ⟨front, whole⟩ := trim_suffix text
  have end_ := congrArg List.getLast? whole
  rw [getLast?_append, last, getLast?_reverse] at end_
  have first := head?_dropWhile_not isSpace text.reverse
  rw [← end_] at first
  simpa using first

section

variable {env : Env} {folder name : Bytes}

theorem partsInside_segmentPath (isFolder : IsFolder folder) :
    PartsInside (folder ++ segmentPath env name) := by
  obtain ⟨rest, rfl⟩ := isFolder.slash
  intro i low
  have more : getlines 47 [] (rest ++ segmentPath env name) ≠ [] :=
    getlines_ne_nil (.inr (by simp [segmentPath]))
  have size := length_pos_iff.mpr more
  rw [split, cons_append, getlines, if_pos rfl, length_cons] at low ⊢
  unfold sizeSub at low
  omega

theorem break_segmentPath (isFolder : IsFolder folder) :
    10 ∈ folder ++ segmentPath env name ↔ 10 ∈ name := by
  have segment : 10 ∉ BasefuncStd.toString (getSegmentFolder env name) :=
    fun break_ => (segment_plain _ break_).2.2 rfl
  simp [segmentPath, isFolder.noBreak, segment]

end

/-- `run_ttl_remover` removes exactly the files that were listed, each once, if and only if no name
holds a line break or ends in white space. -/
theorem listing_faithful_iff {env : Env} {conf : ServerConf} {date : Date} {files : Files}
    {writes : List Listing} (expires : ∀ w ∈ writes, w.Expires conf date)
    (fresh : files.read (ttlFile conf date) = none) :
    Faithful (linesOf (Listing.listAll env conf files writes) (ttlFile conf date))
        (writes.map (Listing.path env)) ↔
      ∀ w ∈ writes, 10 ∉ w.name ∧ ∀ c ∈ w.name.getLast?, isSpace c = false := by
  have text : ((Listing.listAll env conf files writes).read (ttlFile conf date)).getD [] = _ :=
    Listing.read_listAll expires files
  rw [fresh, Option.getD_none, nil_append] at text
  rw [linesOf, text]
  constructor
  · intro faithful w member
    have item := (faithful.same (w.path env)).mpr (mem_map_of_mem member)
    obtain ⟨-, -, line, present, trimmed⟩ := mem_processed.mp item
    have whole := not_mem_getlines not_mem_nil line present
    refine ⟨fun break_ => whole (mem_of_mem_trim ?_), fun c last => @getLast_trim line c ?_⟩
    · rw [trimmed]
      exact (break_segmentPath (expires w member).folder).mpr break_
    · rw [trimmed, Listing.path, segmentPath, getLast?_append, getLast?_append,
        getLast?_cons, Option.mem_def.mp last]
      rfl
  · intro plain
    have trimmed : ∀ item ∈ writes.map (Listing.path env), trim item = item := by
      intro item member
      obtain ⟨w, there, rfl⟩ := mem_map.mp member
      exact trim_segmentPath (expires w there).folder (plain w there).2
    have lines : getlines 10 [] (listText (writes.map (Listing.path env))) =
        writes.map (Listing.path env) := by
      apply getlines_listText
      intro item member break_
      obtain ⟨w, there, rfl⟩ := mem_map.mp member
      exact (plain w there).1 ((break_segmentPath (expires w there).folder).mp break_)
    rw [lines]
    have same (item : Bytes) : item ∈ processed [] (writes.map (Listing.path env)) ↔
        item ∈ writes.map (Listing.path env) := by
      rw [mem_processed]
      constructor
      · rintro ⟨-, -, line, present, rfl⟩
        rwa [trimmed line present]
      · intro present
        refine ⟨not_mem_nil, ?_, item, present, trimmed item present⟩
        obtain ⟨w, -, rfl⟩ := mem_map.mp present
        simp [Listing.path, segmentPath]
    refine ⟨same, nodup_processed _ _, fun item member => ?_⟩
    obtain ⟨w, there, rfl⟩ := mem_map.mp ((same item).mp member)
    exact partsInside_segmentPath (expires w there).folder

/-- A file of one day in the directory of the sample server. -/
def sampleListing (name : Bytes) : Listing :=
  ⟨sampleMoment, { ttlDays := [49] }, { p := [47, 100, 47] }, name⟩

theorem sampleListing_expires (name : Bytes) :
    (sampleListing name).Expires sampleState.conf ⟨2024, 1, 2⟩ :=
  ⟨show 0 < ({ ttlDays := [49] } : Request).ttl by decide,
    show (DateTime.addDays sampleMoment.now ({ ttlDays := [49] } : Request).ttl).date = _ by decide,
    rfl, show IsFolder [47, 100, 47] from ⟨⟨[[100]], by decide, rfl⟩, by decide, by decide⟩⟩

/-- A name with a tab inside, and one that is listed twice. -/
theorem listing_faithful_iff_tab :
    let writes := [[97, 9, 98], [97], [97]].map sampleListing
    Faithful (linesOf (Listing.listAll Reference.env sampleState.conf ∅ writes)
        (ttlFile sampleState.conf ⟨2024, 1, 2⟩))
      (writes.map (Listing.path Reference.env)) := by
  refine (listing_faithful_iff (fun w member => ?_) rfl).mpr ?_
  · grind [sampleListing_expires]
  · simp [sampleListing, isSpace]

/-- The second half of the name `b\nc` is taken for a path. It has one part, and the loop over all
parts but two does not end at it. -/
theorem listing_breaks_line :
    let w := sampleListing [98, 10, 99]
    let lines := linesOf (Listing.listAll Reference.env sampleState.conf ∅ [w])
      (ttlFile sampleState.conf ⟨2024, 1, 2⟩)
    w.path Reference.env ∉ processed [] lines ∧ [99] ∈ processed [] lines ∧
      ¬ PartsInside [99] := by
  refine ⟨by decide +kernel, by decide +kernel, fun inside => ?_⟩
  exact absurd (inside 1 (by decide)) (by decide)

end RssDisk.Server
