import RssDisk.Client.Stored
import RssDisk.Server.Frame
import RssDisk.Server.Places

/-!
# Writing a file and reading it back

The request of `write_file` is taken apart by `accept_file`, which stores a header and the content
that was sent. `read_file` of the server sends the stored file back, and the client finds the type,
the time, the sum and the content in it by their positions.
-/

namespace RssDisk.Client

open Lib Bitbase Server List Option BasefuncStd DateTime

/-- The types whose content is stored as it is sent. -/
def plainTypes : List WType :=
  [.insertOnly, .insertOnlyWithoutCompress, .updatable, .updatableWithoutCompress, .appendable]

/-- The raw bytes behind the type. -/
def rawFlags (type : WType) (tms crc32 : Int64) : Bytes :=
  match type with
  | .updatable | .updatableWithoutCompress => i64ToChars tms ++ i64ToChars crc32
  | .appendable => i64ToChars tms
  | _ => []

variable {env : Env} {type : WType} {tms crc32 : Int64}

theorem mem_plainTypes : type ∈ plainTypes ↔ type = .insertOnly ∨
    type = .insertOnlyWithoutCompress ∨ type = .updatable ∨ type = .updatableWithoutCompress ∨
      type = .appendable := by
  simp [plainTypes]

theorem digits_length (plain : type ∈ plainTypes) : type.digits.length = 2 := by
  rcases mem_plainTypes.mp plain with rfl | rfl | rfl | rfl | rfl <;> rfl

theorem flagsOf_eq (plain : type ∈ plainTypes) (typed : type ≠ .insertOnly) (sent : Bytes)
    (tms crc32 : Int64) : flagsOf type sent tms crc32 = type.digits ++ rawFlags type tms crc32 := by
  rcases mem_plainTypes.mp plain with rfl | rfl | rfl | rfl | rfl
  · exact absurd rfl typed
  all_goals simp [flagsOf, rawFlags]

theorem flagsOf_isFlags (plain : type ∈ plainTypes) (sent : Bytes) (tms crc32 : Int64) :
    ∃ head, flagsOf type sent tms crc32 = head ++ rawFlags type tms crc32 ∧
      IsFlags head (rawFlags type tms crc32) := by
  by_cases typed : type = .insertOnly
  · subst typed
    exact ⟨[48], rfl, by decide, .inr ⟨rfl, rfl⟩⟩
  · refine ⟨type.digits, flagsOf_eq plain typed sent tms crc32, ?_⟩
    rcases mem_plainTypes.mp plain with rfl | rfl | rfl | rfl | rfl
    · exact absurd rfl typed
    all_goals
      refine ⟨by decide, .inl ⟨rfl, ?_⟩⟩
      simp only [rawFlags, length_append, i64ToChars_length, length_nil]
      decide

theorem type_of_flags {r : Request} {raw : Bytes} (flags : r.flags = type.digits ++ raw)
    (named : type ≠ .unnamed) : r.type = type := by
  have two : type.digits.length = 2 := by
    cases type <;> first | rfl | exact absurd rfl named
  have long : 2 ≤ r.flags.length := by
    grind
  rw [Request.type, if_pos long, flags, take_left' two, WType.ofText_digits type named]

theorem headers_of_flagsOf (plain : type ∈ plainTypes) {sent : Bytes} {r : Request}
    (flags : r.flags = flagsOf type sent tms crc32) :
    r.headers.1.flatten = type.digits ++ rawFlags type tms crc32 ∧
      (r.type = .appendable ↔ type = .appendable) ∧ r.type ≠ .jdb ∧ r.type ≠ .ajdb := by
  by_cases typed : type = .insertOnly
  · subst typed
    have type : r.type = .none := by
      rw [Request.type, flags]
      rfl
    rw [Request.headers, flags, type]
    exact ⟨rfl, by decide, by decide, by decide⟩
  · rw [flagsOf_eq plain typed] at flags
    rcases mem_plainTypes.mp plain with rfl | rfl | rfl | rfl | rfl
    · exact absurd rfl typed
    all_goals
      have type := type_of_flags flags (by decide)
      rw [Request.headers, flags, type]
      simp [headersOf, rawFlags, WType.digits]

/-- What stands before the number of days in a stored file, behind the mark of its answer. -/
def storedHead (mark : Bytes) (type : WType) (tms crc32 : Int64) (date : Bytes) : Bytes :=
  mark ++ (type.digits ++ rawFlags type tms crc32) ++ date

theorem fetchContent_stored (plain : type ∈ plainTypes) (tms crc32 : Int64)
    {mark date days content : Bytes} (nine : mark.length = 9) (dated : date.length = 19)
    (short : days ≠ [] ∧ days.length ≤ 9) (noSpace : 32 ∉ days) (some : content ≠ []) :
    let ri := fetchContent (storedHead mark type tms crc32 date ++ (days ++ 32 :: content)) 9
    ri.fileType = type ∧ ri.content = content ∧
      ((type = .updatable ∨ type = .updatableWithoutCompress ∨ type = .appendable) →
        ri.fileTms = tms) ∧
      ((type = .updatable ∨ type = .updatableWithoutCompress) → ri.fileCrc32 = crc32) := by
  have named : type ≠ .cdb ∧ type ≠ .unnamed := by
    constructor <;> rintro rfl <;> exact absurd plain (by decide)
  have sized : (rawFlags type tms crc32).length = rawSize type := by
    rcases mem_plainTypes.mp plain with rfl | rfl | rfl | rfl | rfl <;> simp [rawFlags, rawSize]
  obtain ⟨header, fetched⟩ := fetchContent_text nine (f := ⟨type, rawFlags type tms crc32, date,
    days, content, named, sized, dated, short.1, noSpace⟩) short.2 some
  have text : storedHead mark type tms crc32 date ++ (days ++ 32 :: content) = mark ++
      (type.digits ++ rawFlags type tms crc32 ++ date ++ (days ++ 32 :: content)) := by
    simp only [storedHead, append_assoc]
  rw [text]
  unfold Stored.text at fetched
  rw [fetched]
  have whole (n : Int64) : (i64ToChars n).take 8 = i64ToChars n :=
    take_of_length_le (by rw [i64ToChars_length])
  rcases mem_plainTypes.mp plain with rfl | rfl | rfl | rfl | rfl <;>
    simp [Stored.info, rawFlags, rawSize, whole, take_left' (i64ToChars_length tms),
      drop_left' (i64ToChars_length tms)]

/-- What changes from one write of a file to the next. -/
structure Write where
  moment : Moment
  content : Bytes
  ttl : Int
  tms : Int64
  crc32 : Int64

namespace Write

/-- The request that `write_file` sends, as the server gets it. -/
def call (env : Env) (type : WType) (name : Bytes) (w : Write) : Option Call :=
  (writeRequest env type name w.content w.ttl w.tms w.crc32).map (fun content =>
    { moment := w.moment, content })

/-- The content as it is sent and stored. -/
def sent (env : Env) (type : WType) (w : Write) : Bytes :=
  if isSentRaw type then w.content else env.compress w.content

/-- The request of a write with a content: its line and what is sent. -/
def sentCall (env : Env) (type : WType) (name : Bytes) (w : Write) : Call where
  moment := w.moment
  content := lineText [97, 117, 116, 104] name (toString w.ttl)
    (flagsOf type (w.sent env type) w.tms w.crc32) ++ w.sent env type

/-- A write with a content and a number of days of at most nine characters, whose list of files to
remove is another file. -/
structure Ok (conf : ServerConf) (path : Bytes) (w : Write) : Prop where
  content : w.content ≠ []
  days : (BasefuncStd.toString w.ttl).length ≤ 9
  apart : 0 < w.ttl → ∀ list ∈ ttlFiles conf (addDays w.moment.now w.ttl).date,
    cStr path ≠ cStr list

theorem Ok.alike {a b : ServerConf} {path : Bytes} {w : Write} (ok : w.Ok a path)
    (alike : a.Alike b) : w.Ok b path := by
  refine ⟨ok.content, ok.days, ?_⟩
  rw [alike.rest]
  exact ok.apart

variable {name path : Bytes} {w : Write} {s : State}

theorem sent_ne_nil (zlib : env.ZlibInverse) (type : WType) (content : w.content ≠ []) :
    w.sent env type ≠ [] := by
  unfold sent
  split
  · exact content
  · intro nothing
    have back := zlib w.content
    rw [nothing] at back
    exact content back.symm

theorem call_eq (zlib : env.ZlibInverse) (type : WType) (name : Bytes) (content : w.content ≠ []) :
    w.call env type name = some (w.sentCall env type name) := by
  have sends : sentContent env type w.content = some (w.sent env type) := by
    rw [sentContent, if_neg content]
    exact if_neg (sent_ne_nil zlib type content)
  rw [call, writeRequest, sends, map_some, map_some, sentCall, lineText]
  simp only [append_assoc, cons_append, nil_append]

theorem request_eq (env : Env) (plain : type ∈ plainTypes) (noSpace : 32 ∉ name) (w : Write)
    (conf : ServerConf) :
    ((w.sentCall env type name).request env conf).fileName = name ∧
      ((w.sentCall env type name).request env conf).ttlDays = BasefuncStd.toString w.ttl ∧
      ((w.sentCall env type name).request env conf).flags =
        flagsOf type (w.sent env type) w.tms w.crc32 ∧
      (w.sentCall env type name).body env conf = w.sent env type := by
  obtain ⟨head, flags, isFlags⟩ := flagsOf_isFlags plain (w.sent env type) w.tms w.crc32
  have taken : (w.sentCall env type name).request env conf = readRequest none 0
      (lineText [97, 117, 116, 104] name (toString w.ttl)
        (head ++ rawFlags type w.tms w.crc32) ++ w.sent env type) {} := by
    rw [← flags]
    rfl
  rw [readRequest_line (w.sent env type) (by decide) (by decide) noSpace
    (space_not_mem_toString w.ttl) isFlags (.inl rfl)] at taken
  have body : (w.sentCall env type name).body env conf =
      (w.sentCall env type name).content.drop
        (((w.sentCall env type name).request env conf).startContentFrom + 1) := rfl
  rw [taken] at body ⊢
  refine ⟨rfl, rfl, flags.symm, body.trans ?_⟩
  rw [sentCall, flags]
  exact drop_lineText _ _ _ _ _

theorem stored (zlib : env.ZlibInverse) (plain : type ∈ plainTypes) (noSpace : 32 ∉ name)
    (place : pathOf env s.conf name = some path) (fits : w.Ok s.conf path) {call : Call}
    (called : w.call env type name = some call) (ok : (call.run env s).response.status = .ok) :
    (call.run env s).state.files.read path = some
      ((if type = .appendable ∧ Disk.isFileExists s.files path then (s.files.read path).getD []
      else type.digits ++ rawFlags type w.tms w.crc32 ++ getDateTime w.moment.now ++
        (BasefuncStd.toString w.ttl ++ [32])) ++ w.sent env type) := by
  rw [call_eq zlib type name fits.content] at called
  obtain rfl := Option.some.inj called
  obtain ⟨fileName, days, flags, body⟩ := request_eq env plain noSpace w s.conf
  obtain ⟨headers, appends, jdb, ajdb⟩ := headers_of_flagsOf plain flags
  have ttl : ((w.sentCall env type name).request env s.conf).ttl = w.ttl := by
    rw [Request.ttl, days, stoi_toString (toString_range fits.days)]
    rfl
  have written := Call.run_read_content (by rw [fileName]; exact place) (by
    intro positive list present
    rw [ttl] at positive present
    exact fits.apart positive list present) ⟨jdb, ajdb⟩
    (by rw [body]; exact sent_ne_nil zlib type fits.content) ok
  rw [written, body]
  have header :
      (w.sentCall env type name).header env s.conf = type.digits ++ rawFlags type w.tms w.crc32 ++
      getDateTime w.moment.now ++ (BasefuncStd.toString w.ttl ++ [32]) := by
    rw [Call.header, Request.headerText, Disk.headerText, headers, ttl]
    simp only [append_assoc]
    rfl
  simp only [appends, header]

end Write

/-- The server after some writes of a file that all are answered `ok`. -/
def writeAll (env : Env) (type : WType) (name : Bytes) : State → List Write → Option State
  | s, [] => some s
  | s, w :: writes =>
    match w.call env type name with
    | some call =>
      if (call.run env s).response.status = .ok then
        writeAll env type name (call.run env s).state writes
      else none
    | none => none

variable {name path : Bytes} {s t : State}

theorem writeAll_cons {w : Write} {writes : List Write}
    (written : writeAll env type name s (w :: writes) = some t) :
    ∃ call, w.call env type name = some call ∧ (call.run env s).response.status = .ok ∧
      writeAll env type name (call.run env s).state writes = some t := by
  rw [writeAll] at written
  split at written
  · rename_i call called
    split at written
    · exact ⟨call, called, by assumption, written⟩
    · cases written
  · cases written

theorem writeAll_alike {writes : List Write}
    (written : writeAll env type name s writes = some t) : s.conf.Alike t.conf := by
  induction writes generalizing s with
  | nil =>
    cases written
    exact .refl _
  | cons w writes ih =>
    obtain ⟨call, _, _, rest⟩ := writeAll_cons written
    exact acceptFile_alike.trans (ih rest)

theorem writeAll_appended (zlib : env.ZlibInverse) (noSpace : 32 ∉ name)
    (place : pathOf env s.conf name = some path) {writes : List Write}
    (fits : ∀ w ∈ writes, w.Ok s.conf path) {content : Bytes}
    (held : s.files.read path = some content)
    (written : writeAll env .appendable name s writes = some t) :
    t.files.read path = some (content ++ writes.flatMap Write.content) := by
  induction writes generalizing s content with
  | nil =>
    cases written
    rw [held, flatMap_nil, append_nil]
  | cons w writes ih =>
    obtain ⟨call, called, ok, rest⟩ := writeAll_cons written
    have alike : s.conf.Alike (call.run env s).state.conf := acceptFile_alike
    have grown := Write.stored zlib (by decide) noSpace place (fits w mem_cons_self) called ok
    rw [if_pos ⟨rfl, by rw [Disk.isFileExists, held]; rfl⟩, held, getD_some] at grown
    have result := ih (by rw [← pathOf_alike env alike]; exact place)
      (fun other present => (fits other (mem_cons_of_mem _ present)).alike alike) grown rest
    rw [result, flatMap_cons, append_assoc]
    rfl

theorem writeAll_stored (zlib : env.ZlibInverse) (plain : type ∈ plainTypes) (noSpace : 32 ∉ name)
    (place : pathOf env s.conf name = some path) (fresh : s.files.read path = none)
    {first : Write} {more : List Write} (only : more ≠ [] → type = .appendable)
    (fits : ∀ w ∈ first :: more, w.Ok s.conf path)
    (written : writeAll env type name s (first :: more) = some t) :
    t.files.read path = some (storedHead [] type first.tms first.crc32
      (getDateTime first.moment.now) ++ (BasefuncStd.toString first.ttl ++
        32 :: (first :: more).flatMap (Write.sent env type))) := by
  obtain ⟨call, called, ok, rest⟩ := writeAll_cons written
  have alike : s.conf.Alike (call.run env s).state.conf := acceptFile_alike
  have stored := Write.stored zlib plain noSpace place (fits first mem_cons_self) called ok
  have absent : ¬ (type = .appendable ∧ Disk.isFileExists s.files path = true) := by
    rw [Disk.isFileExists, fresh]
    simp
  rw [if_neg absent] at stored
  cases more with
  | nil =>
    cases rest
    rw [stored]
    simp only [storedHead, flatMap_cons, flatMap_nil, append_assoc, cons_append,
      nil_append, append_nil]
  | cons second others =>
    obtain rfl := only (cons_ne_nil _ _)
    rw [writeAll_appended zlib noSpace (by rw [← pathOf_alike env alike]; exact place)
      (fun w present => (fits w (mem_cons_of_mem _ present)).alike alike) stored rest]
    simp only [flatMap_cons, append_assoc, cons_append, nil_append]
    rfl

theorem decompressed_sent (zlib : env.ZlibInverse)
    (ownByte : ∀ text, text ≠ [] → (env.compress text).head? = some 120)
    (plain : type ∈ plainTypes) {first : Write} {more : List Write}
    (only : more ≠ [] → type = .appendable) (content : first.content ≠ []) {ri : ReadInfo}
    (isType : ri.fileType = type)
    (stored : ri.content = (first :: more).flatMap (Write.sent env type)) :
    decompressed env ri = (first :: more).flatMap Write.content := by
  by_cases raw : isSentRaw type = true
  · have sent : Write.sent env type = Write.content := by
      funext w
      rw [Write.sent, if_pos raw]
    rw [sent] at stored
    have some : ri.content ≠ [] := by
      rw [stored, flatMap_cons]
      exact append_ne_nil_of_left_ne_nil content _
    rw [decompressed, if_neg some, isType, ← stored]
    rcases mem_plainTypes.mp plain with rfl | rfl | rfl | rfl | rfl
    · cases raw
    · rfl
    · cases raw
    · rfl
    · rfl
  · have single : more = [] := by
      by_contra others
      rw [only others] at raw
      exact raw rfl
    subst single
    have sent : ri.content = env.compress first.content := by
      rw [stored, flatMap_cons, flatMap_nil, append_nil, Write.sent, if_neg raw]
    have starts := ownByte first.content content
    have some : ri.content ≠ [] := by
      intro nothing
      rw [← sent, nothing] at starts
      cases starts
    have unmarked : ri.content.take 3 ≠ jdbText := by
      intro marked
      have byte := congrArg List.head? marked
      rw [sent] at byte
      cases compressed : env.compress first.content with
      | nil =>
        grind
      | cons c rest =>
        rw [compressed] at starts byte
        grind [jdbText]
    have unpacked : env.decompressString ri.content = first.content := by rw [sent, zlib]
    rw [decompressed, if_neg some, isType, flatMap_cons, flatMap_nil, append_nil]
    rcases mem_plainTypes.mp plain with rfl | rfl | rfl | rfl | rfl
    · simp only [unmarked, ↓reduceIte, unpacked]
    · exact absurd rfl raw
    · simp only [unmarked, ↓reduceIte, unpacked]
    · exact absurd rfl raw
    · exact absurd rfl raw

theorem readFile_file {m : Moment} (noMark : ¬ jdbMark <:+: (splitSubfolder name).2)
    (place : pathOf env s.conf name = some path) {content : Bytes} (some : content ≠ [])
    (held : s.files.read path = .some content) (enabled : s.conf.enableRead = true)
    (free : m.busy (segmentPath env (splitSubfolder name).2) = false)
    (reads : m.reads path = true) (ro : JManager.ReadOptions) :
    readFile env m s name ro = (.ok, content) := by
  have whole : splitQuery [] (splitSubfolder name).2 = ((splitSubfolder name).2, none) :=
    splitQuery_requestText noMark none
  rw [pathOf, map_eq_some_iff] at place
  obtain ⟨d, found, here⟩ := place
  have exists' : Disk.isFileExists s.files path = true := by
    rw [Disk.isFileExists, held]
    rfl
  unfold readFile
  simp only [whole, free, enabled, found, here, exists', reads, Disk.readFile, held, some,
    Bool.false_eq_true, Bool.not_true, ↓reduceIte, ne_eq, not_true_eq_false, map_some,
    getD_some, not_false_eq_true]

/-- A file that is written under a fresh name and read back: the type, the time and the sum as far
as the type stores them, and the content; files that are appended to give the contents of all
writes. -/
theorem write_read_back (zlib : env.ZlibInverse)
    (ownByte : ∀ text, text ≠ [] → (env.compress text).head? = some 120)
    (plain : type ∈ plainTypes) (noSpace : 32 ∉ name)
    (noMark : ¬ jdbMark <:+: (splitSubfolder name).2)
    (place : pathOf env s.conf name = some path) (fresh : s.files.read path = none)
    {first : Write} {more : List Write} (only : more ≠ [] → type = .appendable)
    (fits : ∀ w ∈ first :: more, w.Ok s.conf path)
    (written : writeAll env type name s (first :: more) = some t)
    (enabled : s.conf.enableRead = true) {m : Moment}
    (free : m.busy (segmentPath env (splitSubfolder name).2) = false)
    (reads : m.reads path = true) (ro : JManager.ReadOptions) {mark : Bytes}
    (nine : mark.length = 9) (answered : (mark.drop 2).take 2 = [48, 49]) :
    (readFile env m t name ro).1 = .ok ∧
      ∃ ri, readReply env (mark ++ (readFile env m t name ro).2) = some ri ∧ ri.fileType = type ∧
        ((type = .updatable ∨ type = .updatableWithoutCompress ∨ type = .appendable) →
          ri.fileTms = first.tms) ∧
        ((type = .updatable ∨ type = .updatableWithoutCompress) →
          ri.fileCrc32 = first.crc32) ∧
        ri.content = (first :: more).flatMap Write.content := by
  have alike := writeAll_alike written
  have stored := writeAll_stored zlib plain noSpace place fresh only fits written
  have content := (fits first mem_cons_self).content
  have sends : (first :: more).flatMap (Write.sent env type) ≠ [] := by
    rw [flatMap_cons]
    exact append_ne_nil_of_left_ne_nil (Write.sent_ne_nil zlib type content) _
  have read := readFile_file noMark (by rw [← pathOf_alike env alike]; exact place)
    (by simp) stored (by rw [alike.rest]; exact enabled) free reads ro
  have dated := getDateTime_length first.moment.calendar
  have parts := fetchContent_stored plain first.tms first.crc32 nine dated
    ⟨BasefuncStd.toString_ne_nil _, (fits first mem_cons_self).days⟩
    (BasefuncStd.space_not_mem_toString first.ttl) sends
  rw [read]
  refine ⟨rfl, ?_⟩
  have message (rest : Bytes) : mark ++ (storedHead [] type first.tms first.crc32
      (getDateTime first.moment.now) ++ rest) = storedHead mark type first.tms
        first.crc32 (getDateTime first.moment.now) ++ rest := by
    simp only [storedHead, append_assoc, nil_append]
  rw [message]
  have long : 32 < (storedHead mark type first.tms first.crc32
      (getDateTime first.moment.now) ++ (BasefuncStd.toString first.ttl ++
        32 :: (first :: more).flatMap (Write.sent env type))).length := by
    have sent := length_pos_iff.mpr sends
    have days := length_pos_iff.mpr (BasefuncStd.toString_ne_nil first.ttl)
    have two := digits_length plain
    simp only [storedHead, length_append, length_cons, nine, dated, two]
    omega
  have status (rest : Bytes) : ((storedHead mark type first.tms first.crc32
      (getDateTime first.moment.now) ++ rest).drop 2).take 2 = [48, 49] := by
    rw [← message, drop_append_of_le_length (by omega),
      take_append_of_le_length (by rw [length_drop]; omega), answered]
  obtain ⟨isType, isContent, isTms, isCrc⟩ := parts
  have unpacked := decompressed_sent zlib ownByte plain only content isType isContent
  have whole : (first :: more).flatMap Write.content ≠ [] := by
    rw [flatMap_cons]
    exact append_ne_nil_of_left_ne_nil content _
  refine ⟨{ fetchContent _ 9 with content := (first :: more).flatMap Write.content }, ?_, isType,
    isTms, isCrc, rfl⟩
  rw [readReply, if_pos ⟨long, status _⟩]
  simp only [unpacked, whole, ↓reduceIte]

/-- A write to the sample server, with a time whose bytes are spaces. -/
def sampleWrite (content : Bytes) : Write where
  moment := sampleMoment
  content := content
  ttl := 0
  tms := 2314885530818453536
  crc32 := 0

/-- Two contents that are appended to one file are read back. -/
theorem write_read_back_sample :
    ∃ t ri, writeAll Reference.env .appendable [97] sampleState
        [sampleWrite [32, 104], sampleWrite [105]] = some t ∧
      readReply Reference.env ([48, 50, 48, 49, 49, 48, 48, 48, 48] ++
        (readFile Reference.env sampleMoment t [97] {}).2) = some ri ∧
      ri.fileTms = 2314885530818453536 ∧ ri.content = [32, 104, 105] := by
  have all : (writeAll Reference.env .appendable [97] sampleState
      [sampleWrite [32, 104], sampleWrite [105]]).isSome = true := by decide +kernel
  obtain ⟨t, written⟩ := isSome_iff_exists.mp all
  have fits : ∀ w ∈ [sampleWrite [32, 104], sampleWrite [105]],
      w.Ok sampleState.conf (samplePathOf [97]) := by
    intro w present
    have cases : w = sampleWrite [32, 104] ∨ w = sampleWrite [105] := by simpa using present
    rcases cases with rfl | rfl
    · exact ⟨by decide, by decide, fun positive => absurd positive (by decide)⟩
    · exact ⟨by decide, by decide, fun positive => absurd positive (by decide)⟩
  obtain ⟨_, ri, reply, _, tms, _, content⟩ := write_read_back Reference.env_lawful.zlib
    (fun _ _ => rfl) (by decide) (by decide) (by decide) (by decide : pathOf Reference.env
      sampleState.conf [97] = some (samplePathOf [97])) (by decide) (fun _ => rfl) fits written
    (by decide) (rfl : sampleMoment.busy _ = false) rfl {}
    (rfl : ([48, 50, 48, 49, 49, 48, 48, 48, 48] : Bytes).length = 9) rfl
  exact ⟨t, ri, written, reply, tms (.inr (.inr rfl)), content⟩

/-- A name with the mark of a query: the file is written, and `read_file` looks for another one. -/
theorem write_read_back_marked :
    (writeAll Reference.env .appendable ([97] ++ jdbMark) sampleState
      [sampleWrite [104]]).any (fun t =>
        (readFile Reference.env sampleMoment t ([97] ++ jdbMark) {}).1 = .fileNotFound) = true := by
  decide +kernel

end RssDisk.Client
