import RssDisk.Client.Events
import RssDisk.Client.RoundTrip
import RssDisk.Server.Handler

/-!
# Commands of the client

`client::command` sends a request to some servers and gathers what their answers tell. An answer
that is not longer than 32 bytes is passed over for most kinds of commands, since a file and a value
of the database of keys come with headers that make up for this length. The events of
`read_edb_events` come without such a header, and a single short event is lost.
-/

namespace RssDisk.Client

open Lib Bitbase Server List DateTime

inductive ReadInfoType where
  | fileExists
  | fileInfo
  | removeFile
  | getFiles
  | readFiles
  | readFilesMany
  | readFilesManyComressed
  | readFileTmsNewest
  | readCdb
  | readCdbTmsNewest
  | readCdbAll
  | readEdbEvents
deriving DecidableEq, Repr

/-- The type of the request of a command. -/
def ReadInfoType.request : ReadInfoType → Int
  | .readFiles | .readFileTmsNewest => 2
  | .readFilesMany => 9
  | .readFilesManyComressed => 29
  | .getFiles => 6
  | .fileInfo => 7
  | .removeFile => 8
  | .readCdb | .readCdbTmsNewest => 20
  | .readCdbAll => 21
  | .readEdbEvents => 31
  | .fileExists => 1

variable (env : Env)

/-- What `command` takes from the answer to `file_info`. -/
def fileInfoOf (text : Bytes) : ReadInfo :=
  let field (start size : Nat) : Bytes := (text.drop start).take size
  let days (start : Nat) : Int := ((BasefuncStd.stoi (text.drop start)).map toInt16).getD (-1)
  let fileType := if 2 ≤ text.length then WType.ofText (text.take 2) else .insertOnly
  match fileType with
  | .none => { fileType }
  | .jdbData =>
    if 6 ≤ text.length then { fileType, fileCrc32 := charsToI64 (field 2 4) } else { fileType }
  | .updatable | .updatableWithoutCompress | .jdb | .ajdb =>
    if 18 ≤ text.length then
      let ri : ReadInfo :=
        { fileType, fileTms := charsToI64 (field 2 8), fileCrc32 := charsToI64 (field 10 8) }
      if 38 ≤ text.length then
        { ri with fileCreated := parseDateTime (field 18 19), ttlDays := days 37 }
      else ri
    else { fileType }
  | _ =>
    if 22 ≤ text.length then
      { fileType, fileCreated := parseDateTime (field 2 19), ttlDays := days 21 }
    else { fileType }

/-- What `command` adds for an answer with its identifier. -/
def commandInfo (rType : ReadInfoType) (message : Bytes) : Option ReadInfo :=
  if (message.drop 2).take 2 = [48, 49] then
    match rType with
    | .fileInfo => some (fileInfoOf (message.drop 9))
    | .getFiles =>
      some { content :=
        if 9 < message.length then env.decompressString (message.drop 9) else message.drop 9 }
    | .readCdbAll => some { content := message.drop 9 }
    | .readFiles | .readFileTmsNewest | .readCdb | .readCdbTmsNewest =>
      if 32 < message.length then
        let ri := fetchContent message 9
        some { ri with content := decompressed env ri }
      else none
    | .readFilesMany | .readFilesManyComressed | .readEdbEvents =>
      if 32 < message.length then some { content := message.drop 9 } else none
    | .fileExists | .removeFile => some {}
  else none

/-- The callback of `command`: `none` for a message that is not counted, and else what is added. -/
def commandAnswer (rType : ReadInfoType) (identy message : Bytes) : Option (Option ReadInfo) :=
  if 9 ≤ message.length ∧ (message.drop 4).take 5 = identy then some (commandInfo env rType message)
  else none

/-- The body of a stored file, or of what is selected from it, for a content: as it is for the types
without compression and for a whole database, compressed else. -/
def Packs (type : WType) (body content : Bytes) : Prop :=
  match type with
  | .insertOnlyWithoutCompress | .updatableWithoutCompress | .appendable => body = content
  | _ => (body = content ∧ body.take 3 = jdbText) ∨ body = env.compress content

/-- zlib refuses a text that begins with a space, or with a digit and a space: it is no stream. -/
def RefusesSpace : Prop :=
  ∀ front rest : Bytes, front.length ≤ 1 → (∀ c ∈ front, BasefuncStd.isDigit c = true) →
    env.decompressString (front ++ 32 :: rest) = []

/-- A server finds a content that is not empty for a command: a file with a number of days to live,
what is selected from it, a value, some names or some events. -/
def Finds (w : Surroundings) (node : Node) (query : Bytes) (rType : ReadInfoType) (ttl : Int32)
    (content : Bytes) : Prop :=
  content ≠ [] ∧
    match rType with
    | .readFiles | .readFileTmsNewest => ∃ f : Stored, Packs env f.type f.body content ∧
        f.days = BasefuncStd.toString ttl.toInt ∧ readThrows env w node.server query = false ∧
          readFile env w.moment node.server query {} = (.ok, f.text)
    | .readCdb | .readCdbTmsNewest => ∃ item, node.cdb.get (w.clock 0) query = some item ∧
        item.content = env.compress content
    | .readCdbAll => content = CManager.searchAll env w.toTimeT (w.clock 0) node.cdb query
    | .getFiles => content = JManager.commaJoin ((env.order node.server.conf.dirs).flatMap
        (fun it => (Disk.listDir node.server.files it.2.p query).map
          (fun name => (if it.1 = [] then [] else it.1 ++ [47]) ++ name)))
    | .readEdbEvents => content =
        (EManager.fetchEvents env w.moment.now node.edb query).flatMap EManager.EventResult.payload
    | _ => False

variable {env}

theorem decompressed_packs (zlib : env.ZlibInverse)
    (ownByte : ∀ text, text ≠ [] → (env.compress text).head? = some 120) {type : WType}
    {body content : Bytes} (packs : Packs env type body content) (some_ : content ≠ [])
    {ri : ReadInfo} (isType : ri.fileType = type) (isBody : ri.content = body) :
    body ≠ [] ∧ decompressed env ri = content := by
  have compressed : env.compress content ≠ [] := by
    intro nothing
    have first := ownByte content some_
    grind
  have unmarked : (env.compress content).take 3 ≠ jdbText := by
    intro marked
    have first := ownByte content some_
    have byte := congrArg List.head? marked
    rw [head?_take, if_neg (by decide), first] at byte
    exact absurd byte (by decide)
  have whole : body ≠ [] := by
    unfold Packs at packs
    split at packs
    · rwa [packs]
    · rwa [packs]
    · rwa [packs]
    · rcases packs with ⟨same, -⟩ | same
      · rwa [same]
      · rwa [same]
  refine ⟨whole, ?_⟩
  rw [decompressed, if_neg (by rwa [isBody]), isType, isBody]
  unfold Packs at packs
  split at packs
  · exact packs
  · exact packs
  · exact packs
  · rcases packs with ⟨same, marked⟩ | same
    · subst same
      simp [marked]
    · subst same
      simp [unmarked, zlib content]

theorem commandAnswer_answer (rType : ReadInfoType) {family : Nat}
    (two : (twoDigits family).length = 2) {identifier : Bytes}
    (five : identifier.length = 5) (content : Bytes) :
    ∃ mark : Bytes, mark.length = 9 ∧ answer family 1 identifier content = mark ++ content ∧
      ((mark ++ content).drop 2).take 2 = [48, 49] ∧
      commandAnswer env rType identifier (mark ++ content) =
        some (commandInfo env rType (mark ++ content)) := by
  refine ⟨twoDigits family ++ [48, 49] ++ identifier, ?_, rfl, ?_, ?_⟩
  · simp only [length_append, two, five, length_cons, length_nil]
  · rw [append_assoc, append_assoc, drop_left' two]
    rfl
  · have own : ((twoDigits family ++ [48, 49] ++ identifier ++ content).drop 4).take 5 =
        identifier := by
      have four : (twoDigits family ++ [48, 49]).length = 4 := by
        grind
      rw [append_assoc, drop_left' four, take_left' five]
    have long : 9 ≤ (twoDigits family ++ [48, 49] ++ identifier ++ content).length := by
      simp only [length_append, two, five, length_cons, length_nil]
      omega
    rw [commandAnswer, if_pos ⟨long, own⟩]

section

variable {mark : Bytes} (nine : mark.length = 9)

include nine

theorem fetched_file (zlib : env.ZlibInverse)
    (ownByte : ∀ text, text ≠ [] → (env.compress text).head? = some 120) {f : Stored}
    {content : Bytes} (packs : Packs env f.type f.body content) (some_ : content ≠ []) :
    32 < (mark ++ f.text).length ∧ (f.days.length ≤ 9 →
      decompressed env (fetchContent (mark ++ f.text) 9) = content) := by
  have body : f.body ≠ [] := (decompressed_packs zlib ownByte packs some_
    (rfl : ReadInfo.fileType { fileType := f.type, content := f.body } = f.type) rfl).1
  refine ⟨?_, fun short => ?_⟩
  swap
  · obtain ⟨header, fetched⟩ := fetchContent_text nine short body
    rw [fetched]
    exact (decompressed_packs zlib ownByte packs some_ rfl rfl).2
  have two := length_digits f.named.2
  have days := length_pos_iff.mpr f.days_some
  have positive := length_pos_iff.mpr body
  have date := f.date_length
  simp only [Stored.text, length_append, length_cons]
  omega

/-- A number of days of ten or more characters hides the content. -/
theorem fetched_long (refuses : RefusesSpace env) {f : Stored} {ttl : Int32}
    (printed : f.days = BasefuncStd.toString ttl.toInt) (long : ¬ f.days.length ≤ 9)
    {content : Bytes} (packs : Packs env f.type f.body content) (some_ : content ≠ []) :
    decompressed env (fetchContent (mark ++ f.text) 9) ≠ content := by
  obtain ⟨type, taken⟩ := fetchContent_long nine f (by omega)
  have few : (f.days.drop 10).length ≤ 1 := by
    have low := ttl.le_toInt
    have high := ttl.toInt_lt
    have digits : (BasefuncStd.natText ttl.toInt.natAbs).length ≤ 10 :=
      (BasefuncStd.natText_length_le (by decide)).mpr (by omega)
    rw [length_drop, printed, BasefuncStd.toString_length]
    split <;> omega
  have digits : ∀ c ∈ f.days.drop 10, BasefuncStd.isDigit c = true := by
    rw [printed]
    exact BasefuncStd.toString_drop_isDigit _ (by decide)
  have unmarked : (f.days.drop 10 ++ 32 :: f.body).take 3 ≠ jdbText := by
    intro marked
    have first := congrArg List.head? marked
    rw [head?_take, if_neg (by decide)] at first
    cases front : f.days.drop 10 with
    | nil =>
      rw [front] at first
      cases first
    | cons c rest =>
      rw [front] at first digits
      cases first
      exact absurd (digits _ mem_cons_self) (by decide)
  have longer : f.days.drop 10 ++ 32 :: f.body ≠ f.body := by
    grind [length_cons]
  rw [decompressed, taken, type, if_neg (by simp), if_neg unmarked, refuses _ _ few digits]
  generalize f.type = kind at packs
  cases kind with
  | insertOnlyWithoutCompress | updatableWithoutCompress | appendable =>
    exact fun same => longer (same.trans (packs : f.body = content).symm)
  | _ => exact some_.symm

theorem fetched_value (zlib : env.ZlibInverse)
    (ownByte : ∀ text, text ≠ [] → (env.compress text).head? = some 120) (tms crc : Int64)
    {content : Bytes} (some_ : content ≠ []) :
    32 < (mark ++ (WType.cdb.digits ++ [48, 48, 48, 48, 48] ++
      (i64ToChars tms ++ i64ToChars crc ++ env.compress content))).length ∧
      decompressed env (fetchContent (mark ++ (WType.cdb.digits ++ [48, 48, 48, 48, 48] ++
        (i64ToChars tms ++ i64ToChars crc ++ env.compress content))) 9) = content := by
  have typed : ((mark ++ (WType.cdb.digits ++ [48, 48, 48, 48, 48] ++
      (i64ToChars tms ++ i64ToChars crc ++ env.compress content))).drop 9).take 2 =
        WType.cdb.digits := by
    rw [drop_left' nine]
    rfl
  have front : (mark ++ (WType.cdb.digits ++ [48, 48, 48, 48, 48]) ++ i64ToChars tms ++
      i64ToChars crc).length = 32 := by
    simp only [length_append, nine, i64ToChars_length]
    rfl
  have body : (mark ++ (WType.cdb.digits ++ [48, 48, 48, 48, 48] ++
      (i64ToChars tms ++ i64ToChars crc ++ env.compress content))).drop 32 =
        env.compress content := by
    have parts : mark ++ (WType.cdb.digits ++ [48, 48, 48, 48, 48] ++
        (i64ToChars tms ++ i64ToChars crc ++ env.compress content)) =
        (mark ++ (WType.cdb.digits ++ [48, 48, 48, 48, 48]) ++ i64ToChars tms ++
          i64ToChars crc) ++ env.compress content := by
      simp only [append_assoc]
    rw [parts, drop_left' front]
  have isType := WType.ofText_digits .cdb (by decide)
  have unpacked := @decompressed_packs env zlib ownByte .cdb (env.compress content) content
    (.inr rfl) some_
    (fetchContent (mark ++ (WType.cdb.digits ++ [48, 48, 48, 48, 48] ++
      (i64ToChars tms ++ i64ToChars crc ++ env.compress content))) 9)
    (by simp only [fetchContent, typed, isType]) (by simp only [fetchContent, typed, isType, body])
  refine ⟨?_, unpacked.2⟩
  have positive := length_pos_iff.mpr unpacked.1
  rw [← body, length_drop] at positive
  omega

end

/-- What a command needs to see what a server found: a file whose number of days prints in at most
nine characters, and events of at least 24 bytes. -/
def Visible (rType : ReadInfoType) (ttl : Int32) (content : Bytes) : Prop :=
  match rType with
  | .readFiles | .readFileTmsNewest => (BasefuncStd.toString ttl.toInt).length ≤ 9
  | .readEdbEvents => 24 ≤ content.length
  | _ => True

/-- `command` sees what a server found, except files with a long number of days to live and events
of less than 24 bytes. -/
theorem command_sees_iff (zlib : env.ZlibInverse) (refuses : RefusesSpace env)
    (ownByte : ∀ text, text ≠ [] → (env.compress text).head? = some 120) (w : Surroundings)
    (rounds : Nat) (node : Node) {identifier : Bytes} (five : identifier.length = 5) (query : Bytes)
    (rType : ReadInfoType) {ttl : Int32} {content : Bytes}
    (found : Finds env w node query rType ttl content) :
    ∃ effect message, perform env w rounds node identifier query rType.request = some effect ∧
      effect.responses = [message] ∧
      ((∃ ri, commandAnswer env rType identifier message = some (some ri) ∧ ri.content = content) ↔
        Visible rType ttl content) := by
  obtain ⟨some_, found⟩ := found
  -- what is added for an answer decides
  have seen {family : Nat} {sent : Bytes} {visible : Prop} (two : (twoDigits family).length = 2)
      (info : ∀ mark : Bytes, mark.length = 9 → ((mark ++ sent).drop 2).take 2 = [48, 49] →
        ((∃ ri, commandInfo env rType (mark ++ sent) = some ri ∧ ri.content = content) ↔
          visible)) :
      (∃ ri, commandAnswer env rType identifier (answer family 1 identifier sent) =
        some (some ri) ∧ ri.content = content) ↔ visible := by
    obtain ⟨mark, nine, parts, status, answered⟩ :=
      @commandAnswer_answer env rType family two identifier five sent
    rw [parts, answered]
    simp only [Option.some.injEq]
    exact info mark nine status
  cases rType with
  | fileExists | fileInfo | removeFile | readFilesMany | readFilesManyComressed => exact found.elim
  | readFiles | readFileTmsNewest =>
    obtain ⟨f, packs, printed, quiet, read⟩ := found
    refine ⟨node.reply identifier 2 1 f.text, answer 2 1 identifier f.text, ?_, rfl, ?_⟩
    · simp only [ReadInfoType.request, perform, getFile, quiet, read]
      rfl
    · refine seen rfl (fun mark nine status => ?_)
      obtain ⟨long, unpacked⟩ := fetched_file nine zlib ownByte packs some_
      simp only [commandInfo, status, long, ↓reduceIte, Option.some.injEq, exists_eq_left',
        Visible, ← printed]
      refine ⟨fun same => ?_, unpacked⟩
      by_contra many
      exact fetched_long nine refuses printed many packs some_ same
  | readCdb | readCdbTmsNewest =>
    obtain ⟨item, got, packed⟩ := found
    have retrieved : CManager.retrieve (w.clock 0) node.cdb query =
        some (i64ToChars item.timestamp ++ i64ToChars item.checksum ++ env.compress content) := by
      rw [CManager.retrieve, got, Option.map_some, packed]
    have replied : getCdb w node identifier query =
        node.reply identifier 20 1 (WType.cdb.digits ++ [48, 48, 48, 48, 48] ++
          (i64ToChars item.timestamp ++ i64ToChars item.checksum ++ env.compress content)) := by
      simp only [getCdb, retrieved]
    refine ⟨_, _, congrArg some replied, rfl, ?_⟩
    refine seen rfl (fun mark nine status => iff_of_true ?_ trivial)
    obtain ⟨long, unpacked⟩ := fetched_value nine zlib ownByte item.timestamp item.checksum some_
    exact ⟨_, by simp only [commandInfo, status, long, ↓reduceIte]; rfl, unpacked⟩
  | readCdbAll =>
    refine ⟨_, _, rfl, rfl, ?_⟩
    rw [← found]
    refine seen rfl (fun mark nine status => iff_of_true ?_ trivial)
    refine ⟨{ content }, ?_, rfl⟩
    simp only [commandInfo, status, ↓reduceIte, drop_left' nine]
  | getFiles =>
    refine ⟨_, _, rfl, rfl, ?_⟩
    rw [← found]
    refine seen rfl (fun mark nine status => iff_of_true ?_ trivial)
    have packed : env.compress content ≠ [] := by
      intro nothing
      have first := ownByte content some_
      grind
    have long : 9 < (mark ++ env.compress content).length := by
      have positive := length_pos_iff.mpr packed
      rw [length_append]
      omega
    refine ⟨{ content }, ?_, rfl⟩
    simp only [commandInfo, status, ↓reduceIte, long, drop_left' nine, zlib content]
  | readEdbEvents =>
    refine ⟨_, _, rfl, rfl, ?_⟩
    rw [← found]
    refine seen rfl (fun mark nine status => ?_)
    simp only [commandInfo, status, ↓reduceIte, length_append, nine, Visible]
    constructor
    · rintro ⟨ri, added, -⟩
      by_contra short
      rw [if_neg (by omega)] at added
      cases added
    · intro long
      refine ⟨{ content }, ?_, rfl⟩
      rw [if_pos (by omega), drop_left' nine]

theorem refusesSpace_reference : RefusesSpace Reference.env := by
  intro front rest few digits
  have other : (front ++ 32 :: rest).head? ≠ some 120 := by
    cases front with
    | nil => exact fun same => absurd same (by simp)
    | cons c front =>
      rintro ⟨⟩
      exact absurd (digits _ mem_cons_self) (by decide)
  rw [Env.decompressString, if_neg (by simp)]
  exact if_neg other

/-- An event with a value of a number of bytes. -/
def eventOf (count : Nat) : Event := ⟨0, List.replicate count 7, 60, 9⟩

/-- The sample server with this event in the queue. -/
def eventNode (count : Nat) : Node :=
  { sampleNode with
    edb := { eventQueue := AList.singleton 0 [(eventOf count).result sampleMoment.now] } }

/-- An event whose value has eight bytes is seen. -/
theorem command_sees_iff_sample :
    ∃ effect message, perform Reference.env sampleSurroundings 0 (eventNode 8)
        [49, 48, 48, 48, 48] [54, 48, 44, 48] 31 = some effect ∧ effect.responses = [message] ∧
      ∃ ri, commandAnswer Reference.env .readEdbEvents [49, 48, 48, 48, 48] message =
        some (some ri) ∧ ri.content = (eventOf 8).queued := by
  have found : Finds Reference.env sampleSurroundings (eventNode 8) [54, 48, 44, 48]
      .readEdbEvents 0 (eventOf 8).queued := by
    constructor <;> decide +kernel
  obtain ⟨effect, message, performed, responses, seen⟩ :=
    command_sees_iff Reference.env_lawful.zlib refusesSpace_reference (fun _ _ => rfl) sampleSurroundings 0 (eventNode 8)
      (by decide : ([49, 48, 48, 48, 48] : Bytes).length = 5) [54, 48, 44, 48] .readEdbEvents found
  exact ⟨effect, message, performed, responses, seen.mpr (by decide : 24 ≤ (eventOf 8).queued.length)⟩

/-- An event that a client stores and whose value has one byte is sent, and it is not seen. -/
theorem command_misses_event :
    (EManager.insert sampleMoment.now {} (eventOf 1).encoded).map (fun stored =>
        (perform Reference.env sampleSurroundings 0 { sampleNode with edb := stored.2 }
          [49, 48, 48, 48, 48] [54, 48, 44, 48] 31).map (fun effect =>
            effect.responses.map (fun message => (message.drop 9,
              commandAnswer Reference.env .readEdbEvents [49, 48, 48, 48, 48] message)))) =
      some (some [((eventOf 1).queued, some none)]) := by
  decide +kernel

end RssDisk.Client
