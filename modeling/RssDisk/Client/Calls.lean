import RssDisk.Client.Command
import RssDisk.Lib.Await

/-!
# Calls of the client and foreign messages

`read_file`, `get_all_files`, `get_servers_statuses` and `get_free_size_servers` send requests and
wait until as many messages have come. Every message on a connection is handed to the callback, late
answers to earlier requests and notifications of events included.
-/

namespace RssDisk.Client

open Lib Bitbase Lib.Await List

/-- A connection of the client, with the identifier of the pending request. -/
structure Connection where
  index : Nat
  ip : UInt32
  group : Int
  connected : Bool
  identy : Bytes
  five : identy.length = 5
deriving DecidableEq

/-- What happens during a wait. -/
abbrev Run := List (Await.Event Connection Bytes)

def isOk (m : Bytes) : Bool := (m.drop 2).take 2 = [48, 49]

def hasIdenty (identy m : Bytes) : Bool := (m.drop 4).take 5 = identy

/-- A message is not the answer to the pending request. -/
def Foreign (c : Connection) (m : Bytes) : Prop :=
  ¬ (9 ≤ m.length ∧ hasIdenty c.identy m)

/-- `fetch_content` into a `read_info` that was used before. -/
def fetchInto (ri : ReadInfo) (message : Bytes) (startFrom : Nat) : ReadInfo :=
  let field (start size : Nat) : Bytes := (message.drop start).take size
  let fileType := WType.ofText (field startFrom 2)
  let start := startFrom + 2
  let dated (ri : ReadInfo) (start : Nat) : ReadInfo :=
    let (ttl, last) := readTtl message 10 (start + 19) []
    let ri := { ri with
      fileCreated := DateTime.parseDateTime (field start 19)
      ttlDays := ((BasefuncStd.stoi ttl).map toInt16).getD ri.ttlDays }
    if last < message.length then
      { ri with header := message.take last, content := message.drop last }
    else ri
  match fileType with
  | .cdb =>
    { ri with
      fileType, fileTms := charsToI64 (field 16 8), fileCrc32 := charsToI64 (field 24 8)
      content := message.drop 32 }
  | .updatable | .updatableWithoutCompress | .jdb | .ajdb =>
    dated { ri with
      fileType, fileTms := charsToI64 (field start 8)
      fileCrc32 := charsToI64 (field (start + 8) 8) } (start + 16)
  | .appendable => dated { ri with fileType, fileTms := charsToI64 (field start 8) } (start + 8)
  | _ => dated { ri with fileType } start

theorem fetchInto_fresh (message : Bytes) (startFrom : Nat) :
    fetchInto {} message startFrom = fetchContent message startFrom := by
  rfl

/-- What `read_file` found: whether the current server answered, the content, and the rest. -/
structure Reading where
  ok : Bool := false
  content : Bytes := []
  ri : ReadInfo := {}
deriving DecidableEq

/-- The callbacks of a request of `read_file`. -/
def readFileCallbacks (readMany : Bool) : Callbacks Connection Bytes Reading where
  counts c m := !(decide (32 < m.length) && isOk m && !hasIdenty c.identy m)
  onMessage c m s :=
    if 32 < m.length ∧ isOk m ∧ hasIdenty c.identy m then
      if readMany then { s with content := m.drop 9, ok := true }
      else
        let ri := fetchInto s.ri m 9
        if ri.content = [] then { s with ri }
        else { ok := true, content := ri.content, ri := { ri with content := [] } }
    else s
  onFailure _ s := s

/-- `f_read` of `read_file`: one server, with what happens during the wait. -/
def fRead (readMany : Bool) (s : Reading) (run : Run) : Reading :=
  result (readFileCallbacks readMany) 1 { s with ok := false } run

/-- The servers one after another, each with what happens during its wait, up to the first one that
answers. -/
def readParts (readMany : Bool) :
    Reading → List (Connection × Run) → Option Connection × Reading
  | s, [] => (none, s)
  | s, (c, run) :: parts =>
    if (fRead readMany s run).ok then (some c, fRead readMany s run)
    else readParts readMany (fRead readMany s run) parts

/-- The servers that are asked: as many as there are parts. -/
def asked (countParts : Int) (pool : List Connection) : List Connection :=
  if 0 ≤ countParts then pool.take countParts.toNat else pool

/-- `read_file` behind the search for servers: the server and the parts of the file, and the
content; no server when it fails. -/
def readFile (env : Env) (readMany : Bool) (countParts : Int) (pool : List Connection)
    (content : Bytes) (runs : Nat → Run) :
    Option (Connection × ReadInfo) × Bytes :=
  let parts := (asked countParts pool).zipIdx.map (fun (c, i) => (c, runs i))
  match readParts readMany { content } parts with
  | (none, s) => (none, s.content)
  | (some c, s) =>
    let content :=
      if readMany then s.content else decompressed env { s.ri with content := s.content }
    (if content = [] then none else some (c, s.ri), content)

/-- What `get_all_files` found. -/
structure Listing where
  ok : Bool := false
  content : Bytes
deriving DecidableEq

def getAllFilesCallbacks : Callbacks Connection Bytes Listing where
  counts _ _ := true
  onMessage c m s :=
    if 9 ≤ m.length ∧ isOk m ∧ hasIdenty c.identy m then { ok := true, content := m.drop 9 } else s
  onFailure _ s := s

/-- `get_all_files` of a server that is connected: whether it is `ok`, and the content. -/
def getAllFiles (env : Env) (content : Bytes) (run : Run) :
    Bool × Bytes :=
  let s := result getAllFilesCallbacks 1 { content } run
  if s.ok then (true, env.decompressString s.content) else (false, s.content)

/-- `read_res`, as far as `get_servers_statuses` uses it. -/
inductive ReadRes where
  | ok
  | errorToConnectToServer
  | errorReadResponceFromServer
  | errorSendRequestFromServer
  | timeout
deriving DecidableEq, Repr

structure ReadResponce where
  status : ReadRes
  ip : UInt32
  data : Bytes
  group : Int
deriving DecidableEq, Repr

/-- `f_set_status`: the first status of an address stays. -/
def setStatus (r : ReadRes) (data : Bytes) (c : Connection) (s : List ReadResponce) :
    List ReadResponce :=
  if c.ip ∈ s.map ReadResponce.ip then s else s ++ [⟨r, c.ip, data, c.group⟩]

def getServersStatusesCallbacks : Callbacks Connection Bytes (List ReadResponce) where
  counts _ _ := true
  onMessage c m s :=
    if 9 ≤ m.length ∧ isOk m ∧ hasIdenty c.identy m then setStatus .ok (m.drop 9) c s
    else setStatus .errorReadResponceFromServer [] c s
  onFailure c s := setStatus .errorSendRequestFromServer [] c s

/-- The connections on which requests are sent. -/
def sentTo (clients : List Connection) : List Connection := clients.filter Connection.connected

def getServersStatuses (clients : List Connection) (run : Run) :
    List ReadResponce :=
  let refused := (clients.filter (fun c => !c.connected)).foldl
    (fun s c => setStatus .errorToConnectToServer [] c s) []
  let s := result getServersStatusesCallbacks (sentTo clients).length refused run
  clients.foldl (fun s c => setStatus .timeout [] c s) s

/-- The callbacks of `get_free_size_servers`. -/
def getFreeSizeServersCallbacks : Callbacks Connection Bytes (List Nat) where
  counts _ _ := true
  onMessage c m s :=
    if 9 ≤ m.length ∧ isOk m ∧ hasIdenty c.identy m then s ++ [c.index] else s
  onFailure _ s := s

/-- `get_free_size_servers`: the indices of the servers with free space. -/
def getFreeSizeServers (clients : List Connection) (run : Run) :
    List Nat :=
  result getFreeSizeServersCallbacks (sentTo clients).length [] run

section

variable {c : Connection} {m : Bytes}

/-- A file with a content of one byte. -/
def oneByte : Stored where
  type := .insertOnlyWithoutCompress
  raw := []
  date := List.replicate 19 48
  days := [48]
  body := [7]
  named := by decide
  raw_length := rfl
  date_length := rfl
  days_some := by decide
  days_space := by decide

/-- The answer of a server with this file. -/
def fileAnswer (c : Connection) : Bytes := ([48, 50, 48, 49] ++ c.identy) ++ oneByte.text

theorem length_mark (c : Connection) : ([48, 50, 48, 49] ++ c.identy : Bytes).length = 9 := by
  rw [length_append, c.five]
  rfl

theorem fileAnswer_own (c : Connection) :
    32 < (fileAnswer c).length ∧ isOk (fileAnswer c) ∧ hasIdenty c.identy (fileAnswer c) := by
  refine ⟨?_, decide_eq_true rfl, ?_⟩
  · have text : oneByte.text.length = 24 := by decide
    rw [fileAnswer, length_append, length_mark, text]
    omega
  · have front : ([48, 50, 48, 49] : Bytes).length = 4 := rfl
    rw [hasIdenty, fileAnswer, append_assoc, drop_left' front, take_left' c.five]
    exact decide_eq_true rfl

theorem fetchInto_fileAnswer (c : Connection) :
    (fetchInto {} (fileAnswer c) 9).fileType = .insertOnlyWithoutCompress ∧
      (fetchInto {} (fileAnswer c) 9).content = [7] := by
  obtain ⟨header, fetched⟩ := fetchContent_text (length_mark c) (f := oneByte) (by decide) (by decide)
  have fetched : fetchContent (fileAnswer c) 9 = _ := fetched
  rw [fetchInto_fresh, fetched]
  exact ⟨rfl, rfl⟩

theorem Foreign.other (foreign : Foreign c m) (long : 9 ≤ m.length) :
    hasIdenty c.identy m = false := by
  cases has : hasIdenty c.identy m with
  | false => rfl
  | true => exact absurd ⟨long, has⟩ foreign

theorem readFile_onMessage (readMany : Bool) (foreign : Foreign c m) (s : Reading) :
    (readFileCallbacks readMany).onMessage c m s = s := by
  apply if_neg
  rintro ⟨long, -, own⟩
  exact foreign ⟨by omega, own⟩

theorem readFile_counts (readMany : Bool) (foreign : Foreign c m) :
    (readFileCallbacks readMany).counts c m = false ↔ 32 < m.length ∧ isOk m := by
  simp only [readFileCallbacks, Bool.not_eq_false', Bool.and_eq_true, decide_eq_true_eq,
    Bool.not_eq_true']
  constructor
  · grind
  · rintro ⟨long, ok⟩
    exact ⟨⟨long, ok⟩, foreign.other (by omega)⟩

end

section

variable {env : Env} {readMany : Bool}

theorem readParts_congr {runs runs' : Nat → Run} {l : List (Connection × Nat)}
    (same : ∀ p ∈ l, ∀ s, fRead readMany s (runs' p.2) = fRead readMany s (runs p.2))
    (s : Reading) :
    readParts readMany s (l.map (fun p => (p.1, runs' p.2))) =
      readParts readMany s (l.map (fun p => (p.1, runs p.2))) := by
  induction l generalizing s with
  | nil => rfl
  | cons p l ih =>
    rw [map_cons, map_cons, readParts, readParts, same p mem_cons_self,
      ih (fun q member => same q (mem_cons_of_mem _ member))]

theorem readParts_silent {l : List (Connection × Run)} (silent : ∀ p ∈ l, p.2 = [])
    {s : Reading} (notOk : s.ok = false) (rest : List (Connection × Run)) :
    readParts readMany s (l ++ rest) = readParts readMany s rest := by
  induction l with
  | nil => rfl
  | cons p l ih =>
    obtain ⟨c, run⟩ := p
    have empty : run = [] := silent (c, run) mem_cons_self
    have stays : fRead readMany s run = s := by
      rw [empty]
      obtain ⟨ok, content, ri⟩ := s
      cases notOk
      rfl
    rw [cons_append, readParts, stays, if_neg (by rw [notOk]; decide)]
    exact ih (fun q member => silent q (mem_cons_of_mem _ member))

/-- Only during the wait for one server something happens. -/
def only (i : Nat) (run : Run) (j : Nat) : Run := if j = i then run else []

theorem only_silent {i : Nat} {run : Run} {l : List (Connection × Nat)}
    (others : ∀ p ∈ l, p.2 ≠ i) :
    ∀ p ∈ l.map (fun p => (p.1, only i run p.2)), p.2 = [] := by
  intro p member
  obtain ⟨q, from_, rfl⟩ := mem_map.mp member
  exact if_neg (others q from_)

theorem readParts_only (front back : List Connection) (c : Connection) (run : Run)
    (content : Bytes) :
    readParts readMany { content }
        ((front ++ c :: back).zipIdx.map (fun p => (p.1, only front.length run p.2))) =
      if (fRead readMany { content } run).ok then (some c, fRead readMany { content } run)
      else (none, fRead readMany { content } run) := by
  have before : ∀ p ∈ front.zipIdx, p.2 ≠ front.length := by
    grind
  have behind : ∀ p ∈ back.zipIdx (front.length + 1), p.2 ≠ front.length := by
    grind
  rw [zipIdx_append, Nat.zero_add, zipIdx_cons, map_append, map_cons,
    readParts_silent (only_silent before) rfl, readParts]
  have mine : only front.length run front.length = run := if_pos rfl
  rw [mine]
  split
  · rfl
  · rename_i notOk
    have quiet := @only_silent front.length run _ behind
    rw [← append_nil (List.map _ _), readParts_silent quiet (by simpa using notOk), readParts]

theorem fRead_own (c : Connection) (own : Bytes) (content : Bytes) :
    fRead readMany { content } [.wake, .message c own] =
      (readFileCallbacks readMany).onMessage c own { content } :=
  result_awaited (readFileCallbacks readMany) Int.one_ne_zero c own { content }

theorem fRead_cut {c : Connection} {m : Bytes} (foreign : Foreign c m)
    (counted : ¬ (32 < m.length ∧ isOk m)) (own : Bytes) (content : Bytes) :
    fRead readMany { content } [.message c m, .wake, .message c own] = { content } := by
  rw [← readFile_counts readMany foreign, Bool.not_eq_false] at counted
  have cut := result_cut counted 1 own ({ content } : Reading)
  exact cut.trans (readFile_onMessage readMany foreign _)

theorem readFile_own {countParts : Int} {pool front back : List Connection} {c : Connection}
    (order : asked countParts pool = front ++ c :: back) (content : Bytes) :
    (readFile env readMany countParts pool content
      (only front.length [.wake, .message c (fileAnswer c)])).1 ≠ none := by
  rw [readFile, order]
  simp only [readParts_only, fRead_own]
  cases readMany with
  | true =>
    have body : (fileAnswer c).drop 9 ≠ [] := by
      rw [fileAnswer, drop_left' (length_mark c)]
      decide
    rw [readFileCallbacks]
    simp only [fileAnswer_own c, and_self, ↓reduceIte, body]
    exact Option.some_ne_none _
  | false =>
    obtain ⟨type, body⟩ := fetchInto_fileAnswer c
    have found : (readFileCallbacks false).onMessage c (fileAnswer c) { content } =
        { ok := true, content := [7],
          ri := { fetchInto {} (fileAnswer c) 9 with content := [] } } := by
      rw [readFileCallbacks]
      simp only [fileAnswer_own c, and_self, ↓reduceIte, Bool.false_eq_true, body,
        cons_ne_nil]
    rw [found]
    simp only [↓reduceIte, Bool.false_eq_true, decompressed, type, cons_ne_nil]
    exact Option.some_ne_none _

theorem readFile_cut {countParts : Int} {pool front back : List Connection} {c : Connection}
    (order : asked countParts pool = front ++ c :: back) {m : Bytes} (foreign : Foreign c m)
    (counted : ¬ (32 < m.length ∧ isOk m)) (content : Bytes) :
    (readFile env readMany countParts pool content
      (only front.length [.message c m, .wake, .message c (fileAnswer c)])).1 = none := by
  rw [readFile, order]
  simp only [readParts_only, fRead_cut foreign counted]
  rfl

theorem readFile_insertion_iff {added : Connection → Bytes → Prop}
    (foreign : ∀ c m, added c m → Foreign c m) (env : Env) (readMany : Bool) (countParts : Int)
    (pool : List Connection) (content : Bytes) :
    (∀ runs runs' : Nat → Run,
        (∀ i c, (asked countParts pool)[i]? = some c →
          Inserted (fun d m => d = c ∧ added c m) (runs i) (runs' i)) →
        readFile env readMany countParts pool content runs' =
          readFile env readMany countParts pool content runs) ↔
      ∀ c ∈ asked countParts pool, ∀ m, added c m → 32 < m.length ∧ isOk m := by
  constructor
  · intro ignored c member m is
    obtain ⟨front, back, order⟩ := append_of_mem member
    by_contra counted
    have inserted : ∀ i d, (asked countParts pool)[i]? = some d →
        Inserted (fun e m => e = d ∧ added d m)
          (only front.length [.wake, .message c (fileAnswer c)] i)
          (only front.length [.message c m, .wake, .message c (fileAnswer c)] i) := by
      intro i d at_i
      by_cases here : i = front.length
      · rw [order, here, getElem?_append_right le_rfl, Nat.sub_self] at at_i
        cases at_i
        rw [here, only, only, if_pos rfl, if_pos rfl]
        exact .add ⟨rfl, is⟩ (.refl _)
      · rw [only, only, if_neg here, if_neg here]
        exact .nil
    have same := ignored _ _ inserted
    have cut := @readFile_cut env readMany _ _ _ _ _ order m (foreign c m is) counted content
    rw [same] at cut
    exact readFile_own order content cut
  · intro passed runs runs' inserted
    have parts := @readParts_congr readMany runs runs' (asked countParts pool).zipIdx (by
      intro p member s
      have at_p := mem_zipIdx_iff_getElem?.mp member
      have neutral : ∀ d m, d = p.1 ∧ added p.1 m → (readFileCallbacks readMany).Neutral d m := by
        rintro d m ⟨rfl, is⟩
        have is_foreign := foreign _ m is
        have long := passed _ (mem_of_getElem? at_p) m is
        exact ⟨(readFile_counts readMany is_foreign).mpr long,
          readFile_onMessage readMany is_foreign⟩
      exact (inserted p.2 p.1 at_p).result_eq neutral _ _)
    simp only [readFile, parts { content }]

end

section

variable {added : Connection → Bytes → Prop} {c : Connection} {m : Bytes}

theorem fileAnswer_nine (c : Connection) :
    9 ≤ (fileAnswer c).length ∧ isOk (fileAnswer c) ∧ hasIdenty c.identy (fileAnswer c) := by
  obtain ⟨long, rest⟩ := fileAnswer_own c
  exact ⟨by omega, rest⟩

theorem Foreign.not_answer (foreign : Foreign c m) :
    ¬ (9 ≤ m.length ∧ isOk m ∧ hasIdenty c.identy m) := by
  rintro ⟨long, -, own⟩
  exact foreign ⟨long, own⟩

theorem getAllFiles_insertion_iff (foreign : ∀ c m, added c m → Foreign c m) (env : Env)
    (c : Connection) (content : Bytes) :
    (∀ run run' : Run, Inserted (fun d m => d = c ∧ added c m) run run' →
        getAllFiles env content run' = getAllFiles env content run) ↔
      ∀ m, ¬ added c m := by
  constructor
  · intro ignored m is
    have same := @ignored_counted _ _ _ getAllFilesCallbacks _ _
      (fun s => if s.ok then (true, env.decompressString s.content) else (false, s.content)) 1
      { content } ignored Nat.one_ne_zero c m ⟨rfl, is⟩ rfl (fileAnswer c)
    have answered : getAllFilesCallbacks.onMessage c (fileAnswer c) { content } =
        { ok := true, content := (fileAnswer c).drop 9 } := if_pos (fileAnswer_nine c)
    have passed : getAllFilesCallbacks.onMessage c m { content } = { content } :=
      if_neg (foreign c m is).not_answer
    rw [Function.iterate_one, passed, answered] at same
    exact Bool.false_ne_true (congrArg Prod.fst same)
  · intro nothing run run' inserted
    rw [Inserted.eq (by rintro d m ⟨-, is⟩; exact nothing m is) inserted]

theorem getFreeSizeServers_insertion_iff (foreign : ∀ c m, added c m → Foreign c m)
    (clients : List Connection) :
    (∀ run run' : Run, Inserted (fun d m => d ∈ sentTo clients ∧ added d m) run run' →
        getFreeSizeServers clients run' = getFreeSizeServers clients run) ↔
      ∀ c ∈ sentTo clients, ∀ m, ¬ added c m := by
  constructor
  · intro ignored c sent m is
    have same := @ignored_counted _ _ _ getFreeSizeServersCallbacks _ _ id _ [] ignored
      (length_pos_of_mem sent).ne' c m ⟨sent, is⟩ rfl (fileAnswer c)
    have answered : getFreeSizeServersCallbacks.onMessage c (fileAnswer c) [] = [c.index] :=
      if_pos (fileAnswer_nine c)
    have passed : getFreeSizeServersCallbacks.onMessage c m [] = [] :=
      if_neg (foreign c m is).not_answer
    rw [Function.iterate_fixed passed, answered] at same
    exact cons_ne_nil _ _ same.symm
  · intro nothing run run' inserted
    rw [Inserted.eq (by rintro d m ⟨sent, is⟩; exact nothing d sent m is) inserted]

theorem getServersStatuses_insertion_iff (foreign : ∀ c m, added c m → Foreign c m) :
    (∀ (clients : List Connection) (run run' : Run),
        Inserted (fun d m => d ∈ sentTo clients ∧ added d m) run run' →
        getServersStatuses clients run' = getServersStatuses clients run) ↔
      ∀ c : Connection, c.connected → ∀ m, ¬ added c m := by
  constructor
  · intro ignored c connected m is
    have sent : sentTo [c] = [c] := filter_cons_of_pos connected
    have refused : [c].filter (fun c => !c.connected) = [] := by
      rw [filter_cons_of_neg (by simp [connected]), filter_nil]
    have alone := ignored [c]
    simp only [getServersStatuses, sent, refused] at alone
    have same := @ignored_counted _ _ _ getServersStatusesCallbacks _ _
      (fun s => [c].foldl (fun s c => setStatus .timeout [] c s) s) 1 [] alone
      Nat.one_ne_zero c m ⟨mem_singleton_self c, is⟩ rfl (fileAnswer c)
    have answered : getServersStatusesCallbacks.onMessage c (fileAnswer c) [] =
        [⟨.ok, c.ip, (fileAnswer c).drop 9, c.group⟩] := if_pos (fileAnswer_nine c)
    have passed : getServersStatusesCallbacks.onMessage c m [] =
        [⟨.errorReadResponceFromServer, c.ip, [], c.group⟩] :=
      if_neg (foreign c m is).not_answer
    rw [Function.iterate_one, passed, answered] at same
    simp [setStatus] at same
  · intro nothing clients run run' inserted
    have none_ : ∀ d m, ¬ (d ∈ sentTo clients ∧ added d m) := by
      rintro d m ⟨sent, is⟩
      exact nothing d (mem_filter.mp sent).2 m is
    rw [Inserted.eq none_ inserted]

/-- Foreign messages that are inserted do not change the result of `read_file` exactly when those on
the connections that are asked are `ok` and longer than 32 bytes; they do not change the result of
`get_all_files`, `get_free_size_servers` and `get_servers_statuses` exactly when there are none on
the connections on which requests are sent. -/
theorem insertion_ignored_iff (foreign : ∀ c m, added c m → Foreign c m) (env : Env)
    (readMany : Bool) (countParts : Int) (pool : List Connection) (content : Bytes)
    (c : Connection) (clients : List Connection) :
    ((∀ runs runs' : Nat → Run,
        (∀ i c, (asked countParts pool)[i]? = some c →
          Inserted (fun d m => d = c ∧ added c m) (runs i) (runs' i)) →
        readFile env readMany countParts pool content runs' =
          readFile env readMany countParts pool content runs) ↔
      ∀ c ∈ asked countParts pool, ∀ m, added c m → 32 < m.length ∧ isOk m) ∧
    ((∀ run run' : Run, Inserted (fun d m => d = c ∧ added c m) run run' →
        getAllFiles env content run' = getAllFiles env content run) ↔
      ∀ m, ¬ added c m) ∧
    ((∀ run run' : Run, Inserted (fun d m => d ∈ sentTo clients ∧ added d m) run run' →
        getFreeSizeServers clients run' = getFreeSizeServers clients run) ↔
      ∀ c ∈ sentTo clients, ∀ m, ¬ added c m) ∧
    ((∀ (clients : List Connection) (run run' : Run),
        Inserted (fun d m => d ∈ sentTo clients ∧ added d m) run run' →
        getServersStatuses clients run' = getServersStatuses clients run) ↔
      ∀ c : Connection, c.connected → ∀ m, ¬ added c m) :=
  ⟨readFile_insertion_iff foreign env readMany countParts pool content,
    getAllFiles_insertion_iff foreign env c content,
    getFreeSizeServers_insertion_iff foreign clients,
    getServersStatuses_insertion_iff foreign⟩

/-- A connection with the identifier `12345`. -/
def pending : Connection where
  index := 0
  ip := 1
  group := 0
  connected := true
  identy := [49, 50, 51, 52, 53]
  five := rfl

/-- A late answer with the identifier `12344`. -/
def lateAnswer : Bytes := [48, 50, 48, 49, 49, 50, 51, 52, 52] ++ List.replicate 24 48

/-- Late answers that are long enough are passed over by `read_file`. -/
theorem insertion_ignored_iff_late :
    Foreign pending lateAnswer ∧ ∀ (env : Env) (runs runs' : Nat → Run),
      (∀ i c, (asked 1 [pending])[i]? = some c →
        Inserted (fun d m => d = c ∧ c = pending ∧ m = lateAnswer) (runs i) (runs' i)) →
      readFile env false 1 [pending] [] runs' = readFile env false 1 [pending] [] runs := by
  have foreign : Foreign pending lateAnswer := by
    rintro ⟨-, own⟩
    exact absurd own (by decide)
  have late : ∀ c m, c = pending ∧ m = lateAnswer → Foreign c m := by
    rintro c m ⟨rfl, rfl⟩
    exact foreign
  refine ⟨foreign, fun env => ?_⟩
  apply (insertion_ignored_iff late env false 1 [pending] [] pending []).1.mpr
  rintro c - m ⟨-, rfl⟩
  decide

/-- An empty message before the own answer: `read_file` and `get_all_files` fail,
`get_free_size_servers` finds no server, and `get_servers_statuses` reports an error. -/
theorem empty_message_ends_calls :
    Foreign pending [] ∧
    (∀ env : Env,
      (readFile env false 1 [pending] [] (only 0
        [.wake, .message pending (fileAnswer pending)])).1 ≠ none ∧
      (readFile env false 1 [pending] [] (only 0
        [.message pending [], .wake, .message pending (fileAnswer pending)])).1 = none ∧
      (getAllFiles env [] [.wake, .message pending (fileAnswer pending)]).1 = true ∧
      (getAllFiles env []
        [.message pending [], .wake, .message pending (fileAnswer pending)]).1 = false) ∧
    getFreeSizeServers [pending] [.wake, .message pending (fileAnswer pending)] = [0] ∧
    getFreeSizeServers [pending]
      [.message pending [], .wake, .message pending (fileAnswer pending)] = [] ∧
    (getServersStatuses [pending] [.wake, .message pending (fileAnswer pending)]).map
      ReadResponce.status = [.ok] ∧
    (getServersStatuses [pending]
      [.message pending [], .wake, .message pending (fileAnswer pending)]).map
      ReadResponce.status = [.errorReadResponceFromServer] := by
  have foreign : Foreign pending [] := by
    rintro ⟨long, -⟩
    exact absurd long (by decide)
  have order : asked 1 [pending] = [] ++ pending :: [] := rfl
  refine ⟨foreign, fun env => ⟨readFile_own order [], ?_, rfl, rfl⟩, ?_⟩
  · exact readFile_cut order foreign (by decide) []
  · decide +kernel

end

end RssDisk.Client
