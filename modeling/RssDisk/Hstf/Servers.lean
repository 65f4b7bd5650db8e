import Mathlib.Data.Prod.Lex
import RssDisk.Hstf.Log
import RssDisk.Lib.Replicas
import RssDisk.Server.Frame
import RssDisk.Server.Removal

/-!
# Several servers

Writes of one name reach any of several servers, and every accepted one is reported to the others,
which remove a file with a smaller time and check sum. `accept_file` does not compare: it replaces a
newer file by an older one.
-/

namespace RssDisk.Hstf

open Lib Bitbase JManager Server List Option Function

/-- The order of writes: by time, and then by check sum. -/
abbrev Version := ℤ ×ₗ ℤ

/-- The version of a time and a check sum. -/
def version (tms crc32 : Int64) : Version := toLex (tms.toInt, crc32.toInt)

def Entry.version (e : Entry) : Version := Hstf.version e.tms e.crc32

/-- The version that the header of a file holds. -/
def versionOf (content : Bytes) : Version :=
  Hstf.version (charsToI64 ((content.drop 2).take 8)) (charsToI64 ((content.drop 10).take 8))

/-- A file whose header holds a version. -/
def Versioned (content : Bytes) : Prop :=
  18 ≤ content.length ∧ (WType.ofText (content.take 2) = .updatable ∨
    WType.ofText (content.take 2) = .updatableWithoutCompress ∨
    WType.ofText (content.take 2) = .jdb)

theorem needRemove_iff {content : Bytes} (versioned : Versioned content) (tms crc32 : Int64) :
    needRemove (content.take 64) tms crc32 = true ↔ versionOf content < version tms crc32 := by
  obtain ⟨long, type⟩ := versioned
  have parts : (content.take 64).take 2 = content.take 2 ∧
      ((content.take 64).drop 2).take 8 = (content.drop 2).take 8 ∧
      ((content.take 64).drop 10).take 8 = (content.drop 10).take 8 := by
    refine ⟨?_, ?_, ?_⟩
    · rw [take_take, Nat.min_eq_left (by decide)]
    · rw [drop_take, take_take, Nat.min_eq_left (by decide)]
    · rw [drop_take, take_take, Nat.min_eq_left (by decide)]
  have enough : 18 ≤ (content.take 64).length := by
    rw [length_take]
    omega
  have order : versionOf content < version tms crc32 ↔
      charsToI64 ((content.drop 2).take 8) < tms ∨
        (charsToI64 ((content.drop 2).take 8) = tms ∧
          charsToI64 ((content.drop 10).take 8) < crc32) := by
    rw [versionOf, version, version, Prod.Lex.toLex_lt_toLex, Int64.lt_iff_toInt_lt,
      Int64.lt_iff_toInt_lt, Int64.toInt_inj]
  rw [order, needRemove, if_pos enough, parts.1, parts.2.1, parts.2.2]
  rcases type with updatable | raw | jdb
  · simp [updatable]
  · simp [raw]
  · simp [jdb]

theorem headers_reported {r : Request} (reported : r.headers.2 = true) :
    (∃ type : WType, (type = .updatable ∨ type = .updatableWithoutCompress ∨ type = .jdb) ∧
      r.headers.1 = [type.digits, (r.flags.drop 2).take 8, (r.flags.drop 10).take 8]) ∧
      r.flags.length = 18 ∧ r.type ≠ .appendable := by
  unfold Request.headers at reported ⊢
  by_cases typed : 2 ≤ r.flags.length
  · simp only [if_pos typed] at reported ⊢
    unfold headersOf at reported ⊢
    generalize r.type = type at reported ⊢
    by_cases sized : r.flags.length = 18
    · cases type <;> simp [sized] at reported ⊢
    · cases type <;> simp [sized] at reported
      split at reported
      all_goals simp at reported
  · simp [if_neg typed] at reported

theorem versionOf_headerText {r : Request} (reported : r.headers.2 = true) (m : Moment)
    (toWrite : Bytes) :
    Versioned (r.headerText m ++ toWrite) ∧ versionOf (r.headerText m ++ toWrite) =
      version (charsToI64 ((r.flags.drop 2).take 8)) (charsToI64 ((r.flags.drop 10).take 8)) := by
  obtain ⟨⟨type, updates, headers⟩, sized, _⟩ := headers_reported reported
  have digits : type.digits.length = 2 ∧ WType.ofText type.digits = type := by
    rcases updates with rfl | rfl | rfl <;> decide
  have tms : ((r.flags.drop 2).take 8).length = 8 := by simp [sized]
  have crc32 : ((r.flags.drop 10).take 8).length = 8 := by simp [sized]
  generalize (r.flags.drop 2).take 8 = time at headers tms ⊢
  generalize (r.flags.drop 10).take 8 = check at headers crc32 ⊢
  have text : r.headerText m ++ toWrite = type.digits ++ (time ++ (check ++
      (DateTime.getDateTime m.now ++ (BasefuncStd.toString r.ttl ++ (32 :: toWrite))))) := by
    simp [Request.headerText, Disk.headerText, headers]
  have first : (r.headerText m ++ toWrite).take 2 = type.digits := by
    rw [text, take_left' digits.1]
  have second : ((r.headerText m ++ toWrite).drop 2).take 8 = time := by
    rw [text, drop_left' digits.1, take_left' tms]
  have third : ((r.headerText m ++ toWrite).drop 10).take 8 = check := by
    rw [text, ← append_assoc, drop_left' (by simp [digits.1, tms]),
      take_left' crc32]
  refine ⟨⟨?_, ?_⟩, ?_⟩
  · rw [text]
    simp only [length_append, digits.1, tms, crc32]
    omega
  · grind
  · rw [versionOf, second, third]

theorem parse_record (p : UInt64) {e : Entry} (fits : e.Fits) : parse (record p e) = e := by
  have read : decode (encode (p.toNat, e)) = (p.toNat, e) := decode_encode fits p.toNat_lt
  rw [decode, encode, UInt64.ofNat_toNat] at read
  exact congrArg Prod.snd read

/-- The entry of the write that a call asks for. -/
def entryOf (env : Env) (conf : ServerConf) (call : Call) : Entry where
  name := (call.request env conf).fileName
  tms := charsToI64 (((call.request env conf).flags.drop 2).take 8)
  crc32 := charsToI64 (((call.request env conf).flags.drop 10).take 8)

/-- Servers with the writes of a name. -/
structure Net where
  servers : Nat → State
  pending : List (Nat × Entry) := []
  seen : Nat → List Entry := fun _ => []
  written : List Entry := []

inductive Delivery where
  | write (server : Nat) (call : Call)
  | process (server : Nat) (moment : Moment) (e : Entry)

namespace Net

variable (env : Env) (members : List Nat) (name : Bytes)

/-- One delivery. The writes are those that are reported, of one name; a removal that fails is not
counted as processed. -/
def step (net : Net) : Delivery → Option Net
  | .write server call =>
    if server ∈ members ∧ (call.request env (net.servers server).conf).fileName = name ∧
        (call.request env (net.servers server).conf).headers.2 then
      let outcome := call.run env (net.servers server)
      match outcome.onWrite with
      | some (fileName, tms, crc32) =>
        let e : Entry := ⟨fileName, tms, crc32⟩
        some {
          servers := Function.update net.servers server outcome.state
          pending := net.pending ++ (members.filter (· ≠ server)).map (fun other => (other, e))
          seen := Function.update net.seen server (e :: net.seen server)
          written := e :: net.written }
      | none => some { net with servers := Function.update net.servers server outcome.state }
    else none
  | .process server moment e =>
    let told := parse (record 0 e)
    let removed :=
      removeFileByTms env moment (net.servers server) told.name told.tms told.crc32 false
    if (server, e) ∈ net.pending ∧ removed.2 then
      some { net with
        servers := Function.update net.servers server removed.1
        pending := net.pending.erase (server, e)
        seen := Function.update net.seen server (e :: net.seen server) }
    else none

/-- A server gets only writes that are not below what it has accepted or processed, and the lists
of files to remove are other files. -/
def Rising (net : Net) : Delivery → Prop
  | .write server call =>
    (∀ other ∈ net.seen server,
      other.version ≤ (entryOf env (net.servers server).conf call).version) ∧
      ∀ path, pathOf env (net.servers server).conf name = some path →
        call.ListsApart env (net.servers server).conf path
  | .process _ _ _ => True

/-- The version of the copy that a server holds. -/
def copy (net : Net) (server : Nat) : Option Version :=
  (pathOf env (net.servers server).conf name).bind (fun path =>
    ((net.servers server).files.read path).map versionOf)

/-- The copies as such. -/
def replicas (net : Net) : Replicas Nat Entry Version :=
  ⟨net.copy env name, net.seen, net.pending, net.written⟩

/-- What the deliveries keep: the settings, the form of the files and of the entries. -/
structure Sound (start : Nat → State) (net : Net) : Prop where
  alike : ∀ server, (start server).conf.Alike (net.servers server).conf
  versioned : ∀ server path content, pathOf env (net.servers server).conf name = some path →
    (net.servers server).files.read path = some content → Versioned content
  named : ∀ item ∈ net.pending, item.2.name = name

variable {env members name} {start : Nat → State} {net after : Net} {server : Nat}

theorem copy_update {state : State} (alike : (net.servers server).conf.Alike state.conf)
    (pending : List (Nat × Entry)) (seen : Nat → List Entry) (written : List Entry) :
    Net.copy env name ⟨Function.update net.servers server state, pending, seen, written⟩ =
      Function.update (net.copy env name) server
        ((pathOf env (net.servers server).conf name).bind (fun path =>
          (state.files.read path).map versionOf)) := by
  funext other
  by_cases same : other = server
  · grind [copy, pathOf_alike]
  · simp only [copy, update_of_ne same]

theorem Sound.update (sound : Sound env name start net) {state : State}
    (alike : (net.servers server).conf.Alike state.conf)
    (versioned : ∀ path content, pathOf env (net.servers server).conf name = some path →
      state.files.read path = some content → Versioned content) (rest : Net)
    (named : ∀ item ∈ rest.pending, item.2.name = name) :
    Sound env name start { rest with servers := Function.update net.servers server state } := by
  refine ⟨fun other => ?_, fun other path content place held => ?_, named⟩
  · by_cases same : other = server
    · subst same
      simp only [update_self]
      exact (sound.alike other).trans alike
    · simp only [update_of_ne same]
      exact sound.alike other
  · by_cases same : other = server
    · grind [pathOf_alike]
    · grind [sound.versioned]

theorem run_copy {s : State} {call : Call}
    (isName : (call.request env s.conf).fileName = name)
    (reported : (call.request env s.conf).headers.2 = true)
    (plain : ∀ path, pathOf env s.conf name = some path → 0 ∉ path)
    (lists : ∀ path, pathOf env s.conf name = some path → call.ListsApart env s.conf path) :
    ((call.run env s).onWrite = none ∧ ∀ path, pathOf env s.conf name = some path →
        (call.run env s).state.files.read path = s.files.read path) ∨
      ((call.run env s).onWrite = some (name, (entryOf env s.conf call).tms,
          (entryOf env s.conf call).crc32) ∧
        ∃ path, pathOf env s.conf name = some path ∧
          ∀ content, (call.run env s).state.files.read path = some content →
            Versioned content ∧ versionOf content = (entryOf env s.conf call).version) := by
  cases place : pathOf env s.conf name with
  | none =>
    left
    rcases acceptFile_cases env call.moment s call.content call.needCheckAuth call.needCheckAes with
      ⟨_, _, refused⟩ | ⟨d, found, _⟩
    · rw [Call.run, refused]
      exact ⟨rfl, fun _ _ => rfl⟩
    · rw [← isName, pathOf, map_eq_none_iff] at place
      cases place.symm.trans found
  | some path =>
    obtain ⟨plainPath, plainData, apart⟩ := cStr_dataFile (plain path place)
    obtain ⟨⟨type, _, headers⟩, _, whole⟩ := headers_reported reported
    have here : pathOf env s.conf (call.request env s.conf).fileName = some path := by
      rw [isName, place]
    have data : cStr path ≠ cStr (path ++ jExtensionName) := by
      grind
    rcases Call.run_read_own here data (lists path place) whole with
      ⟨refused, same⟩ | ⟨accepted, changed⟩
    · left
      refine ⟨?_, fun other isPath => ?_⟩
      · rw [Call.run_onWrite here, if_neg (fun both => refused both.1)]
      · cases isPath
        exact same
    · right
      refine ⟨?_, path, rfl, fun content held => ?_⟩
      · rw [Call.run_onWrite here, if_pos ⟨accepted, reported⟩, headers, isName]
        rfl
      · rcases changed with absent | ⟨toWrite, present⟩
        · grind
        · rw [present] at held
          cases held
          exact versionOf_headerText reported call.moment toWrite

theorem Sound.write {call : Call} (sound : Sound env name start net)
    (plain : ∀ server path, pathOf env (start server).conf name = some path → 0 ∉ path)
    (rising : net.Rising env name (.write server call))
    (taken : net.step env members name (.write server call) = some after) :
    Sound env name start after ∧
      Reaches (Replicas.step Entry.version members) (Replicas.Rising Entry.version)
        (net.replicas env name) (after.replicas env name) := by
  have alike : (net.servers server).conf.Alike (call.run env (net.servers server)).state.conf :=
    acceptFile_alike
  rw [step] at taken
  split at taken
  · rename_i request
    obtain ⟨member, isName, reported⟩ := request
    rcases run_copy isName reported (fun path place => plain server path (by
      rw [pathOf_alike env (sound.alike server), place])) rising.2 with
      ⟨nothing, same⟩ | ⟨written, path, place, versioned⟩
    · simp only [nothing, Option.some.injEq] at taken
      subst taken
      refine ⟨sound.update alike (fun path content place held => ?_) net sound.named, ?_⟩
      · rw [same path place] at held
        exact sound.versioned server path content place held
      · have copies : (pathOf env (net.servers server).conf name).bind (fun path =>
            ((call.run env (net.servers server)).state.files.read path).map versionOf) =
            net.copy env name server := by
          rw [copy]
          cases place : pathOf env (net.servers server).conf name with
          | none => rfl
          | some path => simp only [bind_some, same path place]
        rw [replicas, replicas, copy_update alike, copies, update_eq_self]
        exact .start
    · have isEntry : ⟨name, (entryOf env (net.servers server).conf call).tms,
          (entryOf env (net.servers server).conf call).crc32⟩ =
          entryOf env (net.servers server).conf call := by
        rw [← isName]
        rfl
      simp only [written, Option.some.injEq, isEntry] at taken
      subst taken
      refine ⟨sound.update alike (fun other content isPath held => ?_) { net with
        pending := _, seen := _, written := _ } (fun item inside => ?_), ?_⟩
      · grind
      · rcases mem_append.mp inside with old | new
        · exact sound.named item old
        · obtain ⟨_, _, rfl⟩ := mem_map.mp new
          exact isName
      · have copies : (pathOf env (net.servers server).conf name).bind (fun path =>
            ((call.run env (net.servers server)).state.files.read path).map versionOf) =
            if ((call.run env (net.servers server)).state.files.read path).isSome then
              some (entryOf env (net.servers server).conf call).version else none := by
          rw [place, bind_some]
          cases held : (call.run env (net.servers server)).state.files.read path with
          | none => rfl
          | some content => simp [(versioned content held).2]
        refine Reaches.start.next (.write server (entryOf env (net.servers server).conf call)
          ((call.run env (net.servers server)).state.files.read path).isSome) rising.1 ?_
        rw [Replicas.step, if_pos member]
        simp only [replicas, copy_update alike, copies]
  · cases taken

theorem Sound.process {moment : Moment} {e : Entry} (sound : Sound env name start net)
    (fits : name.length ≤ 64 ∧ 0 ∉ name)
    (taken : net.step env members name (.process server moment e) = some after) :
    Sound env name start after ∧
      Reaches (Replicas.step Entry.version members) (Replicas.Rising Entry.version)
        (net.replicas env name) (after.replicas env name) := by
  rw [step] at taken
  split at taken
  · rename_i done
    cases taken
    obtain ⟨present, removed⟩ := done
    have named : e.name = name := sound.named _ present
    have told : parse (record 0 e) = e := parse_record 0 (by rw [Entry.Fits, named]; exact fits)
    rw [told, named] at removed ⊢
    have own : ∀ path, pathOf env (net.servers server).conf name = some path →
        (removeFileByTms env moment (net.servers server) name e.tms e.crc32 false).1.files.read
          path = ((net.servers server).files.read path).filter (fun content =>
            !needRemove (content.take 64) e.tms e.crc32) :=
      fun path place => removeFileByTms_read_own place removed
    refine ⟨sound.update removeFileByTms_alike (fun path content place held => ?_) { net with
      pending := net.pending.erase (server, e)
      seen := Function.update net.seen server (e :: net.seen server) } (fun item inside =>
        sound.named item (mem_of_mem_erase inside)), ?_⟩
    · rw [own path place] at held
      exact sound.versioned server path content place (filter_eq_some_iff.mp held).1
    · have copies : (pathOf env (net.servers server).conf name).bind (fun path =>
          ((removeFileByTms env moment (net.servers server) name e.tms e.crc32
            false).1.files.read path).map versionOf) =
          (net.copy env name server).filter (fun copy => ¬ copy < e.version) := by
        rw [copy]
        cases place : pathOf env (net.servers server).conf name with
        | none => rfl
        | some path =>
          simp only [bind_some, own path place]
          cases held : (net.servers server).files.read path with
          | none => rfl
          | some content =>
            have remove := needRemove_iff (sound.versioned server path content place held) e.tms
              e.crc32
            by_cases below : versionOf content < e.version
            · simp [Option.filter, remove.mpr below, below]
            · have stays : needRemove (content.take 64) e.tms e.crc32 = false := by
                rw [Bool.eq_false_iff]
                exact fun removes => below (remove.mp removes)
              simp [Option.filter, stays, below]
      refine Reaches.start.next (.process server e) trivial ?_
      rw [Replicas.step, if_pos (show (server, e) ∈ (net.replicas env name).pending from present)]
      simp only [replicas, copy_update removeFileByTms_alike, copies]
  · cases taken

/-- When all entries are processed, every server holds no copy or one of the greatest version of
all writes, provided that no server got a write below one that it had accepted or processed. -/
theorem copies_greatest (fits : name.length ≤ 64 ∧ 0 ∉ name)
    (plain : ∀ server path, pathOf env (start server).conf name = some path → 0 ∉ path)
    (absent : ∀ server path, pathOf env (start server).conf name = some path →
      (start server).files.read path = none)
    (reached : Reaches (step env members name) (Rising env name) { servers := start } net)
    (settled : net.pending = []) (member : server ∈ members) :
    net.copy env name server = none ∨
      ∃ copy, net.copy env name server = some copy ∧
        (∃ e ∈ net.written, e.version = copy) ∧ ∀ e ∈ net.written, e.version ≤ copy := by
  have initial : Sound env name start { servers := start } := by
    refine ⟨fun _ => .refl _, fun server path content place held => ?_, fun _ inside => ?_⟩
    · rw [absent server path place] at held
      cases held
    · cases inside
  have nothing : Net.replicas env name { servers := start } = Replicas.empty := by
    have copies : Net.copy env name { servers := start } = fun _ => none := by
      funext other
      rw [copy]
      cases place : pathOf env (start other).conf name with
      | none => rfl
      | some path => simp only [bind_some, absent other path place, map_none]
    rw [replicas, copies]
    rfl
  have moves : ∀ net delivery after, Sound env name start net → net.Rising env name delivery →
      net.step env members name delivery = some after → Sound env name start after ∧
        Reaches (Replicas.step Entry.version members) (Replicas.Rising Entry.version)
          (net.replicas env name) (after.replicas env name) := by
    intro net delivery after sound rising taken
    cases delivery with
    | write server call => exact sound.write plain rising taken
    | process server moment e => exact sound.process fits taken
  obtain ⟨_, there⟩ := reached.simulates (replicas env name) (Sound env name start) initial moves
  rw [nothing] at there
  cases held : net.copy env name server with
  | none => exact .inl rfl
  | some copy =>
    exact .inr ⟨copy, rfl, Replicas.copy_greatest there settled member held⟩

/-- A write of the file `a` with a time. -/
def sampleWrite (tms : Int64) : Call where
  moment := sampleMoment
  content := lineText [97, 117, 116, 104] [97] [48]
    (WType.updatable.digits ++ (i64ToChars tms ++ i64ToChars 0)) ++ [120]

/-- Two servers without files. -/
def samplePair : Net := { servers := fun _ => sampleState }

/-- A write that is the first one of its server and has no last day. -/
def isFirst (net : Net) : Delivery → Bool
  | .write server call => net.seen server = [] ∧
    (call.request Reference.env (net.servers server).conf).ttl = 0
  | .process _ _ _ => true

/-- A second server processes a write that it did not get. -/
theorem copies_greatest_sample :
    ∃ net, Reaches (step Reference.env [0, 1] [97]) (Rising Reference.env [97]) samplePair net ∧
      net.copy Reference.env [97] 0 = some (version 5 0) ∧
      ∀ e ∈ net.written, e.version ≤ version 5 0 := by
  have ran : ∃ net, Reaches (step Reference.env [0, 1] [97]) (fun net delivery =>
      net.isFirst delivery = true) samplePair net ∧ net.pending = [] ∧
      net.copy Reference.env [97] 0 = some (version 5 0) :=
    Reaches.of_runActions_any [.write 0 (sampleWrite 5), .process 1 sampleMoment ⟨[97], 5, 0⟩]
      (by decide +kernel)
  obtain ⟨net, reached, settled, held⟩ := ran
  have rising : Reaches (step Reference.env [0, 1] [97]) (Rising Reference.env [97]) samplePair
      net := by
    refine reached.mono (fun net delivery first => ?_)
    cases delivery with
    | write server call =>
      simp only [isFirst, Bool.decide_and, Bool.and_eq_true, decide_eq_true_eq] at first
      refine ⟨fun other seen => ?_, fun path _ some => ?_⟩
      · rw [first.1] at seen
        cases seen
      · grind
    | process server moment e => trivial
  have plain : ∀ server path, pathOf Reference.env (samplePair.servers server).conf [97] =
      some path → 0 ∉ path := by
    intro server path place
    have here : path = samplePathOf [97] := by
      rw [samplePathOf, show sampleState.conf = (samplePair.servers server).conf from rfl, place]
      rfl
    rw [here]
    decide +kernel
  rcases copies_greatest (by decide) plain (fun _ _ _ => rfl) rising settled
    (show 0 ∈ [0, 1] by decide) with none | ⟨copy, same, _, greatest⟩
  · grind
  · rw [held] at same
    cases same
    exact ⟨net, rising, held, greatest⟩

/-- A server gets the greater write first and keeps the smaller one. -/
theorem copies_smaller :
    ∃ net, Reaches (step Reference.env [0, 1] [97]) (fun _ _ => True) samplePair net ∧
      net.pending = [] ∧ net.copy Reference.env [97] 0 = some (version 1 0) ∧
      ∃ e ∈ net.written, version 1 0 < e.version := by
  have ran : ∃ net, Reaches (step Reference.env [0, 1] [97]) (fun _ _ => True) samplePair net ∧
      net.pending = [] ∧ net.copy Reference.env [97] 0 = some (version 1 0) ∧
      ⟨[97], 2, 0⟩ ∈ net.written :=
    Reaches.of_runActions_any [.write 0 (sampleWrite 2), .write 0 (sampleWrite 1),
      .process 1 sampleMoment ⟨[97], 2, 0⟩, .process 1 sampleMoment ⟨[97], 1, 0⟩]
      (by decide +kernel)
  obtain ⟨net, reached, settled, held, written⟩ := ran
  refine ⟨net, reached, settled, held, _, written, ?_⟩
  rw [Entry.version, version, version, Prod.Lex.toLex_lt_toLex]
  exact .inl (by decide)

end Net

end RssDisk.Hstf
