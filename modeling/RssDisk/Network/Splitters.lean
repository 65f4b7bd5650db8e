import RssDisk.Bitbase
import RssDisk.Lib.Delimiter

/-!
# The splitters of both sides

A message travels as its bytes between two delimiters. The server splits what it has read with
`process_read2`, which compares byte for byte; the client splits it with `read_bytes`, which looks
for the delimiter in a buffer and remembers from where to look next. Both keep their state from one
chunk to the next.

The first one refines the machine that begins anew at a byte that does not fit, the second one the
machine that finds the first occurrence.
-/

namespace RssDisk.Network

open RssDisk.Lib List Option

/-- `epoll_v2::message_helper`: what the server holds of a message that is not complete. -/
structure MessageHelper where
  message : Bytes := []
  /-- The bytes that have matched the beginning of the delimiter. -/
  delMessage : Bytes := []
  /-- The place of the last byte of the delimiter that has matched. -/
  seekDelimeter : Int := -1
deriving DecidableEq

namespace MessageHelper

/-- The place of the byte of the delimiter that comes next. -/
def delimeterPos (m : MessageHelper) : Nat :=
  (m.seekDelimeter + 1).toNat

/-- A byte that fits the delimiter. -/
def fit (m : MessageHelper) (ch : UInt8) : MessageHelper :=
  { m with delMessage := m.delMessage ++ [ch], seekDelimeter := m.seekDelimeter + 1 }

/-- A failed attempt belongs to the message. -/
def giveUp (m : MessageHelper) : MessageHelper :=
  { message := m.message ++ m.delMessage, delMessage := [], seekDelimeter := -1 }

/-- The `for` loop of `process_read2`: it reads on until a byte fits or the buffer ends, and leaves
the rest of the buffer. -/
def scan (det : Bytes) (delChar : UInt8) (m : MessageHelper) : Bytes → MessageHelper × Bytes
  | [] => (m, [])
  | ch :: buf =>
    if ch = delChar then (m.fit ch, buf)
    else
      let attempt := if m.delMessage = [] then (m, delChar) else (m.giveUp, det.getD 0 0)
      if ch = attempt.2 then (attempt.1.fit ch, buf)
      else
        scan det attempt.2 { attempt.1 with message := attempt.1.message ++ [ch] } buf

/-- The `while` loop of `process_read2`, with a bound on its rounds: the state and the messages that
were completed. A complete delimiter ends a message at the end of the buffer or in the next round.
With an empty delimiter the loop does not end. -/
def loop (det : Bytes) : Nat → MessageHelper → Bytes → Option (MessageHelper × List Bytes)
  | _, m, [] => some (m, [])
  | 0, _, _ :: _ => none
  | rounds + 1, m, ch :: buf =>
    if m.delimeterPos < det.length then
      let scanned := m.scan det (det.getD m.delimeterPos 0) (ch :: buf)
      if scanned.2 = [] ∧ det.length ≤ scanned.1.delimeterPos then
        some ({}, piece scanned.1.message)
      else loop det rounds scanned.1 scanned.2
    else (loop det rounds {} (ch :: buf)).map (fun done => (done.1, piece m.message ++ done.2))

end MessageHelper

/-- `epoll_v2::process_read2`. The place in the buffer and the place in the delimiter are `int32`,
so the function is defined for buffers below 2 GiB only, and for longer delimiters as long as no
attempt can come to that length. -/
def processRead2 (det : Bytes) (m : MessageHelper) (buf : Bytes) :
    Option (MessageHelper × List Bytes) :=
  if buf.length < 2 ^ 31 ∧ (det.length < 2 ^ 31 ∨ m.delimeterPos + buf.length < 2 ^ 31) then
    m.loop det (2 * buf.length) buf
  else none

/-- The messages the server has split off after some chunks. -/
def serverMessages (det : Bytes) (chunks : List Bytes) : Option (List Bytes) :=
  (feedChunks (processRead2 det) {} chunks).map Prod.snd

/-- The buffer of `tcp_client::read_bytes`. -/
structure ReadBuffer where
  m : Bytes := []
  s : Nat := 0
deriving DecidableEq

/-- `std::string::find` from a place on. -/
def find (text pattern : Bytes) (pos : Nat) : Option Nat :=
  (cut pattern (text.drop pos)).map (fun parts => pos + parts.1.length)

namespace ReadBuffer

/-- `check` of `read_bytes`: whether a delimiter was found, and the messages handed on. -/
def check (det : Bytes) (b : ReadBuffer) : Bool × ReadBuffer × List Bytes :=
  match find b.m det b.s with
  | some fDel =>
    if fDel = 0 then (true, ⟨b.m.drop det.length, 0⟩, [])
    else if fDel + det.length = b.m.length then (true, ⟨[], 0⟩, [b.m.take fDel])
    else (true, ⟨b.m.drop (fDel + det.length), 0⟩, [b.m.take fDel])
  | none =>
    (false, ⟨b.m, if det.length < b.m.length then b.m.length - det.length else b.s⟩, [])

/-- `while (check());`, with a bound on its rounds. With an empty delimiter it does not end. -/
def checkAll (det : Bytes) : Nat → ReadBuffer → Option (ReadBuffer × List Bytes)
  | 0, _ => none
  | rounds + 1, b =>
    match b.check det with
    | (true, next, handed) =>
      (checkAll det rounds next).map (fun done => (done.1, handed ++ done.2))
    | (false, next, handed) => some (next, handed)

end ReadBuffer

/-- The splitting of `tcp_client::read_bytes`. -/
def readBytes (det : Bytes) (b : ReadBuffer) (buffer : Bytes) :
    Option (ReadBuffer × List Bytes) :=
  ReadBuffer.checkAll det ((b.m ++ buffer).length + 1) ⟨b.m ++ buffer, b.s⟩

/-- The messages the client has split off after some chunks. -/
def clientMessages (det : Bytes) (chunks : List Bytes) : Option (List Bytes) :=
  (feedChunks (readBytes det) {} chunks).map Prod.snd

variable {a : Attempt UInt8}

namespace MessageHelper

variable {det : Bytes}

/-- The helper that holds an attempt. -/
def ofAttempt (a : Attempt UInt8) : MessageHelper :=
  ⟨a.before, a.matched, (a.matched.length : Int) - 1⟩

theorem ofAttempt_delimeterPos (a : Attempt UInt8) :
    (ofAttempt a).delimeterPos = a.matched.length := by
  show ((a.matched.length : Int) - 1 + 1).toNat = a.matched.length
  omega

theorem ofAttempt_empty (text : (ofAttempt a).message = [])
    (attempt : (ofAttempt a).delMessage = []) : ofAttempt a = {} := by
  obtain ⟨before, matched⟩ := a
  cases text
  cases attempt
  rfl

theorem getD_eq_iff {place : Nat} (low : place < det.length) (ch : UInt8) :
    ch = det.getD place 0 ↔ det[place]? = some ch := by
  rw [getD_eq_getElem?_getD, getElem?_eq_getElem low, getD_some,
    Option.some.injEq]
  exact eq_comm

/-- What the machine does with a text after an attempt that may be complete. -/
def resume (det : Bytes) (a : Attempt UInt8) (buf : Bytes) : Attempt UInt8 × List Bytes :=
  if a.matched.length < det.length then feedAll (restart det) a buf
  else
    ((feedAll (restart det) {} buf).1, piece a.before ++ (feedAll (restart det) {} buf).2)

theorem feedAll_cons_eq (a : Attempt UInt8) (ch : UInt8) (buf : Bytes) :
    feedAll (restart det) a (ch :: buf) = resume det (a.advance det ch) buf := by
  rw [feedAll, resume, restart]
  split <;> rfl

theorem scan_eq (buf : Bytes) (begins : a.matched <+: det) (short : a.matched.length < det.length) :
    ∃ (b : Attempt UInt8) (rest : Bytes),
      (ofAttempt a).scan det (det.getD a.matched.length 0) buf = (ofAttempt b, rest) ∧
        b.matched <+: det ∧ rest.length ≤ buf.length - 1 ∧
          feedAll (restart det) a buf = resume det b rest := by
  induction buf generalizing a with
  | nil => exact ⟨a, [], rfl, begins, Nat.le_refl 0, (if_pos short).symm⟩
  | cons ch buf ih =>
    have positive : 0 < det.length := by omega
    rw [feedAll_cons_eq, scan]
    by_cases fits : det[a.matched.length]? = some ch
    · have next : a.advance det ch = ⟨a.before, a.matched ++ [ch]⟩ := if_pos fits
      refine ⟨a.advance det ch, buf, ?_, a.advance_matched begins ch, Nat.le_refl _, rfl⟩
      rw [if_pos ((getD_eq_iff short ch).mpr fits), next, fit, ofAttempt, ofAttempt]
      simp
    · rw [if_neg (fun same => fits ((getD_eq_iff short ch).mp same))]
      -- a failed attempt is given up; without one nothing changes
      have given : (if (ofAttempt a).delMessage = [] then
            (ofAttempt a, det.getD a.matched.length 0)
          else ((ofAttempt a).giveUp, det.getD 0 0)) =
          (ofAttempt ⟨a.before ++ a.matched, []⟩, det.getD 0 0) := by
        split
        · rename_i nothing
          have none : a.matched = [] := nothing
          rw [ofAttempt, ofAttempt, none, append_nil]
          rfl
        · rfl
      dsimp only
      rw [given]
      by_cases again : det[0]? = some ch
      · have next : a.advance det ch = ⟨a.before ++ a.matched, [ch]⟩ := by
          rw [Attempt.advance, if_neg fits, if_pos again]
        refine ⟨a.advance det ch, buf, ?_, a.advance_matched begins ch, Nat.le_refl _, rfl⟩
        rw [if_pos ((getD_eq_iff positive ch).mpr again), next, fit, ofAttempt, ofAttempt]
        simp
      · have next : a.advance det ch = ⟨a.before ++ a.matched ++ [ch], []⟩ := by
          rw [Attempt.advance, if_neg fits, if_neg again]
        obtain ⟨b, rest, scanned, further, fewer, same⟩ :=
          ih (a := a.advance det ch) (a.advance_matched begins ch) (by rw [next]; exact positive)
        have resumed : resume det (a.advance det ch) buf =
            feedAll (restart det) (a.advance det ch) buf := if_pos (by rw [next]; exact positive)
        refine ⟨b, rest, ?_, further, by simp only [length_cons]; omega, resumed.trans same⟩
        rw [if_neg (fun same => again ((getD_eq_iff positive ch).mp same)), ← scanned, next]
        rfl

theorem loop_eq (rounds : Nat) (buf : Bytes) (begins : a.matched <+: det) (filled : det ≠ [])
    (settled : buf = [] → a.matched.length < det.length)
    (enough : 2 * buf.length + (if a.matched.length < det.length then 0 else 1) ≤ rounds) :
    (ofAttempt a).loop det rounds buf =
      some (ofAttempt (resume det a buf).1, (resume det a buf).2) := by
  have positive : 0 < det.length := length_pos_iff.mpr filled
  induction rounds generalizing a buf with
  | zero =>
    cases buf with
    | nil => rw [loop, resume, if_pos (settled rfl)]; rfl
    | cons ch buf => simp at enough
  | succ rounds ih =>
    cases buf with
    | nil => rw [loop, resume, if_pos (settled rfl)]; rfl
    | cons ch buf =>
      rw [loop, ofAttempt_delimeterPos]
      by_cases short : a.matched.length < det.length
      · obtain ⟨b, rest, scanned, further, fewer, same⟩ := scan_eq (ch :: buf) begins short
        rw [if_pos short, scanned]
        rw [if_pos short, length_cons] at enough
        rw [length_cons] at fewer
        have resumed : resume det a (ch :: buf) = resume det b rest := by
          rw [← same, resume, if_pos short]
        dsimp only
        rw [resumed, ofAttempt_delimeterPos]
        split
        · rename_i complete
          rw [resume, if_neg (Nat.not_lt_of_le complete.2), complete.1]
          simp only [feedAll, append_nil]
          rfl
        · rename_i open_
          apply ih rest further
          · intro nothing
            by_contra whole
            exact open_ ⟨nothing, Nat.le_of_not_lt whole⟩
          · split <;> omega
      · have empty : ({} : Attempt UInt8).matched.length < det.length := positive
        have after := ih (ch :: buf) (a := {}) List.nil_prefix (fun nothing => by cases nothing)
          (by rw [if_neg short] at enough; rw [if_pos empty]; omega)
        have start : ofAttempt {} = {} := rfl
        rw [start, resume, if_pos empty] at after
        rw [if_neg short, after, resume, if_neg short]
        rfl

end MessageHelper

theorem processRead2_large {det buf : Bytes} (m : MessageHelper) (large : 2 ^ 31 ≤ buf.length) :
    processRead2 det m buf = none :=
  if_neg (fun fits => absurd fits.1 (Nat.not_lt.mpr large))

theorem tracks_short {det : Bytes} (tracks : a.Tracks det) : a.matched.length < det.length := by
  have low := tracks.within _ (Nat.le_refl _)
  rwa [take_length, tracks.count] at low

section

variable {det : Bytes} (filled : det ≠ [])

include filled

theorem processRead2_reads (tracks : a.Tracks det) {chunk : Bytes} (fits : chunk.length < 2 ^ 31)
    (small : det.length < 2 ^ 31 ∨ a.matched.length + chunk.length < 2 ^ 31) :
    processRead2 det (.ofAttempt a) chunk =
      some (.ofAttempt (feedAll (restart det) a chunk).1, (feedAll (restart det) a chunk).2) := by
  have short := tracks_short tracks
  rw [processRead2, MessageHelper.ofAttempt_delimeterPos, if_pos ⟨fits, small⟩,
    MessageHelper.loop_eq _ _ tracks.begins filled (fun _ => short)
      (by rw [if_pos short]; exact Nat.le_refl _),
    MessageHelper.resume, if_pos short]

theorem processRead2_eq (small : det.length < 2 ^ 31) (m : MessageHelper) (a : Attempt UInt8)
    (chunk : Bytes) (held : m = .ofAttempt a ∧ a.Tracks det) (fits : chunk.length < 2 ^ 31) :
    ∃ m', processRead2 det m chunk = some (m', (feedAll (restart det) a chunk).2) ∧
      m' = .ofAttempt (feedAll (restart det) a chunk).1 ∧
        (feedAll (restart det) a chunk).1.Tracks det := by
  obtain ⟨rfl, tracks⟩ := held
  have kept := feedAll_invariant _ _ (restart_tracks filled) tracks chunk
  exact ⟨_, processRead2_reads filled tracks fits (.inl small), rfl, kept.1⟩

theorem serverMessages_eq (small : det.length < 2 ^ 31) (chunks : List Bytes)
    (fit : ∀ chunk ∈ chunks, chunk.length < 2 ^ 31) :
    serverMessages det chunks = some (feedAll (restart det) {} chunks.flatten).2 := by
  obtain ⟨_, fed, _⟩ := feedChunks_eq
    (fun (m : MessageHelper) (a : Attempt UInt8) => m = .ofAttempt a ∧ a.Tracks det)
    (processRead2_eq filled small) ⟨rfl, .start filled⟩ chunks fit
  have start : MessageHelper.ofAttempt {} = {} := rfl
  rw [start] at fed
  rw [serverMessages, fed]
  rfl

theorem feedChunks_processRead2 (chunks : List Bytes) (tracks : a.Tracks det)
    (fits : a.before.length + a.matched.length + chunks.flatten.length < 2 ^ 31) :
    feedChunks (processRead2 det) (.ofAttempt a) chunks =
      some (.ofAttempt (feedAll (restart det) a chunks.flatten).1,
        (feedAll (restart det) a chunks.flatten).2) := by
  induction chunks generalizing a with
  | nil => rfl
  | cons chunk chunks ih =>
    rw [flatten_cons, length_append] at fits
    have kept := feedAll_invariant _ _ (restart_tracks filled) tracks chunk
    -- what is held came since the last delimiter
    have held : (feedAll (restart det) a chunk).1.before.length +
        (feedAll (restart det) a chunk).1.matched.length ≤
          a.before.length + a.matched.length + chunk.length := by
      obtain ⟨parts, whole, _⟩ := restart_parts tracks.begins chunk
      have lengths := congrArg List.length whole
      simp only [length_append] at lengths
      omega
    rw [flatten_cons, feedAll_append, feedChunks,
      processRead2_reads filled tracks (by omega) (.inr (by omega)), bind_eq_bind,
      bind_some, ih kept.1 (by omega)]
    rfl

end

/-- Over all divisions of a stream into chunks the messages and the state do not depend on the
division, and each byte is in a message, in a complete delimiter or held, exactly for the streams
below 2 GiB. -/
theorem processRead2_chunks_iff (det : Bytes) (filled : det ≠ []) (chunks : List Bytes) :
    (∃ (m : MessageHelper) (messages : List Bytes),
      feedChunks (processRead2 det) {} chunks = some (m, messages) ∧
      processRead2 det {} chunks.flatten = some (m, messages) ∧
      ∃ parts : List Bytes,
        chunks.flatten = parts.flatMap (· ++ det) ++ m.message ++ m.delMessage ∧
        messages = parts.filter (· ≠ []) ∧
        m.delMessage <+: det ∧ m.delMessage.length < det.length) ↔
      chunks.flatten.length < 2 ^ 31 := by
  constructor
  · rintro ⟨m, messages, -, once, -⟩
    by_contra large
    grind [processRead2_large]
  · intro fits
    have start : MessageHelper.ofAttempt {} = {} := rfl
    have tracks : Attempt.Tracks det {} := .start filled
    have kept := (feedAll_invariant _ _ (restart_tracks filled) tracks chunks.flatten).1
    have each := feedChunks_processRead2 filled chunks tracks (by simpa using fits)
    have once := processRead2_reads filled tracks fits (.inr (by simpa using fits))
    obtain ⟨parts, whole, given⟩ := restart_parts tracks.begins chunks.flatten
    rw [start] at each once
    exact ⟨_, _, each, once, parts, whole, given, kept.begins, tracks_short kept⟩

/-- A delimiter of two bytes that a chunk cuts, and one with an empty message before it. -/
theorem processRead2_chunks_iff_cut :
    ([13, 10] : Bytes) ≠ [] ∧ ∃ (m : MessageHelper) (messages : List Bytes),
      feedChunks (processRead2 [13, 10]) {} [[97, 13], [], [10, 13, 10, 98, 13]] =
        some (m, messages) ∧
      processRead2 [13, 10] {} ([[97, 13], [], [10, 13, 10, 98, 13]] : List Bytes).flatten =
        some (m, messages) ∧
      ∃ parts : List Bytes,
        ([[97, 13], [], [10, 13, 10, 98, 13]] : List Bytes).flatten =
          parts.flatMap (· ++ [13, 10]) ++ m.message ++ m.delMessage ∧
        messages = parts.filter (· ≠ []) ∧
        m.delMessage <+: [13, 10] ∧ m.delMessage.length < ([13, 10] : Bytes).length :=
  ⟨by decide, (processRead2_chunks_iff [13, 10] (by decide)
    [[97, 13], [], [10, 13, 10, 98, 13]]).mpr (by decide)⟩

/-- A stream of 2 GiB that comes at once leaves the places that an `int32` has. -/
theorem processRead2_overflows :
    ¬ ∃ (m : MessageHelper) (messages : List Bytes),
      feedChunks (processRead2 [13]) {} [List.replicate (2 ^ 31) 0] = some (m, messages) ∧
      processRead2 [13] {} [List.replicate (2 ^ 31) 0].flatten = some (m, messages) := by
  rintro ⟨m, messages, -, once⟩
  have large : 2 ^ 31 ≤ ([List.replicate (2 ^ 31) 0] : List Bytes).flatten.length := by
    rw [flatten_singleton, length_replicate]
  exact absurd ((processRead2_large {} large).symm.trans once) (some_ne_none _).symm

/-- What the buffer holds: no delimiter, and none can begin before the place from which to look. -/
structure ReadBuffer.Holds (det : Bytes) (b : ReadBuffer) (held : Bytes) : Prop where
  bytes : b.m = held
  absent : ¬ det <:+: held
  /-- A delimiter that begins before the place would lie within them. -/
  low : b.s ≤ held.length - det.length

theorem find_eq {det held chunk : Bytes} {pos : Nat} (absent : ¬ det <:+: held)
    (low : pos ≤ held.length - det.length) :
    find (held ++ chunk) det pos =
      (cut det (held ++ chunk)).map (fun parts => parts.1.length) := by
  have nowhere : ∀ place < pos, ¬ det <+: (held ++ chunk).drop place := by
    intro place below starts
    exact absent (infix_of_prefix_drop starts (by omega))
  have inside : pos ≤ (held ++ chunk).length := by
    rw [length_append]
    omega
  rw [find, cut_drop inside nowhere, Option.map_map]
  congr 1
  funext parts
  rw [Function.comp, length_append, length_take_of_le inside]

theorem ReadBuffer.check_found {det before behind : Bytes} {pos : Nat}
    (found : find (before ++ (det ++ behind)) det pos = some before.length) :
    ReadBuffer.check det ⟨before ++ (det ++ behind), pos⟩ =
      (true, ⟨behind, 0⟩, piece before) := by
  have dropped : (before ++ (det ++ behind)).drop (before.length + det.length) = behind := by
    rw [← append_assoc, drop_left' length_append]
  rw [ReadBuffer.check, found]
  dsimp only
  by_cases nothing : before = []
  · subst nothing
    rw [if_pos length_nil, nil_append, drop_left]
    rfl
  · rw [if_neg (fun zero => nothing (length_eq_zero_iff.mp zero)), dropped, take_left,
      piece, if_neg nothing]
    split
    · rename_i last
      have none : behind = [] := by
        apply length_eq_zero_iff.mp
        grind
      rw [none]
    · rfl

theorem ReadBuffer.checkAll_eq {det : Bytes} (filled : det ≠ []) (rounds : Nat)
    (held chunk : Bytes) {pos : Nat} (absent : ¬ det <:+: held)
    (low : pos ≤ held.length - det.length) (enough : (held ++ chunk).length < rounds) :
    ∃ b, ReadBuffer.checkAll det rounds ⟨held ++ chunk, pos⟩ =
        some (b, (feedAll (leftmost det) held chunk).2) ∧
      b.Holds det (feedAll (leftmost det) held chunk).1 := by
  have positive : 0 < det.length := length_pos_iff.mpr filled
  induction rounds generalizing held chunk pos with
  | zero => cases enough
  | succ rounds ih =>
    have place : find (held ++ chunk) det pos =
        (cut det (held ++ chunk)).map (fun parts => parts.1.length) := find_eq absent low
    rw [ReadBuffer.checkAll]
    cases found : cut det (held ++ chunk) with
    | none =>
      have nothing := not_infix_of_cut found
      rw [found] at place
      rw [ReadBuffer.check, place, leftmost_held held nothing]
      refine ⟨_, rfl, rfl, nothing, ?_⟩
      dsimp only
      rw [length_append]
      split <;> omega
    | some parts =>
      obtain ⟨before, behind⟩ := parts
      have whole := cut_eq found
      have fewer : ([] ++ behind : Bytes).length < rounds := by
        rw [whole] at enough
        grind
      obtain ⟨b, done, holds⟩ := ih [] behind
        (fun inside => filled (infix_nil.mp inside)) (Nat.zero_le _) fewer
      rw [found, whole] at place
      rw [leftmost_cut filled absent found, whole, ReadBuffer.check_found place]
      refine ⟨b, ?_, holds⟩
      rw [nil_append] at done
      dsimp only
      rw [done]
      rfl

theorem readBytes_eq {det : Bytes} (filled : det ≠ []) (b : ReadBuffer) (held chunk : Bytes)
    (holds : b.Holds det held) :
    ∃ b', readBytes det b chunk = some (b', (feedAll (leftmost det) held chunk).2) ∧
      b'.Holds det (feedAll (leftmost det) held chunk).1 := by
  rw [readBytes, holds.bytes]
  exact ReadBuffer.checkAll_eq filled _ held chunk holds.absent holds.low (Nat.lt_succ_self _)

theorem clientMessages_eq {det : Bytes} (filled : det ≠ []) (chunks : List Bytes) :
    clientMessages det chunks = some (feedAll (leftmost det) [] chunks.flatten).2 := by
  have start : ReadBuffer.Holds det {} [] :=
    ⟨rfl, fun inside => filled (infix_nil.mp inside), Nat.zero_le _⟩
  obtain ⟨_, fed, _⟩ := feedChunks_eq (ReadBuffer.Holds det)
    (fun b held chunk holds (_ : True) => readBytes_eq filled b held chunk holds) start chunks
    (fun _ _ => trivial)
  rw [clientMessages, fed]
  rfl

/-- The client delivers the parts of the stream that are not empty, in order, and keeps what is
behind the last occurrence of the delimiter; looking from the remembered place finds what looking
from the start finds. -/
theorem readBytes_chunks (det : Bytes) (filled : det ≠ []) (chunks : List Bytes) :
    ∃ (b : ReadBuffer) (parts : List Bytes),
      feedChunks (readBytes det) {} chunks = some (b, parts.filter (· ≠ [])) ∧
      Parts det chunks.flatten parts b.m ∧
      ∀ chunk, find (b.m ++ chunk) det b.s = find (b.m ++ chunk) det 0 := by
  have start : ReadBuffer.Holds det {} [] :=
    ⟨rfl, fun inside => filled (infix_nil.mp inside), Nat.zero_le _⟩
  obtain ⟨b, fed, holds⟩ := feedChunks_eq (ReadBuffer.Holds det)
    (fun b held chunk holds (_ : True) => readBytes_eq filled b held chunk holds) start chunks
    (fun _ _ => trivial)
  obtain ⟨parts, split, given⟩ := leftmost_parts filled chunks.flatten
  refine ⟨b, parts, ?_, ?_, fun chunk => ?_⟩
  · rw [fed, given]
  · rwa [holds.bytes]
  · rw [holds.bytes, find_eq holds.absent holds.low, find_eq holds.absent (Nat.zero_le _)]

/-- A delimiter that three chunks cut. -/
theorem readBytes_chunks_cut :
    ([97, 98, 97] : Bytes) ≠ [] ∧ ∃ (b : ReadBuffer) (parts : List Bytes),
      feedChunks (readBytes [97, 98, 97]) {} [[120, 97], [98], [97, 98, 97, 121]] =
        some (b, parts.filter (· ≠ [])) ∧
      Parts [97, 98, 97] ([[120, 97], [98], [97, 98, 97, 121]] : List Bytes).flatten parts b.m ∧
      ∀ chunk, find (b.m ++ chunk) [97, 98, 97] b.s = find (b.m ++ chunk) [97, 98, 97] 0 :=
  ⟨by decide, readBytes_chunks [97, 98, 97] (by decide) [[120, 97], [98], [97, 98, 97, 121]]⟩

theorem flatten_bytes (stream : Bytes) : (stream.map fun ch => [ch]).flatten = stream := by
  induction stream with
  | nil => rfl
  | cons ch stream ih => rw [map_cons, flatten_cons, ih]; rfl

theorem bytes_small (stream : Bytes) :
    ∀ chunk ∈ stream.map fun ch => [ch], chunk.length < 2 ^ 31 := by
  intro chunk member
  obtain ⟨ch, _, rfl⟩ := mem_map.mp member
  rw [length_singleton]
  decide

/-- Over all streams in all chunks below 2 GiB both sides deliver the same messages exactly when
the delimiter goes on like its beginning wherever its first byte comes again. -/
theorem splitters_agree_iff (det : Bytes) (filled : det ≠ []) (small : det.length < 2 ^ 31) :
    (∀ chunks : List Bytes, (∀ chunk ∈ chunks, chunk.length < 2 ^ 31) →
      ∃ messages, serverMessages det chunks = some messages ∧
        clientMessages det chunks = some messages) ↔ SelfSimilar det := by
  rw [← restart_eq_leftmost_iff filled]
  constructor
  · intro agree stream
    obtain ⟨messages, server, client⟩ := agree _ (bytes_small stream)
    rw [serverMessages_eq filled small _ (bytes_small stream), flatten_bytes] at server
    grind [clientMessages_eq, flatten_bytes]
  · intro same chunks fit
    refine ⟨_, serverMessages_eq filled small chunks fit, ?_⟩
    rw [clientMessages_eq filled, same]

/-- With a carriage return and a line feed as delimiter both sides deliver the same. -/
theorem splitters_agree_iff_sample :
    ([13, 10] : Bytes) ≠ [] ∧
      ∀ chunks : List Bytes, (∀ chunk ∈ chunks, chunk.length < 2 ^ 31) →
        ∃ messages, serverMessages [13, 10] chunks = some messages ∧
          clientMessages [13, 10] chunks = some messages :=
  ⟨by decide, (splitters_agree_iff [13, 10] (by decide) (by decide)).mpr (by decide)⟩

/-- With `aab` as delimiter the client finds it in `aaab`, and the server does not. -/
theorem splitters_differ :
    serverMessages [97, 97, 98] [[97, 97, 97, 98]] = some [] ∧
      clientMessages [97, 97, 98] [[97, 97, 97, 98]] = some [[97]] := by
  decide +kernel

end RssDisk.Network
