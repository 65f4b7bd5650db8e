import Mathlib.Logic.Equiv.Defs
import RssDisk.Network.Splitters

/-!
# Messages of an encrypted session

Once the keys are exchanged, each side encrypts a message, puts the delimiter before and behind the
raw ciphertext and sends it. The other side splits what arrives at the delimiter, decrypts the
pieces and hands them to its message handler. Nothing says how long a ciphertext is, so it is the
bytes of the ciphertext themselves that decide whether it comes out as one piece.

The exact conditions differ between the two directions, as the splitters do. A client, moreover,
takes a message that equals its echo string for an echo.
-/

namespace RssDisk.Network

open RssDisk.Lib List

/-- `cryptopp_` without base64 and `gost::g89`, for given keys. -/
structure Ciphers where
  /-- `cryptopp_::encrypt` under a key and an initial vector. -/
  aes : Bytes → Bytes → Equiv.Perm Bytes
  /-- `gost::g89::crypt` under a key. -/
  gost : Bytes → Equiv.Perm Bytes

/-- `epoll_v2::secure`: what one side knows of the encryption of a connection. -/
structure Secure where
  isAes : Bool
  isGostEnc : Bool
  aesKey : Bytes
  aesIv : Bytes

/-- The encryption of an established session. -/
structure Session extends Secure where
  established : isAes = true
  keyed : aesKey ≠ []

variable (ciphers : Ciphers)

def Secure.encrypt (s : Secure) (msg : Bytes) : Bytes :=
  if s.isGostEnc then ciphers.aes s.aesKey s.aesIv (ciphers.gost (s.aesKey ++ s.aesIv) msg)
  else ciphers.aes s.aesKey s.aesIv msg

def Secure.decrypt (s : Secure) (str : Bytes) : Bytes :=
  let text := (ciphers.aes s.aesKey s.aesIv).symm str
  if s.isGostEnc then (ciphers.gost (s.aesKey ++ s.aesIv)).symm text else text

/-- What one call of `::send` returns. -/
inductive SendResult
  | wrote (n : Nat)
  /-- `EAGAIN` or `EWOULDBLOCK`. -/
  | again
  | stopped

/-- `f_send` of `tcp_client::send`: the bytes that were taken, and whether all of them were. The
count of bytes that were sent is an `int32`, and `substr` throws at a place outside the text. -/
def fSend (d : Bytes) : Nat → Int → List SendResult → Option (Bytes × Bool)
  | 0, _, _ => some ([], true)
  | _ + 1, _, [] => none
  | sz + 1, szSended, result :: results =>
    if szSended < 0 ∨ (d.length : Int) < szSended then none
    else
      match result with
      | .stopped => some ([], false)
      | .again => fSend d (sz + 1) szSended results
      | .wrote n =>
        let s := d.drop szSended.toNat
        if 0 < n ∧ n ≤ s.length then
          (fSend d (sz + 1 - n) (toInt32 (szSended + n)) results).map
            (fun rest => (s.take n ++ rest.1, rest.2))
        else none

/-- The bytes `tcp_client::send` gives to `f_send`. -/
def Secure.outgoing (s : Secure) (det msg : Bytes) (aesEn : Bool) : Bytes :=
  if s.isAes || aesEn then det ++ s.encrypt ciphers msg ++ det else det ++ msg ++ det

/-- `tcp_client::send` for a connected client: the bytes on the wire and whether it succeeded. -/
def Secure.send (s : Secure) (det msg : Bytes) (results : List SendResult) :
    Option (Bytes × Bool) :=
  let d := s.outgoing ciphers det msg false
  fSend d d.length 0 results

/-- The bytes on the wire after messages that were sent with success. -/
inductive Sent (s : Secure) (det : Bytes) : List Bytes → Bytes → Prop
  | nil : Sent s det [] []
  | cons {msg put stream : Bytes} {messages : List Bytes} (results : List SendResult)
      (sent : s.send ciphers det msg results = some (put, true))
      (rest : Sent s det messages stream) :
      Sent s det (msg :: messages) (put ++ stream)

/-- What a finished read task gives to the event loop. -/
inductive Responce
  | okRead (rest : Bytes)
  | okParsed (messages : List Bytes)

/-- `e_multithreaded::process_finished` after a read: it splits with the helper of the descriptor
and keeps the helper only when something is left in it. -/
def processFinished (det : Bytes) (cr : Secure) (messages : Option MessageHelper) (rest : Bytes) :
    Option (Option MessageHelper × Responce) :=
  if cr.aesKey = [] then some (messages, .okRead rest)
  else
    (processRead2 det (messages.getD {}) rest).map (fun read =>
      (if read.1.delMessage ≠ [] ∨ read.1.message ≠ [] then some read.1
        else if messages.isSome then none else messages,
        .okParsed (read.2.map (cr.decrypt ciphers))))

/-- What `listen` hands to `on_message` without splitting it itself. -/
def Responce.handed : Responce → List Bytes
  | .okRead _ => []
  | .okParsed messages => messages

/-- The messages handed to the handler of the server after some chunks. -/
def serverHands (det : Bytes) (cr : Secure) (chunks : List Bytes) : Option (List Bytes) :=
  (feedChunks (fun messages rest =>
    (processFinished ciphers det cr messages rest).map (fun done => (done.1, done.2.handed)))
    none chunks).map Prod.snd

/-- `responser::item::sub`: a message for a client. -/
structure Sub where
  str : Bytes
  isCrypted : Bool

/-- `responser::add_impl`: with the encryption of the client at hand the message is encrypted at
once. -/
def addImpl (s : Option Secure) (msg : Bytes) : Sub :=
  match s with
  | some s => if s.isAes = true ∧ s.aesKey ≠ [] then ⟨s.encrypt ciphers msg, true⟩ else ⟨msg, false⟩
  | none => ⟨msg, false⟩

/-- `push_message_impl`: the texts that are put into the queue of a client. -/
def pushMessageImpl (det : Bytes) (s : Secure) (msg : Sub) : List Bytes :=
  [det, if msg.isCrypted = false ∧ s.isAes = true then s.encrypt ciphers msg.str else msg.str, det]

/-- The bytes for a client: each message is encrypted by `add_impl` or by `push_message_impl`. -/
def serverStream (det : Bytes) (s : Secure) (sends : List (Bytes × Bool)) : Bytes :=
  sends.flatMap (fun send =>
    (pushMessageImpl ciphers det s
      (addImpl ciphers (if send.2 then some s else none) send.1)).flatten)

/-- The settings of a client that matter when a message arrives. -/
structure ClientConf where
  echoString : Bytes
  /-- Whether a text that cannot be decrypted is taken as it is. -/
  skipAes : Bool

/-- `pr` of `read_bytes` in an established session: the message handed to the callbacks. -/
def pr (conf : ClientConf) (s : Secure) (str : Bytes) : Option Bytes :=
  let decStr := (ciphers.aes s.aesKey s.aesIv).symm str
  let text :=
    if str ≠ [] ∧ decStr = [] ∧ conf.skipAes = true then str else s.decrypt ciphers str
  if conf.echoString ≠ [] ∧ conf.echoString = text then none else some text

/-- The messages handed to the callbacks of the client after some chunks. -/
def clientHands (det : Bytes) (conf : ClientConf) (s : Secure) (chunks : List Bytes) :
    Option (List Bytes) :=
  (clientMessages det chunks).map (List.filterMap (pr ciphers conf s))

section

variable {ciphers} (s : Secure)

theorem Secure.decrypt_encrypt (msg : Bytes) : s.decrypt ciphers (s.encrypt ciphers msg) = msg := by
  rw [Secure.decrypt, Secure.encrypt]
  split <;> simp

theorem Secure.encrypt_decrypt (str : Bytes) : s.encrypt ciphers (s.decrypt ciphers str) = str := by
  rw [Secure.decrypt, Secure.encrypt]
  split <;> simp

end

section

variable {ciphers} {det : Bytes}

theorem fSend_all {d : Bytes} (small : d.length < 2 ^ 31) {sz sent : Nat}
    (whole : sent + sz = d.length) {results : List SendResult} {put : Bytes}
    (success : fSend d sz sent results = some (put, true)) : put = d.drop sent := by
  induction results generalizing sz sent put with
  | nil =>
    cases sz with
    | zero =>
      cases success
      rw [drop_of_length_le (by omega)]
    | succ sz => cases success
  | cons result results ih =>
    cases sz with
    | zero =>
      cases success
      rw [drop_of_length_le (by omega)]
    | succ sz =>
      have inside : ¬ ((sent : Int) < 0 ∨ (d.length : Int) < sent) := by omega
      unfold fSend at success
      rw [if_neg inside] at success
      cases result with
      | stopped => cases success
      | again => exact ih whole success
      | wrote n =>
        dsimp only at success
        split at success
        · rename_i taken
          obtain ⟨⟨rest, done⟩, further, same⟩ := Option.map_eq_some_iff.mp success
          cases same
          rw [Int.toNat_natCast, length_drop] at taken
          have counted : toInt32 ((sent : Int) + n) = ((sent + n : Nat) : Int) := by
            rw [toInt32_eq (by omega) (by omega)]
            rfl
          rw [counted] at further
          have others := ih (by omega) further
          rw [Int.toNat_natCast, others, ← drop_drop, take_append_drop]
        · cases success

theorem fSend_once {d : Bytes} (filled : d ≠ []) :
    fSend d d.length 0 [.wrote d.length] = some (d, true) := by
  have positive := length_pos_iff.mpr filled
  obtain ⟨size, sized⟩ := Nat.exists_eq_succ_of_ne_zero (Nat.ne_of_gt positive)
  rw [sized, fSend, ← sized, if_neg (by omega)]
  dsimp only
  rw [Int.toNat_zero, drop_zero, if_pos ⟨positive, Nat.le_refl _⟩,
    Nat.sub_eq_zero_of_le (Nat.le_of_eq sized.symm), fSend, take_length]
  simp

theorem Session.outgoing_eq (s : Session) (msg : Bytes) :
    s.outgoing ciphers det msg false = det ++ s.encrypt ciphers msg ++ det := by
  rw [Secure.outgoing, s.established]
  rfl

theorem Sent.stream_eq {s : Session} {messages : List Bytes} {stream : Bytes}
    (sent : Sent ciphers s.toSecure det messages stream)
    (small : ∀ msg ∈ messages, (det ++ s.encrypt ciphers msg ++ det).length < 2 ^ 31) :
    stream = messages.flatMap (fun msg => det ++ s.encrypt ciphers msg ++ det) := by
  induction sent with
  | nil => rfl
  | @cons msg put stream messages results success rest ih =>
    have first : put = det ++ s.encrypt ciphers msg ++ det := by
      rw [Secure.send, Session.outgoing_eq] at success
      have all := fSend_all (small msg (mem_cons_self ..)) (Nat.zero_add _) success
      rwa [drop_zero] at all
    rw [flatMap_cons, first,
      ih (fun other member => small other (mem_cons_of_mem _ member))]

theorem Sent.of_all (s : Session) (filled : det ≠ []) (messages : List Bytes) :
    Sent ciphers s.toSecure det messages
      (messages.flatMap (fun msg => det ++ s.encrypt ciphers msg ++ det)) := by
  induction messages with
  | nil => exact .nil
  | cons msg messages ih =>
    rw [flatMap_cons]
    apply Sent.cons [.wrote (det ++ s.encrypt ciphers msg ++ det).length] _ ih
    rw [Secure.send, Session.outgoing_eq]
    exact fSend_once (by simp [filled])

theorem serverStream_eq (s : Session) (sends : List (Bytes × Bool)) :
    serverStream ciphers det s.toSecure sends =
      (sends.map Prod.fst).flatMap (fun msg => det ++ s.encrypt ciphers msg ++ det) := by
  rw [serverStream, flatMap_map]
  congr 1
  funext send
  have ready : s.isAes = true ∧ s.aesKey ≠ [] := ⟨s.established, s.keyed⟩
  rw [pushMessageImpl]
  cases send.2 <;> simp [addImpl, ready]

end

section

variable {ciphers} {det : Bytes}

theorem processFinished_parsed {cr : Secure} (keyed : cr.aesKey ≠ []) (filled : det ≠ [])
    (small : det.length < 2 ^ 31) (messages : Option MessageHelper) (a : Attempt UInt8)
    (chunk : Bytes) (held : messages.getD {} = .ofAttempt a ∧ a.Tracks det)
    (fits : chunk.length < 2 ^ 31) :
    ∃ messages', processFinished ciphers det cr messages chunk =
        some (messages', .okParsed ((feedAll (restart det) a chunk).2.map (cr.decrypt ciphers))) ∧
      messages'.getD {} = .ofAttempt (feedAll (restart det) a chunk).1 ∧
        (feedAll (restart det) a chunk).1.Tracks det := by
  obtain ⟨m, read, same, tracks⟩ := processRead2_eq filled small _ a chunk held fits
  rw [processFinished, if_neg keyed, read]
  refine ⟨_, rfl, ?_, tracks⟩
  rw [← same]
  dsimp only
  split
  · rfl
  · rename_i nothing
    have empty : m = {} := by
      simp only [ne_eq, not_or, not_not] at nothing
      rw [same] at nothing ⊢
      exact MessageHelper.ofAttempt_empty nothing.2 nothing.1
    rw [empty]
    cases messages <;> rfl

theorem serverHands_eq (s : Session) (filled : det ≠ []) (small : det.length < 2 ^ 31)
    (chunks : List Bytes) (fit : ∀ chunk ∈ chunks, chunk.length < 2 ^ 31) :
    serverHands ciphers det s.toSecure chunks =
      some ((feedAll (restart det) {} chunks.flatten).2.map (s.decrypt ciphers)) := by
  let read := fun (a : Attempt UInt8) (c : UInt8) =>
    ((restart det a c).1, (restart det a c).2.map (s.decrypt ciphers))
  have moves : ∀ (messages : Option MessageHelper) (a : Attempt UInt8) (chunk : Bytes),
      messages.getD {} = .ofAttempt a ∧ a.Tracks det → chunk.length < 2 ^ 31 →
        ∃ messages', (processFinished ciphers det s.toSecure messages chunk).map
              (fun done => (done.1, done.2.handed)) =
            some (messages', (feedAll read a chunk).2) ∧
          messages'.getD {} = .ofAttempt (feedAll read a chunk).1 ∧
            (feedAll read a chunk).1.Tracks det := by
    intro messages a chunk held fits
    obtain ⟨messages', finished, kept⟩ :=
      processFinished_parsed s.keyed filled small messages a chunk held fits
    rw [feedAll_map, finished]
    exact ⟨messages', rfl, kept⟩
  obtain ⟨_, fed, _⟩ := feedChunks_eq _ moves (t := none) ⟨rfl, .start filled⟩ chunks fit
  rw [serverHands, fed, feedAll_map]
  rfl

theorem clientHands_eq (conf : ClientConf) (s : Session) (filled : det ≠ [])
    (chunks : List Bytes) :
    clientHands ciphers det conf s.toSecure chunks =
      some ((feedAll (leftmost det) [] chunks.flatten).2.filterMap
        (pr ciphers conf s.toSecure)) := by
  rw [clientHands, clientMessages_eq filled]
  rfl

theorem pr_eq_some_iff {conf : ClientConf} (strict : conf.skipAes = false) (s : Secure)
    {str msg : Bytes} (filled : msg ≠ []) :
    pr ciphers conf s str = some msg ↔ str = s.encrypt ciphers msg ∧ msg ≠ conf.echoString := by
  have text : pr ciphers conf s str =
      if conf.echoString ≠ [] ∧ conf.echoString = s.decrypt ciphers str then none
      else some (s.decrypt ciphers str) := by
    rw [pr, strict]
    simp
  rw [text]
  constructor
  · intro handed
    split at handed
    · cases handed
    · rename_i other
      cases handed
      refine ⟨(s.encrypt_decrypt str).symm, fun echo => other ⟨?_, echo.symm⟩⟩
      grind
  · rintro ⟨rfl, other⟩
    rw [s.decrypt_encrypt, if_neg (fun echo => other echo.2.symm)]

theorem feedAll_frames {σ : Type} {read : σ → UInt8 → σ × List Bytes} {start : σ}
    {s : Session} {messages : List Bytes}
    (delimiter : feedAll read start det = (start, []))
    (passes : ∀ msg ∈ messages, feedAll read start (s.encrypt ciphers msg ++ det) =
      (start, [s.encrypt ciphers msg])) :
    feedAll read start (messages.flatMap (fun msg => det ++ s.encrypt ciphers msg ++ det)) =
      (start, messages.map (s.encrypt ciphers)) := by
  apply feedAll_flatMap
  intro msg member
  rw [append_assoc]
  exact feedAll_append_eq delimiter (passes msg member)

theorem serverHands_exact_iff (filled : det ≠ []) (small : det.length < 2 ^ 31) (s : Session)
    (messages : List Bytes)
    (sizes : ∀ msg ∈ messages, (det ++ s.encrypt ciphers msg ++ det).length < 2 ^ 31) :
    (∀ stream chunks, Sent ciphers s.toSecure det messages stream → chunks.flatten = stream →
        (∀ chunk ∈ chunks, chunk.length < 2 ^ 31) →
          serverHands ciphers det s.toSecure chunks = some messages) ↔
      ∀ msg ∈ messages, RestartPasses det (s.encrypt ciphers msg) := by
  constructor
  · intro exact_ msg member
    have handed := exact_ _ _ (Sent.of_all s filled messages) (flatten_bytes _) (bytes_small _)
    rw [serverHands_eq s filled small _ (bytes_small _), flatten_bytes, Option.some.injEq]
      at handed
    rw [← handed] at member
    obtain ⟨str, given, rfl⟩ := mem_map.mp member
    rw [Secure.encrypt_decrypt]
    exact restart_given filled _ str given
  · rintro passes stream chunks sent rfl fit
    have back : s.decrypt ciphers ∘ s.encrypt ciphers = id := funext s.decrypt_encrypt
    rw [serverHands_eq s filled small chunks fit, sent.stream_eq sizes,
      feedAll_frames (restart_delimiter filled)
        (fun msg member => restart_passes (passes msg member) filled),
      map_map, back, map_id]

theorem clientHands_exact_iff (filled : det ≠ []) (s : Session) {conf : ClientConf}
    (strict : conf.skipAes = false) (messages : List Bytes) (texts : ∀ msg ∈ messages, msg ≠ []) :
    (∀ sends chunks, sends.map Prod.fst = messages →
        chunks.flatten = serverStream ciphers det s.toSecure sends →
          clientHands ciphers det conf s.toSecure chunks = some messages) ↔
      ∀ msg ∈ messages, LeftmostPasses det (s.encrypt ciphers msg) ∧ msg ≠ conf.echoString := by
  constructor
  · intro exact_ msg member
    have notEmpty := texts msg member
    have same : (messages.map (fun msg => (msg, false))).map Prod.fst = messages := by
      rw [map_map]
      exact map_id messages
    have handed := exact_ _ _ same (flatten_bytes _)
    rw [clientHands_eq conf s filled, flatten_bytes, Option.some.injEq] at handed
    rw [← handed] at member
    obtain ⟨str, given, decrypted⟩ := mem_filterMap.mp member
    obtain ⟨rfl, other⟩ := (pr_eq_some_iff strict _ notEmpty).mp decrypted
    exact ⟨leftmost_given filled _ _ given, other⟩
  · rintro passes sends chunks rfl whole
    rw [clientHands_eq conf s filled, whole, serverStream_eq,
      feedAll_frames (leftmost_delimiter filled)
        (fun msg member => leftmost_passes (passes msg member).1 filled),
      filterMap_map]
    congr 1
    have each : ∀ msg ∈ sends.map Prod.fst,
        (pr ciphers conf s.toSecure ∘ s.encrypt ciphers) msg = some msg := fun msg member =>
      (pr_eq_some_iff strict _ (texts msg member)).mpr ⟨rfl, (passes msg member).2⟩
    rw [filterMap_congr each, filterMap_some]

end

/-- In an established session, both sides hand on exactly the messages that were sent, in all
chunks, exactly when the splitter of the receiving side lets each ciphertext pass and, at the
client, no message equals the echo string. -/
theorem session_exact_iff (det : Bytes) (filled : det ≠ []) (small : det.length < 2 ^ 31)
    (s : Session) (conf : ClientConf) (strict : conf.skipAes = false) (messages : List Bytes)
    (texts : ∀ msg ∈ messages, msg ≠ [])
    (sizes : ∀ msg ∈ messages, (det ++ s.encrypt ciphers msg ++ det).length < 2 ^ 31) :
    ((∀ stream chunks, Sent ciphers s.toSecure det messages stream → chunks.flatten = stream →
        (∀ chunk ∈ chunks, chunk.length < 2 ^ 31) →
          serverHands ciphers det s.toSecure chunks = some messages) ↔
      ∀ msg ∈ messages, RestartPasses det (s.encrypt ciphers msg)) ∧
    ((∀ sends chunks, sends.map Prod.fst = messages →
        chunks.flatten = serverStream ciphers det s.toSecure sends →
          clientHands ciphers det conf s.toSecure chunks = some messages) ↔
      ∀ msg ∈ messages, LeftmostPasses det (s.encrypt ciphers msg) ∧ msg ≠ conf.echoString) := by
  exact ⟨serverHands_exact_iff filled small s messages sizes,
    clientHands_exact_iff filled s strict messages texts⟩

/-- The ciphers that change nothing. -/
def plain : Ciphers := ⟨fun _ _ => Equiv.refl Bytes, fun _ => Equiv.refl Bytes⟩

/-- A session with a key of one byte. -/
def sampleSession : Session := ⟨⟨true, false, [1], []⟩, rfl, by decide⟩

/-- Two messages without the delimiter arrive in both directions. -/
theorem session_exact_iff_sample :
    (∀ stream chunks, Sent plain sampleSession.toSecure [10] [[97, 98], [99]] stream →
      chunks.flatten = stream → (∀ chunk ∈ chunks, chunk.length < 2 ^ 31) →
        serverHands plain [10] sampleSession.toSecure chunks = some [[97, 98], [99]]) ∧
    (∀ sends chunks, sends.map Prod.fst = [[97, 98], [99]] →
      chunks.flatten = serverStream plain [10] sampleSession.toSecure sends →
        clientHands plain [10] ⟨[48, 48], false⟩ sampleSession.toSecure chunks =
          some [[97, 98], [99]]) :=
  have exact_ := session_exact_iff plain [10] (by decide) (by decide) sampleSession
    ⟨[48, 48], false⟩ rfl [[97, 98], [99]] (by decide) (by decide)
  ⟨exact_.1.mpr (by decide), exact_.2.mpr (by decide)⟩

/-- A ciphertext that contains the delimiter arrives as two messages, in both directions. -/
theorem session_splits_ciphertext :
    Sent plain sampleSession.toSecure [10] [[97, 10, 98]] [10, 97, 10, 98, 10] ∧
      serverHands plain [10] sampleSession.toSecure [[10, 97, 10, 98, 10]] =
        some [[97], [98]] ∧
      serverStream plain [10] sampleSession.toSecure [([97, 10, 98], false)] =
        [10, 97, 10, 98, 10] ∧
      clientHands plain [10] ⟨[48, 48], false⟩ sampleSession.toSecure [[10, 97, 10, 98, 10]] =
        some [[97], [98]] :=
  have put : sampleSession.send plain [10] [97, 10, 98] [.wrote 5] =
      some ([10, 97, 10, 98, 10], true) := by decide +kernel
  ⟨Sent.cons [.wrote 5] put .nil, by decide +kernel, by decide +kernel, by decide +kernel⟩

end RssDisk.Network
