import RssDisk.Lib.Carry
import RssDisk.Lib.Reach
import RssDisk.Network.Connection

/-!
# From the connection to the first request

A connection with both of its ends, from `connect` on: the client offers a key, the server answers,
both confirm the encryption, and the client sends its authorization and is connected. From then on
it sends requests, which the server hands to tasks. What travels is bytes, cut anywhere.

The client sends an authorization only when there is one; the server takes the first message for it
in any case.

A connection that is closed is one on which nothing more is read.
-/

namespace RssDisk.Network.Login

open RssDisk.Lib List Option

/-- A `responser::item::sub` of the task that computes a key. -/
inductive Response where
  /-- The key: `is_key_generation`. -/
  | key (str : Bytes)
  | text (str : Bytes)
deriving DecidableEq

/-- A connection and both of its ends. -/
structure Link where
  /-- The secret of the client: `a`. -/
  secret : Bytes
  cl : Secure := .cleared
  /-- The buffer of `read_bytes`. -/
  buffer : ReadBuffer := {}
  /-- Whether the state of the socket is `connected`. -/
  isConnected : Bool := false
  isClosed : Bool := false
  toServer : Bytes := []
  toClient : Bytes := []
  /-- The entry of `authorized_clients`. -/
  client : SocketClient := {}
  /-- `_m` of that entry. -/
  m : MessageHelper := {}
  /-- What the pool threads know of the encryption: `set_encryption_data`. -/
  encryptionData : Secure := .cleared
  messages : Option MessageHelper := none
  /-- The offers for which a task of `t_pool` computes a key. -/
  offers : List Bytes := []
  /-- What those tasks have given to `responser_`. -/
  responses : List Response := []
  /-- The requests that the client has sent since it is connected. -/
  sent : List Bytes := []
  dispatched : List Bytes := []
  texts : List Bytes := []
  /-- The texts that the server has put between delimiters before the client is authorized. -/
  answers : List Bytes := []

inductive Action where
  /-- `tcp_client::send`, by a caller or by `set_event_listener`. -/
  | send (msg : Bytes)
  | clientRead (n : Nat)
  | serverRead (n : Nat)
  /-- A task of `t_pool` computes a key with a secret. -/
  | generateKey (place : Nat) (secret : Bytes)
  /-- The event loop takes what the tasks have given to `responser_`. -/
  | respond
  | push (text : Bytes)

/-- The settings of the server that belong to those of the client. -/
def listenConf (conf : TcpConf) : ListenConf :=
  ⟨conf.isAes, conf.isGostEnc, conf.authString⟩

/-- A request has a type, a number and a query: `message.size() >= 7`. -/
def isRequest (message : Bytes) : Bool :=
  decide (7 ≤ message.length)

section

variable (ciphers : Ciphers) (kex : KeyExchange) (conf : TcpConf)

namespace Link

/-- `tcp_client::send` puts a message on the wire. -/
def put (l : Link) (msg : Bytes) (aesEn : Bool) : Link :=
  { l with
    toServer := l.toServer ++ l.cl.outgoing ciphers conf.det msg aesEn
    texts := l.texts ++ [l.cl.seal ciphers msg aesEn] }

/-- The client sends its authorization, if it has one, and is connected. -/
def login (l : Link) : Link :=
  let l := if conf.authString ≠ [] then l.put ciphers conf conf.authString false else l
  { l with isConnected := true }

/-- `pr` of `read_bytes`. -/
def receive (l : Link) (str : Bytes) : Link :=
  let delivered := deliver ciphers conf (kex.clientKey l.secret) l.cl str
  let l := { l with cl := delivered.1 }
  match delivered.2 with
  | .key _ => l.put ciphers conf okAes true
  | .confirmation text => if text = okAes then l.login ciphers conf else { l with isClosed := true }
  | .message _ => l
  | .echo => l

/-- `push_message`. -/
def push (l : Link) (s : Secure) (text : Bytes) : Link :=
  { l with toClient := l.toClient ++ (pushMessageImpl ciphers conf.det s ⟨text, false⟩).flatten }

/-- `push_message` while the client is not authorized. -/
def answer (l : Link) (s : Secure) (text : Bytes) : Link :=
  { l.push ciphers conf s text with answers := l.answers ++ [s.seal ciphers text false] }

/-- `on_message`. -/
def handOn (l : Link) (message : Bytes) : Link :=
  let admitted := onMessage conf.authString l.client message
  let l := { l with client := admitted.1 }
  match admitted.2 with
  | .task message => { l with dispatched := l.dispatched ++ [message] }
  | .authorized => l
  | .refused => l
  | .listens => l
  | .ignored => l

/-- `process_message`. The confirmation is pushed before `is_gost_enc` is set. -/
def handle (l : Link) (str : Bytes) : Link :=
  let processed := processMessage ciphers (listenConf conf) l.client str
  match processed.2 with
  | .offered str => { l with client := processed.1, offers := l.offers ++ [str] }
  | .confirmed =>
    let l' := l.answer ciphers conf { l.client.secure with isAes := true } okAes
    { l' with client := processed.1, encryptionData := processed.1.secure }
  | .unconfirmed => { l with client := processed.1 }
  | .handed message => { l with client := processed.1 }.handOn conf message

/-- The event loop takes one item of `responser_`. -/
def respond (l : Link) : Response → Link
  | .key str => { l with client := { l.client with secure := l.client.secure.withKey str } }
  | .text str => l.answer ciphers conf l.client.secure str

end Link

/-- What a task of `t_pool` gives to `responser_` for an offer. -/
def generated (secret str : Bytes) : List Response :=
  match kex.reply secret str with
  | some answer => [.key (kex.serverKey secret str), .text answer]
  | none => []

def connect (secret : Bytes) : Link :=
  let l : Link := { secret }
  if conf.isAes then l.put ciphers conf (kex.offer secret) false else l.login ciphers conf

def step (l : Link) : Action → Option Link
  | .send msg =>
    if l.isConnected then
      some { l.put ciphers conf msg false with
        sent := l.sent ++ if isRequest msg then [msg] else [] }
    else none
  | .clientRead n =>
    if l.isClosed then none
    else
      (readBytes conf.det l.buffer (l.toClient.take n)).map (fun read =>
        read.2.foldl (Link.receive ciphers kex conf)
          { l with buffer := read.1, toClient := l.toClient.drop n })
  | .serverRead n =>
    (processFinished ciphers conf.det l.encryptionData l.messages (l.toServer.take n)).bind
      (fun done =>
        match done.2 with
        | .okRead rest =>
          (processRead2 conf.det l.m rest).map (fun read =>
            read.2.foldl (Link.handle ciphers conf)
              { l with m := read.1, messages := done.1, toServer := l.toServer.drop n })
        | .okParsed messages =>
          some (messages.foldl (Link.handOn conf)
            { l with messages := done.1, toServer := l.toServer.drop n }))
  | .generateKey place secret =>
    (l.offers[place]?).map (fun str =>
      { l with
        offers := l.offers.eraseIdx place
        responses := l.responses ++ generated kex secret str })
  | .respond => some (l.responses.foldl (Link.respond ciphers conf) { l with responses := [] })
  | .push text =>
    if l.client.isAuthorized then some (l.push ciphers conf l.client.secure text) else none

end

/-- The splitters let the texts of the connection pass: those of the client, and those of the server
before the client is authorized. -/
structure Link.Passes (det : Bytes) (l : Link) : Prop where
  texts : ∀ text ∈ l.texts, RestartPasses det text
  answers : ∀ text ∈ l.answers, LeftmostPasses det text

/-- The splitter with which the server reads. -/
def Link.helper (l : Link) : MessageHelper :=
  if l.encryptionData.aesKey = [] then l.m else l.messages.getD {}

/-- The texts on the way to the server. -/
def Link.Up (det : Bytes) (l : Link) (pieces : List Bytes) : Prop :=
  ∃ a : Attempt UInt8, (l.helper = .ofAttempt a ∧ a.Tracks det) ∧
    Carries (restart det) {} a l.toServer pieces

/-- The texts on the way to the client. -/
def Link.Down (det : Bytes) (l : Link) (pieces : List Bytes) : Prop :=
  ∃ held : Bytes, l.buffer.Holds det held ∧ feedAll (leftmost det) held l.toClient = ([], pieces)

section

variable {ciphers : Ciphers} {kex : KeyExchange} {conf : TcpConf} {l l' : Link}
  {pieces : List Bytes}

theorem Link.Up.put (up : l.Up conf.det pieces) (filled : conf.det ≠ []) (msg : Bytes)
    (aesEn : Bool) (passes : RestartPasses conf.det (l.cl.seal ciphers msg aesEn)) :
    (l.put ciphers conf msg aesEn).Up conf.det
      (pieces ++ [l.cl.seal ciphers msg aesEn]) := by
  obtain ⟨a, held, carries⟩ := up
  refine ⟨a, held, ?_⟩
  rw [Link.put, Secure.outgoing_eq_seal]
  exact carries.put (carries_frame filled passes)

theorem Link.Down.answer (down : l.Down conf.det pieces) (filled : conf.det ≠ []) (s : Secure)
    (text : Bytes) (passes : LeftmostPasses conf.det (s.seal ciphers text false)) :
    (l.answer ciphers conf s text).Down conf.det (pieces ++ [s.seal ciphers text false]) := by
  obtain ⟨held, holds, whole⟩ := down
  refine ⟨held, holds, ?_⟩
  have frame : (pushMessageImpl ciphers conf.det s ⟨text, false⟩).flatten =
      conf.det ++ (s.seal ciphers text false ++ conf.det) := by
    simp [pushMessageImpl, Secure.seal]
  show feedAll (leftmost conf.det) held (l.toClient ++ _) = _
  rw [frame]
  exact feedAll_append_eq whole
    (feedAll_append_eq (leftmost_delimiter filled) (leftmost_passes passes filled))

theorem Link.Down.take (down : l.Down conf.det pieces) (filled : conf.det ≠ []) {n : Nat}
    (taken : step ciphers kex conf l (.clientRead n) = some l') :
    ∃ buffer given rest, pieces = given ++ rest ∧
      ({ l with buffer, toClient := l.toClient.drop n } : Link).Down conf.det rest ∧
        l' = given.foldl (Link.receive ciphers kex conf)
          { l with buffer, toClient := l.toClient.drop n } := by
  obtain ⟨held, holds, whole⟩ := down
  obtain ⟨buffer, read, holds'⟩ := readBytes_eq filled l.buffer held (l.toClient.take n) holds
  rw [← take_append_drop n l.toClient, feedAll_append] at whole
  rw [Prod.mk.injEq] at whole
  simp only [step, read, map_some] at taken
  split at taken
  · cases taken
  · cases taken
    exact ⟨buffer, _, _, whole.2.symm, ⟨_, holds', Prod.ext whole.1 rfl⟩, rfl⟩

/-- The server takes the first texts that are on the way: as they are before the encryption is
confirmed, and decrypted behind that. -/
theorem Link.Up.take (up : l.Up conf.det pieces) (filled : conf.det ≠ [])
    (small : conf.det.length < 2 ^ 31) {n : Nat}
    (taken : step ciphers kex conf l (.serverRead n) = some l') :
    ∃ m messages given rest, pieces = given ++ rest ∧
      ({ l with m, messages, toServer := l.toServer.drop n } : Link).Up conf.det rest ∧
        ((l.encryptionData.aesKey = [] ∧ messages = l.messages ∧
            l' = given.foldl (Link.handle ciphers conf)
              { l with m, messages, toServer := l.toServer.drop n }) ∨
          (l.encryptionData.aesKey ≠ [] ∧
            l' = (given.map (l.encryptionData.decrypt ciphers)).foldl (Link.handOn conf)
              { l with m, messages, toServer := l.toServer.drop n })) := by
  obtain ⟨a, held, carries⟩ := up
  rw [← take_append_drop n l.toServer] at carries
  obtain ⟨rest, parts, later⟩ := carries.take
  have fits : (l.toServer.take n).length < 2 ^ 31 := by
    by_contra large
    have refused (m : MessageHelper) : processRead2 conf.det m (l.toServer.take n) = none :=
      if_neg (fun both => large both.1)
    simp only [step, processFinished, refused, map_none] at taken
    split at taken
    · simp only [bind_some, refused, map_none, reduceCtorEq] at taken
    · cases taken
  by_cases bare : l.encryptionData.aesKey = []
  · rw [Link.helper, if_pos bare] at held
    obtain ⟨m, read, same, tracks⟩ := processRead2_eq filled small l.m a _ held fits
    simp only [step, processFinished, if_pos bare, bind_some, read, map_some,
      Option.some.injEq] at taken
    refine ⟨m, l.messages, _, rest, parts, ⟨_, ⟨?_, tracks⟩, later⟩, .inl ⟨bare, rfl, taken.symm⟩⟩
    rw [Link.helper, if_pos bare]
    exact same
  · rw [Link.helper, if_neg bare] at held
    obtain ⟨messages, finished, same, tracks⟩ :=
      @processFinished_parsed ciphers conf.det _ bare filled small l.messages a _ held fits
    simp only [step, finished, bind_some, Option.some.injEq] at taken
    refine ⟨l.m, messages, _, rest, parts, ⟨_, ⟨?_, tracks⟩, later⟩, .inr ⟨bare, taken.symm⟩⟩
    rw [Link.helper, if_neg bare]
    exact same

end

/-- A later state of a connection has all texts of an earlier one. -/
def Link.Grows (l l' : Link) : Prop :=
  l.texts ⊆ l'.texts ∧ l.answers ⊆ l'.answers

namespace Link.Grows

variable {ciphers : Ciphers} {kex : KeyExchange} {conf : TcpConf} {l l' l'' : Link}

theorem same (texts : l'.texts = l.texts) (answers : l'.answers = l.answers) : l.Grows l' :=
  ⟨texts ▸ List.Subset.refl _, answers ▸ List.Subset.refl _⟩

theorem trans (first : l.Grows l') (second : l'.Grows l'') : l.Grows l'' :=
  ⟨fun _ member => second.1 (first.1 member), fun _ member => second.2 (first.2 member)⟩

theorem foldl {α : Type} {f : Link → α → Link}
    (each : ∀ (l : Link) (item : α), l.Grows (f l item)) (items : List α) (start : l.Grows l') :
    l.Grows (items.foldl f l') := by
  exact foldlRecOn _ _ start (fun l' grows item _ => grows.trans (each l' item))

theorem put (ciphers : Ciphers) (conf : TcpConf) (l : Link) (msg : Bytes) (aesEn : Bool) :
    l.Grows (l.put ciphers conf msg aesEn) :=
  ⟨subset_append_left .., List.Subset.refl _⟩

theorem login (l : Link) : l.Grows (l.login ciphers conf) := by
  rw [Link.login]
  split
  · exact (put ciphers conf l conf.authString false).trans (same rfl rfl)
  · exact same rfl rfl

theorem receive (l : Link) (str : Bytes) : l.Grows (l.receive ciphers kex conf str) := by
  rw [Link.receive]
  generalize deliver ciphers conf (kex.clientKey l.secret) l.cl str = delivered
  obtain ⟨cl, delivery⟩ := delivered
  have start : l.Grows { l with cl } := same rfl rfl
  cases delivery with
  | key _ => exact start.trans (put ciphers conf _ okAes true)
  | confirmation text =>
    dsimp only
    split
    · exact start.trans (login _)
    · exact same rfl rfl
  | message _ => exact start
  | echo => exact start

theorem handOn (l : Link) (message : Bytes) : l.Grows (l.handOn conf message) := by
  grind [Link.handOn, same]

theorem handle (l : Link) (str : Bytes) : l.Grows (l.handle ciphers conf str) := by
  rw [Link.handle]
  generalize processMessage ciphers (listenConf conf) l.client str = processed
  obtain ⟨client, outcome⟩ := processed
  cases outcome with
  | offered _ => exact same rfl rfl
  | confirmed => exact ⟨List.Subset.refl _, subset_append_left ..⟩
  | unconfirmed => exact same rfl rfl
  | handed message =>
    have start : l.Grows { l with client } := same rfl rfl
    exact start.trans (handOn _ message)

theorem respond (l : Link) (response : Response) : l.Grows (l.respond ciphers conf response) := by
  cases response with
  | key str => exact same rfl rfl
  | text str => exact ⟨List.Subset.refl _, subset_append_left ..⟩

theorem step {action : Action} (taken : step ciphers kex conf l action = some l') :
    l.Grows l' := by
  cases action with
  | send msg =>
    simp only [Login.step, ite_none_right_eq_some, Option.some.injEq] at taken
    obtain ⟨-, rfl⟩ := taken
    exact (put ciphers conf l msg false).trans (same rfl rfl)
  | clientRead n =>
    simp only [Login.step, ite_none_left_eq_some, map_eq_some_iff] at taken
    obtain ⟨-, read, -, rfl⟩ := taken
    exact foldl receive read.2 (same rfl rfl)
  | serverRead n =>
    simp only [Login.step, bind_eq_some_iff] at taken
    obtain ⟨done, -, rest⟩ := taken
    split at rest
    · obtain ⟨read, -, rfl⟩ := map_eq_some_iff.mp rest
      exact foldl handle read.2 (same rfl rfl)
    · cases rest
      exact foldl handOn _ (same rfl rfl)
  | generateKey place secret =>
    simp only [Login.step, map_eq_some_iff] at taken
    grind [same]
  | respond =>
    cases taken
    exact foldl respond _ (same rfl rfl)
  | push text =>
    simp only [Login.step, ite_none_right_eq_some, Option.some.injEq] at taken
    obtain ⟨-, rfl⟩ := taken
    exact same rfl rfl

end Link.Grows

theorem Link.Passes.of_grows {det : Bytes} {l l' : Link} (passes : l'.Passes det)
    (grows : l.Grows l') : l.Passes det :=
  ⟨fun _ member => passes.texts _ (grows.1 member),
    fun _ member => passes.answers _ (grows.2 member)⟩

section

variable {conf : TcpConf} {l : Link} {message : Bytes} {pending : List Bytes}

/-- With these messages on the way, the requests that were sent are those that were handed to tasks
and those on the way; before the client is authorized its authorization goes first. -/
structure Link.Admits (conf : TcpConf) (l : Link) (pending : List Bytes) : Prop where
  first : l.client.isAuthorized = false → ∃ rest, pending = conf.authString :: rest
  whole : l.dispatched ++
    (if l.client.isAuthorized then pending else pending.tail).filter isRequest = l.sent

theorem Link.handOn_frame (conf : TcpConf) (l : Link) (message : Bytes) :
    ∃ isAuthorized dispatched, l.handOn conf message =
      { l with client := { l.client with isAuthorized }, dispatched } := by
  rw [Link.handOn, onMessage]
  split_ifs <;> exact ⟨_, _, rfl⟩

theorem Link.foldl_handOn_frame (messages : List Bytes) (l : Link) :
    ∃ isAuthorized dispatched, messages.foldl (Link.handOn conf) l =
      { l with client := { l.client with isAuthorized }, dispatched } := by
  refine foldlRecOn (motive := fun l' => ∃ isAuthorized dispatched,
    l' = { l with client := { l.client with isAuthorized }, dispatched }) messages _
    ⟨l.client.isAuthorized, l.dispatched, rfl⟩ ?_
  rintro _ ⟨_, _, rfl⟩ message -
  obtain ⟨isAuthorized, dispatched, same⟩ := Link.handOn_frame conf _ message
  exact ⟨isAuthorized, dispatched, same⟩

theorem Link.Admits.handOn (admits : l.Admits conf (message :: pending)) :
    (l.handOn conf message).Admits conf pending := by
  obtain ⟨first, whole⟩ := admits
  cases open_ : l.client.isAuthorized with
  | false =>
    obtain ⟨rest, parts⟩ := first open_
    cases parts
    rw [open_] at whole
    constructor
    · simp [Link.handOn, onMessage, open_]
    · simpa [Link.handOn, onMessage, open_] using whole
  | true =>
    rw [open_] at whole
    by_cases long : 7 ≤ message.length
    · constructor
      · simp [Link.handOn, onMessage, open_, long]
      · simpa [Link.handOn, onMessage, open_, long, isRequest] using whole
    · have same : l.handOn conf message = l := by
        rw [Link.handOn, onMessage]
        simp only [open_, Bool.not_true, Bool.false_eq_true, if_false, if_neg long]
        split_ifs <;> rfl
      rw [same]
      constructor
      · rw [open_]
        exact fun never => by cases never
      · simpa [open_, isRequest, long] using whole

theorem Link.Admits.foldl_handOn (messages : List Bytes)
    (admits : l.Admits conf (messages ++ pending)) :
    (messages.foldl (Link.handOn conf) l).Admits conf pending := by
  induction messages generalizing l with
  | nil => exact admits
  | cons message messages ih => exact ih admits.handOn

end

end RssDisk.Network.Login
