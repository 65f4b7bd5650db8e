import RssDisk.Network.Login

/-!
# The stages of a connection

While the splitters let the texts pass, a connection with an authorization goes through the stages
of the handshake one after another, and behind them both ends have the same key, the authorization
is the first message on the way, and the requests follow in order.
-/

namespace RssDisk.Network.Login

open RssDisk.Lib List Option Secure Link

/-- What both ends know of the encryption when it is confirmed. -/
def established (conf : TcpConf) (key : Bytes) : Secure :=
  ⟨true, conf.isGostEnc, key, key.take 16⟩

/-- The confirmation of a key, as both ends send it. -/
def confirmation (ciphers : Ciphers) (key : Bytes) : Bytes :=
  (cleared.withKey key).seal ciphers okAes true

/-- What both ends know when the client is connected. -/
structure Agreed (conf : TcpConf) (s : Secure) : Prop where
  isAes : s.isAes = conf.isAes
  keyed : s.aesKey ≠ [] ↔ conf.isAes = true

section

variable (ciphers : Ciphers) (kex : KeyExchange) (conf : TcpConf)

/-- A connection before the client is connected: what the client and the server know of the
encryption, the tasks, the responses, and the texts on the way. -/
structure Shakes (secret : Bytes) (l : Link) (cl secure : Secure) (offers : List Bytes)
    (responses : List Response) (up down : List Bytes) : Prop where
  secret : l.secret = secret
  isAes : conf.isAes = true
  cl : l.cl = cl
  isConnected : l.isConnected = false
  client : l.client = ⟨secure, false⟩
  encryptionData : l.encryptionData = if secure.isAes then secure else .cleared
  messages : secure.isAes = false → l.messages = none
  offers : l.offers = offers
  responses : l.responses = responses
  up : l.Up conf.det up
  down : l.Down conf.det down
  sent : l.sent = []
  dispatched : l.dispatched = []

/-- A connection when the client is connected, with the messages on the way. -/
structure Talks (l : Link) (s : Secure) (pending : List Bytes) : Prop where
  agreed : Agreed conf s
  cl : l.cl = s
  isConnected : l.isConnected = true
  secure : l.client.secure = s
  encryptionData : l.encryptionData = s
  offers : l.offers = []
  responses : l.responses = []
  up : l.Up conf.det (pending.map (fun msg => s.seal ciphers msg false))
  admits : l.Admits conf pending

/-- The stages of a connection of a client with a secret. -/
inductive Stage (secret : Bytes) (l : Link) : Prop
  | offered (at_ : Shakes conf secret l .cleared .cleared [] [] [kex.offer secret] [])
  | tasked (at_ : Shakes conf secret l .cleared .cleared [kex.offer secret] [] [] [])
  | computed (key answer : Bytes) (filled : key ≠ []) (agree : kex.clientKey secret answer = key)
      (at_ : Shakes conf secret l .cleared .cleared [] [.key key, .text answer] [] [])
  | answered (key answer : Bytes) (filled : key ≠ []) (agree : kex.clientKey secret answer = key)
      (at_ : Shakes conf secret l .cleared (cleared.withKey key) [] [] [] [answer])
  /-- The client has the key, and its confirmation is on the way. -/
  | keyed (key : Bytes) (filled : key ≠ [])
      (at_ : Shakes conf secret l (cleared.withKey key) (cleared.withKey key) [] []
        [confirmation ciphers key] [])
  | confirmed (key : Bytes) (filled : key ≠ [])
      (at_ : Shakes conf secret l (cleared.withKey key) (established conf key) [] [] []
        [confirmation ciphers key])
  | connected (s : Secure) (pending : List Bytes) (at_ : Talks ciphers conf l s pending)

end

section

variable {ciphers : Ciphers} {kex : KeyExchange} {conf : TcpConf} {secret key answer : Bytes}
  {l l' : Link} {cl secure s : Secure} {offers : List Bytes} {responses : List Response}
  {up down pending : List Bytes}

theorem Shakes.bare (shakes : Shakes conf secret l cl secure offers responses up down)
    (open_ : secure.isAes = false) : l.encryptionData.aesKey = [] := by
  rw [shakes.encryptionData, open_]
  rfl

theorem Shakes.handle_offer (shakes : Shakes conf secret l .cleared .cleared [] [] [] [])
    (str : Bytes) :
    Shakes conf secret (l.handle ciphers conf str) .cleared .cleared [str] [] [] [] := by
  have processed : processMessage ciphers (listenConf conf) l.client str =
      (l.client, .offered str) := by
    simp [processMessage, listenConf, shakes.isAes, shakes.client, cleared]
  rw [handle, processed]
  exact { shakes with offers := by rw [shakes.offers]; rfl }

theorem take_single {only str : Bytes} {given rest : List Bytes}
    (parts : [only] = str :: (given ++ rest)) : str = only ∧ given = [] ∧ rest = [] := by
  obtain ⟨same, nothing⟩ := List.cons.inj parts
  exact ⟨same.symm, append_eq_nil_iff.mp nothing.symm⟩

theorem Talks.receive (talks : Talks ciphers conf l s pending) (str : Bytes) :
    l.receive ciphers kex conf str = l := by
  have kept : (deliver ciphers conf (kex.clientKey l.secret) l.cl str).1 = l.cl ∧
      ((∃ text, (deliver ciphers conf (kex.clientKey l.secret) l.cl str).2 = .message text) ∨
        (deliver ciphers conf (kex.clientKey l.secret) l.cl str).2 = .echo) := by
    have agreed : l.cl.isAes = conf.isAes := by rw [talks.cl, talks.agreed.isAes]
    rw [deliver, agreed]
    cases conf.isAes with
    | true => 
      simp only [if_true]
      cases pr ciphers conf.toClientConf l.cl str with
      | some text => exact ⟨rfl, .inl ⟨text, rfl⟩⟩
      | none => exact ⟨rfl, .inr rfl⟩
    | false => 
      simp only [Bool.false_eq_true, if_false]
      split
      · exact ⟨rfl, .inr rfl⟩
      · exact ⟨rfl, .inl ⟨str, rfl⟩⟩
  rw [Link.receive]
  obtain ⟨same, ⟨text, message⟩ | echo⟩ := kept
  · rw [same, message]
  · rw [same, echo]

theorem Talks.foldl_receive (talks : Talks ciphers conf l s pending) (given : List Bytes) :
    given.foldl (Link.receive ciphers kex conf) l = l := by
  induction given with
  | nil => rfl
  | cons str given ih => rw [foldl_cons, talks.receive, ih]

theorem Talks.foldl_handle (open_ : conf.isAes = false) (given : List Bytes) (l : Link) :
    given.foldl (handle ciphers conf) l = given.foldl (handOn conf) l := by
  have same (l : Link) (str : Bytes) : l.handle ciphers conf str = l.handOn conf str := by
    rw [handle, processMessage]
    simp only [listenConf, open_, Bool.false_eq_true, if_false]
  induction given generalizing l with
  | nil => rfl
  | cons str given ih => rw [foldl_cons, foldl_cons, same, ih]

theorem Talks.exact_ (talks : Talks ciphers conf l s pending) :
    l.dispatched <+: l.sent ∧ (l.toServer = [] → l.dispatched = l.sent) := by
  have whole := talks.admits.whole
  refine ⟨⟨_, whole⟩, fun bytes => ?_⟩
  obtain ⟨_, -, carries⟩ := talks.up
  rw [bytes] at carries
  have nothing : pending = [] := map_eq_nil_iff.mp carries.pieces_eq_nil
  rw [nothing] at whole
  simpa using whole

theorem Stage.exact_ (stage : Stage ciphers kex conf secret l) :
    l.dispatched <+: l.sent ∧ (l.toServer = [] → l.dispatched = l.sent) := by
  have silent {cl secure : Secure} {offers : List Bytes} {responses : List Response}
      {up down : List Bytes} (at_ : Shakes conf secret l cl secure offers responses up down) :
      l.dispatched <+: l.sent ∧ (l.toServer = [] → l.dispatched = l.sent) := by
    rw [at_.dispatched, at_.sent]
    exact ⟨List.nil_prefix, fun _ => rfl⟩
  cases stage with
  | offered at_ => exact silent at_
  | tasked at_ => exact silent at_
  | computed _ _ _ _ at_ => exact silent at_
  | answered _ _ _ _ at_ => exact silent at_
  | keyed _ _ at_ => exact silent at_
  | confirmed _ _ at_ => exact silent at_
  | connected _ _ at_ => exact at_.exact_

variable (filled : conf.det ≠ [])

include filled

theorem up_empty {l : Link} (bytes : l.toServer = []) (helper : l.helper = {}) :
    l.Up conf.det [] := by
  refine ⟨{}, ⟨helper, .start filled⟩, ?_⟩
  rw [bytes]
  exact .nil

theorem down_empty {l : Link} (bytes : l.toClient = []) (buffer : l.buffer = {}) :
    l.Down conf.det [] := by
  have absent : ¬ conf.det <:+: [] := fun inside => filled (infix_nil.mp inside)
  have holds : ReadBuffer.Holds conf.det {} [] := ⟨rfl, absent, Nat.zero_le _⟩
  rw [Down, bytes, buffer]
  exact ⟨[], holds, rfl⟩

theorem Talks.login (authorizes : conf.authString ≠ []) {l : Link} (agreed : Agreed conf l.cl)
    (secure : l.client = ⟨l.cl, false⟩) (encryptionData : l.encryptionData = l.cl)
    (offers : l.offers = []) (responses : l.responses = []) (up : l.Up conf.det [])
    (sent : l.sent = []) (dispatched : l.dispatched = [])
    (passes : (l.login ciphers conf).Passes conf.det) :
    Talks ciphers conf (l.login ciphers conf) l.cl [conf.authString] := by
  have put : l.login ciphers conf =
      { l.put ciphers conf conf.authString false with isConnected := true } := by
    rw [Link.login, if_pos authorizes]
  rw [put] at passes ⊢
  have text := passes.texts (l.cl.seal ciphers conf.authString false)
    (mem_append_right _ (mem_singleton_self _))
  exact {
    agreed
    cl := rfl
    isConnected := rfl
    secure := congrArg SocketClient.secure secure
    encryptionData
    offers
    responses
    up := up.put filled conf.authString false text
    admits := {
      first := fun _ => ⟨[], rfl⟩
      whole := by
        have closed : l.client.isAuthorized = false := by rw [secure]
        show l.dispatched ++
          List.filter isRequest (if l.client.isAuthorized then _ else _) = l.sent
        rw [closed, sent, dispatched]
        rfl } }

theorem Stage.connect (authorizes : conf.authString ≠ []) (secret : Bytes)
    (passes : (connect ciphers kex conf secret).Passes conf.det) :
    Stage ciphers kex conf secret (connect ciphers kex conf secret) := by
  have up : ({ secret } : Link).Up conf.det [] := up_empty filled rfl rfl
  have down : ({ secret } : Link).Down conf.det [] := down_empty filled rfl rfl
  rw [Login.connect] at passes ⊢
  cases isAes : conf.isAes with
  | true =>
    rw [if_pos isAes] at passes
    rw [if_pos rfl]
    have text := passes.texts _ (mem_append_right _ (mem_singleton_self _))
    exact .offered {
      secret := rfl
      isAes
      cl := rfl
      isConnected := rfl
      client := rfl
      encryptionData := rfl
      messages := fun _ => rfl
      offers := rfl
      responses := rfl
      up := up.put filled (kex.offer secret) false text
      down
      sent := rfl
      dispatched := rfl }
  | false =>
    rw [if_neg (by rw [isAes]; decide)] at passes
    rw [if_neg (by decide)]
    have agreed : Agreed conf .cleared := ⟨isAes.symm, by rw [isAes]; simp [cleared]⟩
    exact .connected _ _
      (Talks.login filled authorizes agreed rfl rfl rfl rfl up rfl rfl passes)

theorem Shakes.clientRead (shakes : Shakes conf secret l cl secure offers responses up down)
    {n : Nat} (taken : step ciphers kex conf l (.clientRead n) = some l') :
    ∃ l₀ given rest, down = given ++ rest ∧
      Shakes conf secret l₀ cl secure offers responses up rest ∧
        l' = given.foldl (receive ciphers kex conf) l₀ := by
  obtain ⟨buffer, given, rest, parts, later, same⟩ := shakes.down.take filled taken
  exact ⟨{ l with buffer, toClient := l.toClient.drop n }, given, rest, parts,
    { shakes with down := later }, same⟩

theorem Shakes.respond (shakes : Shakes conf secret l .cleared .cleared [] [] [] [])
    (passes : ([Response.key key, .text answer].foldl (respond ciphers conf) l).Passes
      conf.det) :
    Shakes conf secret ([Response.key key, .text answer].foldl (respond ciphers conf) l)
      .cleared (cleared.withKey key) [] [] [] [answer] := by
  have secure : l.client.secure = .cleared := by rw [shakes.client]
  let keyed : Link := { l with client := { l.client with secure := l.client.secure.withKey key } }
  have text : (l.client.secure.withKey key).seal ciphers answer false = answer := by
    rw [secure]
    rfl
  have through : LeftmostPasses conf.det answer := by
    rw [← text]
    exact passes.answers _ (mem_append_right _ (mem_singleton_self _))
  have down : keyed.Down conf.det [] := shakes.down
  have pushed := down.answer filled (l.client.secure.withKey key) answer (text ▸ through)
  rw [text, nil_append] at pushed
  exact { shakes with
    client := by
      show SocketClient.mk _ _ = _
      rw [shakes.client]
    messages := shakes.messages
    down := pushed }

theorem Shakes.receive_answer
    (shakes : Shakes conf secret l .cleared (cleared.withKey key) [] [] [] [])
    (agree : kex.clientKey secret answer = key)
    (passes : (l.receive ciphers kex conf answer).Passes conf.det) :
    Shakes conf secret (l.receive ciphers kex conf answer) (cleared.withKey key)
      (cleared.withKey key) [] [] [confirmation ciphers key] [] := by
  have delivered : deliver ciphers conf (kex.clientKey l.secret) l.cl answer =
      (cleared.withKey key, .key answer) := by
    simp [deliver, shakes.isAes, shakes.cl, cleared, shakes.secret, agree]
  rw [receive, delivered] at passes ⊢
  have text := passes.texts _ (mem_append_right _ (mem_singleton_self _))
  have keyed : ({ l with cl := cleared.withKey key } : Link).Up conf.det [] := shakes.up
  exact { shakes with
    cl := rfl
    up := keyed.put filled okAes true text }

theorem Shakes.handle_confirmation
    (shakes : Shakes conf secret l (Secure.cleared.withKey key) (Secure.cleared.withKey key) [] []
      [] [])
    (keyed : key ≠ [])
    (passes : (l.handle ciphers conf (confirmation ciphers key)).Passes conf.det) :
    Shakes conf secret (l.handle ciphers conf (confirmation ciphers key))
      (Secure.cleared.withKey key) (established conf key) [] [] []
      [confirmation ciphers key] := by
  have secure : l.client.secure = Secure.cleared.withKey key := by rw [shakes.client]
  have processed : processMessage ciphers (listenConf conf) l.client
      (confirmation ciphers key) = (⟨established conf key, false⟩, .confirmed) := by
    simp [processMessage, listenConf, shakes.isAes, shakes.client, confirmation, Secure.seal,
      Secure.encrypt, Secure.withKey, Secure.cleared, established, keyed]
  rw [handle, processed] at passes ⊢
  have text : ({ l.client.secure with isAes := true } : Secure).seal ciphers okAes false =
      confirmation ciphers key := by
    rw [secure, confirmation]
    simp [Secure.seal, Secure.encrypt]
  have through := passes.answers _ (mem_append_right _ (mem_singleton_self _))
  have pushed := shakes.down.answer filled { l.client.secure with isAes := true } okAes through
  rw [text, nil_append] at pushed
  obtain ⟨_, -, carries⟩ := shakes.up
  exact { shakes with
    client := rfl
    encryptionData := rfl
    messages := fun never => by cases never
    up := by
      refine up_empty filled carries.stream_eq_nil ?_
      show (if key = [] then _ else l.messages.getD {}) = _
      rw [if_neg keyed, shakes.messages rfl]
      rfl
    down := pushed }

theorem Shakes.receive_confirmation
    (shakes : Shakes conf secret l (Secure.cleared.withKey key) (established conf key) [] [] [] [])
    (authorizes : conf.authString ≠ []) (keyed : key ≠ [])
    (passes : (l.receive ciphers kex conf (confirmation ciphers key)).Passes conf.det) :
    Talks ciphers conf (l.receive ciphers kex conf (confirmation ciphers key))
      (established conf key) [conf.authString] := by
  have delivered : deliver ciphers conf (kex.clientKey l.secret) l.cl
      (confirmation ciphers key) =
        (established conf key, .confirmation okAes) := by
    simp [deliver, shakes.isAes, shakes.cl, confirmation, Secure.seal, Secure.encrypt,
      Secure.withKey, Secure.cleared, established, keyed]
  rw [receive, delivered] at passes ⊢
  dsimp only at passes ⊢
  rw [if_pos rfl] at passes ⊢
  have agreed : Agreed conf (established conf key) :=
    ⟨shakes.isAes.symm, iff_of_true keyed shakes.isAes⟩
  have up : ({ l with cl := established conf key } : Link).Up conf.det [] := shakes.up
  exact Talks.login filled authorizes agreed shakes.client shakes.encryptionData shakes.offers
    shakes.responses up shakes.sent shakes.dispatched passes

theorem Talks.send (talks : Talks ciphers conf l s pending) (msg : Bytes)
    (passes : RestartPasses conf.det (l.cl.seal ciphers msg false)) :
    Talks ciphers conf { l.put ciphers conf msg false with
        sent := l.sent ++ if isRequest msg then [msg] else [] } s (pending ++ [msg]) := by
  have up := talks.up.put filled msg false passes
  have first := talks.admits.first
  have whole := talks.admits.whole
  exact { talks with
    up := by
      rw [map_append, map_singleton]
      rwa [talks.cl] at up
    admits := {
      first := fun closed => by
        obtain ⟨rest, parts⟩ := first closed
        exact ⟨rest ++ [msg], by rw [parts]; rfl⟩
      whole := by
        show l.dispatched ++ List.filter isRequest
          (if l.client.isAuthorized then pending ++ [msg] else (pending ++ [msg]).tail) = _
        rw [← whole]
        cases open_ : l.client.isAuthorized with
        | true => simp [filter_cons]
        | false =>
          obtain ⟨rest, parts⟩ := first open_
          simp [parts, filter_cons] } }

variable (small : conf.det.length < 2 ^ 31)

include small

theorem Shakes.serverRead (shakes : Shakes conf secret l cl secure offers responses up down)
    {n : Nat} (taken : step ciphers kex conf l (.serverRead n) = some l') :
    ∃ l₀ given rest, up = given ++ rest ∧
      Shakes conf secret l₀ cl secure offers responses rest down ∧ (given = [] → l' = l₀) ∧
        (secure.isAes = false → l' = given.foldl (handle ciphers conf) l₀) := by
  obtain ⟨m, messages, given, rest, parts, later, outcome⟩ := shakes.up.take filled small taken
  refine ⟨{ l with m, messages, toServer := l.toServer.drop n }, given, rest, parts,
    { shakes with up := later, messages := ?_ }, ?_, ?_⟩
  · intro open_
    obtain ⟨-, same, -⟩ | ⟨keyed, -⟩ := outcome
    · exact same.trans (shakes.messages open_)
    · exact absurd (shakes.bare open_) keyed
  · rintro rfl
    obtain ⟨-, -, same⟩ | ⟨-, same⟩ := outcome <;> exact same
  · intro open_
    obtain ⟨-, -, same⟩ | ⟨keyed, -⟩ := outcome
    · exact same
    · exact absurd (shakes.bare open_) keyed

/-- What a step can do before the client is connected: nothing, or the server or the client takes
texts, or a task computes a key, or the event loop takes the responses. -/
theorem Shakes.step (shakes : Shakes conf secret l cl secure offers responses up down)
    {action : Action} (taken : step ciphers kex conf l action = some l') :
    Shakes conf secret l' cl secure offers responses up down ∨
    (∃ l₀ str given rest, up = str :: (given ++ rest) ∧
      Shakes conf secret l₀ cl secure offers responses rest down ∧
        (secure.isAes = false → l' = (str :: given).foldl (handle ciphers conf) l₀)) ∨
    (∃ l₀ str given rest, down = str :: (given ++ rest) ∧
      Shakes conf secret l₀ cl secure offers responses up rest ∧
        l' = (str :: given).foldl (receive ciphers kex conf) l₀) ∨
    (∃ place b str, offers[place]? = some str ∧
      Shakes conf secret l' cl secure (offers.eraseIdx place) (responses ++ generated kex b str)
        up down) ∨
    (∃ l₀ response more, responses = response :: more ∧
      Shakes conf secret l₀ cl secure offers [] up down ∧
        l' = (response :: more).foldl (Link.respond ciphers conf) l₀) := by
  cases action with
  | send msg => simp [Login.step, shakes.isConnected] at taken
  | push text => simp [Login.step, shakes.client] at taken
  | serverRead n =>
    obtain ⟨l₀, given, rest, parts, before, nothing, same⟩ :=
      shakes.serverRead filled small taken
    cases given with
    | nil =>
      cases parts
      grind
    | cons str given => exact .inr (.inl ⟨l₀, str, given, rest, parts, before, same⟩)
  | clientRead n =>
    obtain ⟨l₀, given, rest, parts, before, same⟩ := shakes.clientRead filled taken
    cases given with
    | nil =>
      cases parts
      grind
    | cons str given => exact .inr (.inr (.inl ⟨l₀, str, given, rest, parts, before, same⟩))
  | generateKey place b =>
    simp only [Login.step, map_eq_some_iff] at taken
    obtain ⟨str, there, rfl⟩ := taken
    rw [shakes.offers] at there
    exact .inr (.inr (.inr (.inl ⟨place, b, str, there, { shakes with
      offers := by rw [← shakes.offers]
      responses := by rw [← shakes.responses] }⟩)))
  | respond =>
    cases taken
    have before : Shakes conf secret { l with responses := [] } cl secure offers [] up down :=
      { shakes with responses := rfl }
    rw [shakes.responses]
    cases responses with
    | nil => exact .inl before
    | cons response more => exact .inr (.inr (.inr (.inr ⟨_, response, more, rfl, before, rfl⟩)))

theorem Talks.serverRead (talks : Talks ciphers conf l s pending) {n : Nat}
    (taken : step ciphers kex conf l (.serverRead n) = some l') :
    ∃ rest, Talks ciphers conf l' s rest := by
  obtain ⟨m, messages, given, texts, parts, up, outcome⟩ := talks.up.take filled small taken
  obtain ⟨msgs, rest, rfl, rfl, rfl⟩ := map_eq_append_iff.mp parts
  let l₀ : Link := { l with m, messages, toServer := l.toServer.drop n }
  have handed : l' = msgs.foldl (handOn conf) l₀ := by
    obtain ⟨bare, -, same⟩ | ⟨keyed, same⟩ := outcome
    · have open_ : conf.isAes = false := by
        rw [talks.encryptionData] at bare
        exact Bool.not_eq_true _ ▸ fun isAes => talks.agreed.keyed.mpr isAes bare
      have plain_ : msgs.map (fun msg => s.seal ciphers msg false) = msgs := by
        simp [Secure.seal, talks.agreed.isAes, open_]
      rw [same, plain_, Talks.foldl_handle open_]
    · have isAes : s.isAes = true := by
        rw [talks.encryptionData] at keyed
        rw [talks.agreed.isAes, talks.agreed.keyed.mp keyed]
      have back : (msgs.map (fun msg => s.seal ciphers msg false)).map
          (l.encryptionData.decrypt ciphers) = msgs := by
        simp [talks.encryptionData, Function.comp_def, Secure.seal, isAes, Secure.decrypt_encrypt]
      rw [same, back]
  have before : l₀.Admits conf (msgs ++ rest) := ⟨talks.admits.first, talks.admits.whole⟩
  have admits := before.foldl_handOn
  obtain ⟨isAuthorized, dispatched, same⟩ := @foldl_handOn_frame conf msgs l₀
  rw [handed]
  rw [same] at admits ⊢
  exact ⟨rest, { talks with up, admits }⟩

theorem Talks.step (talks : Talks ciphers conf l s pending) {action : Action}
    (taken : step ciphers kex conf l action = some l') (passes : l'.Passes conf.det) :
    ∃ rest, Talks ciphers conf l' s rest := by
  cases action with
  | send msg =>
    simp only [Login.step, talks.isConnected, if_true, Option.some.injEq] at taken
    subst taken
    have text := passes.texts _ (mem_append_right _ (mem_singleton_self _))
    exact ⟨_, talks.send filled msg text⟩
  | clientRead n =>
    simp only [Login.step, ite_none_left_eq_some, map_eq_some_iff] at taken
    obtain ⟨-, read, -, rfl⟩ := taken
    have before : Talks ciphers conf
        { l with buffer := read.1, toClient := l.toClient.drop n } s pending :=
      { talks with up := talks.up, admits := ⟨talks.admits.first, talks.admits.whole⟩ }
    grind [before.foldl_receive]
  | serverRead n => exact talks.serverRead filled small taken
  | generateKey place b => simp [Login.step, talks.offers] at taken
  | respond =>
    cases taken
    rw [talks.responses]
    exact ⟨pending, { talks with
      responses := rfl, up := talks.up, admits := ⟨talks.admits.first, talks.admits.whole⟩ }⟩
  | push text =>
    simp only [Login.step, ite_none_right_eq_some, Option.some.injEq] at taken
    obtain ⟨-, rfl⟩ := taken
    exact ⟨pending, { talks with
      up := talks.up, admits := ⟨talks.admits.first, talks.admits.whole⟩ }⟩

theorem Stage.step (stage : Stage ciphers kex conf secret l) (authorizes : conf.authString ≠ [])
    {action : Action} (taken : step ciphers kex conf l action = some l')
    (passes : l'.Passes conf.det) : Stage ciphers kex conf secret l' := by
  cases stage with
  | offered at_ =>
    obtain stays | ⟨l₀, str, given, rest, parts, before, same⟩ | ⟨_, _, _, _, parts, -⟩ |
      ⟨_, _, _, there, -⟩ | ⟨_, _, _, some_, -⟩ := at_.step filled small taken
    · exact .offered stays
    · obtain ⟨rfl, rfl, rfl⟩ := take_single parts
      rw [same rfl]
      exact .tasked (before.handle_offer _)
    · cases parts
    · cases there
    · cases some_
  | tasked at_ =>
    obtain stays | ⟨_, _, _, _, parts, -⟩ | ⟨_, _, _, _, parts, -⟩ |
      ⟨place, b, str, there, after⟩ | ⟨_, _, _, some_, -⟩ := at_.step filled small taken
    · exact .tasked stays
    · cases parts
    · cases parts
    · cases place with
      | zero =>
        cases there
        obtain ⟨answer, replied⟩ := kex.readable secret b
        rw [generated, replied] at after
        exact .computed _ answer (kex.keyed b _) (kex.agree secret b answer replied) after
      | succ place => cases there
    · cases some_
  | computed key answer keyed agree at_ =>
    obtain stays | ⟨_, _, _, _, parts, -⟩ | ⟨_, _, _, _, parts, -⟩ |
      ⟨_, _, _, there, -⟩ | ⟨l₀, response, more, parts, before, rfl⟩ := at_.step filled small taken
    · exact .computed key answer keyed agree stays
    · cases parts
    · cases parts
    · cases there
    · cases parts
      exact .answered key answer keyed agree (before.respond filled passes)
  | answered key answer keyed agree at_ =>
    obtain stays | ⟨_, _, _, _, parts, -⟩ | ⟨l₀, str, given, rest, parts, before, rfl⟩ |
      ⟨_, _, _, there, -⟩ | ⟨_, _, _, some_, -⟩ := at_.step filled small taken
    · exact .answered key answer keyed agree stays
    · cases parts
    · obtain ⟨rfl, rfl, rfl⟩ := take_single parts
      exact .keyed key keyed (before.receive_answer filled agree passes)
    · cases there
    · cases some_
  | keyed key keyed at_ =>
    obtain stays | ⟨l₀, str, given, rest, parts, before, same⟩ | ⟨_, _, _, _, parts, -⟩ |
      ⟨_, _, _, there, -⟩ | ⟨_, _, _, some_, -⟩ := at_.step filled small taken
    · exact .keyed key keyed stays
    · obtain ⟨rfl, rfl, rfl⟩ := take_single parts
      rw [same rfl] at passes ⊢
      exact .confirmed key keyed (before.handle_confirmation filled keyed passes)
    · cases parts
    · cases there
    · cases some_
  | confirmed key keyed at_ =>
    obtain stays | ⟨_, _, _, _, parts, -⟩ | ⟨l₀, str, given, rest, parts, before, rfl⟩ |
      ⟨_, _, _, there, -⟩ | ⟨_, _, _, some_, -⟩ := at_.step filled small taken
    · exact .confirmed key keyed stays
    · cases parts
    · obtain ⟨rfl, rfl, rfl⟩ := take_single parts
      exact .connected _ _ (before.receive_confirmation filled authorizes keyed passes)
    · cases there
    · cases some_
  | connected s pending at_ =>
    obtain ⟨rest, talks⟩ := at_.step filled small taken passes
    exact .connected s rest talks

end

/-- With an authorization, and while the splitters let the texts pass, the server hands to tasks
the requests that the client has sent since it is connected, in order; when it has read everything,
it has handed over all of them. -/
theorem requests_dispatched (ciphers : Ciphers) (kex : KeyExchange) (conf : TcpConf)
    (filled : conf.det ≠ []) (small : conf.det.length < 2 ^ 31) (authorizes : conf.authString ≠ [])
    (secret : Bytes) (l : Link)
    (reached : Reaches (step ciphers kex conf) (fun _ _ => True)
      (connect ciphers kex conf secret) l)
    (passes : l.Passes conf.det) :
    l.dispatched <+: l.sent ∧ (l.toServer = [] → l.dispatched = l.sent) := by
  have stage : l.Passes conf.det → Stage ciphers kex conf secret l :=
    reached.invariant (fun l => l.Passes conf.det → Stage ciphers kex conf secret l)
      (Stage.connect filled authorizes secret)
      (fun _ _ _ before _ taken passes =>
        (before (passes.of_grows (.step taken))).step filled small authorizes taken passes)
  exact (stage passes).exact_

instance (det : Bytes) (l : Link) : Decidable (l.Passes det) :=
  decidable_of_iff
    ((∀ text ∈ l.texts, RestartPasses det text) ∧ ∀ text ∈ l.answers, LeftmostPasses det text)
    ⟨fun both => ⟨both.1, both.2⟩, fun passes => ⟨passes.texts, passes.answers⟩⟩

/-- An exchange in which both ends always compute the same key. -/
def sampleExchange : KeyExchange where
  offer a := a
  reply b _ := some b
  serverKey _ _ := [1]
  clientKey _ _ := [1]
  readable _ b := ⟨b, rfl⟩
  agree _ _ _ _ := rfl
  keyed _ _ := by decide

/-- Settings with the delimiter `;` and the encryption on. -/
def sampleSettings (authString : Bytes) : TcpConf :=
  { echoString := [], skipAes := false, det := [59], authString, isAes := true
    isGostEnc := false }

/-- Two requests of type 01. -/
def sampleRequests : List Bytes :=
  [[48, 49, 48, 48, 48, 48, 49], [48, 49, 48, 48, 48, 48, 50]]

/-- A handshake, two requests, and a server that reads everything. -/
def sampleActions : List Action :=
  [.serverRead 9, .generateKey 0 [8], .respond, .clientRead 9, .serverRead 9, .clientRead 9] ++
    sampleRequests.map .send ++ [.serverRead 99]

/-- With the authorization `a` both requests are handed to tasks. -/
theorem requests_dispatched_sample :
    ∃ l, Reaches (step plain sampleExchange (sampleSettings [97])) (fun _ _ => True)
        (connect plain sampleExchange (sampleSettings [97]) [7]) l ∧
      l.Passes [59] ∧ l.sent = sampleRequests ∧ l.dispatched = sampleRequests := by
  obtain ⟨l, reached, passes, sent, bytes⟩ :
      ∃ l, Reaches (step plain sampleExchange (sampleSettings [97])) (fun _ _ => True)
          (connect plain sampleExchange (sampleSettings [97]) [7]) l ∧
        l.Passes [59] ∧ l.sent = sampleRequests ∧ l.toServer = [] :=
    Reaches.of_runActions_any sampleActions (by decide +kernel)
  have dispatched := (requests_dispatched plain sampleExchange (sampleSettings [97]) (by decide)
    (by decide) (by decide) [7] l reached passes).2 bytes
  exact ⟨l, reached, passes, sent, dispatched.trans sent⟩

/-- Without an authorization the server takes the first request for it. -/
theorem request_taken_for_authorization :
    ∃ l, Reaches (step plain sampleExchange (sampleSettings [])) (fun _ _ => True)
        (connect plain sampleExchange (sampleSettings []) [7]) l ∧
      l.Passes [59] ∧ l.toServer = [] ∧ l.sent = sampleRequests ∧
        l.dispatched = sampleRequests.tail :=
  Reaches.of_runActions_any sampleActions (by decide +kernel)

end RssDisk.Network.Login
