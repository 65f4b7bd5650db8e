import RssDisk.Network.Gateway

/-!
# Nothing is done for a connection before it has authorized

A request of a connection is given to a pool, and the connection is registered for events, only
behind a confirmation of the encryption and the authorization text that both came from this
connection. Messages reach `on_message` on two ways: the event loop decrypts what was read before
the confirmation, and the tasks what is read behind it. A subscription is kept under the descriptor
alone, so it must not wait while its descriptor gets another connection.
-/

namespace RssDisk.Network.Gateway

open Lib Listen Function List EventLoop

/-- Bytes that come from one connection. -/
def Own (c : Conn) (bytes : List Conn) : Prop :=
  bytes ≠ [] ∧ ∀ d ∈ bytes, d = c

/-- The encryption of a connection was confirmed by its own bytes. -/
def Confirmed (log : List Entry) (c : Conn) : Prop :=
  ∃ bytes, Own c bytes ∧ .confirmed c bytes ∈ log

/-- Behind the confirmation the authorization text was received on the connection. -/
def Authorized (auth : Bytes) (log : List Entry) (c : Conn) : Prop :=
  ∃ front bytes back, log = front ++ .heard c bytes auth :: back ∧ Own c bytes ∧ Confirmed front c

/-- The connection that something is done for. -/
def Entry.served? : Entry → Option Conn
  | .dispatched c _ => some c
  | .registered c => some c
  | _ => none

/-- Whatever was done, was done for a connection that had authorized before. -/
def Justified (auth : Bytes) (log : List Entry) : Prop :=
  ∀ front entry back c, log = front ++ entry :: back → entry.served? = some c →
    Authorized auth front c

section

variable {auth : Bytes} {log : List Entry} {c : Conn}

theorem Confirmed.append (confirmed : Confirmed log c) (more : List Entry) :
    Confirmed (log ++ more) c := by
  obtain ⟨bytes, own, member⟩ := confirmed
  exact ⟨bytes, own, mem_append_left more member⟩

theorem Authorized.append (authorized : Authorized auth log c) (more : List Entry) :
    Authorized auth (log ++ more) c := by
  obtain ⟨front, bytes, back, rfl, own, confirmed⟩ := authorized
  exact ⟨front, bytes, back ++ more, by simp, own, confirmed⟩

theorem Confirmed.authorized (confirmed : Confirmed log c) {bytes : List Conn} (own : Own c bytes) :
    Authorized auth (log ++ [.heard c bytes auth]) c :=
  ⟨log, bytes, [], rfl, own, confirmed⟩

theorem Justified.concat (justified : Justified auth log) {entry : Entry}
    (serves : ∀ c, entry.served? = some c → Authorized auth log c) :
    Justified auth (log ++ [entry]) := by
  intro front other back c split served
  rcases eq_nil_or_concat back with rfl | ⟨rest, last, rfl⟩
  · obtain ⟨rfl, same⟩ := append_inj' split rfl
    obtain rfl := singleton_inj.mp same
    exact serves c served
  · rw [concat_eq_append, ← cons_append, ← append_assoc] at split
    exact justified front other rest c (append_inj' split rfl).1 served

end

/-- The messages of a descriptor are split by tasks, or those of a result were. -/
def Splits (s : EventLoop) (fd : Fd) : Prop :=
  s.encrypted fd = true ∨ ∃ r, s.Waits fd r ∧ r.status = .okParsed

theorem encrypted_of_result {s : EventLoop} {t : Task} {status : Todo}
    (may : t.mayFinish status = true) (parsed : (s.result t status).status = .okParsed) :
    s.encrypted t.fd = true := by
  simp only [result] at parsed
  split at parsed
  · grind
  · rw [parsed] at may
    cases may

theorem Splits.cases {s s' : EventLoop} {action : Action} {fd : Fd}
    (taken : s.step action = some s') (splits : Splits s' fd) :
    Splits s fd ∨ (action = .act fd true true ∧ (s.clients fd).isSome = true) := by
  rcases splits with encrypted | ⟨r, waits, parsed⟩
  · cases turnover taken with
    | closed g _ _ _ _ _ same =>
      rw [same] at encrypted
      by_cases here : fd = g
      · rw [here, update_self] at encrypted
        cases encrypted
      · rw [update_of_ne here] at encrypted
        exact .inl (.inl encrypted)
    | accepted _ _ _ _ _ _ same =>
      rw [same] at encrypted
      exact .inl (.inl encrypted)
    | leaked _ _ _ _ _ _ _ same =>
      rw [same] at encrypted
      exact .inl (.inl encrypted)
    | stays _ _ _ _ _ same =>
      rcases same with same | ⟨g, r, acts, -, -, client, same⟩
      · rw [same] at encrypted
        exact .inl (.inl encrypted)
      · rw [same] at encrypted
        by_cases here : fd = g
        · grind
        · rw [update_of_ne here] at encrypted
          exact .inl (.inl encrypted)
  · rcases waits_cases taken waits with before | removes | ⟨t, status, rfl, may, rfl⟩
    · exact .inl (.inr ⟨r, before, parsed⟩)
    · cases removes.symm.trans parsed
    · exact .inl (.inl (encrypted_of_result may parsed))

theorem Splits.opened {s : EventLoop} {fd : Fd} (kept : Kept s fd) (splits : Splits s fd) :
    s.encrypted fd = true ∨ (s.opened fd).isSome = true := by
  rcases splits with encrypted | ⟨r, result | handled, parsed⟩
  · exact .inl encrypted
  · have held := (kept.result r result (by simp [parsed])).opened
    exact .inr (Option.isSome_iff_exists.mpr ⟨_, held⟩)
  · have held := (kept.handled r handled (by simp [parsed])).1.opened
    exact .inr (Option.isSome_iff_exists.mpr ⟨_, held⟩)

namespace State

variable {ciphers : Ciphers} {gost : Bool} {auth : Bytes} {g g' : State} {fd : Fd} {c : Conn}

/-- No descriptor is closed while a task of the event loop works on it. -/
def Undisturbed (ciphers : Ciphers) (gost : Bool) (auth : Bytes) (g : State) (deed : Deed) : Prop :=
  ∀ action ∈ g.action? ciphers gost auth deed, ∀ t ∈ g.loop.tasks,
    g.loop.Undisturbed t.fd action

instance (deed : Deed) : Decidable (g.Undisturbed ciphers gost auth deed) := by
  unfold Undisturbed
  infer_instance

/-- What holds of the clients and of the record. -/
structure Guarded (auth : Bytes) (g : State) : Prop where
  kept : ∀ fd, Kept g.loop fd
  splits : ∀ fd, Splits g.loop fd →
    (g.loop.clients fd).isSome = true ∧ (g.client fd).secure.isAes = true
  confirmed : ∀ fd c, g.loop.clients fd = some c → (g.client fd).secure.isAes = true →
    Confirmed g.log c
  authorized : ∀ fd c, g.loop.clients fd = some c → (g.client fd).isAuthorized = true →
    Authorized auth g.log c
  /-- Requests are worked on for connections that have authorized. -/
  works : ∀ w ∈ g.works, ∀ message, w.job = .request message → Authorized auth g.log w.conn
  asked : ∀ fd c, g.toAddEvents.lookup fd ≠ none → g.loop.clients fd = some c →
    Authorized auth g.log c
  justified : Justified auth g.log

namespace Guarded

theorem begin : Guarded auth {} where
  kept := fun _ => .start
  splits := by
    rintro fd (encrypted | ⟨r, result | handled, -⟩)
    · cases encrypted
    · cases result
    · cases handled
  confirmed := fun _ _ client => by cases client
  authorized := fun _ _ client => by cases client
  works := fun _ member => by cases member
  asked := fun _ _ _ client => by cases client
  justified := by
    intro front entry back c empty
    simp at empty

variable (guarded : Guarded auth g)

include guarded

theorem same (loop : g'.loop = g.loop) (client : g'.client = g.client)
    (works : ∀ w ∈ g'.works, w ∈ g.works) (toAddEvents : g'.toAddEvents = g.toAddEvents)
    (log : g'.log = g.log) : Guarded auth g' := by
  constructor
  · rw [loop]
    exact guarded.kept
  · rw [loop, client]
    exact guarded.splits
  · rw [loop, client, log]
    exact guarded.confirmed
  · rw [loop, client, log]
    exact guarded.authorized
  · rw [log]
    exact fun w member => guarded.works w (works w member)
  · rw [loop, toAddEvents, log]
    exact guarded.asked
  · rw [log]
    exact guarded.justified

theorem record {entry : Entry} (serves : ∀ c, entry.served? = some c → Authorized auth g.log c) :
    Guarded auth { g with log := g.log ++ [entry] } :=
  { guarded with
    confirmed := fun fd c client secure => (guarded.confirmed fd c client secure).append _
    authorized := fun fd c client admitted => (guarded.authorized fd c client admitted).append _
    works := fun w member message job => (guarded.works w member message job).append _
    asked := fun fd c waits client => (guarded.asked fd c waits client).append _
    justified := guarded.justified.concat serves }

theorem change (client : g.loop.clients fd = some c) {changed : SocketClient}
    (stays : (g.client fd).secure.isAes = true → changed.secure.isAes = true)
    (confirmed : changed.secure.isAes = true → Confirmed g.log c)
    (authorized : changed.isAuthorized = true → Authorized auth g.log c) :
    Guarded auth { g with client := update g.client fd changed } := by
  refine { guarded with splits := ?_, confirmed := ?_, authorized := ?_ }
  · intro other splits
    obtain ⟨present, secure⟩ := guarded.splits other splits
    refine ⟨present, ?_⟩
    by_cases same : other = fd
    · grind
    · simpa [same] using secure
  · intro other d present secure
    by_cases same : other = fd
    · grind
    · exact guarded.confirmed other d present (by simpa [same] using secure)
  · intro other d present admitted
    by_cases same : other = fd
    · grind
    · exact guarded.authorized other d present (by simpa [same] using admitted)

theorem start {job : Job} (serves : ∀ message, job = .request message → Authorized auth g.log c) :
    Guarded auth (g.start fd c job) := by
  refine { guarded with works := ?_ }
  intro w member
  rcases mem_append.mp member with before | new
  · exact guarded.works w before
  · rw [mem_singleton.mp new]
    exact serves

theorem listenEvents {types : Finset Int}
    (serves : ∀ d, g.loop.clients fd = some d → Authorized auth g.log d) :
    Guarded auth (g.listenEvents fd c types) := by
  refine { guarded with asked := ?_ }
  intro other d waits client
  by_cases same : other = fd
  · subst same
    exact serves d client
  · apply guarded.asked other d _ client
    have waits : (UMap.emplace g.toAddEvents fd types).lookup other ≠ none := waits
    rwa [UMap.lookup_emplace, if_neg same] at waits

theorem hear (filled : auth ≠ []) (client : g.loop.clients fd = some c)
    (secure : (g.client fd).secure.isAes = true) {bytes : List Conn} (own : Own c bytes)
    (message : Bytes) : Guarded auth (g.hear auth fd c bytes message) := by
  have confirmed := guarded.confirmed fd c client secure
  have told : Guarded auth { g with log := g.log ++ [.heard c bytes message] } :=
    guarded.record (fun _ served => by cases served)
  have knows := guarded.authorized fd c client
  rw [State.hear]
  cases admitted : (g.client fd).isAuthorized with
  | false =>
    by_cases right : auth = message
    · subst right
      simp only [onMessage, admitted, Bool.not_false, if_true, or_true]
      exact told.change client id (fun _ => confirmed.append _) (fun _ => confirmed.authorized own)
    · simp only [onMessage, admitted, Bool.not_false, if_true, filled, right, or_self, if_false]
      exact told.change client id (fun _ => confirmed.append _)
        (fun admits => by cases admitted.symm.trans admits)
  | true =>
    have authorized : Authorized auth (g.log ++ [.heard c bytes message]) c :=
      (knows admitted).append _
    have same : Guarded auth { g with
        client := update g.client fd (g.client fd)
        log := g.log ++ [.heard c bytes message] } :=
      told.change client id (fun _ => confirmed.append _) (fun _ => authorized)
    simp only [onMessage, admitted, Bool.not_true, Bool.false_eq_true, if_false]
    split_ifs
    · refine ((same.start (fun _ _ => authorized)).record ?_ : _)
      rintro d ⟨⟩
      exact authorized
    · grind [same.listenEvents]
    · exact same

theorem process (filled : auth ≠ []) (client : g.loop.clients fd = some c) {bytes : List Conn}
    (own : Own c bytes) (str : Bytes) :
    Guarded auth (g.process ciphers gost auth fd c bytes str) := by
  rw [State.process]
  simp only [processMessage, if_true]
  cases secure : (g.client fd).secure.isAes with
  | true => exact guarded.hear filled client secure own _
  | false =>
    simp only [Bool.false_eq_true, if_false]
    split_ifs
    · exact guarded.start (fun _ offers => by cases offers)
    · have told : Guarded auth { g with log := g.log ++ [.confirmed c bytes] } :=
        guarded.record (fun _ served => by cases served)
      apply told.change client (fun _ => rfl)
      · exact fun _ => ⟨bytes, own, mem_append_right _ (mem_singleton_self _)⟩
      · exact fun admits => (guarded.authorized fd c client admits).append _
    · exact guarded

theorem take (filled : auth ≠ []) {r : Listen.Responce}
    (found : g.loop.mtActions.lookup fd = some r) (added : Bool) {texts : List Bytes}
    (complete : texts = [] ∨ r.bytes ≠ []) :
    Guarded auth (g.take ciphers gost auth fd r added texts) ∧
      Aside g (g.take ciphers gost auth fd r added texts) := by
  have own {c : Conn} {str : Bytes} (client : g.loop.clients fd = some c) (member : str ∈ texts)
      (open_ : r.status ≠ .remove) : Own c r.bytes := by
    have held := ((guarded.kept fd).handled r found open_).1
    have same : c = r.conn := Option.some.inj
      (((guarded.kept fd).owner c client).symm.trans held.opened)
    refine ⟨?_, fun d inside => (held.bytes d inside).trans same.symm⟩
    rcases complete with rfl | some_
    · cases member
    · exact some_
  apply take_induction (Guarded auth) guarded
  · intro c h str _ client reads member aside before
    exact before.process filled (aside.loop ▸ client) (own client member (by simp [reads])) str
  · intro c h message _ client parsed member aside before
    have secure : (h.client fd).secure.isAes = true := by
      refine (before.splits fd (.inr ⟨r, .inr ?_, parsed⟩)).2
      rw [aside.loop]
      exact found
    exact before.hear filled (aside.loop ▸ client) secure
      (own client member (by simp [parsed])) message

theorem queue (queue : Fd → List Bool) : Guarded auth { g with loop := { g.loop with queue } } :=
  { guarded with kept := fun fd => (guarded.kept fd).quiet rfl rfl rfl rfl rfl rfl rfl id .inl }

theorem pushMessage (fd : Fd) : Guarded auth (g.pushMessage fd) := by
  obtain ⟨queue, same⟩ := g.pushMessage_frame fd
  rw [same]
  exact guarded.queue queue

theorem turn {action : Action} {s' : EventLoop} (taken : g.loop.step action = some s')
    (kept : ∀ fd, Kept s' fd)
    (timely : ∀ fd added, action = .accept fd added → g.toAddEvents.lookup fd = none)
    (established : ∀ fd, action = .act fd true true → (g.client fd).secure.isAes = true) :
    Guarded auth (g.turn action s') := by
  obtain ⟨client, stage, same, accepts, others⟩ := g.turn_frame action s'
  rw [same]
  have quiet (other : ∀ fd, action ≠ .accept fd true) (fd : Fd) : client fd = g.client fd :=
    congrFun (others other) fd
  have removed {fd : Fd} (removes : g.loop.removes action = some fd) (g : Fd) :
      action ≠ .accept g true := by
    rintro rfl
    cases removes
  -- a client is one that was there before, or a new one
  have client_cases {fd : Fd} {c : Conn} (present : s'.clients fd = some c) :
      (g.loop.clients fd = some c ∧ client fd = g.client fd) ∨
        (client fd = {} ∧ g.toAddEvents.lookup fd = none) := by
    cases turnover taken with
    | stays _ other _ _ clients =>
      rw [clients] at present
      exact .inl ⟨present, quiet (fun fd => other fd true) fd⟩
    | closed gone removes _ _ _ clients =>
      rw [clients, update_none_eq_some] at present
      exact .inl ⟨present.2, quiet (removed removes) fd⟩
    | accepted new accept _ _ _ clients =>
      rw [clients, update_some_eq_some] at present
      rw [accepts new accept]
      rcases present with ⟨rfl, -⟩ | ⟨other, before⟩
      · exact .inr ⟨update_self .., timely fd true accept⟩
      · exact .inl ⟨before, update_of_ne other ..⟩
    | leaked new accept _ _ _ _ clients =>
      rw [clients] at present
      exact .inl ⟨present, quiet (fun fd same => by cases accept.symm.trans same) fd⟩
  constructor
  · exact kept
  · intro fd splits
    have before : (g.loop.clients fd).isSome = true ∧ (g.client fd).secure.isAes = true := by
      rcases splits.cases taken with there | ⟨acts, present⟩
      · exact guarded.splits fd there
      · exact ⟨present, established fd acts⟩
    have still (clients : s'.clients fd = g.loop.clients fd) (unchanged : client fd = g.client fd) :
        (s'.clients fd).isSome = true ∧ (client fd).secure.isAes = true := by
      rw [clients, unchanged]
      exact before
    cases turnover taken with
    | stays _ other _ _ clients =>
      exact still (congrFun clients fd) (quiet (fun fd => other fd true) fd)
    | closed gone removes _ _ opened clients encrypted =>
      by_cases here : fd = gone
      · rcases splits.opened (kept fd) with splits | splits
        · rw [encrypted, here, update_self] at splits
          cases splits
        · rw [opened, here, update_self] at splits
          cases splits
      · apply still _ (quiet (removed removes) fd)
        rw [clients, update_of_ne here]
    | accepted new accept free _ _ clients =>
      by_cases here : fd = new
      · obtain ⟨c, present⟩ := Option.isSome_iff_exists.mp before.1
        cases (here ▸ free).symm.trans ((guarded.kept fd).owner c present)
      · apply still
        · rw [clients, update_of_ne here]
        · rw [accepts new accept, update_of_ne here]
    | leaked new accept _ _ _ _ clients =>
      exact still (congrFun clients fd) (quiet (fun fd same => by cases accept.symm.trans same) fd)
  · intro fd c present secure
    rcases client_cases present with ⟨before, unchanged⟩ | ⟨fresh, -⟩
    · exact guarded.confirmed fd c before (unchanged ▸ secure)
    · dsimp only at secure
      rw [fresh] at secure
      cases secure
  · intro fd c present admitted
    rcases client_cases present with ⟨before, unchanged⟩ | ⟨fresh, -⟩
    · exact guarded.authorized fd c before (unchanged ▸ admitted)
    · dsimp only at admitted
      rw [fresh] at admitted
      cases admitted
  · exact guarded.works
  · intro fd c waits present
    rcases client_cases present with ⟨before, -⟩ | ⟨-, empty⟩
    · exact guarded.asked fd c waits before
    · exact absurd empty waits
  · exact guarded.justified

theorem deliver (client : g.loop.clients fd = some c) (item : Item) :
    Guarded auth (g.deliver fd item) := by
  let given : State := { g with
    delivered := (g.receiver fd).elim g.delivered (fun c =>
      update g.delivered c (g.delivered c ++ [item])) }
  have kept : Guarded auth given :=
    guarded.same rfl rfl (fun _ => id) rfl rfl
  rw [State.deliver]
  dsimp only
  split
  · exact kept.change client id (kept.confirmed fd c client) (kept.authorized fd c client)
  · exact kept.pushMessage fd

theorem answer (fd : Fd) (counter : Conn) (items : List Item) :
    Guarded auth (g.answer fd counter items) := by
  rw [State.answer]
  split
  · rename_i client
    have both : Guarded auth (items.foldl (fun g item => g.deliver fd item) g) ∧
        (items.foldl (fun g item => g.deliver fd item) g).loop.clients = g.loop.clients := by
      refine List.foldlRecOn (motive := fun h => Guarded auth h ∧
        h.loop.clients = g.loop.clients) items _ ⟨guarded, rfl⟩ ?_
      rintro h ⟨before, clients⟩ item -
      refine ⟨before.deliver (clients ▸ client) item, ?_⟩
      obtain ⟨queue, changed, delivered, same⟩ := h.deliver_frame fd item
      rw [same]
      exact clients
    exact both.1
  · exact guarded

theorem sendResponses (order : List ((Fd × Conn) × List Item)) :
    Guarded auth (g.sendResponses order) := by
  rw [State.sendResponses]
  refine List.foldlRecOn (motive := Guarded auth) order _ ?_ ?_
  · exact guarded.same rfl rfl (fun _ => id) rfl rfl
  · exact fun h before entry _ => before.answer entry.1.1 entry.1.2 entry.2

theorem register (fd : Fd) (types : Finset Int)
    (serves : ∀ c, g.loop.clients fd = some c → Authorized auth g.log c) :
    Guarded auth (g.register fd types) := by
  rw [State.register]
  split
  · exact guarded
  · rename_i d reaches
    have told : Guarded auth { g with log := g.log ++ [.registered d] } := by
      apply guarded.record
      rintro c ⟨⟩
      apply serves
      rw [State.receiver, Option.ite_none_right_eq_some, Option.isSome_iff_exists] at reaches
      obtain ⟨⟨owner, present⟩, opened⟩ := reaches
      rw [present, ← (guarded.kept fd).owner owner present]
      exact opened
    exact told.same rfl rfl (fun _ => id) rfl rfl

theorem takeListeners {order : List (Fd × Finset Int)} (walks : UMap.Walks g.toAddEvents order) :
    Guarded auth (g.takeListeners order) := by
  have serves :
      ∀ entry ∈ order, ∀ c, g.loop.clients entry.1 = some c → Authorized auth g.log c := by
    intro entry member c client
    apply guarded.asked entry.1 c _ client
    rw [(walks.mem_iff entry.1 entry.2).mp member]
    exact Option.some_ne_none entry.2
  rw [State.takeListeners]
  refine (List.foldlRecOn (motive := fun h => Guarded auth h ∧ h.loop = g.loop ∧
    ∃ more, h.log = g.log ++ more) order _ ?_ ?_).1
  · refine ⟨?_, rfl, [], (append_nil _).symm⟩
    exact { guarded with asked := fun _ _ waits => absurd rfl waits }
  · rintro h ⟨before, loop, more, log⟩ entry member
    refine ⟨before.register entry.1 entry.2 ?_, ?_, ?_⟩
    · intro c client
      rw [log]
      exact (serves entry member c (loop ▸ client)).append more
    · obtain ⟨eventsClients, log', same⟩ := h.register_frame entry.1 entry.2
      rw [same]
      exact loop
    · rw [State.register]
      split
      · exact ⟨more, log⟩
      · exact ⟨_, by rw [log, append_assoc]⟩

theorem step (filled : auth ≠ []) {deed : Deed} (undisturbed : g.Undisturbed ciphers gost auth deed)
    (timely : g.Timely deed) (stepped : g.step ciphers gost auth deed = some g') :
    Guarded auth g' := by
  have kept {action : Action} {s' : EventLoop}
      (acts : g.action? ciphers gost auth deed = some action)
      (taken : g.loop.step action = some s') (fd : Fd) : Kept s' fd := by
    refine (guarded.kept fd).step ?_ taken
    intro after possible t member at_
    exact at_ ▸ undisturbed action acts t member after possible t member rfl
  cases did stepped with
  | loop admits taken =>
    apply guarded.turn taken (kept rfl taken)
    · rintro fd added rfl
      exact timely
    · rintro fd rfl
      cases admits
  | @act fd r added texts heard established s' found complete hears establishes taken =>
    obtain ⟨told, aside⟩ := guarded.take filled found added complete
    rw [hears] at told aside
    have kept : ∀ fd, Kept s' fd := by
      apply kept _ taken
      rw [action?, found, Option.map_some, hears, establishes]
    rw [← aside.loop] at taken
    have turned : Guarded auth (heard.turn (.act fd added established) s') := by
      apply told.turn taken kept
      · rintro other watched ⟨⟩
      · rintro other ⟨⟩
        rw [State.establishes, Bool.and_eq_true] at establishes
        exact establishes.2
    split
    · exact turned.pushMessage fd
    · exact turned
  | takeListeners pushing walks => exact guarded.takeListeners walks
  | @sendEvents order pushing walks =>
    obtain ⟨queue, due, got, same⟩ := g.sendEvents_frame order
    rw [same]
    exact (guarded.queue queue).same rfl rfl (fun _ => id) rfl rfl
  | sendResponses pushing walks => exact guarded.sendResponses _
  | add => exact guarded.same rfl rfl (fun _ => id) rfl rfl
  | @listenEvents place w found kind =>
    apply guarded.listenEvents
    intro d client
    have own : d = w.conn := by
      rcases timely w found with none_ | some_
      · cases none_.symm.trans client
      · exact Option.some.inj (client.symm.trans some_)
    rw [own]
    cases job : w.job with
    | offer str =>
      rw [job] at kind
      cases kind
    | request message =>
      exact guarded.works w (mem_of_getElem? found) message job
  | addEvent => exact guarded.same rfl rfl (fun _ => id) rfl rfl
  | finish => exact guarded.same rfl rfl (fun _ => mem_of_mem_eraseIdx) rfl rfl

end Guarded

/-- Along every run that closes no descriptor under a task, gives no descriptor to a new connection
while a subscription waits for it, and lets no task subscribe a descriptor of another connection:
whatever is done for a connection is done behind its confirmation and its authorization. -/
theorem log_justified (filled : auth ≠ [])
    (reached : Reaches (State.step ciphers gost auth)
      (fun g deed => g.Undisturbed ciphers gost auth deed ∧ g.Timely deed) {} g) :
    Justified auth g.log := by
  have guarded : Guarded auth g := by
    apply reached.invariant (Guarded auth) .begin
    intro h deed h' guarded meets stepped
    exact guarded.step filled meets.1 meets.2 stepped
  exact guarded.justified

/-- A client logs in, and its request for all events becomes a task. -/
def subscriber : List Deed :=
  logsIn 5 [65] ++ reads 5 ++ sends [] [] [] ++ takes 5 [[49, 51, 48, 48, 48, 48, 48]]

/-- The request and the registration stand behind the confirmation and the authorization text. -/
theorem log_justified_sample :
    ∃ g, Reaches (State.step plain false [65])
        (fun g deed => g.Undisturbed plain false [65] deed ∧ g.Timely deed) {} g ∧
      g.log = [.confirmed 1 [1], .heard 1 [1] [65], .heard 1 [1] [49, 51, 48, 48, 48, 48, 48],
        .dispatched 1 [49, 51, 48, 48, 48, 48, 48], .registered 1] ∧
      Justified [65] g.log := by
  refine Reaches.of_runActions_and
    (subscriber ++ ([.listenEvents 0, .finish 0] : List Deed) ++ sends [(5, ∅)] [(5, ∅)] [])
    (by decide +kernel) ?_
  intro g reached _
  exact log_justified (by decide) reached

/-- No descriptor is closed while a task works for its connection. -/
def Attended (ciphers : Ciphers) (gost : Bool) (auth : Bytes) (g : State) (deed : Deed) : Prop :=
  ∀ action ∈ g.action? ciphers gost auth deed, ∀ w ∈ g.works, g.loop.removes action ≠ some w.fd

instance (deed : Deed) : Decidable (g.Attended ciphers gost auth deed) := by
  unfold Attended
  infer_instance

/-- The subscription of a connection waits, and its task has ended. In the next turn the connection
is closed, and another one gets its descriptor before the subscriptions are taken up: it is
registered for events, and nothing was ever heard on it. No descriptor was closed under a task. -/
theorem registers_stranger :
    ∃ g, Reaches (State.step plain false [65])
        (fun g deed => g.Undisturbed plain false [65] deed ∧
          g.Attended plain false [65] deed) {} g ∧
      g.loop.clients 5 = some 2 ∧ .registered 2 ∈ g.log ∧
      (∀ bytes message, .heard 2 bytes message ∉ g.log) ∧ ¬ Justified [65] g.log := by
  obtain ⟨g, reached, client, log⟩ : ∃ g, Reaches (State.step plain false [65])
      (fun g deed => g.Undisturbed plain false [65] deed ∧ g.Attended plain false [65] deed) {} g ∧
      g.loop.clients 5 = some 2 ∧
      g.log = [.confirmed 1 [1], .heard 1 [1] [65], .heard 1 [1] [49, 51, 48, 48, 48, 48, 48],
        .dispatched 1 [49, 51, 48, 48, 48, 48, 48], .registered 2] :=
    Reaches.of_runActions_any
      (subscriber ++ sends [] [] [] ++ ([.listenEvents 0, .finish 0] : List Deed) ++
        accepts 5 [5] ++ sends [(5, ∅)] [(5, ∅)] [])
      (by decide +kernel)
  have silent : ∀ bytes message, .heard 2 bytes message ∉ g.log := by
    grind
  refine ⟨g, reached, client, by simp [log], silent, ?_⟩
  intro justified
  obtain ⟨front, bytes, back, split, -⟩ :=
    justified [.confirmed 1 [1], .heard 1 [1] [65], .heard 1 [1] [49, 51, 48, 48, 48, 48, 48],
      .dispatched 1 [49, 51, 48, 48, 48, 48, 48]] (.registered 2) [] 2 log rfl
  apply silent bytes [65]
  have inside : .heard 2 bytes [65] ∈ front ++ Entry.heard 2 bytes [65] :: back := by simp
  rw [← split] at inside
  rw [log]
  exact mem_append_left [.registered 2] inside

end State

end RssDisk.Network.Gateway
