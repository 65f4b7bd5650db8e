import Mathlib.Data.Finset.Dedup
import RssDisk.EManager
import RssDisk.Network.Connection
import RssDisk.Network.Undisturbed

/-!
# Messages, requests and events

Between the sockets and the work of the server stand `process_message` and `on_message`, which the
event loop calls for the texts of a connection, and `responser`, which takes from the tasks what is
to go back. An offer of a key and a request become tasks of a pool. A task is known by the
descriptor and the number of the connection it works for. It can add responses or a key, ask for
events, and publish events, in any order with the tasks beside it. In each turn the event loop takes
up what was asked for, sends the events that were published, and hands out the responses.

The model goes along with the event loop. It records what was heard on each connection and what
followed from it; what the tasks have added and what each connection was given; and which events
each connection was sent, next to those that its latest subscription stands for.
-/

namespace RssDisk.Network.Gateway

open Lib Listen Function Option

/-- What a task of a pool works on. -/
inductive Job where
  | offer (str : Bytes)
  | request (message : Bytes)
deriving DecidableEq

/-- `queryTypeInt`. -/
def Job.queryType : Job → Int
  | .offer _ => 0
  | .request message => (BasefuncStd.stoi (message.take 2)).getD 0

/-- The types of events that a request asks for. -/
def Job.eventTypes : Job → Finset Int
  | .offer _ => ∅
  | .request message => (EManager.numbersOf (message.drop 7)).tail.toFinset

/-- Only the task of an offer adds a key. -/
def Job.mayAdd : Job → Bool → Bool
  | .offer _, _ => true
  | .request _, isKeyGeneration => !isKeyGeneration

/-- A task of a pool. -/
structure Work where
  number : Nat
  fd : Fd
  /-- `count_accepted_on` of the connection. -/
  conn : Conn
  job : Job

/-- `responser::item::sub`, with the task that has added it and the connection of the task. -/
structure Item where
  work : Nat
  conn : Conn
  str : Bytes
  isCrypted : Bool
  isKeyGeneration : Bool
deriving DecidableEq

structure EventEdb where
  type : Int
  data : Bytes
deriving DecidableEq

/-- What is heard on a connection, and what follows from it. -/
inductive Entry where
  /-- The encryption of a connection is confirmed by bytes of some connections. -/
  | confirmed (c : Conn) (bytes : List Conn)
  /-- A decrypted message of a connection is handed to `on_message`. -/
  | heard (c : Conn) (bytes : List Conn) (message : Bytes)
  | dispatched (c : Conn) (message : Bytes)
  | registered (c : Conn)
deriving DecidableEq

/-- A subscription that was asked for. -/
structure Ask where
  fd : Fd
  conn : Conn
  types : Finset Int
deriving DecidableEq

/-- How far the event loop is in the section that sends. -/
inductive Stage where
  /-- Before `get_new_events_listeners`. -/
  | listeners
  /-- Before `get_events`. -/
  | events
  /-- Before `get_and_clear`. -/
  | responses
  | done
deriving DecidableEq

/-- The event loop, its clients and what the tasks have added. -/
structure State where
  loop : EventLoop := {}
  /-- The entries of `authorized_clients`. -/
  client : Fd → SocketClient := fun _ => {}
  works : List Work := []
  started : Nat := 0
  /-- `r` of `responser`. -/
  responses : UMap (Fd × Conn) (List Item) := ∅
  /-- `to_add_events_fd` of `responser`. -/
  toAddEvents : UMap Fd (Finset Int) := ∅
  /-- `events` of `responser`. -/
  events : List EventEdb := []
  eventsClients : UMap Fd (Finset Int) := ∅
  stage : Stage := .listeners
  home : Conn → Option Fd := fun _ => none
  log : List Entry := []
  produced : List Item := []
  delivered : Conn → List Item := fun _ => []
  /-- The subscriptions that were asked for and not taken up yet. -/
  asked : List Ask := []
  /-- The latest subscription of each connection that was taken up. -/
  subscribed : Conn → Option (Finset Int) := fun _ => none
  /-- The events that each connection was to be sent by its subscription. -/
  due : Conn → List EventEdb := fun _ => []
  got : Conn → List EventEdb := fun _ => []

/-- Whether a subscription covers an event. -/
def covers (types : Finset Int) (ev : EventEdb) : Bool :=
  types = ∅ ∨ ev.type ∈ types

/-- What the loop, the kernel and the pools can do. -/
inductive Deed where
  /-- A step of the event loop, or of a task that reads or writes. -/
  | loop (action : Action)
  /-- A result is handled, with the texts that its bytes complete. -/
  | act (fd : Fd) (added : Bool) (texts : List Bytes)
  /-- `get_new_events_listeners`; what it returns is walked in an order. -/
  | takeListeners (order : List (Fd × Finset Int))
  /-- `get_events`; `events_clients` is walked in an order. -/
  | sendEvents (order : List (Fd × Finset Int))
  /-- `get_and_clear`; what it returns is walked in an order. -/
  | sendResponses (order : List ((Fd × Conn) × List Item))
  | add (place : Nat) (str : Bytes) (isCrypted isKeyGeneration : Bool)
  | listenEvents (place : Nat)
  | addEvent (place : Nat) (ev : EventEdb)
  | finish (place : Nat)

namespace State

/-- A task is given to a pool. -/
def start (g : State) (fd : Fd) (c : Conn) (job : Job) : State :=
  { g with works := g.works ++ [⟨g.started, fd, c, job⟩], started := g.started + 1 }

def listenEvents (g : State) (fd : Fd) (c : Conn) (types : Finset Int) : State :=
  { g with
    toAddEvents := UMap.emplace g.toAddEvents fd types, asked := g.asked ++ [⟨fd, c, types⟩] }

/-- `on_message` for a message of the client of a descriptor. -/
def hear (auth : Bytes) (fd : Fd) (c : Conn) (bytes : List Conn) (g : State) (message : Bytes) :
    State :=
  let heard := onMessage auth (g.client fd) message
  let g := { g with
    client := update g.client fd heard.1, log := g.log ++ [.heard c bytes message] }
  match heard.2 with
  | .task message =>
    { g.start fd c (.request message) with log := g.log ++ [.dispatched c message] }
  | .listens => g.listenEvents fd c ∅
  | _ => g

variable (ciphers : Ciphers) (gost : Bool) (auth : Bytes)

/-- `process_message` for a text of the client of a descriptor; the server is started with
`is_aes`. -/
def process (fd : Fd) (c : Conn) (bytes : List Conn) (g : State) (str : Bytes) : State :=
  let processed := processMessage ciphers ⟨true, gost, auth⟩ (g.client fd) str
  match processed.2 with
  | .offered str => g.start fd c (.offer str)
  | .confirmed =>
    { g with client := update g.client fd processed.1, log := g.log ++ [.confirmed c bytes] }
  | .unconfirmed => g
  | .handed message => g.hear auth fd c bytes message

/-- The texts of a result: they reach the client when the descriptor could be watched again. -/
def take (g : State) (fd : Fd) (r : Listen.Responce) (added : Bool) (texts : List Bytes) : State :=
  match (if added then g.loop.clients fd else none), r.status with
  | some c, .okRead => texts.foldl (process ciphers gost auth fd c r.bytes) g
  | some c, .okParsed => texts.foldl (hear auth fd c r.bytes) g
  | _, _ => g

def pushMessage (g : State) (fd : Fd) : State :=
  { g with loop := (g.loop.step (.push fd)).getD g.loop }

/-- The connection that `push_message` reaches. -/
def receiver (g : State) (fd : Fd) : Option Conn :=
  if (g.loop.clients fd).isSome then g.loop.opened fd else none

def live (g : State) (c : Conn) : Bool :=
  (g.home c).any (fun fd => g.loop.opened fd = some c)

/-- A subscription is taken up when its descriptor has a client. -/
def register (g : State) (fd : Fd) (types : Finset Int) : State :=
  match g.receiver fd with
  | none => g
  | some c =>
    { g with
      eventsClients := UMap.emplace g.eventsClients fd types, log := g.log ++ [.registered c] }

/-- `get_new_events_listeners` and the loop behind it. -/
def takeListeners (g : State) (order : List (Fd × Finset Int)) : State :=
  order.foldl (fun g entry => g.register entry.1 entry.2) { g with
    toAddEvents := ∅, stage := .events, asked := []
    subscribed := g.asked.foldl (fun s ask => update s ask.conn (some ask.types)) g.subscribed }

/-- An event is sent to a descriptor that is registered. -/
def sendEvent (g : State) (ev : EventEdb) (fd : Fd) (types : Finset Int) : State :=
  if covers types ev then
    { g.pushMessage fd with
      got := (g.receiver fd).elim g.got (fun c => update g.got c (g.got c ++ [ev])) }
  else g

/-- `get_events` and the loops behind it. -/
def sendEvents (g : State) (order : List (Fd × Finset Int)) : State :=
  g.events.foldl (fun g ev =>
    order.foldl (fun g entry => g.sendEvent ev entry.1 entry.2) g) { g with
    events := [], stage := .responses
    due := fun c => g.due c ++ if g.live c then
      g.events.filter (fun ev => (g.subscribed c).any (fun types => covers types ev)) else [] }

/-- A response goes to the client of a descriptor, or a key is set for it. -/
def deliver (g : State) (fd : Fd) (item : Item) : State :=
  let g := { g with
    delivered := (g.receiver fd).elim g.delivered (fun c =>
      update g.delivered c (g.delivered c ++ [item])) }
  if item.isKeyGeneration then
    { g with client := update g.client fd { g.client fd with
        secure := (g.client fd).secure.withKey item.str } }
  else g.pushMessage fd

/-- The responses of one connection, when it still has its descriptor. -/
def answer (g : State) (fd : Fd) (counter : Conn) (items : List Item) : State :=
  if g.loop.clients fd = some counter then items.foldl (fun g item => g.deliver fd item) g else g

/-- `get_and_clear` and the loops behind it. -/
def sendResponses (g : State) (order : List ((Fd × Conn) × List Item)) : State :=
  order.foldl (fun g entry => g.answer entry.1.1 entry.1.2 entry.2) { g with
    responses := ∅, stage := .done }

/-- The steps of the event loop that are possible with these clients. -/
def admits (g : State) : Action → Bool
  | .act _ _ _ => false
  | .authorized fd => (g.loop.clients fd).isSome && (g.client fd).isAuthorized
  | .kick fd => !((g.loop.clients fd).isSome && (g.client fd).isAuthorized)
  | .proceed => g.loop.phase ≠ .pushing ∨ g.stage = .done
  | _ => true

/-- What a step of the event loop does to the clients. -/
def follow (g : State) : Action → State
  | .accept fd true => { g with client := update g.client fd {} }
  | .proceed => { g with stage := .listeners }
  | _ => g

/-- `remove` erases the subscription of a descriptor. -/
def clear (g : State) : Option Fd → State
  | some fd => { g with eventsClients := g.eventsClients.erase fd }
  | none => g

/-- The state behind a step of the event loop. -/
def turn (g : State) (action : Action) (loop : EventLoop) : State :=
  { (g.follow action).clear (g.loop.removes action) with
    loop, home := g.loop.homes g.home action }

/-- Whether the texts of a result have confirmed the encryption. -/
def establishes (g heard : State) (fd : Fd) : Bool :=
  !(g.client fd).secure.isAes && (heard.client fd).secure.isAes

def step (g : State) : Deed → Option State
  | .loop action => if g.admits action then (g.loop.step action).map (g.turn action) else none
  | .act fd added texts =>
    match g.loop.mtActions.lookup fd with
    | none => none
    | some r =>
      -- a text is complete only behind a byte that was read
      if texts = [] ∨ r.bytes ≠ [] then
        let heard := g.take ciphers gost auth fd r added texts
        let established := g.establishes heard fd
        (g.loop.step (.act fd added established)).map (fun loop =>
          let g' := heard.turn (.act fd added established) loop
          -- the confirmation is answered
          if established then g'.pushMessage fd else g')
      else none
  | .takeListeners order =>
    if g.loop.phase = .pushing ∧ g.stage = .listeners ∧ UMap.Walks g.toAddEvents order then
      some (g.takeListeners order)
    else none
  | .sendEvents order =>
    if g.loop.phase = .pushing ∧ g.stage = .events ∧ UMap.Walks g.eventsClients order then
      some (g.sendEvents order)
    else none
  | .sendResponses order =>
    if g.loop.phase = .pushing ∧ g.stage = .responses ∧ UMap.Walks g.responses order then
      some (g.sendResponses order)
    else none
  | .add place str isCrypted isKeyGeneration =>
    match g.works[place]? with
    | none => none
    | some w =>
      if w.job.mayAdd isKeyGeneration then
        let item : Item := ⟨w.number, w.conn, str, isCrypted, isKeyGeneration⟩
        some { g with
          responses := g.responses.insert (w.fd, w.conn)
            ((g.responses.lookup (w.fd, w.conn)).getD [] ++ [item])
          produced := g.produced ++ [item] }
      else none
  | .listenEvents place =>
    match g.works[place]? with
    | none => none
    | some w =>
      if w.job.queryType = 13 then some (g.listenEvents w.fd w.conn w.job.eventTypes) else none
  | .addEvent place ev =>
    match g.works[place]? with
    | none => none
    | some w =>
      if w.job.queryType = 12 ∨ w.job.queryType = 22 then
        some { g with events := g.events ++ [ev] }
      else none
  | .finish place =>
    match g.works[place]? with
    | none => none
    | some _ => some { g with works := g.works.eraseIdx place }

/-- The step of the event loop in a step. -/
def action? (g : State) : Deed → Option Action
  | .loop action => some action
  | .act fd added texts =>
    (g.loop.mtActions.lookup fd).map (fun r =>
      .act fd added (g.establishes (g.take ciphers gost auth fd r added texts) fd))
  | _ => none

/-- Steps behind which what waits for a descriptor comes from its present connection: a descriptor
is not given to a new connection while a subscription is waiting for it, and a task does not ask for
events when another connection has its descriptor. -/
def Timely (g : State) : Deed → Prop
  | .loop (.accept fd _) => g.toAddEvents.lookup fd = none
  | .listenEvents place =>
    ∀ w ∈ g.works[place]?, g.loop.clients w.fd = none ∨ g.loop.clients w.fd = some w.conn
  | _ => True

instance (g : State) (deed : Deed) : Decidable (g.Timely deed) := by
  unfold Timely
  split <;> infer_instance

/-- Every step, read backwards. -/
inductive Did (g : State) : Deed → State → Prop
  | loop {action : Action} {s' : EventLoop} (admits : g.admits action = true)
      (taken : g.loop.step action = some s') : Did g (.loop action) (g.turn action s')
  | act {fd : Fd} {r : Listen.Responce} {added : Bool} {texts : List Bytes} {heard : State}
      {established : Bool} {s' : EventLoop} (found : g.loop.mtActions.lookup fd = some r)
      (complete : texts = [] ∨ r.bytes ≠ [])
      (hears : g.take ciphers gost auth fd r added texts = heard)
      (establishes : g.establishes heard fd = established)
      (taken : g.loop.step (.act fd added established) = some s') :
      Did g (.act fd added texts)
        (if established then (heard.turn (.act fd added established) s').pushMessage fd
        else heard.turn (.act fd added established) s')
  | takeListeners {order : List (Fd × Finset Int)} (pushing : g.loop.phase = .pushing)
      (walks : UMap.Walks g.toAddEvents order) :
      Did g (.takeListeners order) (g.takeListeners order)
  | sendEvents {order : List (Fd × Finset Int)} (pushing : g.loop.phase = .pushing)
      (walks : UMap.Walks g.eventsClients order) : Did g (.sendEvents order) (g.sendEvents order)
  | sendResponses {order : List ((Fd × Conn) × List Item)} (pushing : g.loop.phase = .pushing)
      (walks : UMap.Walks g.responses order) :
      Did g (.sendResponses order) (g.sendResponses order)
  | add {place : Nat} {w : Work} {item : Item} (found : g.works[place]? = some w)
      (origin : item.conn = w.conn) :
      Did g (.add place item.str item.isCrypted item.isKeyGeneration)
        { g with
          responses := g.responses.insert (w.fd, w.conn)
            ((g.responses.lookup (w.fd, w.conn)).getD [] ++ [item])
          produced := g.produced ++ [item] }
  | listenEvents {place : Nat} {w : Work} (found : g.works[place]? = some w)
      (kind : w.job.queryType = 13) :
      Did g (.listenEvents place) (g.listenEvents w.fd w.conn w.job.eventTypes)
  | addEvent {place : Nat} {ev : EventEdb} :
      Did g (.addEvent place ev) { g with events := g.events ++ [ev] }
  | finish {place : Nat} : Did g (.finish place) { g with works := g.works.eraseIdx place }

variable {ciphers gost auth} {g g' : State} {deed : Deed}

theorem did (stepped : g.step ciphers gost auth deed = some g') :
    Did ciphers gost auth g deed g' := by
  cases deed with
  | loop action =>
    simp only [step, ite_none_right_eq_some, map_eq_some_iff] at stepped
    obtain ⟨admits, s', taken, rfl⟩ := stepped
    exact .loop admits taken
  | act fd added texts =>
    simp only [step] at stepped
    split at stepped
    · cases stepped
    · rename_i r found
      simp only [ite_none_right_eq_some, map_eq_some_iff] at stepped
      obtain ⟨complete, s', taken, rfl⟩ := stepped
      exact .act found complete rfl rfl taken
  | takeListeners order =>
    simp only [step, ite_none_right_eq_some, Option.some.injEq] at stepped
    obtain ⟨⟨pushing, -, walks⟩, rfl⟩ := stepped
    exact .takeListeners pushing walks
  | sendEvents order =>
    simp only [step, ite_none_right_eq_some, Option.some.injEq] at stepped
    obtain ⟨⟨pushing, -, walks⟩, rfl⟩ := stepped
    exact .sendEvents pushing walks
  | sendResponses order =>
    simp only [step, ite_none_right_eq_some, Option.some.injEq] at stepped
    obtain ⟨⟨pushing, -, walks⟩, rfl⟩ := stepped
    exact .sendResponses pushing walks
  | add place str isCrypted isKeyGeneration =>
    simp only [step] at stepped
    split at stepped
    · cases stepped
    · rename_i w found
      simp only [ite_none_right_eq_some, Option.some.injEq] at stepped
      obtain ⟨-, rfl⟩ := stepped
      exact @Did.add _ _ _ _ place w ⟨w.number, w.conn, str, isCrypted, isKeyGeneration⟩ found rfl
  | listenEvents place =>
    simp only [step] at stepped
    split at stepped
    · cases stepped
    · rename_i w found
      simp only [ite_none_right_eq_some, Option.some.injEq] at stepped
      obtain ⟨kind, rfl⟩ := stepped
      exact .listenEvents found kind
  | addEvent place ev =>
    simp only [step] at stepped
    split at stepped
    · cases stepped
    · simp only [ite_none_right_eq_some, Option.some.injEq] at stepped
      obtain ⟨-, rfl⟩ := stepped
      exact .addEvent
  | finish place =>
    simp only [step] at stepped
    split at stepped
    · cases stepped
    · cases stepped
      exact .finish

theorem pushMessage_frame (g : State) (fd : Fd) :
    ∃ queue, g.pushMessage fd = { g with loop := { g.loop with queue } } := by
  rw [pushMessage]
  cases pushed : g.loop.step (.push fd) with
  | none => exact ⟨g.loop.queue, rfl⟩
  | some s' =>
    cases EventLoop.took pushed with
    | push => exact ⟨_, rfl⟩

/-- What the texts of a connection leave as it is: everything but clients, tasks, what is asked for
and the record of it. -/
structure Aside (g g' : State) : Prop where
  loop : g'.loop = g.loop
  home : g'.home = g.home
  responses : g'.responses = g.responses
  events : g'.events = g.events
  eventsClients : g'.eventsClients = g.eventsClients
  produced : g'.produced = g.produced
  delivered : g'.delivered = g.delivered
  subscribed : g'.subscribed = g.subscribed
  due : g'.due = g.due
  got : g'.got = g.got

theorem Aside.trans {g'' : State} (first : Aside g g') (second : Aside g' g'') : Aside g g'' where
  loop := second.loop.trans first.loop
  home := second.home.trans first.home
  responses := second.responses.trans first.responses
  events := second.events.trans first.events
  eventsClients := second.eventsClients.trans first.eventsClients
  produced := second.produced.trans first.produced
  delivered := second.delivered.trans first.delivered
  subscribed := second.subscribed.trans first.subscribed
  due := second.due.trans first.due
  got := second.got.trans first.got

theorem Aside.refl (g : State) : Aside g g := by
  constructor <;> rfl

theorem hear_aside (fd : Fd) (c : Conn) (bytes : List Conn) (g : State) (message : Bytes) :
    Aside g (g.hear auth fd c bytes message) := by
  rw [hear]
  dsimp only
  split <;> constructor <;> rfl

theorem process_aside (fd : Fd) (c : Conn) (bytes : List Conn) (g : State) (str : Bytes) :
    Aside g (g.process ciphers gost auth fd c bytes str) := by
  rw [process]
  split
  · constructor <;> rfl
  · constructor <;> rfl
  · exact .refl g
  · exact hear_aside fd c bytes g _

theorem take_induction (kept : State → Prop) {fd : Fd} {r : Listen.Responce} {added : Bool}
    {texts : List Bytes} (initial : kept g)
    (processes : ∀ c h str, added = true → g.loop.clients fd = some c → r.status = .okRead →
      str ∈ texts → Aside g h → kept h → kept (h.process ciphers gost auth fd c r.bytes str))
    (hears : ∀ c h message, added = true → g.loop.clients fd = some c → r.status = .okParsed →
      message ∈ texts → Aside g h → kept h → kept (h.hear auth fd c r.bytes message)) :
    kept (g.take ciphers gost auth fd r added texts) ∧
      Aside g (g.take ciphers gost auth fd r added texts) := by
  have fold (step : State → Bytes → State) (aside : ∀ h text, Aside h (step h text))
      (steps : ∀ h, ∀ text ∈ texts, Aside g h → kept h → kept (step h text)) :
      kept (texts.foldl step g) ∧ Aside g (texts.foldl step g) := by
    refine List.foldlRecOn (motive := fun h => kept h ∧ Aside g h) texts step
      ⟨initial, .refl g⟩ ?_
    intro h before text member
    exact ⟨steps h text member before.2 before.1, before.2.trans (aside h text)⟩
  rw [take]
  split
  · rename_i c found reads
    have client : added = true ∧ g.loop.clients fd = some c := by
      simpa [ite_none_right_eq_some] using found
    exact fold _ (process_aside fd c r.bytes) (fun h text member aside before =>
      processes c h text client.1 client.2 reads member aside before)
  · rename_i c found parsed
    have client : added = true ∧ g.loop.clients fd = some c := by
      simpa [ite_none_right_eq_some] using found
    exact fold _ (hear_aside fd c r.bytes) (fun h text member aside before =>
      hears c h text client.1 client.2 parsed member aside before)
  · exact ⟨initial, .refl g⟩

theorem turn_frame (g : State) (action : Action) (s' : EventLoop) :
    ∃ client stage, g.turn action s' =
      { g with
        loop := s', home := g.loop.homes g.home action, client, stage
        eventsClients :=
          (g.loop.removes action).elim g.eventsClients (fun fd => g.eventsClients.erase fd) } ∧
      (∀ fd, action = .accept fd true → client = update g.client fd {}) ∧
        ((∀ fd, action ≠ .accept fd true) → client = g.client) := by
  have follow : ∃ client stage, g.follow action = { g with client, stage } ∧
      (∀ fd, action = .accept fd true → client = update g.client fd {}) ∧
        ((∀ fd, action ≠ .accept fd true) → client = g.client) := by
    unfold follow
    split
    · refine ⟨_, _, rfl, ?_, fun other => absurd rfl (other _)⟩
      rintro fd ⟨⟩
      rfl
    · exact ⟨_, _, rfl, by simp, fun _ => rfl⟩
    · grind
  obtain ⟨client, stage, same, accepts, others⟩ := follow
  refine ⟨client, stage, ?_, accepts, others⟩
  rw [turn, same]
  cases g.loop.removes action with
  | none => rfl
  | some fd => rfl

theorem register_frame (g : State) (fd : Fd) (types : Finset Int) :
    ∃ eventsClients log, g.register fd types = { g with eventsClients, log } := by
  rw [register]
  split
  · exact ⟨_, _, rfl⟩
  · exact ⟨_, _, rfl⟩

theorem takeListeners_frame (g : State) (order : List (Fd × Finset Int)) :
    ∃ eventsClients log, g.takeListeners order =
      { g with
        toAddEvents := ∅, stage := .events, asked := [], eventsClients, log
        subscribed := g.asked.foldl (fun s (ask : Ask) => update s ask.conn (some ask.types))
          g.subscribed } := by
  rw [takeListeners]
  refine List.foldlRecOn (motive := fun h => ∃ eventsClients log, h =
    { g with
      toAddEvents := ∅, stage := .events, asked := [], eventsClients, log
      subscribed := g.asked.foldl (fun s (ask : Ask) => update s ask.conn (some ask.types))
        g.subscribed }) order _ ?_ ?_
  · exact ⟨_, _, rfl⟩
  · rintro h ⟨eventsClients, log, rfl⟩ entry -
    obtain ⟨eventsClients', log', same⟩ := register_frame { g with
      toAddEvents := ∅, stage := .events, asked := [], eventsClients, log
      subscribed := g.asked.foldl (fun s (ask : Ask) => update s ask.conn (some ask.types))
        g.subscribed } entry.1 entry.2
    exact ⟨eventsClients', log', same⟩

theorem sendEvent_frame (g : State) (ev : EventEdb) (fd : Fd) (types : Finset Int) :
    ∃ queue got, g.sendEvent ev fd types = { g with loop := { g.loop with queue }, got } := by
  rw [sendEvent]
  split
  · obtain ⟨queue, same⟩ := g.pushMessage_frame fd
    grind
  · exact ⟨g.loop.queue, g.got, rfl⟩

theorem sendEvent_got (g : State) (ev : EventEdb) (fd : Fd) (types : Finset Int) (c : Conn) :
    (g.sendEvent ev fd types).got c =
      g.got c ++ if g.receiver fd = some c ∧ covers types ev = true then [ev] else [] := by
  rw [sendEvent]
  by_cases covered : covers types ev = true
  · rw [if_pos covered]
    dsimp only
    cases g.receiver fd with
    | none => simp
    | some d =>
      by_cases same : c = d
      · subst same
        simp [covered]
      · simp [update_of_ne same, Ne.symm same]
  · grind

theorem foldl_sendEvents (g : State) (events : List EventEdb) (order : List (Fd × Finset Int)) :
    (∃ queue got, events.foldl (fun g ev =>
        order.foldl (fun g entry => g.sendEvent ev entry.1 entry.2) g) g =
        { g with loop := { g.loop with queue }, got }) ∧
      ∀ c, (events.foldl (fun g ev =>
        order.foldl (fun g entry => g.sendEvent ev entry.1 entry.2) g) g).got c =
        g.got c ++ events.flatMap (fun ev => order.flatMap (fun entry =>
          if g.receiver entry.1 = some c ∧ covers entry.2 ev = true then [ev] else [])) := by
  let frame (g h : State) := ∃ queue got, h = { g with loop := { g.loop with queue }, got }
  have refl (g : State) : frame g g := ⟨g.loop.queue, g.got, rfl⟩
  have trans {g h k : State} : frame g h → frame h k → frame g k := by
    grind
  refine foldl_log got (fun g ev c => order.flatMap (fun entry =>
    if g.receiver entry.1 = some c ∧ covers entry.2 ev = true then [ev] else [])) refl trans
    (fun g ev => ?_) ?_ g events
  · refine foldl_log got (fun g entry c =>
      if g.receiver entry.1 = some c ∧ covers entry.2 ev = true then [ev] else []) refl trans
      (fun g entry => ?_) ?_ g order
    · exact ⟨g.sendEvent_frame ev entry.1 entry.2, g.sendEvent_got ev entry.1 entry.2⟩
    · rintro _ _ ⟨_, _, rfl⟩
      rfl
  · rintro _ _ ⟨_, _, rfl⟩
    rfl

theorem sendEvents_frame (g : State) (order : List (Fd × Finset Int)) :
    ∃ queue due got, g.sendEvents order =
      { g with
        loop := { g.loop with queue }, events := [], stage := .responses, due, got } := by
  obtain ⟨⟨queue, got, same⟩, -⟩ := foldl_sendEvents _ g.events order
  exact ⟨queue, _, got, same⟩

theorem deliver_frame (g : State) (fd : Fd) (item : Item) :
    ∃ queue client delivered,
      g.deliver fd item = { g with loop := { g.loop with queue }, client, delivered } := by
  rw [deliver]
  dsimp only
  split
  · exact ⟨g.loop.queue, _, _, rfl⟩
  · obtain ⟨queue, same⟩ := pushMessage_frame { g with
      delivered := (g.receiver fd).elim g.delivered (fun c =>
        update g.delivered c (g.delivered c ++ [item])) } fd
    rw [same]
    exact ⟨queue, _, _, rfl⟩

end State

/-- The end of a turn that sends what is walked here. -/
def sends (listeners subscribers : List (Fd × Finset Int))
    (responses : List ((Fd × Conn) × List Item)) : List Deed :=
  [.takeListeners listeners, .sendEvents subscribers, .sendResponses responses] ++
    List.map Deed.loop [.proceed, .proceed, .proceed, .proceed]

/-- The beginning of a turn in which a connection is accepted, behind the end of another one. -/
def accepts (fd : Fd) (closed : List Fd) : List Deed :=
  List.map Deed.loop ([.epollWait (closed.map (Event.client · true false false) ++ [.listening]),
    .getActions, .proceed, .proceed] ++ closed.map (fun _ => .hangup) ++
    [.accept fd true, .accepted, .proceed])

/-- The beginning of a turn that starts to read. -/
def reads (fd : Fd) : List Deed :=
  List.map Deed.loop [.epollWait [.client fd false true false], .getActions, .proceed, .proceed,
    .readable true true, .proceed, .proceed]

/-- The beginning of a turn that takes texts, behind the task that has read them. -/
def takes (fd : Fd) (texts : List Bytes) : List Deed :=
  List.map Deed.loop [.taskRead 0, .taskFinish 0 .okRead false, .epollWait [], .getActions] ++
    ([.act fd true texts] : List Deed) ++
    List.map Deed.loop [.proceed, .peek fd false false, .proceed, .proceed]

/-- The beginning of a turn without events. -/
def wakes : List Deed :=
  List.map Deed.loop [.epollWait [], .getActions, .proceed, .proceed, .proceed]

/-- The end of a turn that sends what is walked here to one client, and the beginning of the next
one, in which its task has written all. -/
def writes (fd : Fd) (responses : List ((Fd × Conn) × List Item)) : List Deed :=
  [.takeListeners [], .sendEvents [], .sendResponses responses] ++
    List.map Deed.loop [.proceed, .proceed, .write fd 3 true, .proceed, .proceed,
      .taskFinish 0 .ok false, .epollWait [], .getActions] ++
    ([.act fd true []] : List Deed) ++
    List.map Deed.loop [.proceed, .peek fd false false, .proceed, .proceed]

/-- A client connects and agrees on a key. It confirms the encryption, and sends the authorization
text. -/
def logsIn (fd : Fd) (auth : Bytes) : List Deed :=
  accepts fd [] ++ sends [] [] [] ++ reads fd ++ sends [] [] [] ++ takes fd [[1]] ++
    sends [] [] [] ++
    ([.add 0 [10] false true, .add 0 [11] false false, .finish 0] : List Deed) ++ wakes ++
    writes fd [((fd, 1), [⟨0, 1, [10], false, true⟩, ⟨0, 1, [11], false, false⟩])] ++
    sends [] [] [] ++ reads fd ++ sends [] [] [] ++ takes fd [okAes] ++ writes fd [] ++
    sends [] [] [] ++ reads fd ++ sends [] [] [] ++ takes fd [auth] ++ sends [] [] []

end RssDisk.Network.Gateway
