import RssDisk.Network.Responses

/-!
# Events reach those who asked for them

A subscription is asked for by a task, or by a short message, and waits under its descriptor until
the event loop takes it up. What waits for a descriptor, and what is registered for it, is never
replaced.
-/

namespace RssDisk.Network.Gateway

open Lib Listen Function List Option

namespace State

variable {ciphers : Ciphers} {gost : Bool} {auth : Bytes} {g g' : State} {fd : Fd} {c : Conn}

/-- What waits for a descriptor, and what is registered for it, has these types. -/
def Agrees (g : State) (fd : Fd) (types : Finset Int) : Prop :=
  (∀ waiting ∈ g.toAddEvents.lookup fd, waiting = types) ∧
    ∀ registered ∈ g.eventsClients.lookup fd, registered = types

instance (types : Finset Int) : Decidable (g.Agrees fd types) := by
  unfold Agrees
  infer_instance

/-- Steps in which no connection asks for other types than its subscription has. -/
def Steady (ciphers : Ciphers) (gost : Bool) (auth : Bytes) (g : State) : Deed → Prop
  | .act fd added texts =>
    ∀ r ∈ g.loop.mtActions.lookup fd,
      (g.take ciphers gost auth fd r added texts).asked = g.asked ∨ g.Agrees fd ∅
  | .listenEvents place => ∀ w ∈ g.works[place]?, g.Agrees w.fd w.job.eventTypes
  | _ => True

instance (deed : Deed) : Decidable (g.Steady ciphers gost auth deed) :=
  match deed with
  | .act fd added texts =>
    inferInstanceAs (Decidable (∀ r ∈ g.loop.mtActions.lookup fd,
      (g.take ciphers gost auth fd r added texts).asked = g.asked ∨ g.Agrees fd ∅))
  | .listenEvents place =>
    inferInstanceAs (Decidable (∀ w ∈ g.works[place]?, g.Agrees w.fd w.job.eventTypes))
  | .loop _ | .takeListeners _ | .sendEvents _ | .sendResponses _ | .add .. | .addEvent ..
  | .finish _ => inferInstanceAs (Decidable True)

/-- What holds of the subscriptions. -/
structure Informed (g : State) : Prop where
  /-- The client of a descriptor is registered for its latest subscription. -/
  registered : ∀ fd, g.eventsClients.lookup fd = (g.loop.clients fd).bind g.subscribed
  waits : ∀ ask ∈ g.asked, g.toAddEvents.lookup ask.fd = some ask.types
  asker : ∀ ask ∈ g.asked, g.home ask.conn = some ask.fd
  alone : ∀ ask ∈ g.asked, ∀ c, g.loop.clients ask.fd = some c → c = ask.conn
  agrees : ∀ ask ∈ g.asked, ∀ types, g.eventsClients.lookup ask.fd = some types →
    types = ask.types
  source : ∀ fd, g.toAddEvents.lookup fd ≠ none → ∃ ask ∈ g.asked, ask.fd = fd
  unknown : ∀ c, g.home c = none → g.subscribed c = none
  sent : ∀ c, g.got c = g.due c
  never : ∀ c, g.subscribed c = none → g.due c = []

namespace Informed

theorem begin : Informed {} where
  registered := fun _ => rfl
  waits := fun _ member => by cases member
  asker := fun _ member => by cases member
  alone := fun _ member => by cases member
  agrees := fun _ member => by cases member
  source := fun _ waits => absurd rfl waits
  unknown := fun _ _ => rfl
  sent := fun _ => rfl
  never := fun _ _ => rfl

theorem same (informed : g.Informed) (clients : g'.loop.clients = g.loop.clients)
    (home : g'.home = g.home) (toAddEvents : g'.toAddEvents = g.toAddEvents)
    (eventsClients : g'.eventsClients = g.eventsClients) (asked : g'.asked = g.asked)
    (subscribed : g'.subscribed = g.subscribed) (due : g'.due = g.due) (got : g'.got = g.got) :
    g'.Informed := by
  constructor
  · rw [eventsClients, clients, subscribed]
    exact informed.registered
  · rw [asked, toAddEvents]
    exact informed.waits
  · rw [asked, home]
    exact informed.asker
  · rw [asked, clients]
    exact informed.alone
  · rw [asked, eventsClients]
    exact informed.agrees
  · rw [asked, toAddEvents]
    exact informed.source
  · rw [home, subscribed]
    exact informed.unknown
  · rw [got, due]
    exact informed.sent
  · rw [subscribed, due]
    exact informed.never

theorem listenEvents (informed : g.Informed) (home : g.home c = some fd)
    (alone : ∀ d, g.loop.clients fd = some d → d = c) {types : Finset Int}
    (agrees : g.Agrees fd types) : (g.listenEvents fd c types).Informed := by
  have lookup (other : Fd) : (UMap.emplace g.toAddEvents fd types).lookup other =
      if other = fd then some types else g.toAddEvents.lookup other := by
    rw [UMap.lookup_emplace]
    split
    · rename_i same
      subst same
      cases found : g.toAddEvents.lookup other with
      | none => rfl
      | some waiting => rw [agrees.1 waiting found, getD_some]
    · rfl
  have cases_ {ask : Ask} (member : ask ∈ g.asked ++ [⟨fd, c, types⟩]) :
      ask ∈ g.asked ∨ ask = ⟨fd, c, types⟩ := by
    simpa using member
  constructor
  · exact informed.registered
  · intro ask member
    show (UMap.emplace g.toAddEvents fd types).lookup ask.fd = some ask.types
    rw [lookup]
    rcases cases_ member with before | rfl
    · split
      · rename_i same
        have waits := informed.waits ask before
        rw [same] at waits
        rw [agrees.1 ask.types waits]
      · exact informed.waits ask before
    · exact if_pos rfl
  · intro ask member
    rcases cases_ member with before | rfl
    · exact informed.asker ask before
    · exact home
  · intro ask member
    rcases cases_ member with before | rfl
    · exact informed.alone ask before
    · exact alone
  · intro ask member
    rcases cases_ member with before | rfl
    · exact informed.agrees ask before
    · exact agrees.2
  · intro other waits
    have waits : (UMap.emplace g.toAddEvents fd types).lookup other ≠ none := waits
    rw [lookup] at waits
    split at waits
    · rename_i same
      exact ⟨⟨fd, c, types⟩, mem_append_right _ (mem_singleton_self _), same.symm⟩
    · obtain ⟨ask, member, at_⟩ := informed.source other waits
      exact ⟨ask, mem_append_left _ member, at_⟩
  · exact informed.unknown
  · exact informed.sent
  · exact informed.never

theorem agrees_listenEvents {types : Finset Int} (agrees : g.Agrees fd types) :
    (g.listenEvents fd c types).Agrees fd types := by
  refine ⟨?_, agrees.2⟩
  intro waiting found
  have found : (UMap.emplace g.toAddEvents fd types).lookup fd = some waiting := found
  rw [UMap.lookup_emplace, if_pos rfl] at found
  cases before : g.toAddEvents.lookup fd with
  | none =>
    rw [before] at found
    exact (Option.some.inj found).symm
  | some earlier =>
    rw [before] at found
    exact (Option.some.inj found).symm.trans (agrees.1 earlier before)

end Informed

/-- What a text does: it may start a task, or it asks for all events. -/
def Texted (fd : Fd) (c : Conn) (h h' : State) : Prop :=
  (∃ client works started log, h' = { h with client, works, started, log }) ∨
    ∃ client log, h' = ({ h with client, log } : State).listenEvents fd c ∅

theorem hear_texted (g : State) (bytes : List Conn) (message : Bytes) :
    Texted fd c g (g.hear auth fd c bytes message) := by
  rw [hear]
  dsimp only
  split
  · exact .inl ⟨_, _, _, _, rfl⟩
  · exact .inr ⟨_, _, rfl⟩
  · exact .inl ⟨_, _, _, _, rfl⟩

theorem process_texted (g : State) (bytes : List Conn) (str : Bytes) :
    Texted fd c g (g.process ciphers gost auth fd c bytes str) := by
  rw [process]
  split
  · exact .inl ⟨_, _, _, _, rfl⟩
  · exact .inl ⟨_, _, _, _, rfl⟩
  · exact .inl ⟨_, _, _, _, rfl⟩
  · exact g.hear_texted bytes _

/-- What is kept along the texts of a result: when none of them asks for events, or when all events
agree with what the connection has asked for before, the subscriptions stay in order. -/
structure Asking (g : State) (fd : Fd) (h : State) : Prop where
  more : g.asked <+: h.asked
  agrees : g.Agrees fd ∅ → h.Agrees fd ∅
  informed : h.asked = g.asked ∨ g.Agrees fd ∅ → h.Informed

theorem Asking.text {h h' : State} (asking : g.Asking fd h) (home : h.home c = some fd)
    (client : h.loop.clients fd = some c) (texted : Texted fd c h h') : g.Asking fd h' := by
  rcases texted with ⟨changed, works, started, log, rfl⟩ | ⟨changed, log, rfl⟩
  · refine ⟨asking.more, asking.agrees, fun quiet => ?_⟩
    exact (asking.informed quiet).same rfl rfl rfl rfl rfl rfl rfl rfl
  · refine ⟨asking.more.trans (prefix_append ..), ?_, ?_⟩
    · exact fun agrees => Informed.agrees_listenEvents (asking.agrees agrees)
    · rintro (quiet | agrees)
      · -- something was asked for
        have longer : h.asked.length + 1 = g.asked.length := by
          rw [← quiet]
          simp [State.listenEvents]
        exact absurd asking.more.length_le (by omega)
      · have before : ({ h with client := changed, log } : State).Informed :=
          (asking.informed (.inr agrees)).same rfl rfl rfl rfl rfl rfl rfl rfl
        apply before.listenEvents home
        · grind
        · exact asking.agrees agrees

theorem Informed.take (informed : g.Informed) (settled : g.loop.Settled g.home)
    {r : Listen.Responce} {added : Bool} {texts : List Bytes}
    (steady : (g.take ciphers gost auth fd r added texts).asked = g.asked ∨ g.Agrees fd ∅) :
    (g.take ciphers gost auth fd r added texts).Informed ∧
      Aside g (g.take ciphers gost auth fd r added texts) := by
  have taken : g.Asking fd (g.take ciphers gost auth fd r added texts) ∧
      Aside g (g.take ciphers gost auth fd r added texts) := by
    apply take_induction (g.Asking fd) ⟨prefix_rfl, id, fun _ => informed⟩
    · intro c h str _ client _ _ aside before
      exact before.text (aside.home ▸ settled.client_home client) (aside.loop ▸ client)
        (h.process_texted r.bytes str)
    · intro c h message _ client _ _ aside before
      exact before.text (aside.home ▸ settled.client_home client) (aside.loop ▸ client)
        (h.hear_texted r.bytes message)
  exact ⟨taken.1.informed steady, taken.2⟩

theorem Informed.turn (informed : g.Informed) (settled : g.loop.Settled g.home) {action : Action}
    {s' : EventLoop} (taken : g.loop.step action = some s')
    (timely : ∀ fd added, action = .accept fd added → g.toAddEvents.lookup fd = none) :
    (g.turn action s').Informed := by
  obtain ⟨client, stage, same, -⟩ := g.turn_frame action s'
  rw [same]
  have grows {c : Conn} {fd : Fd} (at_ : g.home c = some fd) :
      g.loop.homes g.home action c = some fd := settled.homes_some taken at_
  have fewer {fd : Fd} {types : Finset Int}
      (found : ((g.loop.removes action).elim g.eventsClients
        (fun fd => g.eventsClients.erase fd)).lookup fd = some types) :
      g.eventsClients.lookup fd = some types := by
    cases removes : g.loop.removes action with
    | none =>
      grind
    | some gone =>
      rw [removes, elim_some] at found
      by_cases here : fd = gone
      · rw [here, AList.lookup_erase] at found
        cases found
      · rwa [AList.lookup_erase_ne here] at found
  constructor
  · intro fd
    dsimp only
    cases EventLoop.turnover taken with
    | closed gone removes _ _ _ clients =>
      rw [removes, clients, elim_some]
      by_cases here : fd = gone
      · rw [here, AList.lookup_erase, update_self, bind_none]
      · rw [AList.lookup_erase_ne here, update_of_ne here]
        exact informed.registered fd
    | accepted new accept free running _ clients =>
      subst accept
      rw [clients]
      show g.eventsClients.lookup fd = _
      by_cases here : fd = new
      · subst here
        rw [update_self, bind_some, informed.unknown _ (settled.unknown running),
          informed.registered fd]
        cases present : g.loop.clients fd with
        | none => rfl
        | some d => cases free.symm.trans (settled.numbered.owner fd d present)
      · rw [update_of_ne here]
        exact informed.registered fd
    | leaked new accept _ _ _ _ clients =>
      subst accept
      rw [clients]
      exact informed.registered fd
    | stays removes _ _ _ clients =>
      rw [removes, clients]
      exact informed.registered fd
  · exact informed.waits
  · exact fun ask member => grows (informed.asker ask member)
  · intro ask member c present
    rcases settled.client_cases taken present with before | ⟨accept, -⟩
    · exact informed.alone ask member c before
    · have waits := informed.waits ask member
      rw [timely ask.fd true accept] at waits
      cases waits
  · exact fun ask member types found => informed.agrees ask member types (fewer found)
  · exact informed.source
  · intro c none_
    apply informed.unknown c
    cases home : g.home c with
    | none => rfl
    | some fd => cases (grows home).symm.trans none_
  · exact informed.sent
  · exact informed.never

theorem foldl_subscribed (asked : List Ask) (subscribed : Conn → Option (Finset Int)) (c : Conn)
    (types : Finset Int) (agree : ∀ ask ∈ asked, ask.conn = c → ask.types = types) :
    asked.foldl (fun s (ask : Ask) => update s ask.conn (some ask.types)) subscribed c =
      if ∃ ask ∈ asked, ask.conn = c then some types else subscribed c := by
  induction asked generalizing subscribed with
  | nil => simp
  | cons ask asked ih =>
    rw [foldl_cons, ih _ (fun ask member => agree ask (mem_cons_of_mem _ member))]
    by_cases own : ask.conn = c
    · have new := agree ask mem_cons_self own
      simp [own, new]
    · simp [own, update_of_ne (Ne.symm own)]

theorem foldl_register (g : State) (order : List (Fd × Finset Int)) (fd : Fd) :
    (order.foldl (fun g entry => g.register entry.1 entry.2) g).eventsClients.lookup fd =
      (g.eventsClients.lookup fd).or (if (g.receiver fd).isSome = true then
        (order.find? (fun entry => entry.1 = fd)).map Prod.snd else none) := by
  induction order generalizing g with
  | nil => simp
  | cons entry order ih =>
    rw [foldl_cons, ih]
    have there : (g.register entry.1 entry.2).receiver fd = g.receiver fd := by
      obtain ⟨eventsClients, log, same⟩ := g.register_frame entry.1 entry.2
      rw [same]
      rfl
    rw [there, register]
    cases reaches : g.receiver entry.1 with
    | none =>
      by_cases same : entry.1 = fd
      · grind
      · simp [same]
    | some d =>
      dsimp only
      rw [UMap.lookup_emplace]
      by_cases same : entry.1 = fd
      · subst same
        cases g.eventsClients.lookup entry.1 <;> simp [reaches]
      · simp [same, Ne.symm same]

theorem receiver_eq (settled : g.loop.Settled g.home) (fd : Fd) :
    g.receiver fd = g.loop.clients fd := by
  rw [receiver]
  cases client : g.loop.clients fd with
  | none => rfl
  | some c => exact settled.numbered.owner fd c client

theorem Informed.takeListeners (informed : g.Informed) (settled : g.loop.Settled g.home)
    {order : List (Fd × Finset Int)} (walks : UMap.Walks g.toAddEvents order) :
    (g.takeListeners order).Informed := by
  let before : State := { g with
    toAddEvents := ∅, stage := .events, asked := []
    subscribed := g.asked.foldl (fun s ask => update s ask.conn (some ask.types)) g.subscribed }
  have registers (fd : Fd) : (g.takeListeners order).eventsClients.lookup fd =
      (g.eventsClients.lookup fd).or (if (g.loop.clients fd).isSome = true then
        g.toAddEvents.lookup fd else none) := by
    have walk := before.foldl_register order fd
    rw [walks.find_eq, show before.receiver fd = g.loop.clients fd from receiver_eq settled fd]
      at walk
    exact walk
  have asks {c : Conn} {ask : Ask} (member : ask ∈ g.asked) (own : ask.conn = c) :
      before.subscribed c = some ask.types := by
    rw [show before.subscribed c = _ from foldl_subscribed g.asked g.subscribed c ask.types ?_]
    · exact if_pos ⟨ask, member, own⟩
    · intro other inside same
      have home := informed.asker ask member
      rw [own, ← same, informed.asker other inside] at home
      have waits := informed.waits ask member
      grind [informed.waits]
  have silent {c : Conn} (none_ : ∀ ask ∈ g.asked, ask.conn ≠ c) :
      before.subscribed c = g.subscribed c := by
    rw [show before.subscribed c = _ from foldl_subscribed g.asked g.subscribed c ∅ ?_]
    · apply if_neg
      rintro ⟨ask, member, own⟩
      exact none_ ask member own
    · exact fun ask member own => absurd own (none_ ask member)
  have keeps {c : Conn} (none_ : before.subscribed c = none) : g.subscribed c = none := by
    rw [silent ?_] at none_
    · exact none_
    · grind
  obtain ⟨eventsClients, log, same⟩ := g.takeListeners_frame order
  rw [same] at registers ⊢
  constructor
  · intro fd
    show _ = (g.loop.clients fd).bind before.subscribed
    rw [registers, informed.registered]
    cases client : g.loop.clients fd with
    | none => rfl
    | some c =>
      rw [bind_some, bind_some, isSome_some, if_pos rfl]
      by_cases own : ∃ ask ∈ g.asked, ask.conn = c
      · obtain ⟨ask, member, rfl⟩ := own
        have at_ : ask.fd = fd := Option.some.inj
          ((informed.asker ask member).symm.trans (settled.client_home client))
        have waits := informed.waits ask member
        have agrees := informed.agrees ask member
        rw [at_] at waits
        rw [at_, informed.registered, client, bind_some] at agrees
        rw [asks member rfl, waits]
        cases earlier : g.subscribed ask.conn with
        | none => rfl
        | some types => rw [agrees types earlier, some_or]
      · have none_ : ∀ ask ∈ g.asked, ask.conn ≠ c :=
          fun ask member same => own ⟨ask, member, same⟩
        have empty : g.toAddEvents.lookup fd = none := by
          by_contra waits
          obtain ⟨ask, member, at_⟩ := informed.source fd waits
          exact none_ ask member (informed.alone ask member c (at_ ▸ client)).symm
        rw [silent none_, empty, or_none]
  · exact fun _ member => by cases member
  · exact fun _ member => by cases member
  · exact fun _ member => by cases member
  · exact fun _ member => by cases member
  · exact fun _ waits => absurd rfl waits
  · intro c unknown
    show before.subscribed c = none
    rw [silent, informed.unknown c unknown]
    intro ask member own
    have home := informed.asker ask member
    rw [own, show g.home c = none from unknown] at home
    cases home
  · exact informed.sent
  · exact fun c none_ => informed.never c (keeps none_)

theorem Informed.walk_eq (informed : g.Informed) (settled : g.loop.Settled g.home)
    {order : List (Fd × Finset Int)} (walks : UMap.Walks g.eventsClients order) (ev : EventEdb)
    (client : g.loop.clients fd = some c) :
    order.flatMap (fun entry =>
        if g.receiver entry.1 = some c ∧ covers entry.2 ev = true then [ev] else []) =
      if (g.subscribed c).any (fun types => covers types ev) = true then [ev] else [] := by
  have reaches : g.receiver fd = some c := by
    rw [receiver_eq settled, client]
  rw [walks.flatMap_eq fd]
  · rw [informed.registered, client, bind_some]
    cases g.subscribed c with
    | none => simp
    | some types => simp [reaches]
  · -- the connection has no other descriptor
    intro entry other
    apply if_neg
    rintro ⟨reaches, -⟩
    rw [receiver_eq settled] at reaches
    exact other (settled.numbered.apart _ _ c reaches client)

theorem walk_nil (settled : g.loop.Settled g.home) (order : List (Fd × Finset Int)) (ev : EventEdb)
    (gone : ∀ fd, g.loop.clients fd ≠ some c) :
    order.flatMap (fun entry =>
        if g.receiver entry.1 = some c ∧ covers entry.2 ev = true then [ev] else []) = [] := by
  rw [flatMap_eq_nil_iff]
  intro entry _
  apply if_neg
  rintro ⟨reaches, -⟩
  rw [receiver_eq settled] at reaches
  exact gone entry.1 reaches

theorem live_iff (settled : g.loop.Settled g.home) (running : g.loop.phase ≠ .stopped) :
    g.live c = true ↔ ∃ fd, g.loop.clients fd = some c := by
  rw [live, Option.any_eq_true]
  constructor
  · rintro ⟨fd, -, opened⟩
    rw [decide_eq_true_eq] at opened
    exact ⟨fd, settled.numbered.owned running fd c opened⟩
  · rintro ⟨fd, client⟩
    exact ⟨fd, settled.client_home client,
      decide_eq_true (settled.numbered.owner fd c client)⟩

theorem flatMap_singleton_filter (events : List EventEdb) (picked : EventEdb → Bool) :
    events.flatMap (fun ev => if picked ev = true then [ev] else []) = events.filter picked := by
  induction events with
  | nil => rfl
  | cons ev events ih =>
    rw [flatMap_cons, filter_cons, ih]
    split <;> rfl

theorem Informed.sendEvents (informed : g.Informed) (settled : g.loop.Settled g.home)
    (running : g.loop.phase ≠ .stopped) {order : List (Fd × Finset Int)}
    (walks : UMap.Walks g.eventsClients order) : (g.sendEvents order).Informed := by
  let due : Conn → List EventEdb := fun c => g.due c ++ if g.live c then
    g.events.filter (fun ev => (g.subscribed c).any (fun types => covers types ev)) else []
  obtain ⟨⟨queue, got, same⟩, sends⟩ := foldl_sendEvents { g with
    events := [], stage := .responses, due } g.events order
  rw [same] at sends
  rw [State.sendEvents, same]
  refine ⟨informed.registered, informed.waits, informed.asker, informed.alone, informed.agrees,
    informed.source, informed.unknown, ?_, ?_⟩
  · intro c
    show got c = due c
    rw [show got c = _ from sends c]
    show g.got c ++ g.events.flatMap (fun ev => order.flatMap (fun entry =>
      if g.receiver entry.1 = some c ∧ covers entry.2 ev = true then [ev] else [])) = _
    rw [informed.sent]
    apply congrArg
    by_cases live : g.live c = true
    · obtain ⟨fd, client⟩ := (live_iff settled running).mp live
      rw [if_pos live]
      grind [informed.walk_eq, flatMap_singleton_filter]
    · have gone (fd : Fd) : g.loop.clients fd ≠ some c :=
        fun client => live ((live_iff settled running).mpr ⟨fd, client⟩)
      rw [if_neg live]
      simp only [walk_nil settled order _ gone]
      simp
  · intro c none_
    have none_ : g.subscribed c = none := none_
    show due c = []
    simp [due, informed.never c none_, none_]

theorem Informed.step (informed : g.Informed) (answered : g.Answered) {deed : Deed}
    (timely : g.Timely deed) (steady : g.Steady ciphers gost auth deed)
    (stepped : g.step ciphers gost auth deed = some g') : g'.Informed := by
  have settled := answered.settled
  cases did stepped with
  | loop admits taken =>
    apply informed.turn settled taken
    rintro fd added rfl
    exact timely
  | @act fd r added texts heard established s' found complete hears establishes taken =>
    obtain ⟨told, aside⟩ := informed.take settled (steady r found)
    rw [hears] at told aside
    rw [← aside.loop] at taken
    have turned : (heard.turn (.act fd added established) s').Informed := by
      apply told.turn _ taken
      · rintro other watched ⟨⟩
      · rw [aside.loop, aside.home]
        exact settled
    split
    · obtain ⟨queue, same⟩ := (heard.turn (.act fd added established) s').pushMessage_frame fd
      grind [turned.same]
    · exact turned
  | takeListeners pushing walks => exact informed.takeListeners settled walks
  | sendEvents pushing walks => exact informed.sendEvents settled (by simp [pushing]) walks
  | @sendResponses order pushing walks =>
    obtain ⟨⟨queue, client, delivered, same⟩, -⟩ :=
      foldl_answer_spec { g with responses := ∅, stage := .done } order
    grind [State.sendResponses, informed.same]
  | add => exact informed.same rfl rfl rfl rfl rfl rfl rfl rfl
  | @listenEvents place w found kind =>
    apply informed.listenEvents (answered.works w (mem_of_getElem? found))
    · intro d client
      rcases timely w found with none_ | some_
      · cases none_.symm.trans client
      · exact Option.some.inj (client.symm.trans some_)
    · exact steady w found
  | addEvent => exact informed.same rfl rfl rfl rfl rfl rfl rfl rfl
  | finish => exact informed.same rfl rfl rfl rfl rfl rfl rfl rfl

/-- Along every run in which no descriptor gets a new connection while a subscription waits for it,
no task subscribes the descriptor of another connection, and no connection asks for other types than
its subscription has: every connection was sent the events of its latest subscription, and one that
never subscribed was sent none. -/
theorem got_eq_due
    (reached : Reaches (State.step ciphers gost auth)
      (fun g deed => g.Timely deed ∧ g.Steady ciphers gost auth deed) {} g) (c : Conn) :
    g.got c = g.due c ∧ (g.subscribed c = none → g.got c = []) := by
  have both : g.Answered ∧ g.Informed := by
    apply reached.invariant (fun g => g.Answered ∧ g.Informed) ⟨.begin, .begin⟩
    intro h deed h' before meets stepped
    exact ⟨before.1.step stepped, before.2.step before.1 meets.1 meets.2 stepped⟩
  refine ⟨both.2.sent c, fun none_ => ?_⟩
  rw [both.2.sent c]
  exact both.2.never c none_

/-- The request for the events of a type below ten. -/
def asksFor (type : UInt8) : Bytes := [49, 51, 48, 48, 48, 48, 48, 48, 44, 48 + type]

/-- The request that publishes an event of a type with a short name and a value. -/
def publishes (type : UInt8) : Bytes :=
  [50, 50, 48, 48, 48, 48, 48, type, 0, 0, 0, 1, 0, 0, 0, 110, 118]

/-- The event that it publishes, for a type below ten. -/
def published (type : UInt8) : EventEdb :=
  ⟨type.toNat, [49, 50, 124, 48 + type, 124, 110]⟩

/-- A client logs in and subscribes to the events of type one. -/
def listener : List Deed :=
  logsIn 5 [65] ++ reads 5 ++ sends [] [] [] ++ takes 5 [asksFor 1] ++
    ([.listenEvents 0, .finish 0] : List Deed) ++ sends [(5, {1})] [(5, {1})] []

/-- Of two events the client is sent the one that it has subscribed to. -/
theorem got_eq_due_sample :
    ∃ g, Reaches (State.step plain false [65])
        (fun g deed => g.Timely deed ∧ g.Steady plain false [65] deed) {} g ∧
      (g.got 1 = [published 1] ∧ g.subscribed 1 = some {1}) ∧
      ∀ c, g.got c = g.due c ∧ (g.subscribed c = none → g.got c = []) := by
  refine Reaches.of_runActions_and
    (listener ++ reads 5 ++ sends [] [(5, {1})] [] ++ takes 5 [publishes 1, publishes 2] ++
      ([.addEvent 0 (published 1), .addEvent 1 (published 2), .takeListeners [],
        .sendEvents [(5, {1})]] : List Deed))
    (by decide +kernel) ?_
  intro g reached _
  exact got_eq_due reached

/-- A client subscribes to the events of type one, and then to those of type two. Both subscriptions
are taken up. The first one stays registered: an event of type two is not sent. -/
theorem resubscribes :
    ∃ g, Reaches (State.step plain false [65]) (fun g deed => g.Timely deed) {} g ∧
      g.loop.clients 5 = some 1 ∧ g.subscribed 1 = some {2} ∧
        g.eventsClients.lookup 5 = some {1} ∧ g.due 1 = [published 2] ∧ g.got 1 = [] :=
  Reaches.of_runActions_any
    (listener ++ reads 5 ++ sends [] [(5, {1})] [] ++ takes 5 [asksFor 2] ++
      ([.listenEvents 0, .finish 0] : List Deed) ++ sends [(5, {2})] [(5, {1})] [] ++
      reads 5 ++ sends [] [(5, {1})] [] ++ takes 5 [publishes 2] ++
      ([.addEvent 0 (published 2), .takeListeners [], .sendEvents [(5, {1})]] : List Deed))
    (by decide +kernel)

end State

end RssDisk.Network.Gateway
