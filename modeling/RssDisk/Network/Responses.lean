import RssDisk.Network.Gateway

/-!
# Responses reach their own connection

A response, or a key, is kept under the descriptor and the number of the connection its task works
for. Descriptors are used again, numbers are not.
-/

namespace RssDisk.Network.Gateway

open Lib Listen Function List Option

variable {auth : Bytes} {ciphers : Ciphers} {gost : Bool}

namespace State

/-- What was added for a connection and is not handed out yet. -/
def waiting (g : State) (fd : Fd) (c : Conn) : List Item :=
  (g.responses.lookup (fd, c)).getD []

/-- What was added for a connection. -/
def producedFor (g : State) (c : Conn) : List Item :=
  g.produced.filter (fun item => item.conn = c)

/-- What a connection was given, and what waits for it. -/
def Owing (g : State) (fd : Fd) (c : Conn) : Prop :=
  g.delivered c ++ g.waiting fd c = g.producedFor c ∨
    (g.loop.clients fd ≠ some c ∧ g.delivered c <+: g.producedFor c)

/-- What holds of the responses. -/
structure Answered (g : State) : Prop where
  settled : g.loop.Settled g.home
  works : ∀ w ∈ g.works, g.home w.conn = some w.fd
  stored : ∀ fd c items, g.responses.lookup (fd, c) = some items → g.home c = some fd
  made : ∀ item ∈ g.produced, g.home item.conn ≠ none
  unknown : ∀ c, g.home c = none → g.delivered c = []
  owing : ∀ fd c, g.home c = some fd → g.Owing fd c

variable {g : State} {fd : Fd} {c : Conn}

theorem Answered.prefix_ (answered : g.Answered) (c : Conn) :
    g.delivered c <+: g.producedFor c := by
  cases home : g.home c with
  | none =>
    rw [answered.unknown c home]
    exact List.nil_prefix
  | some fd =>
    rcases answered.owing fd c home with all | ⟨-, part⟩
    · exact ⟨_, all⟩
    · exact part

theorem Answered.start (answered : g.Answered) (home : g.home c = some fd) (job : Job) :
    (g.start fd c job).Answered := by
  refine ⟨answered.settled, ?_, answered.stored, answered.made, answered.unknown,
    answered.owing⟩
  intro w member
  rcases mem_append.mp member with before | new
  · exact answered.works w before
  · rw [mem_singleton.mp new]
    exact home

theorem Answered.same (answered : g.Answered) {g' : State} (loop : g'.loop = g.loop)
    (home : g'.home = g.home) (works : ∀ w ∈ g'.works, w ∈ g.works)
    (responses : g'.responses = g.responses) (produced : g'.produced = g.produced)
    (delivered : g'.delivered = g.delivered) : g'.Answered := by
  have owing (fd : Fd) (c : Conn) : g'.Owing fd c ↔ g.Owing fd c := by
    simp only [Owing, waiting, producedFor, loop, responses, produced, delivered]
  constructor
  · rw [loop, home]
    exact answered.settled
  · intro w member
    rw [home]
    exact answered.works w (works w member)
  · rw [responses, home]
    exact answered.stored
  · rw [produced, home]
    exact answered.made
  · rw [home, delivered]
    exact answered.unknown
  · intro fd c at_
    rw [home] at at_
    exact (owing fd c).mpr (answered.owing fd c at_)

theorem Answered.hear (answered : g.Answered) (home : g.home c = some fd) (bytes : List Conn)
    (message : Bytes) : (g.hear auth fd c bytes message).Answered := by
  rw [State.hear]
  dsimp only
  split
  · rename_i text _
    exact (answered.start home (.request text)).same rfl rfl (fun _ => id) rfl rfl rfl
  · exact answered.same rfl rfl (fun _ => id) rfl rfl rfl
  · exact answered.same rfl rfl (fun _ => id) rfl rfl rfl

theorem Answered.process (answered : g.Answered) (home : g.home c = some fd) (bytes : List Conn)
    (str : Bytes) :
    (g.process ciphers gost auth fd c bytes str).Answered := by
  rw [State.process]
  split
  · exact answered.start home _
  · exact answered.same rfl rfl (fun _ => id) rfl rfl rfl
  · exact answered
  · exact answered.hear home bytes _

theorem Answered.take (answered : g.Answered) {r : Listen.Responce} {added : Bool}
    {texts : List Bytes} :
    (g.take ciphers gost auth fd r added texts).Answered ∧
      Aside g (g.take ciphers gost auth fd r added texts) := by
  apply take_induction Answered answered
  · intro c h str _ client _ _ aside before
    exact before.process (aside.home ▸ answered.settled.client_home client) r.bytes str
  · intro c h message _ client _ _ aside before
    exact before.hear (aside.home ▸ answered.settled.client_home client) r.bytes message

theorem Answered.queue (answered : g.Answered) (queue : Fd → List Bool) :
    ({ g with loop := { g.loop with queue } } : State).Answered :=
  ⟨answered.settled.same id rfl rfl rfl, answered.works, answered.stored, answered.made,
    answered.unknown, answered.owing⟩

theorem Answered.pushMessage (answered : g.Answered) (fd : Fd) : (g.pushMessage fd).Answered := by
  obtain ⟨queue, same⟩ := g.pushMessage_frame fd
  rw [same]
  exact answered.queue queue

theorem Answered.nothing (answered : g.Answered) (new : g.home c = none) (fd : Fd) :
    g.delivered c ++ g.waiting fd c = g.producedFor c := by
  have empty : g.waiting fd c = [] := by
    rw [waiting]
    cases stored : g.responses.lookup (fd, c) with
    | none => rfl
    | some items => cases new.symm.trans (answered.stored fd c items stored)
  have none_ : g.producedFor c = [] := by
    rw [producedFor, filter_eq_nil_iff]
    intro item member same
    rw [decide_eq_true_eq] at same
    exact answered.made item member (same ▸ new)
  rw [answered.unknown c new, empty, none_]
  rfl

theorem Answered.turn (answered : g.Answered) {action : Action} {s' : EventLoop}
    (taken : g.loop.step action = some s') : (g.turn action s').Answered := by
  have settled := answered.settled
  obtain ⟨client, stage, same, -⟩ := g.turn_frame action s'
  have grows {c : Conn} {fd : Fd} (at_ : g.home c = some fd) :
      g.loop.homes g.home action c = some fd := settled.homes_some taken at_
  rw [same]
  refine ⟨settled.step taken, ?_, ?_, ?_, ?_, ?_⟩
  · exact fun w member => grows (answered.works w member)
  · exact fun fd c items stored => grows (answered.stored fd c items stored)
  · intro item member
    obtain ⟨fd, home⟩ := ne_none_iff_exists'.mp (answered.made item member)
    dsimp only
    grind
  · intro c none_
    apply answered.unknown c
    cases home : g.home c with
    | none => rfl
    | some fd => cases (grows home).symm.trans none_
  · intro fd c at_
    rcases settled.homes_eq taken c with old | new
    · have before : g.home c = some fd := old.symm.trans at_
      rcases answered.owing fd c before with all | ⟨gone, part⟩
      · exact .inl all
      · refine .inr ⟨fun client => ?_, part⟩
        rcases settled.client_cases taken client with there | ⟨-, new⟩
        · exact gone there
        · cases new.symm.trans before
    · exact .inl (answered.nothing new fd)

theorem deliver_delivered (g : State) (fd : Fd) (item : Item) (c : Conn) :
    (g.deliver fd item).delivered c =
      g.delivered c ++ if g.receiver fd = some c then [item] else [] := by
  have given : (g.deliver fd item).delivered = (g.receiver fd).elim g.delivered (fun c =>
      update g.delivered c (g.delivered c ++ [item])) := by
    rw [deliver]
    dsimp only
    split
    · rfl
    · obtain ⟨queue, same⟩ := pushMessage_frame { g with
        delivered := (g.receiver fd).elim g.delivered (fun c =>
          update g.delivered c (g.delivered c ++ [item])) } fd
      rw [same]
  rw [given]
  cases g.receiver fd with
  | none => simp
  | some d =>
    by_cases same : c = d
    · subst same
      simp
    · simp [update_of_ne same, Ne.symm same]

/-- Sending responses changes queues, clients and what was delivered, and nothing else. -/
def Given (g h : State) : Prop :=
  ∃ queue client delivered, h = { g with loop := { g.loop with queue }, client, delivered }

theorem Given.refl (g : State) : Given g g := ⟨g.loop.queue, g.client, g.delivered, rfl⟩

theorem Given.trans {g h k : State} : Given g h → Given h k → Given g k := by
  rintro ⟨_, _, _, rfl⟩ ⟨queue, client, delivered, rfl⟩
  exact ⟨queue, client, delivered, rfl⟩

theorem answer_spec (g : State) (fd : Fd) (counter : Conn) (items : List Item) :
    Given g (g.answer fd counter items) ∧
      ∀ c, (g.answer fd counter items).delivered c = g.delivered c ++
        if g.loop.clients fd = some counter ∧ g.receiver fd = some c then items else [] := by
  rw [answer]
  split
  · rename_i client
    obtain ⟨given, more⟩ := foldl_log delivered (fun g item c =>
      if g.receiver fd = some c then [item] else []) Given.refl Given.trans
      (fun g item => ⟨g.deliver_frame fd item, g.deliver_delivered fd item⟩)
      (by rintro _ _ ⟨_, _, _, rfl⟩; rfl) g items
    refine ⟨given, fun c => (more c).trans ?_⟩
    by_cases reaches : g.receiver fd = some c <;> simp [reaches, client]
  · rename_i other
    exact ⟨.refl g, fun c => by simp [other]⟩

/-- What a walk gives to a connection. -/
def gains (g : State) (order : List ((Fd × Conn) × List Item)) (c : Conn) : List Item :=
  order.flatMap (fun entry =>
    if g.loop.clients entry.1.1 = some entry.1.2 ∧ g.receiver entry.1.1 = some c then entry.2
    else [])

theorem foldl_answer_spec (g : State) (order : List ((Fd × Conn) × List Item)) :
    Given g (order.foldl (fun g entry => g.answer entry.1.1 entry.1.2 entry.2) g) ∧
      ∀ c, (order.foldl (fun g entry => g.answer entry.1.1 entry.1.2 entry.2) g).delivered c =
        g.delivered c ++ g.gains order c :=
  foldl_log delivered (fun g entry c =>
    if g.loop.clients entry.1.1 = some entry.1.2 ∧ g.receiver entry.1.1 = some c then entry.2
    else []) Given.refl Given.trans (fun g entry => g.answer_spec entry.1.1 entry.1.2 entry.2)
    (by rintro _ _ ⟨_, _, _, rfl⟩; rfl) g order

section

variable {order : List ((Fd × Conn) × List Item)} (answered : g.Answered)

include answered

theorem Answered.receiver_home (reaches : g.receiver fd = some c) :
    g.loop.opened fd = some c ∧ g.home c = some fd := by
  have opened : g.loop.opened fd = some c := by
    rw [State.receiver, ite_none_right_eq_some] at reaches
    exact reaches.2
  exact ⟨opened, answered.settled.homed fd c opened⟩

theorem Answered.gains_eq (walks : UMap.Walks g.responses order) (home : g.home c = some fd) :
    g.gains order c = if g.loop.clients fd = some c then g.waiting fd c else [] := by
  rw [gains, walks.flatMap_eq (fd, c)]
  · by_cases client : g.loop.clients fd = some c
    · have reaches : g.receiver fd = some c := by
        rw [State.receiver, client]
        exact answered.settled.numbered.owner fd c client
      rw [waiting, if_pos client]
      cases g.responses.lookup (fd, c) <;> simp [client, reaches]
    · rw [if_neg client]
      cases g.responses.lookup (fd, c) <;> simp [client]
  · -- only the entry of the descriptor and the connection can reach it
    intro entry other
    apply if_neg
    rintro ⟨client, reaches⟩
    obtain ⟨opened, there⟩ := answered.receiver_home reaches
    have number : entry.1.2 = c := Option.some.inj
      ((answered.settled.numbered.owner _ _ client).symm.trans opened)
    exact other (Prod.ext (Option.some.inj (there.symm.trans home)) number)

theorem Answered.gains_nil (unknown : g.home c = none) : g.gains order c = [] := by
  rw [gains, flatMap_eq_nil_iff]
  intro entry _
  apply if_neg
  rintro ⟨-, reaches⟩
  cases unknown.symm.trans (answered.receiver_home reaches).2

theorem Answered.sendResponses (walks : UMap.Walks g.responses order) :
    (g.sendResponses order).Answered := by
  obtain ⟨⟨queue, client, delivered, same⟩, given⟩ :=
    foldl_answer_spec { g with responses := ∅, stage := .done } order
  rw [same] at given
  rw [State.sendResponses, same]
  have given (c : Conn) : delivered c = g.delivered c ++ g.gains order c := given c
  refine ⟨answered.settled.same id rfl rfl rfl, answered.works, ?_, answered.made, ?_, ?_⟩
  · intro fd c items stored
    cases stored
  · intro c unknown
    show delivered c = []
    rw [given, answered.gains_nil unknown, answered.unknown c unknown]
    rfl
  · intro fd c home
    have gains := answered.gains_eq walks home
    by_cases client : g.loop.clients fd = some c
    · left
      show delivered c ++ [] = g.producedFor c
      rw [given, gains, if_pos client, append_nil]
      rcases answered.owing fd c home with all | ⟨gone, -⟩
      · exact all
      · exact absurd client gone
    · right
      refine ⟨client, ?_⟩
      show delivered c <+: g.producedFor c
      rw [given, gains, if_neg client, append_nil]
      exact answered.prefix_ c

theorem Answered.add {w : Work} {item : Item} (member : w ∈ g.works) (origin : item.conn = w.conn) :
    ({ g with
      responses := g.responses.insert (w.fd, w.conn)
        ((g.responses.lookup (w.fd, w.conn)).getD [] ++ [item])
      produced := g.produced ++ [item] } : State).Answered := by
  have home := answered.works w member
  refine ⟨answered.settled, answered.works, ?_, ?_, answered.unknown, ?_⟩
  · intro fd c items stored
    by_cases same : (fd, c) = (w.fd, w.conn)
    · cases same
      exact home
    · grind [AList.lookup_insert_ne, answered.stored]
  · intro other inside
    rcases mem_append.mp inside with before | new
    · exact answered.made other before
    · rw [mem_singleton.mp new, origin]
      show g.home w.conn ≠ none
      grind
  · intro fd c at_
    have at_ : g.home c = some fd := at_
    by_cases own : c = w.conn
    · subst own
      cases Option.some.inj (at_.symm.trans home)
      have more : (g.produced ++ [item]).filter (fun item => item.conn = w.conn) =
          g.producedFor w.conn ++ [item] := by
        simp [producedFor, origin]
      rcases answered.owing w.fd w.conn home with all | ⟨gone, part⟩
      · left
        rw [producedFor, more, ← all, waiting, waiting, AList.lookup_insert, getD_some,
          append_assoc]
      · right
        refine ⟨gone, ?_⟩
        rw [producedFor, more]
        exact part.trans (prefix_append ..)
    · have less : (g.produced ++ [item]).filter (fun item => item.conn = c) = g.producedFor c := by
        simp [producedFor, origin, Ne.symm own]
      have same : (g.responses.insert (w.fd, w.conn)
          ((g.responses.lookup (w.fd, w.conn)).getD [] ++ [item])).lookup (fd, c) =
            g.responses.lookup (fd, c) := by
        apply AList.lookup_insert_ne
        exact fun same => own (congrArg Prod.snd same)
      have before := answered.owing fd c at_
      rw [Owing, waiting] at before ⊢
      rw [producedFor, less, same]
      exact before

end

theorem Answered.step {deed : Deed} {g' : State} (answered : g.Answered)
    (stepped : g.step ciphers gost auth deed = some g') : g'.Answered := by
  cases did stepped with
  | loop admits taken => exact answered.turn taken
  | @act fd r added texts heard established s' found complete hears establishes taken =>
    obtain ⟨told, aside⟩ := answered.take
    rw [hears] at told aside
    rw [← aside.loop] at taken
    have turned := told.turn taken
    split
    · exact turned.pushMessage fd
    · exact turned
  | @takeListeners order pushing walks =>
    obtain ⟨eventsClients, log, same⟩ := g.takeListeners_frame order
    rw [same]
    exact answered.same rfl rfl (fun _ => id) rfl rfl rfl
  | @sendEvents order pushing walks =>
    obtain ⟨queue, due, got, same⟩ := g.sendEvents_frame order
    rw [same]
    exact (answered.queue queue).same rfl rfl (fun _ => id) rfl rfl rfl
  | sendResponses pushing walks => exact answered.sendResponses walks
  | add found origin => exact answered.add (mem_of_getElem? found) origin
  | listenEvents => exact answered.same rfl rfl (fun _ => id) rfl rfl rfl
  | addEvent => exact answered.same rfl rfl (fun _ => id) rfl rfl rfl
  | finish =>
    exact answered.same rfl rfl (fun _ => mem_of_mem_eraseIdx) rfl rfl rfl

theorem Answered.begin : Answered {} where
  settled := .start
  works := by simp
  stored := fun _ _ _ stored => by cases stored
  made := by simp
  unknown := fun _ _ => rfl
  owing := fun _ _ home => by cases home

/-- Along every run, whatever descriptors are used again and in whatever order the tasks go on, what
a connection is given was added by tasks that work for this connection. It is given it in the order
in which it was added: nothing is left out before something that it is given, and the responses of
each task keep their order. -/
theorem delivered_prefix_produced {ciphers : Ciphers} {gost : Bool} {auth : Bytes}
    (reached : Reaches (State.step ciphers gost auth) (fun _ _ => True) {} g) (c : Conn) :
    (∀ item ∈ g.delivered c, item.conn = c) ∧
      g.delivered c <+: g.produced.filter (fun item => item.conn = c) ∧
        ∀ work, ((g.delivered c).filter (fun item => item.work = work)).Sublist
          (g.produced.filter (fun item => item.work = work)) := by
  have answered : g.Answered := by
    apply reached.invariant Answered .begin
    intro h deed h' answered _ stepped
    exact answered.step stepped
  have ordered := answered.prefix_ c
  refine ⟨?_, ordered, ?_⟩
  · intro item member
    have inside := ordered.subset member
    rw [producedFor, mem_filter, decide_eq_true_eq] at inside
    exact inside.2
  · intro work
    exact (ordered.sublist.filter _).trans ((filter_sublist).filter _)

/-- Two connections follow each other on a descriptor and offer a key. The task of the first one
adds its responses when the second one is there. -/
def lateTask : List Deed :=
  accepts 5 [] ++ sends [] [] [] ++ reads 5 ++ sends [] [] [] ++ takes 5 [[1]] ++
    sends [] [] [] ++ ([.add 0 [10] false true] : List Deed) ++ accepts 5 [5] ++
    sends [] [] [((5, 1), [⟨0, 1, [10], false, true⟩])] ++ reads 5 ++ sends [] [] [] ++
    takes 5 [[2]] ++
    ([.add 0 [11] false false, .add 1 [20] false true, .add 1 [21] false false] : List Deed) ++
    sends [] [] [((5, 1), [⟨0, 1, [11], false, false⟩]),
      ((5, 2), [⟨1, 2, [20], false, true⟩, ⟨1, 2, [21], false, false⟩])]

/-- The second connection is given what its own task has added, and the first one nothing. -/
theorem delivered_prefix_produced_sample :
    ∃ g, Reaches (State.step plain false [65]) (fun _ _ => True) {} g ∧
      (g.loop.clients 5 = some 2 ∧ g.produced.length = 4 ∧ g.delivered 1 = [] ∧
        g.delivered 2 = [⟨1, 2, [20], false, true⟩, ⟨1, 2, [21], false, false⟩]) ∧
      ∀ c, (∀ item ∈ g.delivered c, item.conn = c) ∧
        g.delivered c <+: g.produced.filter (fun item => item.conn = c) ∧
          ∀ work, ((g.delivered c).filter (fun item => item.work = work)).Sublist
            (g.produced.filter (fun item => item.work = work)) := by
  refine Reaches.of_runActions_and lateTask (by decide +kernel) ?_
  intro g reached _
  exact delivered_prefix_produced reached

end State

end RssDisk.Network.Gateway
