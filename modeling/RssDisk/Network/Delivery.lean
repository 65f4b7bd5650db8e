import RssDisk.Network.Desk

/-!
# What is sent is what was pushed

For a connection whose descriptor is not closed under a task, what the kernel has taken and what is
still to be sent make up the texts that were pushed, each between its delimiters, unless a removal
waits. What happens on other descriptors, closed under a task or not, does not matter.
-/

namespace RssDisk.Network.Outbox

open Lib Listen Function List Option EventLoop

variable {r : Listen.Responce} {status : Todo}

namespace Desk

variable {d : Desk} {phase : Phase} {sent pushed : Conn → Bytes} {c : Conn}

/-- What holds of the messages of a descriptor that is not closed under a task. -/
structure Balanced (phase : Phase) (sent pushed : Conn → Bytes) (d : Desk) : Prop where
  kept : d.view.Kept phase
  hands : d.hands.map Prod.fst = d.view.tasks
  reads : ∀ pair ∈ d.hands, pair.1.reads = true → pair.2.w.rest = []
  /-- A task with the status `ok` has sent everything. -/
  wrote : ∀ pair ∈ d.hands, pair.2.status = some .ok → pair.2.w.rest = []
  clients : ∀ t ∈ d.view.tasks, d.view.client = some t.conn
  bare : d.view.client = none → d.awaiting = []
  /-- What the kernel has taken and what is still to be sent is what was pushed, or a removal
  waits. -/
  account : ∀ c, d.view.client = some c → sent c ++ d.pending = pushed c ∨ d.Doomed

theorem back_closing {waiting : Option Listen.Responce} (closing : View.Closing waiting)
    (w : MWrite) : back waiting w = [] := by
  cases waiting with
  | none => rfl
  | some r => simp [back, closing r rfl]

theorem pending_queue (hands : d.hands = []) (action : View.Closing d.view.action)
    (taken : View.Closing d.view.taken) : d.pending = d.awaiting.flatMap MWrite.rest := by
  rw [pending, hands, back_closing action, back_closing taken]
  rfl

theorem not_doomed {t : Task} (member : t ∈ d.view.tasks) : ¬ d.Doomed := by
  intro doomed
  rw [doomed.alone] at member
  cases member

theorem Balanced.closed (kept : d.view.Kept phase) (alone : d.view.tasks = [])
    (hands : d.hands = []) (nobody : d.view.client = none) (awaiting : d.awaiting = []) :
    d.Balanced phase sent pushed where
  kept
  hands := by rw [hands, alone, map_nil]
  reads := by simp [hands]
  wrote := by simp [hands]
  clients := by simp [alone]
  bare := fun _ => awaiting
  account := fun c found => by cases nobody.symm.trans found

theorem Balanced.collect (balanced : d.Balanced .woken sent pushed) :
    ({ d with
      view := { d.view with taken := d.view.action, action := none }
      handled := d.result } : Desk).Balanced .acting sent pushed := by
  have done : d.view.taken = none := balanced.kept.acting (by decide)
  exact { balanced with
    kept := balanced.kept.takeActions
    account := by
      intro c found
      rcases balanced.account c found with exact_ | doomed
      · left
        rw [← exact_, pending, pending, done, back_closing View.closing_none,
          back_closing View.closing_none, append_nil, append_nil]
      · right
        obtain ⟨busy, alone, closing, waits⟩ := doomed
        refine ⟨busy, alone, ⟨View.closing_none, closing.1⟩, .inr ?_⟩
        rw [done] at waits
        exact waits.resolve_right (by simp) }

variable (balanced : d.Balanced phase sent pushed)

include balanced

theorem Balanced.hands_nil (alone : d.view.tasks = []) : d.hands = [] := by
  have none := balanced.hands
  rw [alone, map_eq_nil_iff] at none
  exact none

theorem Balanced.quiet {d' : Desk} {phase' : Phase} {sent' pushed' : Conn → Bytes}
    (kept : d'.view.Kept phase') (inProcess : d'.view.inProcess = d.view.inProcess)
    (action : d'.view.action = d.view.action) (taken : d'.view.taken = d.view.taken)
    (client : d'.view.client = d.view.client) (tasks : d'.view.tasks = d.view.tasks)
    (hands : d'.hands = d.hands) (result : d'.result = d.result) (handled : d'.handled = d.handled)
    (queue : d'.awaiting.flatMap MWrite.rest = d.awaiting.flatMap MWrite.rest)
    (bare : d.awaiting = [] → d'.awaiting = [])
    (told : ∀ c, d.view.client = some c → sent' c = sent c ∧ pushed' c = pushed c) :
    d'.Balanced phase' sent' pushed' where
  kept
  hands := by
    rw [hands, tasks]
    exact balanced.hands
  reads := hands ▸ balanced.reads
  wrote := hands ▸ balanced.wrote
  clients := by
    rw [tasks, client]
    exact balanced.clients
  bare := by
    rw [client]
    exact fun nobody => bare (balanced.bare nobody)
  account := by
    intro c found
    rw [client] at found
    rcases balanced.account c found with exact_ | doomed
    · left
      rw [(told c found).1, (told c found).2, ← exact_, pending, pending, hands, action, taken,
        result, handled, queue]
    · right
      obtain ⟨busy, alone, closing, waits⟩ := doomed
      refine ⟨inProcess.trans busy, tasks.trans alone, ?_, ?_⟩
      · grind
      · grind

theorem Balanced.accept (closed : d.view.opened = none) (done : d.view.taken = none)
    (new : sent c = [] ∧ pushed c = []) :
    ({ d with view := d.view.accept c true } : Desk).Balanced phase sent pushed := by
  obtain ⟨alone, closing⟩ := balanced.kept.of_closed closed
  have nobody : d.view.client = none := by
    cases found : d.view.client with
    | none => rfl
    | some c => cases closed.symm.trans (balanced.kept.owner c found)
  have hands := balanced.hands_nil alone
  exact { balanced with
    kept := balanced.kept.accept closed done c true
    clients := fun t member => by
      rw [show (d.view.accept c true).tasks = [] from alone] at member
      cases member
    bare := fun none => by cases none
    account := by
      intro other found
      cases Option.some.inj found
      left
      rw [new.1, new.2, nil_append]
      refine (pending_queue hands closing (by rw [done]; exact View.closing_none)).trans ?_
      rw [balanced.bare nobody]
      rfl }

theorem Balanced.start (fd : Fd) (reads : Bool) (x : Cargo) (rest : List MWrite)
    (idle : d.view.inProcess = false) (done : d.view.taken = none) (watched : d.view.watched = true)
    (owner : d.view.client = some (d.view.opened.getD 0)) (nothing : reads = true → x.w.rest = [])
    (status : x.status = none)
    (queue : x.w.rest ++ rest.flatMap MWrite.rest = d.awaiting.flatMap MWrite.rest) :
    ({ d with
      view := d.view.start fd reads
      hands := d.hands ++ [(⟨fd, reads, d.view.opened.getD 0, []⟩, x)]
      awaiting := rest } : Desk).Balanced phase sent pushed := by
  obtain ⟨alone, closing, -⟩ := balanced.kept.of_idle idle
  have hands := balanced.hands_nil alone
  have only {pair : Task × Cargo}
      (member : pair ∈ d.hands ++ [(⟨fd, reads, d.view.opened.getD 0, []⟩, x)]) :
      pair = (⟨fd, reads, d.view.opened.getD 0, []⟩, x) := by
    rw [hands] at member
    exact mem_singleton.mp member
  exact {
    kept := balanced.kept.start fd reads idle watched done
    hands := by simp [View.start, hands, alone]
    reads := by
      intro pair member
      grind
    wrote := by
      grind
    clients := by
      intro t member
      have same : t = ⟨fd, reads, d.view.opened.getD 0, []⟩ := by
        simpa [View.start, alone] using member
      rw [same]
      exact owner
    bare := fun nobody => by cases owner.symm.trans nobody
    account := by
      intro c found
      rcases balanced.account c found with exact_ | doomed
      · left
        rw [pending_queue hands closing (by rw [done]; exact View.closing_none), ← queue] at exact_
        rw [← exact_, pending]
        have action : back (d.view.start fd reads).action d.result = [] := back_closing closing _
        have taken : back (d.view.start fd reads).taken d.handled = [] := by
          rw [show (d.view.start fd reads).taken = none from done]
          exact back_closing View.closing_none _
        simp [hands, action, taken]
      · cases idle.symm.trans doomed.busy }

theorem Balanced.mark (rest : List MWrite) (idle : d.view.inProcess = false)
    (done : d.view.taken = none) (queue : rest.flatMap MWrite.rest = d.awaiting.flatMap MWrite.rest)
    (bare : d.awaiting = [] → rest = []) :
    ({ d with view := d.view.mark, awaiting := rest } : Desk).Balanced phase sent pushed := by
  obtain ⟨alone, closing, taken⟩ := balanced.kept.of_idle idle
  have hands := balanced.hands_nil alone
  exact { balanced with
    kept := balanced.kept.mark idle done
    bare := fun nobody => bare (balanced.bare nobody)
    account := by
      intro c found
      rcases balanced.account c found with exact_ | doomed
      · left
        rw [pending_queue hands closing taken, ← queue] at exact_
        refine Eq.trans ?_ exact_
        congr 1
        exact pending_queue hands (View.closing_remove rfl) taken
      · cases idle.symm.trans doomed.busy }

theorem Balanced.read {t t' : Task} {x : Cargo} (hand : d.hands = [(t, x)])
    (reads : t'.reads = t.reads) (conn : t'.conn = t.conn)
    (kept : ({ d.view with tasks := [t'] } : View).Kept phase) :
    ({ d with view := { d.view with tasks := [t'] }, hands := [(t', x)] } : Desk).Balanced
      phase sent pushed := by
  have only : d.view.tasks = [t] := by
    rw [← balanced.hands, hand]
    rfl
  have member : (t, x) ∈ d.hands := by
    grind
  exact {
    kept
    hands := rfl
    reads := by
      intro pair inside
      rw [mem_singleton.mp inside]
      exact fun it_reads => balanced.reads (t, x) member (reads.symm.trans it_reads)
    wrote := by
      intro pair inside
      rw [mem_singleton.mp inside]
      exact balanced.wrote (t, x) member
    clients := by
      intro other inside
      rw [mem_singleton.mp inside, conn]
      exact balanced.clients t (by rw [only]; exact mem_singleton_self _)
    bare := balanced.bare
    account := by
      intro c found
      rcases balanced.account c found with exact_ | doomed
      · left
        rw [← exact_, pending, pending, hand]
        rfl
      · have busy : t ∈ d.view.tasks := by
          grind
        exact absurd doomed (not_doomed busy) }

theorem Balanced.report {t : Task} {x : Cargo} {left : List Conn} {w : MWrite} (fails : Prop)
    [Decidable fails] (hand : d.hands = [(t, x)]) (removes : fails → r.status = .remove)
    (put : r.status = .setEpollOut → d.view.action = none → w = x.w)
    (whole : r.status ≠ .setEpollOut → ¬ fails → x.w.rest = []) (kept : ({ d.view with
      tasks := [], left
      action := some (if fails then r else d.view.action.getD r) } : View).Kept phase) :
    ({ d with
      view := { d.view with
        tasks := [], left
        action := some (if fails then r else d.view.action.getD r) }
      hands := []
      result := w } : Desk).Balanced phase sent pushed := by
  have member : t ∈ d.view.tasks := by
    rw [← balanced.hands, hand]
    exact mem_singleton_self _
  have busy := (balanced.kept.task t member).1
  obtain ⟨closing, taken⟩ := balanced.kept.waits (ne_nil_of_mem member)
  refine ⟨kept, rfl, by simp, by simp, by simp, balanced.bare, ?_⟩
  intro c found
  by_cases failed : fails
  · right
    refine ⟨busy, rfl, ⟨?_, taken⟩, .inl rfl⟩
    rw [if_pos failed]
    exact View.closing_remove (removes failed)
  · cases before : d.view.action with
    | some r' =>
      right
      refine ⟨busy, rfl, ⟨?_, taken⟩, .inl rfl⟩
      rw [if_neg failed, getD_some]
      exact View.closing_remove (closing r' before)
    | none =>
      rcases balanced.account c found with exact_ | doomed
      · left
        rw [pending, hand, back_closing closing, back_closing taken] at exact_
        rw [← exact_, pending]
        dsimp only
        rw [if_neg failed, getD_none, back_closing taken]
        by_cases again : r.status = .setEpollOut
        · simp [back, again, put again before]
        · simp [back, again, whole again failed]
      · exact absurd doomed (not_doomed member)

theorem Balanced.rearm (taken : d.view.taken = some r) (open_ : r.status ≠ .remove)
    (owner : d.view.client = some r.conn) :
    ({ d with
      view := d.view.finish true
      awaiting :=
        if r.status = .setEpollOut then
          { d.handled with isOnWaitingEpollout := true } :: d.awaiting
        else d.awaiting } : Desk).Balanced phase sent pushed := { balanced with
  kept := balanced.kept.finish taken open_ true
  bare := fun nobody => by cases owner.symm.trans nobody
  account := by
    intro c found
    have closing := (balanced.kept.handled r taken open_).2
    rcases balanced.account c found with exact_ | doomed
    · left
      rw [← exact_, pending, pending, taken]
      dsimp only [View.finish]
      rw [back_closing closing, back_closing View.closing_none]
      by_cases again : r.status = .setEpollOut
      · simp [back, again, MWrite.rest]
      · simp [back, again]
    · exact absurd (doomed.closing.2 r taken) open_ }

theorem Balanced.push {pushed' : Conn → Bytes} (owner : d.view.client = some c) (msgs : List MWrite)
    (more : pushed' c = pushed c ++ msgs.flatMap MWrite.rest) :
    ({ d with awaiting := d.awaiting ++ msgs } : Desk).Balanced phase sent pushed' :=
  { balanced with
    bare := fun nobody => by cases owner.symm.trans nobody
    account := by
      intro other found
      cases owner.symm.trans found
      rcases balanced.account c owner with exact_ | doomed
      · left
        rw [more, ← exact_, pending, pending]
        simp
      · exact .inr ⟨doomed.busy, doomed.alone, doomed.closing, doomed.waits⟩ }

theorem Balanced.send {sent' : Conn → Bytes} {t : Task} {w after : MWrite} {bytes : Bytes}
    (hand : d.hands = [(t, ⟨w, none⟩)]) (writes : t.reads = false)
    (parts : w.rest = bytes ++ after.rest) (whole : status = .ok → after.rest = [])
    (more : sent' t.conn = sent t.conn ++ bytes) :
    ({ d with hands := [(t, ⟨after, some status⟩)] } : Desk).Balanced phase sent' pushed ∧
      sent' t.conn <+: pushed t.conn := by
  have only : d.view.tasks = [t] := by
    rw [← balanced.hands, hand]
    rfl
  have member : t ∈ d.view.tasks := by
    grind
  have owner := balanced.clients t member
  have later : sent' t.conn ++
      ({ d with hands := [(t, ⟨after, some status⟩)] } : Desk).pending = pushed t.conn := by
    have exact_ := (balanced.account t.conn owner).resolve_right (not_doomed member)
    rw [← exact_, more, pending, pending, hand]
    simp [parts]
  refine ⟨⟨balanced.kept, only.symm, ?_, ?_, balanced.clients, balanced.bare, ?_⟩, ⟨_, later⟩⟩
  · grind
  · intro pair inside done
    rw [mem_singleton.mp inside] at done ⊢
    exact whole (Option.some.inj done)
  · grind

end Desk

namespace State

section

variable {tasks : List Task} {cargos : List Cargo} {place : Nat} {t : Task} {x : Cargo} {fd : Fd}

theorem hands_split (found : tasks[place]? = some t) (carries : cargos[place]? = some x)
    (one : (hands tasks cargos fd).length ≤ 1) :
    (fd = t.fd → hands tasks cargos fd = [(t, x)]) ∧
      hands (tasks.eraseIdx place) (cargos.eraseIdx place) fd =
        (if fd = t.fd then [] else hands tasks cargos fd) ∧
      ∀ t' x', t'.fd = t.fd → hands (tasks.set place t') (cargos.set place x') fd =
        if fd = t.fd then [(t', x')] else hands tasks cargos fd := by
  have pair : (tasks.zip cargos)[place]? = some (t, x) :=
    getElem?_zip_eq_some.mpr ⟨found, carries⟩
  obtain ⟨only, erased, replaced⟩ := filter_place (fun pair : Task × Cargo => pair.1.fd) pair fd one
  refine ⟨only, ?_, fun t' x' at_ => ?_⟩
  · rw [hands, zip_eraseIdx]
    exact erased
  · rw [hands, zip_set]
    exact replaced (t', x') at_

theorem hands_append (paired : cargos.length = tasks.length) (t : Task) (x : Cargo) :
    hands (tasks ++ [t]) (cargos ++ [x]) fd =
      hands tasks cargos fd ++ if t.fd = fd then [(t, x)] else [] := by
  rw [hands, zip_append paired.symm, filter_append, hands]
  congr 1
  by_cases same : t.fd = fd <;> simp [same]

end

variable {det : Bytes} {o o' : State} {s' : EventLoop} {action : Action} {fd g : Fd} {c : Conn}

/-- What holds of the messages in any case. -/
structure Tallied (o : State) : Prop where
  numbered : o.loop.Numbered
  paired : o.cargos.length = o.loop.tasks.length
  /-- A connection is open on the descriptor it was accepted on. -/
  home : o.loop.Homed o.home
  fresh : o.loop.phase ≠ .stopped → ∀ c, o.loop.countAccepted < c → o.sent c = [] ∧ o.pushed c = []

theorem follow_frame (o : State) (action : Action) :
    (o.follow action).sent = o.sent ∧ (o.follow action).pushed = o.pushed ∧
      ((∀ place status left, action ≠ .taskFinish place status left) →
        (o.follow action).cargos = o.cargos) := by
  unfold follow
  split
  · exact ⟨rfl, rfl, fun _ => rfl⟩
  · split <;> exact ⟨rfl, rfl, fun _ => rfl⟩
  · split
    · split <;> exact ⟨rfl, rfl, fun _ => rfl⟩
    · exact ⟨rfl, rfl, fun _ => rfl⟩
  · split <;> exact ⟨rfl, rfl, fun _ => rfl⟩
  · exact ⟨rfl, rfl, fun other => absurd rfl (other _ _ _)⟩
  · exact ⟨rfl, rfl, fun _ => rfl⟩

theorem clear_frame (o : State) (closed : Option Fd) :
    (o.clear closed).sent = o.sent ∧ (o.clear closed).pushed = o.pushed ∧
      (o.clear closed).cargos = o.cargos := by
  cases closed <;> exact ⟨rfl, rfl, rfl⟩

theorem turn_frame (o : State) (action : Action) (s' : EventLoop) :
    (o.turn action s').sent = o.sent ∧ (o.turn action s').pushed = o.pushed := by
  obtain ⟨sent, pushed, -⟩ := o.follow_frame action
  obtain ⟨sent', pushed', -⟩ := (o.follow action).clear_frame (o.loop.removes action)
  exact ⟨sent'.trans sent, pushed'.trans pushed⟩

theorem Tallied.turn_paired (tallied : o.Tallied) (taken : o.loop.step action = some s') :
    (o.turn action s').cargos.length = s'.tasks.length := by
  obtain ⟨-, -, cleared⟩ := (o.follow action).clear_frame (o.loop.removes action)
  have fewer : (o.follow action).cargos.length ≤ s'.tasks.length := by
    by_cases ends : ∃ place status left, action = .taskFinish place status left
    · obtain ⟨place, status, left, rfl⟩ := ends
      cases took taken with
      | taskFinish =>
        show (o.cargos.eraseIdx place).length ≤ (o.loop.tasks.eraseIdx place).length
        rw [length_eraseIdx, length_eraseIdx, tallied.paired]
    · have other (place : Nat) (status : Todo) (left : Bool) :
          action ≠ .taskFinish place status left := fun same => ends ⟨place, status, left, same⟩
      rw [(o.follow_frame action).2.2 other, tallied.paired]
      exact tasks_length_le taken other
  rw [State.turn, cleared, length_append, length_replicate]
  exact Nat.add_sub_cancel' fewer

theorem Tallied.turn (tallied : o.Tallied) (taken : o.loop.step action = some s') :
    (o.turn action s').Tallied := by
  obtain ⟨sent, pushed⟩ := o.turn_frame action s'
  constructor
  · exact tallied.numbered.step taken
  · exact tallied.turn_paired taken
  · exact tallied.home.step tallied.numbered taken
  · rw [sent, pushed]
    show s'.phase ≠ .stopped → ∀ c, s'.countAccepted < c → _
    intro running c above
    cases turnover taken with
    | stays _ _ phase _ _ _ count =>
      grind [tallied.fresh]
    | closed _ _ before _ _ _ _ count =>
      grind [tallied.fresh]
    | accepted _ _ _ before _ _ _ count =>
      grind [tallied.fresh]
    | leaked _ _ _ _ phase => exact absurd phase running

/-- The account of a descriptor is kept. -/
def Balances (det : Bytes) (fd : Fd) (o : State) : Prop :=
  (o.desk fd).Balanced o.loop.phase o.sent (fun c => framed det (o.pushed c))

/-- What a step of the event loop leaves as it is, seen from one descriptor. -/
structure Beside (o : State) (s' : EventLoop) (fd : Fd) : Prop where
  tasks : s'.tasks = o.loop.tasks
  inProcess : s'.inProcess fd = o.loop.inProcess fd
  action : s'.actions.lookup fd = o.loop.actions.lookup fd
  taken : s'.mtActions.lookup fd = o.loop.mtActions.lookup fd
  client : s'.clients fd = o.loop.clients fd

theorem Tallied.turn_cargos (tallied : o.Tallied) (tasks : s'.tasks = o.loop.tasks)
    (cargos : ((o.follow action).clear (o.loop.removes action)).cargos = o.cargos) :
    (o.turn action s').cargos = o.cargos := by
  rw [State.turn, cargos, tasks, tallied.paired, Nat.sub_self, replicate_zero, append_nil]

theorem marked_desk (rest : List MWrite) (fd : Fd) :
    ({ o with
      loop := (o.loop.addToProcess g false).1
      awaiting := update o.awaiting g rest } : State).desk fd =
    if fd = g then { o.desk fd with view := (o.desk fd).view.mark, awaiting := rest }
    else o.desk fd := by
  have view := o.loop.addToProcess_view g fd
  by_cases at_ : fd = g
  · subst at_
    rw [if_pos rfl] at view ⊢
    simp only [desk, view, update_self]
    rfl
  · rw [if_neg at_] at view ⊢
    simp only [desk, view, update_of_ne at_]
    rfl

theorem begun_desk (tallied : o.Tallied) (reads : Bool) (x : Cargo) (rest : List MWrite) (fd : Fd) :
    ({ o with
      loop := (o.loop.addToProcess g true).1.pushTask g reads
      cargos := o.cargos ++ [x]
      awaiting := update o.awaiting g rest } : State).desk fd =
    if fd = g then
      { o.desk fd with
        view := (o.desk fd).view.start g reads
        hands := (o.desk fd).hands ++ [(⟨g, reads, (o.desk fd).view.opened.getD 0, []⟩, x)]
        awaiting := rest }
    else o.desk fd := by
  have view := o.loop.pushTask_view g fd reads
  have carried :
      hands ((o.loop.addToProcess g true).1.pushTask g reads).tasks (o.cargos ++ [x]) fd =
      _ := hands_append tallied.paired _ _
  by_cases at_ : fd = g
  · subst at_
    rw [if_pos rfl] at view ⊢
    rw [if_pos rfl] at carried
    simp only [desk, view, carried, update_self]
    rfl
  · rw [if_neg at_] at view ⊢
    rw [if_neg (Ne.symm at_), append_nil] at carried
    simp only [desk, view, carried, update_of_ne at_]

section

variable (balances : Balances det fd o) {place : Nat} {t : Task}

include balances

theorem Balances.one :
    (hands o.loop.tasks o.cargos fd).length ≤ 1 := by
  have same : (hands o.loop.tasks o.cargos fd).map Prod.fst = (o.loop.view fd).tasks :=
    balances.hands
  rw [← length_map Prod.fst, same]
  exact balances.kept.one

theorem Balances.mark (rest : List MWrite) (idle : o.loop.inProcess g = false)
    (acting : o.loop.phase ≠ .acting)
    (queue : rest.flatMap MWrite.rest = (o.awaiting g).flatMap MWrite.rest)
    (bare : o.awaiting g = [] → rest = []) :
    Balances det fd { o with
      loop := (o.loop.addToProcess g false).1
      awaiting := update o.awaiting g rest } := by
  rw [Balances, marked_desk]
  split
  · rename_i at_
    subst at_
    exact Desk.Balanced.mark balances rest idle (balances.kept.acting acting) queue bare
  · exact balances

theorem Balances.reported {loop : EventLoop} {x : Cargo} {left : Bool} {results : Fd → MWrite}
    (ended : loop = ({ o.loop with
      tasks := o.loop.tasks.eraseIdx place }).processFinished t status left)
    (found : o.loop.tasks[place]? = some t) (carries : o.cargos[place]? = some x)
    (others : ∀ g, g ≠ t.fd → results g = o.results g)
    (put : status = .setEpollOut → o.loop.actions.lookup t.fd = none → results t.fd = x.w)
    (whole : status ≠ .setEpollOut → status ≠ .remove → t.reads = true ∨ x.status = some .ok)
    (kept : Kept loop fd) :
    Balances det fd { o with loop, cargos := o.cargos.eraseIdx place, results } := by
  obtain ⟨hand, erased, -⟩ := hands_split found carries balances.one
  obtain ⟨rest, -, views⟩ := o.loop.processFinished_view found status left
  have view := views fd balances.kept.one
  have tasks : loop.tasks = o.loop.tasks.eraseIdx place := by rw [ended]; rfl
  have phase : loop.phase = o.loop.phase := by rw [ended]; rfl
  rw [← ended] at view
  rw [← tasks] at erased
  by_cases at_ : fd = t.fd
  · subst at_
    rw [if_pos rfl] at view erased
    have after : ({ o with loop, cargos := o.cargos.eraseIdx place, results } : State).desk t.fd =
        { o.desk t.fd with
          view := { (o.desk t.fd).view with
            tasks := [], left := rest
            action := some (if status = .remove then o.loop.result t status
              else (o.desk t.fd).view.action.getD (o.loop.result t status)) }
          hands := []
          result := results t.fd } := by
      simp only [desk, view, erased]
    have again : (o.loop.result t status).status = .setEpollOut ↔ status = .setEpollOut := by
      simp only [result]
      split
      · grind
      · exact Iff.rfl
    have member : (t, x) ∈ (o.desk t.fd).hands := by
      rw [show (o.desk t.fd).hands = [(t, x)] from hand rfl]
      exact mem_singleton_self _
    rw [Kept, view] at kept
    rw [Balances, after]
    dsimp only
    rw [phase] at kept ⊢
    apply Desk.Balanced.report balances (status = .remove) (hand rfl)
    · exact (o.loop.result_status_remove).mpr
    · exact fun waits => put (again.mp waits)
    · intro open_ succeeds
      rcases whole (fun waits => open_ (again.mpr waits)) succeeds with reads | ok
      · exact balances.reads (t, x) member reads
      · exact balances.wrote (t, x) member ok
    · exact kept
  · rw [if_neg at_] at view erased
    have after : ({ o with loop, cargos := o.cargos.eraseIdx place, results } : State).desk fd =
        o.desk fd := by
      simp only [desk, view, erased, others fd at_]
    rw [Balances, after]
    exact phase ▸ balances

theorem Balances.finish (stepped : o.step det (.finish place) = some o') : Balances det fd o' := by
  simp only [State.step] at stepped
  split at stepped
  · rename_i g conn bytes w status found carries
    obtain ⟨s', taken, rfl⟩ := map_eq_some_iff.mp stepped
    have before : Kept o.loop fd := balances.kept
    cases took taken with
    | @taskFinish _ t _ _ same may =>
      cases found.symm.trans same
      apply balances.reported rfl found carries _ _ _ (before.taskFinish found status false)
      · intro other differs
        split
        · exact update_of_ne differs ..
        · rfl
      · intro again free
        have there : (o.loop.actions.lookup g).isNone = true := by
          grind
        grind
      · intro again open_
        cases status with
        | ok => exact .inr rfl
        | okRead => cases may
        | okParsed => cases may
        | remove => exact absurd rfl open_
        | setEpollOut => exact absurd rfl again
  · cases stepped

theorem Balances.task_conn (member : t ∈ o.loop.tasks) (at_ : fd = t.fd) :
    o.loop.opened t.fd = some t.conn := by
  subst at_
  exact (balances.kept.task t (by simpa [desk, view] using member)).2.1

theorem Balances.send {w after : MWrite} {result : SendResult} {bytes : Bytes} (sent : Conn → Bytes)
    (found : o.loop.tasks[place]? = some t) (writes : t.reads = false)
    (carries : o.cargos[place]? = some ⟨w, none⟩)
    (called : w.send result = some (after, bytes, status))
    (here : fd = t.fd → sent t.conn = o.sent t.conn ++ bytes)
    (away : fd ≠ t.fd → ∀ c, o.loop.clients fd = some c → sent c = o.sent c) :
    Balances det fd { o with cargos := o.cargos.set place ⟨after, some status⟩, sent } ∧
      (fd = t.fd → sent t.conn <+: framed det (o.pushed t.conn)) := by
  obtain ⟨parts, whole⟩ := MWrite.send_rest called
  obtain ⟨hand, -, replaced⟩ := hands_split found carries balances.one
  have unset : o.loop.tasks.set place t = o.loop.tasks := by
    obtain ⟨low, rfl⟩ := List.getElem?_eq_some_iff.mp found
    exact List.set_getElem_self low
  have carried := replaced t ⟨after, some status⟩ rfl
  rw [unset] at carried
  by_cases at_ : fd = t.fd
  · rw [if_pos at_] at carried
    have after_ : ({ o with
        cargos := o.cargos.set place ⟨after, some status⟩, sent } : State).desk fd =
          { o.desk fd with hands := [(t, ⟨after, some status⟩)] } := by
      simp only [desk, carried]
    obtain ⟨balanced, ordered⟩ :=
      Desk.Balanced.send balances (hand at_) writes parts whole (here at_)
    refine ⟨?_, fun _ => ordered⟩
    rw [Balances, after_]
    exact balanced
  · rw [if_neg at_] at carried
    refine ⟨?_, fun same => absurd same at_⟩
    exact Desk.Balanced.quiet balances balances.kept rfl rfl rfl rfl rfl carried rfl rfl rfl id
      (fun c found => ⟨away at_ c found, rfl⟩)

variable (tallied : o.Tallied)

include tallied

theorem Balances.still (kept : Kept s' fd) (beside : Beside o s' fd) (awaiting : Fd → List MWrite)
    (followed : (o.follow action).clear (o.loop.removes action) = { o with awaiting })
    (queue : (awaiting fd).flatMap MWrite.rest = (o.awaiting fd).flatMap MWrite.rest)
    (bare : o.awaiting fd = [] → awaiting fd = []) : Balances det fd (o.turn action s') := by
  obtain ⟨sent, pushed⟩ := o.turn_frame action s'
  have cargos := tallied.turn_cargos beside.tasks (by rw [followed])
  refine Desk.Balanced.quiet balances kept beside.inProcess beside.action beside.taken
    beside.client ?_ ?_ ?_ ?_ ?_ ?_ ?_
  · exact congrArg (List.filter _) beside.tasks
  · show hands s'.tasks _ fd = hands o.loop.tasks o.cargos fd
    rw [cargos, beside.tasks]
  · show ((o.follow action).clear (o.loop.removes action)).results fd = _
    rw [followed]
    rfl
  · show ((o.follow action).clear (o.loop.removes action)).mtResults fd = _
    rw [followed]
    rfl
  · show (((o.follow action).clear (o.loop.removes action)).awaiting fd).flatMap _ = _
    rw [followed]
    exact queue
  · show o.awaiting fd = [] → ((o.follow action).clear (o.loop.removes action)).awaiting fd = []
    rw [followed]
    exact bare
  · intro c _
    grind

theorem Balances.removed (kept : Kept s' fd) (alone : fd = g → (o.loop.view fd).tasks = [])
    (tasks : s'.tasks = o.loop.tasks) (clients : s'.clients = update o.loop.clients g none)
    (beside : fd ≠ g → Beside o s' fd)
    (followed : (o.follow action).clear (o.loop.removes action) =
      { o with awaiting := update o.awaiting g [] }) : Balances det fd (o.turn action s') := by
  by_cases at_ : fd = g
  · have none_ := alone at_
    have cargos := tallied.turn_cargos tasks (by rw [followed])
    refine Desk.Balanced.closed kept ?_ ?_ ?_ ?_
    · show s'.tasks.filter _ = []
      rw [tasks]
      exact none_
    · show hands s'.tasks _ fd = []
      rw [cargos, tasks]
      exact Desk.Balanced.hands_nil balances none_
    · show s'.clients fd = none
      rw [clients, at_, update_self]
    · show ((o.follow action).clear (o.loop.removes action)).awaiting fd = []
      rw [followed, at_]
      exact update_self ..
  · exact balances.still tallied kept (beside at_) _ followed (by rw [update_of_ne at_])
      (by rw [update_of_ne at_]; exact id)

theorem Balances.begin (reads : Bool) (x : Cargo) (rest : List MWrite)
    (idle : o.loop.inProcess g = false) (acting : o.loop.phase ≠ .acting)
    (watched : (o.loop.interest g).isSome = true)
    (owner : fd = g → o.loop.clients g = some ((o.loop.opened g).getD 0))
    (nothing : reads = true → x.w.rest = []) (status : x.status = none)
    (queue : x.w.rest ++ rest.flatMap MWrite.rest = (o.awaiting g).flatMap MWrite.rest) :
    Balances det fd { o with
      loop := (o.loop.addToProcess g true).1.pushTask g reads
      cargos := o.cargos ++ [x]
      awaiting := update o.awaiting g rest } := by
  rw [Balances, begun_desk tallied]
  split
  · rename_i at_
    subst at_
    exact Desk.Balanced.start balances fd reads x rest idle
      (balances.kept.acting acting) watched (owner rfl) nothing status queue
  · exact balances

theorem Balances.mtRead {deleted : Bool} (acting : o.loop.phase ≠ .acting)
    (running : o.loop.phase ≠ .stopped) (possible : o.loop.canChange g deleted = true) :
    Balances det fd { o with
      loop := o.loop.mtRead g deleted
      cargos := o.cargos ++
        List.replicate ((o.loop.mtRead g deleted).tasks.length - o.cargos.length) {} } := by
  have unqueued : update o.awaiting g (o.awaiting g) = o.awaiting := update_eq_self ..
  rcases o.loop.mtRead_cases g deleted with same | ⟨idle, rfl, same⟩ | ⟨idle, same⟩
  · rw [same, tallied.paired, Nat.sub_self, replicate_zero, append_nil]
    exact balances
  · have owner : fd = g → o.loop.clients g = some ((o.loop.opened g).getD 0) := by
      rintro rfl
      obtain ⟨c, opened⟩ := isSome_iff_exists.mp (balances.kept.watch possible)
      rw [show o.loop.opened fd = some c from opened]
      exact tallied.numbered.owned running fd c opened
    have begun := balances.begin tallied true {} (o.awaiting g) idle acting possible owner
      (fun _ => rfl) rfl rfl
    have one : ((o.loop.addToProcess g true).1.pushTask g true).tasks.length - o.cargos.length =
        1 := by
      rw [tallied.paired]
      simp [pushTask, addToProcess]
    grind
  · have marked := balances.mark (o.awaiting g) idle acting rfl id
    rw [unqueued] at marked
    rw [same, show ((o.loop.addToProcess g false).1.tasks.length - o.cargos.length) = 0 by
      rw [tallied.paired]
      exact Nat.sub_self _, replicate_zero, append_nil]
    exact marked

theorem Balances.taskRead {place : Nat} {t : Task} {bytes : List Conn}
    (found : o.loop.tasks[place]? = some t)
    (kept : Kept { o.loop with tasks := o.loop.tasks.set place { t with bytes } } fd) :
    Balances det fd { o with
      loop := { o.loop with tasks := o.loop.tasks.set place { t with bytes } } } := by
  obtain ⟨low, -⟩ := List.getElem?_eq_some_iff.mp found
  obtain ⟨x, carries⟩ : ∃ x, o.cargos[place]? = some x :=
    ⟨_, List.getElem?_eq_getElem (tallied.paired ▸ low)⟩
  have unset : o.cargos.set place x = o.cargos := by
    grind [List.set_getElem_self]
  obtain ⟨hand, -, replaced⟩ := hands_split found carries balances.one
  have carried := replaced { t with bytes } x rfl
  rw [unset] at carried
  have tasks := (o.loop.tasks_view fd found balances.kept.one).2 { t with bytes } rfl
  by_cases at_ : fd = t.fd
  · rw [if_pos at_] at carried tasks
    have after : ({ o with
        loop := { o.loop with
          tasks := o.loop.tasks.set place { t with bytes } } } : State).desk fd =
          { o.desk fd with
            view := { (o.desk fd).view with tasks := [{ t with bytes }] }
            hands := [({ t with bytes }, x)] } := by
      simp only [desk, view, tasks, carried]
    have kept' : ({ (o.desk fd).view with tasks := [{ t with bytes }] } : View).Kept
        o.loop.phase := by
      rw [Kept, view, tasks] at kept
      exact kept
    rw [Balances, after]
    exact Desk.Balanced.read balances (hand at_) rfl rfl kept'
  · rw [if_neg at_] at carried tasks
    have after : ({ o with
        loop := { o.loop with
          tasks := o.loop.tasks.set place { t with bytes } } } : State).desk fd = o.desk fd := by
      simp only [desk, view, tasks, carried]
    rw [Balances, after]
    exact balances

theorem Balances.rearm {established : Bool} (acting : o.loop.phase = .acting)
    (taken : o.loop.mtActions.lookup g = some r) (open_ : r.status ≠ .remove) :
    Balances det fd
      (o.turn (.act g true established) (o.loop.act g r true established)) := by
  obtain ⟨sent, pushed⟩ := o.turn_frame (.act g true established)
    (o.loop.act g r true established)
  obtain ⟨interest, same⟩ := act_watched o.loop g established open_
  have tasks : (o.loop.act g r true established).tasks = o.loop.tasks := by
    rw [same]
    rfl
  have phase : (o.loop.act g r true established).phase = o.loop.phase := by
    rw [same]
    rfl
  have view : (o.loop.act g r true established).view fd =
      if fd = g then (o.loop.view fd).finish true else o.loop.view fd := by
    rw [same]
    exact o.loop.rearm_view g fd interest
  have followed : (o.follow (.act g true established)).clear
      (o.loop.removes (.act g true established)) =
        { o with
          awaiting :=
            if r.status = .setEpollOut then
              update o.awaiting g
                ({ o.mtResults g with isOnWaitingEpollout := true } :: o.awaiting g)
            else o.awaiting } := by
    have removes : o.loop.removes (.act g true established) = none := by
      simp [removes, taken, open_]
    rw [removes]
    simp only [State.clear, State.follow, taken, any_some, decide_eq_true_eq]
    split <;> rfl
  have cargos := tallied.turn_cargos tasks (by rw [followed])
  have after : (o.turn (.act g true established) (o.loop.act g r true established)).desk fd =
      if fd = g then
        { o.desk fd with
          view := (o.desk fd).view.finish true
          awaiting :=
            if r.status = .setEpollOut then
              { (o.desk fd).handled with isOnWaitingEpollout := true } :: (o.desk fd).awaiting
            else (o.desk fd).awaiting }
      else o.desk fd := by
    rw [desk, cargos, State.turn, followed]
    dsimp only
    rw [tasks, view]
    by_cases at_ : fd = g
    · subst at_
      rw [if_pos rfl, if_pos rfl]
      split
      · rw [update_self]
        rfl
      · rfl
    · rw [if_neg at_, if_neg at_]
      split
      · rw [update_of_ne at_]
        rfl
      · rfl
  rw [Balances, after, sent, pushed]
  show Desk.Balanced (o.loop.act g r true established).phase _ _ _
  rw [phase]
  split
  · rename_i at_
    subst at_
    have held := (balances.kept.handled r taken open_).1
    have owner := tallied.numbered.owned (by simp [acting]) fd r.conn held.opened
    exact Desk.Balanced.rearm balances taken open_ owner
  · exact balances

theorem Balances.act {r : Listen.Responce} {added established : Bool}
    (acting : o.loop.phase = .acting) (taken : o.loop.mtActions.lookup g = some r)
    (kept : Kept (o.loop.act g r added established) fd)
    (alone : (o.loop.act g r added established).opened fd = none → (o.loop.view fd).tasks = []) :
    Balances det fd (o.turn (.act g added established) (o.loop.act g r added established)) := by
  rcases closes_or_watched r added with closes | ⟨open_, rfl⟩
  · have cleared : (o.follow (.act g added established)).clear
        (o.loop.removes (.act g added established)) =
          { o with awaiting := update o.awaiting g [] } := by
      have removes : o.loop.removes (.act g added established) = some g := by
        rcases closes with removes | rfl
        · simp [EventLoop.removes, taken, removes]
        · simp [removes]
      rw [removes]
      simp only [State.follow, State.clear]
      split
      · rw [update_idem]
      · rfl
    rw [act_closed o.loop g established closes] at kept alone ⊢
    refine balances.removed tallied kept ?_ rfl rfl ?_ cleared
    · rintro rfl
      exact alone (update_self ..)
    · intro other
      exact ⟨rfl, update_of_ne other .., AList.lookup_erase_ne other, AList.lookup_erase_ne other,
        update_of_ne other ..⟩
  · exact balances.rearm tallied acting taken open_

theorem Balances.drain {modified : Bool} (draining : o.loop.phase = .draining g true)
    (kept : Kept (({ o.loop with phase := .handling }).drain g modified) fd) :
    Balances det fd (o.turn (.writable true modified)
      (({ o.loop with phase := .handling }).drain g modified)) := by
  have beside : Beside o (({ o.loop with phase := .handling }).drain g modified) fd := by
    rw [EventLoop.drain]
    split
    · exact ⟨rfl, rfl, rfl, rfl, rfl⟩
    · exact ⟨rfl, rfl, rfl, rfl, rfl⟩
  have removes : o.loop.removes (.writable true modified) = none := by
    simp [removes, draining]
  cases front : o.awaiting g with
  | nil =>
    refine balances.still tallied kept beside o.awaiting ?_ rfl id
    rw [removes]
    simp only [State.clear, State.follow, draining, front]
  | cons w msgs =>
    refine balances.still tallied kept beside
      (update o.awaiting g ({ w with isOnWaitingEpollout := false } :: msgs)) ?_ ?_ ?_
    · rw [removes]
      simp only [State.clear, State.follow, draining, front]
    · by_cases at_ : fd = g
      · subst at_
        simp [front, MWrite.rest]
      · rw [update_of_ne at_]
    · intro empty
      have other : fd ≠ g := by
        grind
      grind

theorem Balances.proceed (done : o.loop.proceed = some s') (kept : Kept s' fd) :
    Balances det fd (o.turn .proceed s') := by
  obtain ⟨⟨phase, checkIncoming, checkDataIncoming, events, queue, rfl, -⟩, -⟩ :=
    proceed_frame done
  have beside : Beside o { o.loop with
      phase, checkIncoming, checkDataIncoming, events, queue } fd := ⟨rfl, rfl, rfl, rfl, rfl⟩
  by_cases kicking : o.loop.phase = .kicking
  · have cleared : (if o.loop.inProcess fd ∨ (o.loop.clients fd).isSome then o.awaiting fd
        else []) = o.awaiting fd := by
      split
      · rfl
      · rename_i neither
        have nobody : o.loop.clients fd = none := by simpa using (not_or.mp neither).2
        exact (balances.bare nobody).symm
    apply balances.still tallied kept beside (fun fd =>
      if o.loop.inProcess fd ∨ (o.loop.clients fd).isSome then o.awaiting fd else [])
    · simp only [State.follow, kicking]
      rfl
    · rw [cleared]
    · rw [cleared]
      exact id
  · apply balances.still tallied kept beside o.awaiting
    · simp only [State.follow, kicking]
      rfl
    · rfl
    · exact id

theorem Balances.accept (handling : o.loop.phase = .handling) (closed : o.loop.opened g = none) :
    Balances det fd (o.turn (.accept g true) (o.loop.accept g)) := by
  have cargos : (o.turn (.accept g true) (o.loop.accept g)).cargos = o.cargos :=
    tallied.turn_cargos rfl rfl
  have view := o.loop.accept_view g fd
  by_cases at_ : fd = g
  · subst at_
    rw [if_pos rfl] at view
    have after : (o.turn (.accept fd true) (o.loop.accept fd)).desk fd =
        { o.desk fd with
          view := (o.desk fd).view.accept (o.loop.countAccepted + 1) true } := by
      rw [desk, cargos]
      show (⟨(o.loop.accept fd).view fd, _, _, _, _⟩ : Desk) = _
      rw [view]
      rfl
    have new := tallied.fresh (by simp [handling]) (o.loop.countAccepted + 1) (Nat.lt_succ_self _)
    rw [Balances, after]
    apply Desk.Balanced.accept balances closed (balances.kept.acting (by simp [handling]))
    exact ⟨new.1, by rw [new.2]; rfl⟩
  · rw [if_neg at_] at view
    have after : (o.turn (.accept g true) (o.loop.accept g)).desk fd = o.desk fd := by
      rw [desk, cargos]
      show (⟨(o.loop.accept g).view fd, _, _, _, _⟩ : Desk) = _
      rw [view]
      rfl
    rw [Balances, after]
    exact balances

theorem Balances.readFinish {left : Bool} (found : o.loop.tasks[place]? = some t)
    (reads : t.reads = true) (may : t.mayFinish status = true) (kept : Kept (({ o.loop with
      tasks := o.loop.tasks.eraseIdx place }).processFinished t status left) fd) :
    Balances det fd (o.turn (.taskFinish place status left)
      (({ o.loop with tasks := o.loop.tasks.eraseIdx place }).processFinished t status left)) := by
  obtain ⟨low, -⟩ := List.getElem?_eq_some_iff.mp found
  obtain ⟨x, carries⟩ : ∃ x, o.cargos[place]? = some x :=
    ⟨_, List.getElem?_eq_getElem (tallied.paired ▸ low)⟩
  have waits : status ≠ .setEpollOut := by
    rintro rfl
    simp [Task.mayFinish, reads] at may
  have none_ : (o.loop.tasks.eraseIdx place).length - (o.cargos.eraseIdx place).length = 0 := by
    rw [List.length_eraseIdx_of_lt low, List.length_eraseIdx_of_lt (tallied.paired ▸ low),
      tallied.paired, Nat.sub_self]
  have same : o.turn (.taskFinish place status left)
      (({ o.loop with tasks := o.loop.tasks.eraseIdx place }).processFinished t status left) =
        { o with
          loop :=
            ({ o.loop with tasks := o.loop.tasks.eraseIdx place }).processFinished t status left
          cargos := o.cargos.eraseIdx place } := by
    show { o with
      loop := ({ o.loop with tasks := o.loop.tasks.eraseIdx place }).processFinished t status left
      cargos := o.cargos.eraseIdx place ++ List.replicate
        ((o.loop.tasks.eraseIdx place).length - (o.cargos.eraseIdx place).length) ({} : Cargo) } = _
    rw [none_, List.replicate_zero, List.append_nil]
  rw [same]
  exact balances.reported rfl found carries (fun _ _ => rfl) (fun again => absurd again waits)
    (fun _ _ => .inl reads) kept

theorem Balances.turn (undisturbed : o.loop.Undisturbed fd action) (plain : o.plain action = true)
    (taken : o.loop.step action = some s') : Balances det fd (o.turn action s') := by
  have before : Kept o.loop fd := balances.kept
  have kept := before.step undisturbed taken
  have alone : s'.opened fd = none → (o.loop.view fd).tasks = [] := before.alone undisturbed taken
  have quiet {loop : EventLoop} (kept : Kept loop fd) (beside : Beside o loop fd) :
      Balances det fd { o with loop } := by
    refine Desk.Balanced.quiet balances kept beside.inProcess beside.action beside.taken
      beside.client ?_ ?_ rfl rfl rfl id (fun _ _ => ⟨rfl, rfl⟩)
    · exact congrArg (List.filter _) beside.tasks
    · show hands loop.tasks o.cargos fd = hands o.loop.tasks o.cargos fd
      rw [beside.tasks]
  have removed {g : Fd} (closed : s'.opened = update o.loop.opened g none)
      (tasks : s'.tasks = o.loop.tasks) (clients : s'.clients = update o.loop.clients g none)
      (actions : s'.actions = o.loop.actions.erase g)
      (inProcess : s'.inProcess = o.loop.inProcess) (mtActions : s'.mtActions = o.loop.mtActions)
      (followed : (o.follow action).clear (o.loop.removes action) =
        { o with awaiting := update o.awaiting g [] }) :
      Balances det fd (o.turn action s') := by
    refine balances.removed tallied kept ?_ tasks clients ?_ followed
    · rintro rfl
      apply alone
      rw [closed, update_self]
    · intro other
      refine ⟨tasks, congrFun inProcess fd, ?_, congrArg (AList.lookup fd) mtActions, ?_⟩
      · rw [actions, AList.lookup_erase_ne other]
      · rw [clients, update_of_ne other]
  cases took taken with
  | epollWait =>
    exact balances.still tallied kept ⟨rfl, rfl, rfl, rfl, rfl⟩ o.awaiting rfl rfl id
  | getActions woken =>
    have cargos : (o.turn .getActions
        { o.loop with phase := .acting, mtActions := o.loop.actions, actions := ∅ }).cargos =
          o.cargos := tallied.turn_cargos rfl rfl
    have collected : (o.desk fd).Balanced .woken o.sent (fun c => framed det (o.pushed c)) :=
      woken ▸ balances
    rw [Balances, desk, cargos]
    exact collected.collect
  | act acting _ found => exact balances.act tallied acting found kept alone
  | @peek g available deleted checking _ _ possible =>
    have looked : Kept { o.loop with checkIncoming := o.loop.checkIncoming.filter (· ≠ g) } fd :=
      before.quiet rfl rfl rfl rfl rfl rfl rfl id .inl
    cases available with
    | false => exact balances.still tallied kept ⟨rfl, rfl, rfl, rfl, rfl⟩ o.awaiting rfl rfl id
    | true =>
      have tallied' : ({ o with
          loop := { o.loop with checkIncoming := o.loop.checkIncoming.filter (· ≠ g) } } :
            State).Tallied :=
        ⟨tallied.numbered.same id rfl rfl rfl, tallied.paired, tallied.home, tallied.fresh⟩
      exact (quiet looked ⟨rfl, rfl, rfl, rfl, rfl⟩).mtRead tallied' (by simp [checking])
        (by simp [checking]) possible
  | accept handling closed => exact balances.accept tallied handling closed
  | leak => exact balances.still tallied kept ⟨rfl, rfl, rfl, rfl, rfl⟩ o.awaiting rfl rfl id
  | accepted => exact balances.still tallied kept ⟨rfl, rfl, rfl, rfl, rfl⟩ o.awaiting rfl rfl id
  | fails => exact balances.still tallied kept ⟨rfl, rfl, rfl, rfl, rfl⟩ o.awaiting rfl rfl id
  | @hangup g err epollin epollout events handling more =>
    have removes : o.loop.removes .hangup = some g := by
      simp [removes, more, Event.fd?]
    exact removed rfl rfl rfl rfl rfl rfl (by rw [removes]; rfl)
  | @readable g epollout checked deleted events handling more possible =>
    cases checked with
    | false =>
      have removes : o.loop.removes (.readable false deleted) = some g := by
        simp [removes, more, Event.fd?]
      exact removed rfl rfl rfl rfl rfl rfl (by rw [removes]; rfl)
    | true =>
      have popped : Kept { o.loop with phase := .draining g epollout, events } fd :=
        before.quiet rfl rfl rfl rfl rfl rfl rfl id (fun _ => .inl (by simp [handling]))
      have tallied' : ({ o with
          loop := { o.loop with phase := .draining g epollout, events } } : State).Tallied :=
        ⟨tallied.numbered.same (by simp [handling]) rfl rfl rfl, tallied.paired, tallied.home,
          fun _ => tallied.fresh (by simp [handling])⟩
      exact (quiet popped ⟨rfl, rfl, rfl, rfl, rfl⟩).mtRead tallied' (by simp) (by simp) possible
  | @writable g checked modified draining =>
    cases checked with
    | false =>
      have removes : o.loop.removes (.writable false modified) = some g := by
        simp [removes, draining]
      exact removed rfl rfl rfl rfl rfl rfl (by rw [removes]; rfl)
    | true => exact balances.drain tallied draining kept
  | push => cases plain
  | authorized => exact balances.still tallied kept ⟨rfl, rfl, rfl, rfl, rfl⟩ o.awaiting rfl rfl id
  | kick => exact removed rfl rfl rfl rfl rfl rfl rfl
  | write => cases plain
  | inactive => exact removed rfl rfl rfl rfl rfl rfl rfl
  | proceed done => exact balances.proceed tallied done kept
  | @taskRead place t c found =>
    have same : o.turn (.taskRead place)
        { o.loop with tasks := o.loop.tasks.set place { t with bytes := t.bytes ++ [c] } } =
        { o with
          loop := { o.loop with
            tasks := o.loop.tasks.set place { t with bytes := t.bytes ++ [c] } } } := by
      simp [State.turn, State.follow, State.clear, removes, homes,
        tallied.paired]
    rw [same]
    exact balances.taskRead tallied found kept
  | @taskFinish place t status left found may =>
    have reads : t.reads = true := by simpa [State.plain, found] using plain
    exact balances.readFinish tallied found reads may kept

theorem Balances.write {deleted : Bool} (stepped : o.step det (.write g deleted) = some o') :
    Balances det fd o' := by
  simp only [State.step] at stepped
  split at stepped
  · cases stepped
  · rename_i w msgs split_
    obtain ⟨s', taken, rfl⟩ := map_eq_some_iff.mp stepped
    have bytes := splitShortMessages_rest (o.awaiting g)
    rw [split_, flatMap_cons] at bytes
    cases took taken with
    | write writing idle _ client _ possible =>
      have acting : o.loop.phase ≠ .acting := by simp [writing]
      obtain ⟨c, owner⟩ := isSome_iff_exists.mp client
      have opened := tallied.numbered.owner g c owner
      rw [writeToFd, idle]
      cases deleted with
      | true =>
        apply balances.begin tallied false { w } msgs idle acting possible _ _ rfl bytes
        · grind
        · exact fun reads => by cases reads
      | false =>
        apply balances.mark (w :: msgs) idle acting bytes
        intro empty
        grind

theorem Balances.push (owner : o.loop.clients g = some c) (text : Bytes) (queue : Fd → List Bool) :
    Balances det fd { o with
      loop := { o.loop with queue }
      awaiting := update o.awaiting g
        (o.awaiting g ++ [{ msg := det }, { msg := text }, { msg := det }])
      pushed := update o.pushed c (o.pushed c ++ [text]) } := by
  by_cases at_ : fd = g
  · subst at_
    have after : ({ o with
        loop := { o.loop with queue }
        awaiting := update o.awaiting fd
          (o.awaiting fd ++ [{ msg := det }, { msg := text }, { msg := det }])
        pushed := update o.pushed c (o.pushed c ++ [text]) } : State).desk fd =
          { o.desk fd with
            awaiting := (o.desk fd).awaiting ++
              [{ msg := det }, { msg := text }, { msg := det }] } := by
      simp only [desk, update_self]
      rfl
    rw [Balances, after]
    apply Desk.Balanced.push balances owner
    simp [framed, MWrite.rest]
  · refine Desk.Balanced.quiet balances balances.kept rfl rfl rfl rfl rfl rfl rfl rfl ?_ ?_ ?_
    · simp [desk, update_of_ne at_]
    · simp [desk, update_of_ne at_]
    · intro d found
      have other : d ≠ c := by
        rintro rfl
        exact at_ (tallied.numbered.apart fd g d found owner)
      simp [update_of_ne other]

end

/-- What holds as long as a descriptor is not closed under a task. -/
structure Sound (det : Bytes) (fd : Fd) (o : State) : Prop where
  tallied : o.Tallied
  balances : Balances det fd o
  /-- What was sent to a connection of the descriptor is a beginning of what was pushed for it. -/
  ordered : ∀ c, o.home c = some fd → o.sent c <+: framed det (o.pushed c)

section

variable {place : Nat} (sound : Sound det fd o)

include sound

theorem Sound.turn (undisturbed : o.loop.Undisturbed fd action) (plain : o.plain action = true)
    (taken : o.loop.step action = some s') :
    Sound det fd (o.turn action s') := by
  obtain ⟨sent, pushed⟩ := o.turn_frame action s'
  refine ⟨sound.tallied.turn taken, sound.balances.turn sound.tallied undisturbed plain taken, ?_⟩
  intro c at_
  have at_ : o.loop.homes o.home action c = some fd := at_
  rw [sent, pushed]
  rcases o.loop.homes_cases o.home action with same | ⟨g, added, rfl, same⟩
  · rw [same] at at_
    exact sound.ordered c at_
  · rw [same] at at_
    by_cases new : c = o.loop.countAccepted + 1
    · have running : o.loop.phase ≠ .stopped := by
        cases took taken with
        | accept handling => simp [handling]
        | leak handling => simp [handling]
      obtain ⟨nothing, -⟩ := sound.tallied.fresh running c (by rw [new]; exact Nat.lt_succ_self _)
      grind
    · rw [update_of_ne new] at at_
      exact sound.ordered c at_

theorem Sound.push {text : Bytes} (stepped : o.step det (.push g text) = some o') :
    Sound det fd o' := by
  simp only [State.step] at stepped
  split at stepped
  · cases stepped
  · rename_i c owner
    obtain ⟨s', taken, rfl⟩ := map_eq_some_iff.mp stepped
    have numbered := sound.tallied.numbered.step taken
    cases took taken with
    | push =>
      refine ⟨⟨numbered, sound.tallied.paired, sound.tallied.home, ?_⟩,
        sound.balances.push sound.tallied owner text _, ?_⟩
      · intro running d above
        have other : d ≠ c := by
          rintro rfl
          exact absurd (sound.tallied.numbered.low g d owner) (Nat.not_le_of_lt above)
        simpa [update_of_ne other] using sound.tallied.fresh running d above
      · intro d at_
        have before := sound.ordered d at_
        dsimp only
        by_cases same : d = c
        · grind [framed]
        · grind

theorem Sound.send {result : SendResult} (stepped : o.step det (.send place result) = some o') :
    Sound det fd o' := by
  have tallied := sound.tallied
  have paired (x : Cargo) : (o.cargos.set place x).length = o.loop.tasks.length := by
    rw [length_set]
    exact tallied.paired
  simp only [State.step] at stepped
  split at stepped
  · rename_i g conn bytes w found carries
    have works := sound.balances.task_conn (mem_of_getElem? found)
    split at stepped
    · rename_i after taken status c called opened
      cases stepped
      obtain ⟨balances, longer⟩ := sound.balances.send
        (update o.sent c (o.sent c ++ taken)) found rfl carries called
        (fun at_ => by
          rw [show conn = c from Option.some.inj ((works at_).symm.trans opened), update_self])
        (fun at_ d owner => by
          apply update_of_ne
          rintro rfl
          have here := tallied.home fd d (tallied.numbered.owner fd d owner)
          exact at_ (Option.some.inj (here.symm.trans (tallied.home g d opened))))
      refine ⟨⟨tallied.numbered, paired _, tallied.home, ?_⟩, balances, ?_⟩
      · intro running d above
        have other : d ≠ c := by
          rintro rfl
          exact absurd (tallied.numbered.le_countAccepted running opened) (Nat.not_le_of_lt above)
        simpa [update_of_ne other] using tallied.fresh running d above
      · intro d at_
        by_cases same : d = c
        · subst same
          have home : fd = g := Option.some.inj (at_.symm.trans (tallied.home g d opened))
          have own : d = conn := Option.some.inj (opened.symm.trans (works home))
          grind
        · dsimp only
          rw [update_of_ne same]
          exact sound.ordered d at_
    · rename_i after status called closed
      cases stepped
      have balances := (sound.balances.send o.sent found rfl carries called
        (fun at_ => by cases closed.symm.trans (works at_)) (fun _ _ _ => rfl)).1
      exact ⟨⟨tallied.numbered, paired _, tallied.home, tallied.fresh⟩, balances, sound.ordered⟩
    · cases stepped
  · cases stepped

theorem Sound.write {deleted : Bool} (stepped : o.step det (.write g deleted) = some o') :
    Sound det fd o' := by
  have tallied := sound.tallied
  have balances := sound.balances.write tallied stepped
  simp only [State.step] at stepped
  split at stepped
  · cases stepped
  · obtain ⟨s', taken, rfl⟩ := map_eq_some_iff.mp stepped
    have numbered := tallied.numbered.step taken
    refine ⟨?_, balances, ?_⟩
    · cases took taken with
      | write writing idle =>
        rw [writeToFd, idle] at numbered ⊢
        cases deleted with
        | true =>
          refine ⟨numbered, ?_, tallied.home, fun running => tallied.fresh running⟩
          simp [pushTask, addToProcess, tallied.paired]
        | false =>
          exact ⟨numbered, tallied.paired, tallied.home, fun running => tallied.fresh running⟩
    · cases deleted <;> exact sound.ordered

theorem Sound.finish (stepped : o.step det (.finish place) = some o') : Sound det fd o' := by
  have tallied := sound.tallied
  have balances := sound.balances.finish stepped
  simp only [State.step] at stepped
  split at stepped
  · obtain ⟨s', taken, rfl⟩ := map_eq_some_iff.mp stepped
    have numbered := tallied.numbered.step taken
    refine ⟨?_, balances, sound.ordered⟩
    cases took taken with
    | taskFinish =>
      refine ⟨numbered, ?_, tallied.home, tallied.fresh⟩
      show (o.cargos.eraseIdx place).length = (o.loop.tasks.eraseIdx place).length
      rw [length_eraseIdx, length_eraseIdx, tallied.paired]
  · cases stepped

theorem Sound.step {deed : Deed} (undisturbed : o.Undisturbed fd deed)
    (stepped : o.step det deed = some o') : Sound det fd o' := by
  cases deed with
  | loop action =>
    simp only [State.step, ite_none_right_eq_some, map_eq_some_iff] at stepped
    obtain ⟨plain, s', taken, rfl⟩ := stepped
    exact sound.turn undisturbed plain taken
  | push g text => exact sound.push stepped
  | write g deleted => exact sound.write stepped
  | send place result => exact sound.send stepped
  | finish place => exact sound.finish stepped

end

theorem Sound.start (det : Bytes) (fd : Fd) : Sound det fd {} where
  tallied := ⟨.start, rfl, fun _ _ found => (by cases found), fun _ _ _ => ⟨rfl, rfl⟩⟩
  balances := .closed Kept.start rfl rfl rfl rfl
  ordered := by simp

/-- Along every run that does not close a descriptor while a task works on it, what the kernel has
taken for a connection of this descriptor is a beginning of the texts that were pushed for it, each
between its delimiters. While the connection lives, what the kernel has taken and what is still to
be sent is all of it, unless a removal waits for the descriptor. -/
theorem sent_prefix_pushed (reached : Reaches (State.step det) (State.Undisturbed fd) {} o) :
    (∀ c, o.home c = some fd → o.sent c <+: framed det (o.pushed c)) ∧
      ∀ c, o.loop.clients fd = some c →
        o.home c = some fd ∧
          (o.sent c ++ (o.desk fd).pending = framed det (o.pushed c) ∨ (o.desk fd).Doomed) := by
  have sound : Sound det fd o := by
    apply reached.invariant (Sound det fd) (Sound.start det fd)
    intro o deed o' sound undisturbed stepped
    exact sound.step undisturbed stepped
  refine ⟨sound.ordered, fun c owner => ⟨?_, sound.balances.account c owner⟩⟩
  exact sound.tallied.home fd c (sound.tallied.numbered.owner fd c owner)

/-- Two texts are pushed for a client and written as one message. Its socket takes six bytes of it,
and a third text is pushed before there is room for the rest. -/
def slowReceiver : List Deed :=
  List.map Deed.loop [.epollWait [.listening], .getActions, .proceed, .proceed, .accept 5 true,
    .accepted, .proceed] ++
  ([.push 5 [1, 2, 3], .push 5 [4], .loop .proceed, .loop .proceed, .write 5 true,
    .loop .proceed, .loop .proceed, .send 0 (.wrote 6), .finish 0] : List Deed) ++
  List.map Deed.loop [.epollWait [], .getActions, .act 5 true false, .proceed,
    .peek 5 false false, .proceed, .proceed] ++
  ([.push 5 [], .loop .proceed, .loop .proceed, .loop .proceed, .loop .proceed] : List Deed) ++
  List.map Deed.loop [.epollWait [.client 5 false false true], .getActions, .proceed, .proceed,
    .proceed, .writable true true, .proceed, .proceed, .proceed] ++
  ([.write 5 true, .send 0 (.wrote 1), .finish 0] : List Deed)

/-- Behind the second call the kernel has taken seven bytes, and three are still to be sent. -/
theorem sent_prefix_pushed_sample :
    ∃ o, Reaches (State.step [0]) (State.Undisturbed 5) {} o ∧
      (o.loop.clients 5 = some 1 ∧ o.sent 1 = [0, 1, 2, 3, 0, 0, 4] ∧
        (o.desk 5).pending = [0, 0, 0] ∧ o.pushed 1 = [[1, 2, 3], [4], []]) ∧
      (∀ c, o.home c = some 5 → o.sent c <+: framed [0] (o.pushed c)) ∧
        ∀ c, o.loop.clients 5 = some c →
          o.home c = some 5 ∧
            (o.sent c ++ (o.desk 5).pending = framed [0] (o.pushed c) ∨ (o.desk 5).Doomed) := by
  refine Reaches.of_runActions_and slowReceiver (by decide +kernel) ?_
  intro o reached _
  exact sent_prefix_pushed reached

end State

end RssDisk.Network.Outbox
