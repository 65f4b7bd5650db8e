import RssDisk.Lib.Places
import RssDisk.Network.Descriptor

/-!
# What a step can do

Every step of the event loop, read backwards: the action, what it needs, and the state behind it.
The invariants of the loop and of what is built on it are proved from this.
-/

namespace RssDisk.Network.Listen

open Lib Function Option EventLoop AList

/-- The steps of the event loop, of the kernel and of the pool. -/
inductive Took (s : EventLoop) : Action → EventLoop → Prop
  /-- `epoll_wait` returns the events of watched descriptors. -/
  | epollWait {events : List Event} (waiting : s.phase = .waiting)
      (once : (events.filterMap Event.fd?).Nodup) (happen : ∀ e ∈ events, s.canHappen e = true) :
      Took s (.epollWait events) { s with phase := .woken, events }
  | getActions (woken : s.phase = .woken) :
      Took s .getActions { s with phase := .acting, mtActions := s.actions, actions := ∅ }
  | act {fd : Fd} {r : Responce} {added established : Bool} (acting : s.phase = .acting)
      (possible : s.canAdd fd added = true) (found : s.mtActions.lookup fd = some r) :
      Took s (.act fd added established) (s.act fd r added established)
  | peek {fd : Fd} {available deleted : Bool} (checking : s.phase = .checking)
      (member : fd ∈ s.checkIncoming) (usable : s.canUse fd available = true)
      (possible : s.canChange fd deleted = true) :
      Took s (.peek fd available deleted)
        (if available then
          ({ s with checkIncoming := s.checkIncoming.filter (· ≠ fd) }).mtRead fd deleted
        else { s with checkIncoming := s.checkIncoming.filter (· ≠ fd) })
  /-- A connection is accepted on a descriptor that was closed. -/
  | accept {fd : Fd} (handling : s.phase = .handling) (closed : s.opened fd = none) :
      Took s (.accept fd true) (s.accept fd)
  | leak {fd : Fd} (handling : s.phase = .handling) (closed : s.opened fd = none) :
      Took s (.accept fd false)
        { s with phase := .stopped, opened := update s.opened fd (some (s.countAccepted + 1)) }
  | accepted {events : List Event} (handling : s.phase = .handling)
      (more : s.events = .listening :: events) : Took s .accepted { s with events }
  /-- `listen` gives up. -/
  | fails (phase : s.phase = .waiting ∨ s.phase = .handling) :
      Took s .fails { s with phase := .stopped }
  | hangup {fd : Fd} {err epollin epollout : Bool} {events : List Event}
      (handling : s.phase = .handling)
      (more : s.events = .client fd err epollin epollout :: events) :
      Took s .hangup (({ s with events }).remove fd)
  | readable {fd : Fd} {epollout checked deleted : Bool} {events : List Event}
      (handling : s.phase = .handling) (more : s.events = .client fd false true epollout :: events)
      (possible : s.canChange fd deleted = true) :
      Took s (.readable checked deleted)
        (if checked then ({ s with phase := .draining fd epollout, events }).mtRead fd deleted
        else ({ s with phase := .draining fd epollout, events }).remove fd)
  | writable {fd : Fd} {checked modified : Bool} (draining : s.phase = .draining fd true)
      (possible : s.canChange fd modified = true) :
      Took s (.writable checked modified)
        (if checked then ({ s with phase := .handling }).drain fd modified
        else ({ s with phase := .handling }).remove fd)
  | push {fd : Fd} (client : (s.clients fd).isSome = true) :
      Took s (.push fd)
        { s with queue := update s.queue fd (s.queue fd ++ [false, false, false]) }
  | authorized {fd : Fd} :
      Took s (.authorized fd)
        { s with awaitingAuthorize := update s.awaitingAuthorize fd false }
  | kick {fd : Fd} (kicking : s.phase = .kicking) (idle : s.inProcess fd = false) :
      Took s (.kick fd) (s.remove fd)
  | write {fd : Fd} {merged : Nat} {deleted : Bool} (writing : s.phase = .writing)
      (idle : s.inProcess fd = false) (ready : (s.queue fd).head? = some false)
      (client : (s.clients fd).isSome = true) (positive : 0 < merged)
      (possible : s.canChange fd deleted = true) :
      Took s (.write fd merged deleted) (s.writeToFd fd merged deleted)
  | inactive {fd : Fd} (sweeping : s.phase = .sweeping) : Took s (.inactive fd) (s.remove fd)
  | proceed {s' : EventLoop} (done : s.proceed = some s') : Took s .proceed s'
  | taskRead {place : Nat} {t : Task} {c : Conn} (found : s.tasks[place]? = some t)
      (connection : s.opened t.fd = some c) :
      Took s (.taskRead place)
        { s with tasks := s.tasks.set place { t with bytes := t.bytes ++ [c] } }
  | taskFinish {place : Nat} {t : Task} {status : Todo} {left : Bool}
      (found : s.tasks[place]? = some t) (may : t.mayFinish status = true) :
      Took s (.taskFinish place status left)
        (({ s with tasks := s.tasks.eraseIdx place }).processFinished t status left)

theorem EventLoop.took {s s' : EventLoop} {action : Action} (taken : s.step action = some s') :
    Took s action s' := by
  cases action <;> simp only [step, ite_none_right_eq_some, Option.some.injEq] at taken
  case epollWait events =>
    obtain ⟨⟨waiting, once, happen⟩, rfl⟩ := taken
    exact .epollWait waiting once (by simpa using happen)
  case getActions =>
    obtain ⟨woken, rfl⟩ := taken
    exact .getActions woken
  case act fd added established =>
    obtain ⟨⟨acting, possible⟩, taken⟩ := taken
    obtain ⟨r, found, rfl⟩ := map_eq_some_iff.mp taken
    exact .act acting possible found
  case peek fd available deleted =>
    obtain ⟨⟨checking, member, usable, possible⟩, rfl⟩ := taken
    exact .peek checking member usable possible
  case accept fd added =>
    split at taken
    · rename_i handling listening
      split at taken
      · rename_i closed
        have closed : s.opened fd = none := by simpa using closed
        cases added with
        | true =>
          cases taken
          exact .accept handling closed
        | false =>
          cases taken
          exact .leak handling closed
      · cases taken
    · cases taken
  case accepted =>
    split at taken
    · rename_i handling more
      cases taken
      exact .accepted handling more
    · cases taken
  case fails =>
    split at taken
    · rename_i waiting
      cases taken
      exact .fails (.inl waiting)
    · rename_i handling _
      cases taken
      exact .fails (.inr handling)
    · cases taken
  case hangup =>
    split at taken
    · rename_i handling more
      simp only [ite_none_right_eq_some, Option.some.injEq] at taken
      obtain ⟨-, rfl⟩ := taken
      exact .hangup handling more
    · cases taken
  case readable checked deleted =>
    split at taken
    · rename_i handling more
      simp only [ite_none_right_eq_some, Option.some.injEq] at taken
      obtain ⟨⟨-, possible⟩, rfl⟩ := taken
      exact .readable handling more possible
    · cases taken
  case writable checked modified =>
    split at taken
    · rename_i draining
      simp only [ite_none_right_eq_some, Option.some.injEq] at taken
      obtain ⟨⟨-, possible⟩, rfl⟩ := taken
      exact .writable draining possible
    · cases taken
  case push fd =>
    obtain ⟨⟨-, client⟩, rfl⟩ := taken
    exact .push client
  case authorized fd =>
    obtain ⟨-, rfl⟩ := taken
    exact .authorized
  case kick fd =>
    obtain ⟨⟨kicking, -, idle⟩, rfl⟩ := taken
    exact .kick kicking (by simpa using idle)
  case write fd merged deleted =>
    obtain ⟨⟨writing, idle, ready, client, positive, possible⟩, rfl⟩ := taken
    exact .write writing (by simpa using idle) ready client positive possible
  case inactive fd =>
    obtain ⟨⟨sweeping, -⟩, rfl⟩ := taken
    exact .inactive sweeping
  case proceed => exact .proceed taken
  case taskRead place =>
    split at taken
    · cases taken
    · rename_i t found
      simp only [ite_none_right_eq_some, map_eq_some_iff] at taken
      obtain ⟨-, c, connection, rfl⟩ := taken
      exact .taskRead found connection
  case taskFinish place status left =>
    split at taken
    · cases taken
    · rename_i t found
      simp only [ite_none_right_eq_some, Option.some.injEq] at taken
      obtain ⟨may, rfl⟩ := taken
      exact .taskFinish found may

theorem EventLoop.proceed_frame {s s' : EventLoop} (done : s.proceed = some s') :
    (∃ phase checkIncoming checkDataIncoming events queue,
      s' = { s with phase, checkIncoming, checkDataIncoming, events, queue } ∧
        (queue = s.queue ∨
          queue = fun fd => if s.inProcess fd ∨ (s.clients fd).isSome then s.queue fd else [])) ∧
      (s.phase ≠ .acting ∨ s.mtActions.keys = []) := by
  rw [proceed] at done
  split at done
  · split at done
    · grind
    · cases done
  · rename_i phase
    split at done
    · cases done
      exact ⟨⟨_, _, _, _, _, rfl, .inl rfl⟩, .inl (by simp [phase])⟩
    · cases done
  · rename_i phase
    split at done
    · cases done
      exact ⟨⟨_, _, _, _, _, rfl, .inl rfl⟩, .inl (by simp [phase])⟩
    · cases done
      exact ⟨⟨_, _, _, _, _, rfl, .inl rfl⟩, .inl (by simp [phase])⟩
    · cases done
  all_goals first
    | (cases done; done)
    | (rename_i phase
       cases done
       exact ⟨⟨_, _, _, _, _, rfl, .inl rfl⟩, .inl (by simp [phase])⟩)
    | (rename_i phase
       cases done
       exact ⟨⟨_, _, _, _, _, rfl, .inr rfl⟩, .inl (by simp [phase])⟩)

namespace EventLoop

variable (s : EventLoop) (g fd : Fd)

theorem remove_view :
    (s.remove g).view fd = if fd = g then (s.view fd).close else s.view fd := by
  by_cases same : fd = g
  · subst same
    simp [view, remove, View.close]
  · simp [view, remove, same, lookup_erase_ne]

theorem pushTask_view (reads : Bool) :
    ((s.addToProcess g true).1.pushTask g reads).view fd =
      if fd = g then (s.view fd).start g reads else s.view fd := by
  by_cases same : fd = g
  · subst same
    simp [view, addToProcess, pushTask, View.start]
  · simp [view, addToProcess, pushTask, same, Ne.symm same]

theorem addToProcess_view :
    (s.addToProcess g false).1.view fd = if fd = g then (s.view fd).mark else s.view fd := by
  by_cases same : fd = g
  · subst same
    simp [view, addToProcess, View.mark]
  · simp [view, addToProcess, same, lookup_insert_ne]

theorem accept_view :
    (s.accept g).view fd =
      if fd = g then (s.view fd).accept (s.countAccepted + 1) true else s.view fd := by
  by_cases same : fd = g
  · subst same
    simp [view, accept, View.accept]
  · simp [view, accept, same]

/-- A result is taken off the list, and its descriptor is not in process any more. -/
def ended : EventLoop :=
  ({ s with mtActions := s.mtActions.erase g }).processEnded g

theorem ended_view :
    (s.ended g).view fd = if fd = g then (s.view fd).finish (s.view fd).watched else s.view fd := by
  by_cases same : fd = g
  · subst same
    simp [view, ended, processEnded, View.finish]
  · simp [view, ended, processEnded, same, lookup_erase_ne]

theorem rearm_view (interest : Interest) :
    ((s.ended g).rearm g true interest).view fd =
      if fd = g then (s.view fd).finish true else s.view fd := by
  by_cases same : fd = g
  · subst same
    simp [view, rearm, ended, processEnded, View.finish]
  · simp [view, rearm, ended, processEnded, same, lookup_erase_ne]

theorem closes_or_watched (r : Responce) (added : Bool) :
    (r.status = .remove ∨ added = false) ∨ r.status ≠ .remove ∧ added = true := by
  rw [← Bool.not_eq_false, ← not_or]
  exact em _

theorem act_closed {r : Responce} {added : Bool} (established : Bool)
    (closes : r.status = .remove ∨ added = false) :
    s.act g r added established = (s.ended g).remove g := by
  have gone : ((s.ended g).remove g).take g r established = (s.ended g).remove g := by
    rw [take, show ((s.ended g).remove g).clients g = none from update_self ..]
  rcases closes with removes | rfl
  · rw [act, removes]
    rfl
  · rw [act]
    cases r.status with
    | ok => rfl
    | okRead => exact gone
    | okParsed => exact gone
    | remove => rfl
    | setEpollOut => simp [rearm, remove, ended, processEnded]

theorem act_watched {r : Responce} (established : Bool) (open_ : r.status ≠ .remove) :
    ∃ interest, s.act g r true established =
      { (s.ended g).rearm g true interest with
        queue :=
          if r.status = .setEpollOut then update s.queue g (true :: s.queue g) else s.queue
        parsed :=
          if r.status = .okRead ∨ r.status = .okParsed then
            s.parsed ++ ((s.clients g).map (fun c => (r.bytes, c))).toList
          else s.parsed
        encrypted :=
          if r.status = .okRead ∧ established = true ∧ (s.clients g).isSome = true then
            update s.encrypted g true
          else s.encrypted } := by
  rw [act]
  cases status : r.status with
  | ok => exact ⟨_, rfl⟩
  | okRead =>
    refine ⟨⟨true, !(s.queue g).isEmpty⟩, ?_⟩
    cases owner : s.clients g <;> simp [take, rearm, ended, processEnded, owner, status]
  | okParsed =>
    refine ⟨⟨true, !(s.queue g).isEmpty⟩, ?_⟩
    cases owner : s.clients g <;> simp [take, rearm, ended, processEnded, owner, status]
  | remove => exact absurd status open_
  | setEpollOut => exact ⟨_, rfl⟩

theorem tasks_view {place : Nat} {t : Task} (found : s.tasks[place]? = some t)
    (one : (s.view fd).tasks.length ≤ 1) :
    (s.tasks.eraseIdx place).filter (·.fd = fd) = (if fd = t.fd then [] else (s.view fd).tasks) ∧
    ∀ other, other.fd = t.fd → (s.tasks.set place other).filter (·.fd = fd) =
      if fd = t.fd then [other] else (s.view fd).tasks :=
  (filter_place Task.fd found fd one).2

/-- The result of a task: what was read on an encrypted connection comes with what was left
before. -/
def result (t : Task) (status : Todo) : Responce :=
  let parses := status = .okRead ∧ s.encrypted t.fd = true
  ⟨if parses then .okParsed else status, t.conn,
    if parses then s.messages t.fd ++ t.bytes else t.bytes⟩

theorem mem_result_bytes {t : Task} {status : Todo} {c : Conn}
    (member : c ∈ (s.result t status).bytes) : c ∈ s.messages t.fd ∨ c ∈ t.bytes := by
  simp only [result] at member
  split at member
  · exact List.mem_append.mp member
  · exact .inr member

theorem result_status_remove {t : Task} {status : Todo} :
    (s.result t status).status = .remove ↔ status = .remove := by
  simp only [result]
  split
  · grind
  · exact Iff.rfl

theorem processFinished_actions (t : Task) (status : Todo) (left : Bool) (fd : Fd) :
    (s.processFinished t status left).actions.lookup fd =
      if fd = t.fd then
        some (if status = .remove then s.result t status
          else (s.actions.lookup fd).getD (s.result t status))
      else s.actions.lookup fd := by
  show AList.lookup fd (if status = .remove then s.actions.insert t.fd (s.result t status)
    else UMap.emplace s.actions t.fd (s.result t status)) = _
  by_cases fails : status = .remove
  · rw [if_pos fails, if_pos fails]
    by_cases same : fd = t.fd
    · rw [same, if_pos rfl, lookup_insert]
    · rw [if_neg same, lookup_insert_ne same]
  · rw [if_neg fails, if_neg fails, UMap.lookup_emplace]
    by_cases same : fd = t.fd
    · rw [same, if_pos rfl]
    · rw [if_neg same, if_neg same]

theorem processFinished_view {place : Nat} {t : Task} (found : s.tasks[place]? = some t)
    (status : Todo) (left : Bool) :
    ∃ rest : List Conn, (∀ c ∈ rest, c ∈ s.messages t.fd ∨ c ∈ t.bytes) ∧
      ∀ fd, (s.view fd).tasks.length ≤ 1 →
        (({ s with tasks := s.tasks.eraseIdx place }).processFinished t status left).view fd =
        if fd = t.fd then
          { s.view fd with
            tasks := [], left := rest
            action := some (if status = .remove then s.result t status
              else (s.view fd).action.getD (s.result t status)) }
        else s.view fd := by
  let after := ({ s with tasks := s.tasks.eraseIdx place }).processFinished t status left
  let parses := status = .okRead ∧ s.encrypted t.fd = true
  let rest := if parses then if left then (s.result t status).bytes else [] else s.messages t.fd
  have remains : ∀ c ∈ rest, c ∈ s.messages t.fd ∨ c ∈ t.bytes := by
    intro c member
    by_cases parse : parses
    · rw [show rest = if left then (s.result t status).bytes else [] from if_pos parse] at member
      cases left with
      | true => exact s.mem_result_bytes member
      | false => cases member
    · grind
  have acted := ({ s with tasks := s.tasks.eraseIdx place }).processFinished_actions t status left
  have left_ : ∀ fd, after.messages fd = if fd = t.fd then rest else s.messages fd := by
    intro fd
    show (if parses then update s.messages t.fd (if left then (s.result t status).bytes else [])
      else s.messages) fd = _
    by_cases same : fd = t.fd
    · rw [same, if_pos rfl]
      by_cases parse : parses
      · rw [if_pos parse, update_self, show rest = _ from if_pos parse]
      · rw [if_neg parse, show rest = _ from if_neg parse]
    · rw [if_neg same]
      split
      · rw [update_of_ne same]
      · rfl
  refine ⟨rest, remains, fun fd one => ?_⟩
  obtain ⟨erased, _⟩ := s.tasks_view fd found one
  have view : after.view fd =
      { s.view fd with
        tasks := (s.tasks.eraseIdx place).filter (·.fd = fd)
        action := after.actions.lookup fd
        left := after.messages fd } := rfl
  rw [show EventLoop.view _ fd = after.view fd from rfl, view, erased, acted, left_]
  split <;> rfl

end EventLoop

namespace EventLoop

/-- The descriptor that a step closes. -/
def removes (s : EventLoop) : Action → Option Fd
  | .act fd added _ =>
    if (s.mtActions.lookup fd).any (fun r => r.status = .remove) || !added then some fd else none
  | .hangup => s.events.head?.bind Event.fd?
  | .readable checked _ => if checked then none else s.events.head?.bind Event.fd?
  | .writable checked _ =>
    match s.phase with
    | .draining fd _ => if checked then none else some fd
    | _ => none
  | .kick fd => some fd
  | .inactive fd => some fd
  | _ => none

/-- What a step does to the connections: one is closed, one is accepted, one is not taken, or they
stay as they are. -/
inductive Turnover (s : EventLoop) (action : Action) (s' : EventLoop) : Prop
  | closed (g : Fd) (removes : s.removes action = some g) (running : s.phase ≠ .stopped)
      (phase : s'.phase ≠ .stopped) (opened : s'.opened = update s.opened g none)
      (clients : s'.clients = update s.clients g none)
      (encrypted : s'.encrypted = update s.encrypted g false)
      (count : s'.countAccepted = s.countAccepted)
  | accepted (g : Fd) (same : action = .accept g true) (free : s.opened g = none)
      (running : s.phase ≠ .stopped)
      (opened : s'.opened = update s.opened g (some (s.countAccepted + 1)))
      (clients : s'.clients = update s.clients g (some (s.countAccepted + 1)))
      (encrypted : s'.encrypted = s.encrypted)
      (count : s'.countAccepted = s.countAccepted + 1)
  | leaked (g : Fd) (same : action = .accept g false) (free : s.opened g = none)
      (running : s.phase ≠ .stopped) (phase : s'.phase = .stopped)
      (opened : s'.opened = update s.opened g (some (s.countAccepted + 1)))
      (clients : s'.clients = s.clients) (encrypted : s'.encrypted = s.encrypted)
      (count : s'.countAccepted = s.countAccepted)
  | stays (removes : s.removes action = none) (other : ∀ g added, action ≠ .accept g added)
      (phase : s'.phase ≠ .stopped → s.phase ≠ .stopped) (opened : s'.opened = s.opened)
      (clients : s'.clients = s.clients)
      (encrypted : s'.encrypted = s.encrypted ∨
        ∃ g r, action = .act g true true ∧ s.mtActions.lookup g = some r ∧ r.status = .okRead ∧
          (s.clients g).isSome = true ∧ s'.encrypted = update s.encrypted g true)
      (count : s'.countAccepted = s.countAccepted)

variable {s s' : EventLoop} {action : Action}

theorem mtRead_cases (s : EventLoop) (g : Fd) (deleted : Bool) :
    s.mtRead g deleted = s ∨
      (s.inProcess g = false ∧ deleted = true ∧
        s.mtRead g deleted = (s.addToProcess g true).1.pushTask g true) ∨
      (s.inProcess g = false ∧ s.mtRead g deleted = (s.addToProcess g false).1) := by
  rw [mtRead]
  cases s.inProcess g with
  | true => exact .inl rfl
  | false =>
    cases deleted with
    | true => exact .inr (.inl ⟨rfl, rfl, rfl⟩)
    | false => exact .inr (.inr ⟨rfl, rfl⟩)

theorem mtRead_frame (s : EventLoop) (g : Fd) (deleted : Bool) :
    (s.mtRead g deleted).phase = s.phase ∧ (s.mtRead g deleted).opened = s.opened ∧
      (s.mtRead g deleted).clients = s.clients ∧
        (s.mtRead g deleted).encrypted = s.encrypted ∧
          (s.mtRead g deleted).countAccepted = s.countAccepted := by
  rcases s.mtRead_cases g deleted with same | ⟨-, -, same⟩ | ⟨-, same⟩ <;> rw [same] <;>
    exact ⟨rfl, rfl, rfl, rfl, rfl⟩

theorem turnover (taken : s.step action = some s') : Turnover s action s' := by
  cases took taken with
  | epollWait waiting =>
    exact .stays rfl (by simp) (by simp [waiting]) rfl rfl (.inl rfl) rfl
  | getActions woken =>
    exact .stays rfl (by simp) (by simp [woken]) rfl rfl (.inl rfl) rfl
  | @act g r added established acting possible found =>
    rcases closes_or_watched r added with closes | ⟨open_, rfl⟩
    · rw [act_closed s g established closes]
      refine .closed g ?_ (by simp [acting]) ?_ rfl rfl rfl rfl
      · rcases closes with removes | rfl
        · simp [EventLoop.removes, found, removes]
        · simp [removes]
      · simp [remove, ended, processEnded, acting]
    · obtain ⟨interest, same⟩ := act_watched s g established open_
      rw [same]
      refine .stays ?_ (by simp) (by simp [acting]) rfl rfl ?_ rfl
      · simp [removes, found, open_]
      · dsimp only
        split
        · grind
        · exact .inl rfl
  | @peek g available deleted checking =>
    have frame := mtRead_frame { s with checkIncoming := s.checkIncoming.filter (· ≠ g) } g deleted
    cases available with
    | false => exact .stays rfl (by simp) (by simp [checking]) rfl rfl (.inl rfl) rfl
    | true =>
      exact .stays rfl (by simp) (by simp [checking]) frame.2.1 frame.2.2.1
        (.inl frame.2.2.2.1) frame.2.2.2.2
  | @accept g handling closed =>
    exact .accepted g rfl closed (by simp [handling]) rfl rfl rfl rfl
  | @leak g handling closed =>
    exact .leaked g rfl closed (by simp [handling]) rfl rfl rfl rfl rfl
  | accepted handling =>
    exact .stays rfl (by simp) (by simp [handling]) rfl rfl (.inl rfl) rfl
  | fails phase => exact .stays rfl (by simp) (by simp) rfl rfl (.inl rfl) rfl
  | @hangup g err epollin epollout events handling more =>
    refine .closed g ?_ (by simp [handling]) ?_ rfl rfl rfl rfl
    · simp [removes, more, Event.fd?]
    · simp [remove, handling]
  | @readable g epollout checked deleted events handling more =>
    have frame := mtRead_frame { s with phase := .draining g epollout, events } g deleted
    cases checked with
    | false =>
      refine .closed g ?_ (by simp [handling]) ?_ rfl rfl rfl rfl
      · simp [removes, more, Event.fd?]
      · simp [remove]
    | true =>
      exact .stays rfl (by simp) (by simp [handling]) frame.2.1 frame.2.2.1
        (.inl frame.2.2.2.1) frame.2.2.2.2
  | @writable g checked modified draining =>
    cases checked with
    | false =>
      refine .closed g ?_ (by simp [draining]) ?_ rfl rfl rfl rfl
      · simp [removes, draining]
      · simp [remove]
    | true =>
      have same : s.removes (.writable true modified) = none := by
        simp [removes, draining]
      rw [if_pos rfl, drain]
      split
      · exact .stays same (by simp) (by simp [draining]) rfl rfl (.inl rfl) rfl
      · exact .stays same (by simp) (by simp [draining]) rfl rfl (.inl rfl) rfl
  | push => exact .stays rfl (by simp) id rfl rfl (.inl rfl) rfl
  | authorized => exact .stays rfl (by simp) id rfl rfl (.inl rfl) rfl
  | @kick g kicking =>
    exact .closed g rfl (by simp [kicking]) (by simp [remove, kicking]) rfl rfl rfl rfl
  | @write g merged deleted writing idle =>
    rw [writeToFd, idle]
    cases deleted <;> exact .stays rfl (by simp) (by simp [writing]) rfl rfl (.inl rfl) rfl
  | @inactive g sweeping =>
    exact .closed g rfl (by simp [sweeping]) (by simp [remove, sweeping]) rfl rfl rfl rfl
  | proceed done =>
    have running : s.phase ≠ .stopped := by
      intro stopped
      simp [proceed, stopped] at done
    obtain ⟨⟨_, _, _, _, _, rfl, -⟩, -⟩ := proceed_frame done
    exact .stays rfl (by simp) (fun _ => running) rfl rfl (.inl rfl) rfl
  | taskRead => exact .stays rfl (by simp) id rfl rfl (.inl rfl) rfl
  | taskFinish => exact .stays rfl (by simp) id rfl rfl (.inl rfl) rfl

theorem tasks_length_le (taken : s.step action = some s')
    (other : ∀ place status left, action ≠ .taskFinish place status left) :
    s.tasks.length ≤ s'.tasks.length := by
  have started (s : EventLoop) (g : Fd) (deleted : Bool) :
      s.tasks.length ≤ (s.mtRead g deleted).tasks.length := by
    rcases s.mtRead_cases g deleted with same | ⟨-, -, same⟩ | ⟨-, same⟩ <;> rw [same]
    · simp [pushTask, addToProcess]
    · exact Nat.le_refl _
  cases took taken with
  | @act g r added established acting possible found =>
    rcases closes_or_watched r added with closes | ⟨open_, rfl⟩
    · rw [act_closed s g established closes]
      exact Nat.le_refl _
    · obtain ⟨interest, same⟩ := act_watched s g established open_
      rw [same]
      exact Nat.le_refl _
  | @peek g available deleted =>
    cases available with
    | false => exact Nat.le_refl _
    | true => exact started { s with checkIncoming := s.checkIncoming.filter (· ≠ g) } g deleted
  | @readable g epollout checked deleted events =>
    cases checked with
    | false => exact Nat.le_refl _
    | true => exact started { s with phase := .draining g epollout, events } g deleted
  | @writable g checked modified =>
    cases checked with
    | false => exact Nat.le_refl _
    | true =>
      rw [if_pos rfl, drain]
      split <;> exact Nat.le_refl _
  | @write g merged deleted writing idle =>
    rw [writeToFd, idle]
    cases deleted with
    | false => exact Nat.le_refl _
    | true => simp [pushTask, addToProcess]
  | proceed done =>
    obtain ⟨⟨_, _, _, _, _, rfl, -⟩, -⟩ := proceed_frame done
    exact Nat.le_refl _
  | taskRead => simp
  | taskFinish => exact absurd rfl (other _ _ _)
  | _ => exact Nat.le_refl _

/-- A result waits in `actions` or in `mt_actions`. -/
def Waits (s : EventLoop) (fd : Fd) (r : Responce) : Prop :=
  s.actions.lookup fd = some r ∨ s.mtActions.lookup fd = some r

variable {fd g : Fd} {r : Responce}

theorem Waits.of_remove (waits : (s.remove g).Waits fd r) : s.Waits fd r := by
  by_cases same : fd = g
  · subst same
    simpa [Waits, remove] using Or.inr waits
  · simpa [Waits, remove, lookup_erase_ne same] using waits

theorem Waits.of_ended (waits : (s.ended g).Waits fd r) : s.Waits fd r := by
  by_cases same : fd = g
  · subst same
    simpa [Waits, ended, processEnded] using Or.inl waits
  · simpa [Waits, ended, processEnded, lookup_erase_ne same] using waits

theorem Waits.of_mark (waits : (s.addToProcess g false).1.Waits fd r) :
    s.Waits fd r ∨ r.status = .remove := by
  by_cases same : fd = g
  · subst same
    rcases waits with result | handled
    · simp [addToProcess] at result
      simp [← result]
    · exact .inl (.inr handled)
  · simpa [Waits, addToProcess, lookup_insert_ne same] using Or.inl waits

theorem Waits.of_mtRead {deleted : Bool} (waits : (s.mtRead g deleted).Waits fd r) :
    s.Waits fd r ∨ r.status = .remove := by
  rcases s.mtRead_cases g deleted with same | ⟨-, -, same⟩ | ⟨-, same⟩ <;> rw [same] at waits
  · exact .inl waits
  · exact .inl waits
  · exact waits.of_mark

theorem waits_cases (taken : s.step action = some s') (waits : s'.Waits fd r) :
    s.Waits fd r ∨ r.status = .remove ∨
      ∃ t status, t.fd = fd ∧ t.mayFinish status = true ∧ r = s.result t status := by
  cases took taken with
  | getActions =>
    rcases waits with result | handled
    · cases result
    · exact .inl (.inl handled)
  | @act g r' added established =>
    rcases closes_or_watched r' added with closes | ⟨open_, rfl⟩
    · rw [act_closed s g established closes] at waits
      exact .inl waits.of_remove.of_ended
    · obtain ⟨interest, same⟩ := act_watched s g established open_
      rw [same] at waits
      have waits : (s.ended g).Waits fd r := waits
      exact .inl waits.of_ended
  | @peek g available deleted =>
    cases available with
    | false => exact .inl waits
    | true =>
      have waits : (({ s with
        checkIncoming := s.checkIncoming.filter (· ≠ g) } : EventLoop).mtRead g deleted).Waits
          fd r := waits
      exact waits.of_mtRead.imp id .inl
  | hangup =>
    left
    exact Waits.of_remove (s := { s with events := _ }) waits
  | @readable g epollout checked deleted events =>
    cases checked with
    | false =>
      left
      exact Waits.of_remove (s := { s with phase := .draining g epollout, events }) waits
    | true =>
      exact (Waits.of_mtRead (s := { s with phase := .draining g epollout, events }) waits).imp
        id .inl
  | @writable g checked modified =>
    left
    cases checked with
    | false => exact Waits.of_remove (s := { s with phase := .handling }) waits
    | true =>
      rw [if_pos rfl, drain] at waits
      split at waits <;> exact waits
  | kick => exact .inl waits.of_remove
  | @write g merged deleted writing idle =>
    rw [writeToFd, idle] at waits
    cases deleted with
    | false =>
      have waits : (s.addToProcess g false).1.Waits fd r := waits
      exact waits.of_mark.imp id .inl
    | true => exact .inl waits
  | inactive => exact .inl waits.of_remove
  | proceed done =>
    obtain ⟨⟨_, _, _, _, _, rfl, -⟩, -⟩ := proceed_frame done
    exact .inl waits
  | @taskFinish place t status left found may =>
    rcases waits with result | handled
    · rw [processFinished_actions] at result
      split at result
      · rename_i same
        subst same
        have finished : s.result t status = r → ∃ t' status', t'.fd = t.fd ∧
            t'.mayFinish status' = true ∧ r = s.result t' status' :=
          fun here => ⟨t, status, rfl, may, here.symm⟩
        have result := Option.some.inj result
        split at result
        · exact .inr (.inr (finished result))
        · cases before : s.actions.lookup t.fd with
          | none =>
            rw [show AList.lookup t.fd _ = none from before] at result
            exact .inr (.inr (finished result))
          | some r' =>
            rw [show AList.lookup t.fd _ = some r' from before] at result
            exact .inl (.inl (before.trans (congrArg some result)))
      · exact .inl (.inl result)
    · exact .inl (.inr handled)
  | _ => exact .inl waits

/-- Clients are numbered, and each has one descriptor. -/
structure Numbered (s : EventLoop) : Prop where
  low : ∀ fd c, s.clients fd = some c → c ≤ s.countAccepted
  apart : ∀ fd fd' c, s.clients fd = some c → s.clients fd' = some c → fd = fd'
  owner : ∀ fd c, s.clients fd = some c → s.opened fd = some c
  owned : s.phase ≠ .stopped → ∀ fd c, s.opened fd = some c → s.clients fd = some c

theorem Numbered.start : Numbered {} := by
  constructor <;> simp

theorem Numbered.same (numbered : s.Numbered) (phase : s'.phase ≠ .stopped → s.phase ≠ .stopped)
    (opened : s'.opened = s.opened) (clients : s'.clients = s.clients)
    (count : s'.countAccepted = s.countAccepted) : s'.Numbered where
  low := by
    rw [clients, count]
    exact numbered.low
  apart := by
    rw [clients]
    exact numbered.apart
  owner := by
    rw [clients, opened]
    exact numbered.owner
  owned := by
    intro running
    rw [clients, opened]
    exact numbered.owned (phase running)

theorem Numbered.step (numbered : s.Numbered) (taken : s.step action = some s') : s'.Numbered := by
  cases turnover taken with
  | stays _ _ phase opened clients _ count => exact numbered.same phase opened clients count
  | closed g _ running _ opened clients _ count =>
    constructor <;> simp only [clients, opened, count, update_none_eq_some]
    · exact fun fd c found => numbered.low fd c found.2
    · exact fun fd fd' c found found' => numbered.apart fd fd' c found.2 found'.2
    · exact fun fd c found => ⟨found.1, numbered.owner fd c found.2⟩
    · exact fun _ fd c found => ⟨found.1, numbered.owned running fd c found.2⟩
  | accepted g _ free running opened clients _ count =>
    constructor <;> simp only [clients, opened, count, update_some_eq_some]
    · rintro fd c (⟨-, rfl⟩ | ⟨-, found⟩)
      · exact Nat.le_refl _
      · exact Nat.le_succ_of_le (numbered.low fd c found)
    · rintro fd fd' c (⟨rfl, rfl⟩ | ⟨-, old⟩) (⟨rfl, new⟩ | ⟨-, old'⟩)
      · rfl
      · exact absurd (numbered.low fd' _ old') (Nat.not_succ_le_self _)
      · rw [new] at old
        exact absurd (numbered.low fd _ old) (Nat.not_succ_le_self _)
      · exact numbered.apart fd fd' c old old'
    · exact fun fd c found => found.imp_right (fun old => ⟨old.1, numbered.owner fd c old.2⟩)
    · exact fun _ fd c found =>
        found.imp_right (fun old => ⟨old.1, numbered.owned running fd c old.2⟩)
  | leaked g _ free running phase opened clients _ count =>
    constructor
    · rw [clients, count]
      exact numbered.low
    · rw [clients]
      exact numbered.apart
    · intro fd c found
      rw [clients] at found
      have open_ := numbered.owner fd c found
      have other : fd ≠ g := by
        grind
      rw [opened, update_of_ne other]
      exact open_
    · exact fun running => absurd phase running

theorem Numbered.le_countAccepted (numbered : s.Numbered) (running : s.phase ≠ .stopped) {fd : Fd}
    {c : Conn} (opened : s.opened fd = some c) : c ≤ s.countAccepted :=
  numbered.low fd c (numbered.owned running fd c opened)

/-- The descriptors that the connections were accepted on, behind a step. -/
def homes (s : EventLoop) (home : Conn → Option Fd) : Action → Conn → Option Fd
  | .accept fd _ => update home (s.countAccepted + 1) (some fd)
  | _ => home

/-- Every connection is open on the descriptor it was accepted on. -/
def Homed (s : EventLoop) (home : Conn → Option Fd) : Prop :=
  ∀ fd c, s.opened fd = some c → home c = some fd

theorem homes_cases (s : EventLoop) (home : Conn → Option Fd) (action : Action) :
    s.homes home action = home ∨ ∃ g added, action = .accept g added ∧
      s.homes home action = update home (s.countAccepted + 1) (some g) := by
  cases action with
  | accept g added => exact .inr ⟨g, added, rfl, rfl⟩
  | _ => exact .inl rfl

theorem Homed.step {home : Conn → Option Fd} (homed : s.Homed home) (numbered : s.Numbered)
    (taken : s.step action = some s') : s'.Homed (s.homes home action) := by
  -- a new connection gets a number that no open connection has
  have new {g : Fd} (running : s.phase ≠ .stopped)
      (opened : s'.opened = update s.opened g (some (s.countAccepted + 1))) :
      s'.Homed (update home (s.countAccepted + 1) (some g)) := by
    intro fd c found
    rw [opened, update_some_eq_some] at found
    rcases found with ⟨rfl, rfl⟩ | ⟨-, found⟩
    · exact update_self ..
    · have old : c ≠ s.countAccepted + 1 := by
        rintro rfl
        exact absurd (numbered.le_countAccepted running found) (Nat.not_succ_le_self _)
      rw [update_of_ne old]
      exact homed fd c found
  cases turnover taken with
  | stays _ other _ opened =>
    rcases s.homes_cases home action with same | ⟨g, added, accepts, -⟩
    · rw [same, Homed, opened]
      exact homed
    · exact absurd accepts (other g added)
  | closed g removes _ _ opened =>
    rcases s.homes_cases home action with same | ⟨g, added, rfl, -⟩
    · rw [same]
      intro fd c found
      rw [opened, update_none_eq_some] at found
      exact homed fd c found.2
    · cases removes
  | accepted g same _ running opened =>
    subst same
    exact new running opened
  | leaked g same _ running _ opened =>
    subst same
    exact new running opened

/-- What is known of the connections that were accepted. -/
structure Settled (s : EventLoop) (home : Conn → Option Fd) : Prop where
  numbered : s.Numbered
  /-- A connection is open on the descriptor it was accepted on. -/
  homed : s.Homed home
  known : s.phase ≠ .stopped → ∀ c fd, home c = some fd → c ≤ s.countAccepted

namespace Settled

variable {home : Conn → Option Fd} {fd : Fd} {c : Conn}

theorem start : Settled {} (fun _ => none) :=
  ⟨.start, fun _ _ found => (by cases found), fun _ _ _ found => (by cases found)⟩

theorem client_home (settled : s.Settled home) (client : s.clients fd = some c) :
    home c = some fd :=
  settled.homed fd c (settled.numbered.owner fd c client)

theorem unknown (settled : s.Settled home) (running : s.phase ≠ .stopped) :
    home (s.countAccepted + 1) = none := by
  cases found : home (s.countAccepted + 1) with
  | none => rfl
  | some fd => exact absurd (settled.known running _ fd found) (Nat.not_succ_le_self _)

theorem running_of_accept {added : Bool} (taken : s.step (.accept fd added) = some s') :
    s.phase ≠ .stopped := by
  cases took taken with
  | accept handling => simp [handling]
  | leak handling => simp [handling]

section

variable (settled : s.Settled home) (taken : s.step action = some s')

include settled taken

theorem homes_eq (c : Conn) : s.homes home action c = home c ∨ home c = none := by
  rcases s.homes_cases home action with same | ⟨g, added, rfl, same⟩
  · exact .inl (congrFun same c)
  · by_cases new : c = s.countAccepted + 1
    · rw [new]
      exact .inr (settled.unknown (running_of_accept taken))
    · rw [same]
      exact .inl (update_of_ne new ..)

theorem homes_some (at_ : home c = some fd) : s.homes home action c = some fd := by
  rcases settled.homes_eq taken c with same | none_
  · rw [same, at_]
  · cases none_.symm.trans at_

theorem client_cases (client : s'.clients fd = some c) :
    s.clients fd = some c ∨ (action = .accept fd true ∧ home c = none) := by
  cases turnover taken with
  | stays _ _ _ _ clients =>
    rw [clients] at client
    exact .inl client
  | closed g _ _ _ _ clients =>
    rw [clients, update_none_eq_some] at client
    exact .inl client.2
  | accepted g same _ running _ clients =>
    rw [clients, update_some_eq_some] at client
    rcases client with ⟨rfl, rfl⟩ | ⟨-, client⟩
    · exact .inr ⟨same, settled.unknown running⟩
    · exact .inl client
  | leaked _ _ _ _ _ _ clients =>
    rw [clients] at client
    exact .inl client

theorem step : s'.Settled (s.homes home action) := by
  refine ⟨settled.numbered.step taken, settled.homed.step settled.numbered taken, ?_⟩
  intro running c fd at_
  have same (other : ∀ g added, action ≠ .accept g added) : s.homes home action = home := by
    rcases s.homes_cases home action with same | ⟨g, added, accepts, -⟩
    · exact same
    · exact absurd accepts (other g added)
  cases turnover taken with
  | stays _ other phase _ _ _ count =>
    rw [same other] at at_
    rw [count]
    exact settled.known (phase running) c fd at_
  | closed g removes before _ _ _ _ count =>
    have other (g : Fd) (added : Bool) : action ≠ .accept g added := by
      rintro rfl
      cases removes
    rw [same other] at at_
    rw [count]
    exact settled.known before c fd at_
  | accepted g accepts _ before _ _ _ count =>
    subst accepts
    rw [count]
    by_cases new : c = s.countAccepted + 1
    · exact Nat.le_of_eq new
    · have at_ : update home (s.countAccepted + 1) (some g) c = some fd := at_
      rw [update_of_ne new] at at_
      exact Nat.le_succ_of_le (settled.known before c fd at_)
  | leaked _ _ _ _ phase => exact absurd phase running

end

theorem same (settled : s.Settled home) (phase : s'.phase ≠ .stopped → s.phase ≠ .stopped)
    (opened : s'.opened = s.opened) (clients : s'.clients = s.clients)
    (count : s'.countAccepted = s.countAccepted) : s'.Settled home := by
  refine ⟨settled.numbered.same phase opened clients count, ?_, ?_⟩
  · rw [Homed, opened]
    exact settled.homed
  · rw [count]
    exact fun running => settled.known (phase running)

end Settled

end EventLoop

end RssDisk.Network.Listen
