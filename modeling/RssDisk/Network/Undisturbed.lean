import RssDisk.Network.Steps

/-!
# Descriptors that are not closed under a task

When a descriptor is not closed while a task works on it, a task works on the connection it was
started for, its result is handled for that connection, and what it has read comes from that
connection. Beside a task only a removal can be waiting: `add_to_process` has failed, and the
connection will be closed.
-/

namespace RssDisk.Network.Listen

open Lib Function List EventLoop

/-- A step that does not close a descriptor while a task works on it. -/
def EventLoop.Undisturbed (s : EventLoop) (fd : Fd) (action : Action) : Prop :=
  ∀ s', s.step action = some s' → ∀ t ∈ s.tasks, t.fd = fd → s'.opened fd = s.opened fd

instance (s : EventLoop) (fd : Fd) (action : Action) : Decidable (s.Undisturbed fd action) :=
  match taken : s.step action with
  | none => isTrue (fun s' possible => by cases taken.symm.trans possible)
  | some after =>
    decidable_of_iff (∀ t ∈ s.tasks, t.fd = fd → after.opened fd = s.opened fd)
      ⟨fun kept s' possible => Option.some.inj (taken.symm.trans possible) ▸ kept,
        fun kept => kept after taken⟩

namespace View

/-- A result of a task belongs to the connection that is in process. -/
structure Holds (v : View) (r : Responce) : Prop where
  busy : v.inProcess = true
  opened : v.opened = some r.conn
  bytes : ∀ c ∈ r.bytes, c = r.conn

/-- If something is waiting, it is a removal. -/
def Closing (waiting : Option Responce) : Prop :=
  ∀ r, waiting = some r → r.status = .remove

/-- What holds of every descriptor that is not closed under a task. -/
structure Kept (phase : Phase) (v : View) : Prop where
  one : v.tasks.length ≤ 1
  task : ∀ t ∈ v.tasks, v.inProcess = true ∧ v.opened = some t.conn ∧ ∀ c ∈ t.bytes, c = t.conn
  waits : v.tasks ≠ [] → Closing v.action ∧ Closing v.taken
  result : ∀ r, v.action = some r → r.status ≠ .remove → v.Holds r
  handled : ∀ r, v.taken = some r → r.status ≠ .remove → v.Holds r ∧ Closing v.action
  watch : v.watched = true → v.opened.isSome
  owner : ∀ c, v.client = some c → v.opened = some c
  rest : ∀ c ∈ v.left, v.opened = some c
  acting : phase ≠ .acting → v.taken = none

variable {v : View} {phase : Phase}

theorem closing_none : Closing none := fun r found => by cases found

theorem closing_remove {r : Responce} (removes : r.status = .remove) : Closing (some r) :=
  fun _ found => Option.some.inj found ▸ removes

theorem Kept.takeActions (kept : v.Kept .woken) :
    ({ v with taken := v.action, action := none } : View).Kept .acting := { kept with
  waits := fun busy => ⟨closing_none, (kept.waits busy).1⟩
  result := fun r found => by cases found
  handled := fun r found open_ =>
    have held := kept.result r found open_
    ⟨⟨held.busy, held.opened, held.bytes⟩, closing_none⟩
  acting := fun other => absurd rfl other }

theorem Kept.close (alone : v.tasks = []) (done : v.taken = none) : v.close.Kept phase where
  one := by simp [View.close, alone]
  task := fun t member => by
    rw [show v.close.tasks = [] from alone] at member
    cases member
  waits := fun busy => absurd alone busy
  result := fun r found => by cases found
  handled := fun r found => by cases done.symm.trans found
  watch := fun watched => by cases watched
  owner := fun c found => by cases found
  rest := fun c member => by cases member
  acting := fun _ => done

variable (kept : v.Kept phase)

include kept

theorem Kept.of_idle (idle : v.inProcess = false) :
    v.tasks = [] ∧ Closing v.action ∧ Closing v.taken := by
  refine ⟨?_, ?_, ?_⟩
  · apply eq_nil_iff_forall_not_mem.mpr
    intro t member
    cases idle.symm.trans (kept.task t member).1
  · intro r found
    by_contra open_
    cases idle.symm.trans (kept.result r found open_).busy
  · intro r found
    by_contra open_
    cases idle.symm.trans (kept.handled r found open_).1.busy

theorem Kept.of_closed (closed : v.opened = none) : v.tasks = [] ∧ Closing v.action := by
  refine ⟨?_, ?_⟩
  · apply eq_nil_iff_forall_not_mem.mpr
    intro t member
    cases closed.symm.trans (kept.task t member).2.1
  · intro r found
    by_contra open_
    cases closed.symm.trans (kept.result r found open_).opened

theorem Kept.section_ {v' : View} {phase' : Phase} (opened : v'.opened = v.opened)
    (inProcess : v'.inProcess = v.inProcess) (action : v'.action = v.action)
    (taken : v'.taken = v.taken) (client : v'.client = v.client) (left : v'.left = v.left)
    (tasks : v'.tasks = v.tasks) (watch : v'.watched = true → v.opened.isSome)
    (acting : phase' ≠ .acting → v.taken = none) : v'.Kept phase' where
  one := tasks ▸ kept.one
  task := by
    rw [tasks, opened, inProcess]
    exact kept.task
  waits := by
    rw [tasks, action, taken]
    exact kept.waits
  result := by
    intro r found open_
    have held := kept.result r (action ▸ found) open_
    exact ⟨inProcess ▸ held.busy, opened ▸ held.opened, held.bytes⟩
  handled := by
    intro r found open_
    obtain ⟨held, closing⟩ := kept.handled r (taken ▸ found) open_
    exact ⟨⟨inProcess ▸ held.busy, opened ▸ held.opened, held.bytes⟩, action ▸ closing⟩
  watch := opened ▸ watch
  owner := by
    rw [client, opened]
    exact kept.owner
  rest := by
    rw [left, opened]
    exact kept.rest
  acting := by
    rw [taken]
    exact acting

theorem Kept.start (fd : Fd) (reads : Bool) (idle : v.inProcess = false)
    (watched : v.watched = true) (done : v.taken = none) :
    (v.start fd reads).Kept phase := { kept with
  one := by simp [View.start, (kept.of_idle idle).1]
  task := by
    intro t member
    have same : t = ⟨fd, reads, v.opened.getD 0, []⟩ := by
      simpa [View.start, (kept.of_idle idle).1] using member
    subst same
    obtain ⟨c, connection⟩ := Option.isSome_iff_exists.mp (kept.watch watched)
    refine ⟨rfl, ?_, fun c member => by cases member⟩
    show v.opened = some (v.opened.getD 0)
    rw [connection]
    rfl
  waits := fun _ => (kept.of_idle idle).2
  result := fun r found open_ => absurd ((kept.of_idle idle).2.1 r found) open_
  handled := fun r found => by cases done.symm.trans found
  watch := fun watched => by cases watched }

theorem Kept.mark (idle : v.inProcess = false) (done : v.taken = none) :
    v.mark.Kept phase := { kept with
  waits := fun busy => absurd (kept.of_idle idle).1 busy
  result := fun r found open_ => absurd (closing_remove rfl r found) open_
  handled := fun r found => by cases done.symm.trans found }

theorem Kept.finish {r : Responce} (taken : v.taken = some r) (open_ : r.status ≠ .remove)
    (watched : Bool) : (v.finish watched).Kept phase := by
  obtain ⟨held, closing⟩ := kept.handled r taken open_
  have alone : v.tasks = [] := by
    by_contra busy
    exact open_ ((kept.waits busy).2 r taken)
  exact { kept with
    task := fun t member => by
      rw [show (v.finish watched).tasks = [] from alone] at member
      cases member
    waits := fun busy => absurd alone busy
    result := fun r found open_ => absurd (closing r found) open_
    handled := fun r found => by cases found
    watch := fun _ => by
      show v.opened.isSome
      rw [held.opened]
      rfl
    acting := fun _ => rfl }

theorem Kept.accept (closed : v.opened = none) (done : v.taken = none) (c : Conn) (watched : Bool) :
    (v.accept c watched).Kept phase := { kept with
  task := fun t member => by
    rw [show (v.accept c watched).tasks = [] from (kept.of_closed closed).1] at member
    cases member
  waits := fun busy => absurd (kept.of_closed closed).1 busy
  result := fun r found open_ => absurd ((kept.of_closed closed).2 r found) open_
  handled := fun r found => by cases done.symm.trans found
  watch := fun _ => rfl
  owner := by
    intro other found
    cases watched with
    | true => exact found
    | false => cases closed.symm.trans (kept.owner other found)
  rest := fun other member => by cases closed.symm.trans (kept.rest other member) }

theorem Kept.reads {t : Task} (member : t ∈ v.tasks) {c : Conn} (connection : v.opened = some c) :
    ({ v with tasks := [{ t with bytes := t.bytes ++ [c] }] } : View).Kept phase := { kept with
  one := Nat.le_refl 1
  task := by
    intro other inside
    cases mem_singleton.mp inside
    obtain ⟨busy, same, bytes⟩ := kept.task t member
    refine ⟨busy, same, fun d inside => ?_⟩
    rcases mem_append.mp inside with early | last
    · exact bytes d early
    · cases mem_singleton.mp last
      exact Option.some.inj (connection.symm.trans same)
  waits := fun _ => kept.waits (ne_nil_of_mem member)
  result := fun r found open_ => absurd ((kept.waits (ne_nil_of_mem member)).1 r found) open_
  handled := fun r found open_ => absurd ((kept.waits (ne_nil_of_mem member)).2 r found) open_ }

theorem Kept.report {t : Task} (member : t ∈ v.tasks) {r : Responce} {left : List Conn}
    (fails : Prop) [Decidable fails] (conn : r.conn = t.conn) (bytes : ∀ c ∈ r.bytes, c = t.conn)
    (rest : ∀ c ∈ left, c = t.conn) :
    ({ v with
      tasks := [], left, action := some (if fails then r else v.action.getD r) } : View).Kept
        phase := by
  obtain ⟨busy, connection, -⟩ := kept.task t member
  obtain ⟨closing, taken⟩ := kept.waits (ne_nil_of_mem member)
  exact { kept with
    one := Nat.zero_le 1
    task := fun t member => by cases member
    waits := fun some => absurd rfl some
    result := by
      intro other found open_
      have same : r = other := by
        by_cases failed : fails
        · rw [if_pos failed] at found
          exact Option.some.inj found
        · rw [if_neg failed] at found
          cases before : v.action with
          | none =>
            grind
          | some earlier =>
            rw [before] at found
            cases found
            exact absurd (closing _ before) open_
      subst same
      exact ⟨busy, conn ▸ connection, fun c member => conn ▸ bytes c member⟩
    handled := fun other found open_ => absurd (taken other found) open_
    rest := fun c inside => (rest c inside) ▸ connection
    acting := kept.acting }

end View

/-- What holds of a descriptor that the event loop does not close under a task. -/
def Kept (s : EventLoop) (fd : Fd) : Prop :=
  (s.view fd).Kept s.phase

namespace Kept

variable {s s' : EventLoop} {fd g : Fd}

theorem start : Kept {} fd := by
  constructor <;> simp [view]

variable (kept : Kept s fd)

include kept

theorem quiet (opened : s'.opened = s.opened) (inProcess : s'.inProcess = s.inProcess)
    (actions : s'.actions = s.actions) (mtActions : s'.mtActions = s.mtActions)
    (clients : s'.clients = s.clients) (messages : s'.messages = s.messages)
    (tasks : s'.tasks = s.tasks)
    (interest : (s'.interest fd).isSome = true → (s.interest fd).isSome = true)
    (acting : s'.phase ≠ .acting → s.phase ≠ .acting ∨ s.mtActions.keys = []) : Kept s' fd := by
  apply View.Kept.section_ kept (congrFun opened fd) (congrFun inProcess fd)
  · exact congrArg (AList.lookup fd) actions
  · exact congrArg (AList.lookup fd) mtActions
  · exact congrFun clients fd
  · exact congrFun messages fd
  · exact congrArg (List.filter _) tasks
  · exact fun watched => kept.watch (interest watched)
  · intro other
    rcases acting other with before | done
    · exact kept.acting before
    · apply AList.lookup_eq_none.mpr
      show fd ∉ s.mtActions.keys
      grind

theorem alone {action : Action} (undisturbed : s.Undisturbed fd action)
    (taken : s.step action = some s') (closed : s'.opened fd = none) : (s.view fd).tasks = [] := by
  apply eq_nil_iff_forall_not_mem.mpr
  intro t member
  have at_ : t ∈ s.tasks ∧ t.fd = fd := by simpa [view] using member
  have same := undisturbed s' taken t at_.1 at_.2
  rw [closed] at same
  cases same.trans (kept.task t member).2.1

theorem remove (alone : fd = g → (s.view fd).tasks = []) (acting : s.phase ≠ .acting) :
    Kept (s.remove g) fd := by
  rw [Kept, remove_view]
  split
  · rename_i same
    exact View.Kept.close (alone same) (kept.acting acting)
  · exact kept

theorem begin (reads : Bool) (idle : s.inProcess g = false) (watched : (s.interest g).isSome = true)
    (acting : s.phase ≠ .acting) : Kept ((s.addToProcess g true).1.pushTask g reads) fd := by
  rw [Kept, pushTask_view]
  split
  · rename_i same
    subst same
    exact View.Kept.start kept fd reads idle watched (kept.acting acting)
  · exact kept

theorem mark (idle : s.inProcess g = false) (acting : s.phase ≠ .acting) :
    Kept (s.addToProcess g false).1 fd := by
  rw [Kept, addToProcess_view]
  split
  · rename_i same
    subst same
    exact View.Kept.mark kept idle (kept.acting acting)
  · exact kept

theorem mtRead {deleted : Bool} (possible : s.canChange g deleted = true)
    (acting : s.phase ≠ .acting) : Kept (s.mtRead g deleted) fd := by
  rw [EventLoop.mtRead]
  cases idle : s.inProcess g with
  | true => exact kept
  | false =>
    cases deleted with
    | true => exact kept.begin true idle possible acting
    | false => exact kept.mark idle acting

theorem writeToFd {merged : Nat} {deleted : Bool} (possible : s.canChange g deleted = true)
    (idle : s.inProcess g = false) (acting : s.phase ≠ .acting) :
    Kept (s.writeToFd g merged deleted) fd := by
  rw [EventLoop.writeToFd, idle]
  cases deleted with
  | true => exact kept.begin false idle possible acting
  | false => exact kept.mark idle acting

theorem accept (closed : s.opened g = none) (acting : s.phase ≠ .acting) :
    Kept (s.accept g) fd := by
  rw [Kept, accept_view]
  split
  · rename_i same
    subst same
    exact View.Kept.accept kept closed (kept.acting acting) _ _
  · exact kept

theorem leak (closed : s.opened g = none) (acting : s.phase ≠ .acting) :
    Kept { s with
      phase := .stopped, opened := update s.opened g (some (s.countAccepted + 1)) } fd := by
  have stopped : Kept { s with phase := .stopped } fd :=
    kept.quiet rfl rfl rfl rfl rfl rfl rfl id (fun _ => .inl acting)
  by_cases same : fd = g
  · subst same
    have unwatched : s.interest fd = none := by
      by_contra some
      have opened := kept.watch (Option.isSome_iff_ne_none.mpr some)
      simp [view, closed] at opened
    have accepted :=
      View.Kept.accept stopped closed (kept.acting acting) (s.countAccepted + 1) false
    simpa [Kept, view, View.accept, unwatched] using accepted
  · simpa [Kept, view, same] using stopped

theorem taskRead {place : Nat} {t : Task} (found : s.tasks[place]? = some t) {c : Conn}
    (connection : s.opened t.fd = some c) :
    Kept { s with tasks := s.tasks.set place { t with bytes := t.bytes ++ [c] } } fd := by
  have tasks := (s.tasks_view fd found kept.one).2 { t with bytes := t.bytes ++ [c] } rfl
  rw [Kept, view, tasks]
  split
  · rename_i same
    subst same
    have inside : t ∈ (s.view t.fd).tasks := by
      simpa [view] using mem_of_getElem? found
    exact View.Kept.reads kept inside connection
  · exact kept

theorem taskFinish {place : Nat} {t : Task} (found : s.tasks[place]? = some t) (status : Todo)
    (left : Bool) :
    Kept (({ s with tasks := s.tasks.eraseIdx place }).processFinished t status left) fd := by
  obtain ⟨rest, remaining, views⟩ := s.processFinished_view found status left
  rw [Kept, views fd kept.one]
  split
  · rename_i same
    subst same
    have inside : t ∈ (s.view t.fd).tasks := by
      simpa [view] using mem_of_getElem? found
    have task := kept.task t inside
    have origin : ∀ c, c ∈ s.messages t.fd ∨ c ∈ t.bytes → c = t.conn := by
      rintro c (before | now)
      · exact Option.some.inj ((kept.rest c before).symm.trans task.2.1)
      · exact task.2.2 c now
    exact View.Kept.report kept inside _ rfl
      (fun c member => origin c (s.mem_result_bytes member))
      (fun c member => origin c (remaining c member))
  · exact kept

theorem endClosed (alone : fd = g → (s.view fd).tasks = []) : Kept ((s.ended g).remove g) fd := by
  rw [Kept, remove_view, ended_view]
  split
  · rename_i same
    exact View.Kept.close (v := (s.view fd).finish false) (alone same) rfl
  · exact kept

theorem endWatched {r : Responce} (taken : s.mtActions.lookup g = some r)
    (open_ : r.status ≠ .remove) (interest : Interest) :
    Kept ((s.ended g).rearm g true interest) fd := by
  rw [Kept, rearm_view]
  split
  · rename_i same
    subst same
    exact View.Kept.finish kept taken open_ true
  · exact kept

theorem act {r : Responce} (taken : s.mtActions.lookup g = some r) (added established : Bool)
    (alone : (s.act g r added established).opened fd = none → (s.view fd).tasks = []) :
    Kept (s.act g r added established) fd := by
  rcases closes_or_watched r added with closes | ⟨open_, rfl⟩
  · rw [act_closed s g established closes] at alone ⊢
    apply kept.endClosed
    rintro rfl
    exact alone (update_self ..)
  · obtain ⟨interest, same⟩ := act_watched s g established open_
    rw [same]
    exact kept.endWatched taken open_ interest

theorem drain {modified : Bool} (possible : s.canChange g modified = true) :
    Kept (s.drain g modified) fd := by
  rw [EventLoop.drain]
  split
  · exact kept
  · refine kept.quiet rfl rfl rfl rfl rfl rfl rfl (fun watched => ?_) .inl
    cases modified with
    | false => exact watched
    | true =>
      by_cases same : fd = g
      · exact same ▸ possible
      · simpa [same] using watched

theorem proceed (done : s.proceed = some s') : Kept s' fd := by
  obtain ⟨⟨_, _, _, _, _, rfl, -⟩, acting⟩ := proceed_frame done
  exact kept.quiet rfl rfl rfl rfl rfl rfl rfl id (fun _ => acting)

theorem step {action : Action} (undisturbed : s.Undisturbed fd action)
    (taken : s.step action = some s') : Kept s' fd := by
  have alone : s'.opened fd = none → (s.view fd).tasks = [] := kept.alone undisturbed taken
  cases took taken with
  | epollWait waiting =>
    exact kept.quiet rfl rfl rfl rfl rfl rfl rfl id (fun _ => .inl (by simp [waiting]))
  | getActions woken =>
    have before : (s.view fd).Kept .woken := woken ▸ kept
    exact before.takeActions
  | act acting _ found => exact kept.act found _ _ alone
  | @peek g available deleted checking _ _ possible =>
    have looked : Kept { s with checkIncoming := s.checkIncoming.filter (· ≠ g) } fd :=
      kept.quiet rfl rfl rfl rfl rfl rfl rfl id .inl
    cases available with
    | false => exact looked
    | true => exact looked.mtRead possible (by simp [checking])
  | accept handling closed => exact kept.accept closed (by simp [handling])
  | leak handling closed => exact kept.leak closed (by simp [handling])
  | accepted => exact kept.quiet rfl rfl rfl rfl rfl rfl rfl id .inl
  | fails phase =>
    rcases phase with phase | phase <;>
      exact kept.quiet rfl rfl rfl rfl rfl rfl rfl id (fun _ => .inl (by simp [phase]))
  | @hangup g _ _ _ events handling _ =>
    have fewer : Kept { s with events } fd :=
      kept.quiet rfl rfl rfl rfl rfl rfl rfl id .inl
    apply fewer.remove _ (by simp [handling])
    rintro rfl
    exact alone (update_self ..)
  | @readable g epollout checked deleted events handling _ possible =>
    have popped : Kept { s with phase := .draining g epollout, events } fd :=
      kept.quiet rfl rfl rfl rfl rfl rfl rfl id (fun _ => .inl (by simp [handling]))
    cases checked with
    | false =>
      apply popped.remove _ (by simp)
      rintro rfl
      exact alone (update_self ..)
    | true => exact popped.mtRead possible (by simp)
  | @writable g checked modified draining possible =>
    have after : Kept { s with phase := .handling } fd :=
      kept.quiet rfl rfl rfl rfl rfl rfl rfl id (fun _ => .inl (by simp [draining]))
    cases checked with
    | false =>
      apply after.remove _ (by simp)
      rintro rfl
      exact alone (update_self ..)
    | true => exact after.drain possible
  | push => exact kept.quiet rfl rfl rfl rfl rfl rfl rfl id .inl
  | authorized => exact kept.quiet rfl rfl rfl rfl rfl rfl rfl id .inl
  | kick kicking =>
    apply kept.remove _ (by simp [kicking])
    rintro rfl
    exact alone (update_self ..)
  | write writing idle _ _ _ possible => exact kept.writeToFd possible idle (by simp [writing])
  | inactive sweeping =>
    apply kept.remove _ (by simp [sweeping])
    rintro rfl
    exact alone (update_self ..)
  | proceed done => exact kept.proceed done
  | taskRead found connection => exact kept.taskRead found connection
  | taskFinish found => exact kept.taskFinish found _ _

end Kept

end RssDisk.Network.Listen
