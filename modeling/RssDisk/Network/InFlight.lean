import Mathlib.Data.List.Nodup
import RssDisk.Network.Steps

/-!
# Tasks in flight

While a task is in flight, its descriptor is in process, open and not watched. So the loop gets no
events for it and has no result of it to handle; it closes it only where it does not look whether
it is in process: when a socket is found broken for writing, when a connection is found without
activity, and when an earlier failure has marked the descriptor for removal.
-/

namespace RssDisk.Network.Listen

open Lib Function List EventLoop

/-- The invariant of the event loop. -/
structure Good (s : EventLoop) : Prop where
  fine : ∀ fd, (s.view fd).Fine s.phase
  own : ∀ entry ∈ s.parsed, ∀ c ∈ entry.1, c = entry.2

variable {events : List Event} {r : Responce}

namespace Good

variable {s : EventLoop} {g : Fd}

theorem start : Good {} where
  fine := fun fd => by
    constructor <;> simp [view, Phase.late]
  own := by simp

theorem coming_head {err epollin epollout : Bool}
    (more : s.events = .client g err epollin epollout :: events) : 0 < (s.view g).coming := by
  simp [view, more, Event.fd?]

variable (good : Good s)

include good

theorem remove (idle : s.inProcess g = false) (done : s.mtActions.lookup g = none) :
    Good (s.remove g) where
  fine := by
    intro fd
    rw [remove_view]
    split
    · rename_i same
      subst same
      have fine := good.fine fd
      exact fine.close (fine.tasks_nil idle) idle done rfl rfl (fun other => (fine.acting other).2)
    · exact good.fine fd
  own := good.own

theorem begin (reads : Bool) (idle : s.inProcess g = false) (watched : (s.interest g).isSome = true)
    (action : s.actions.lookup g = none) (acting : s.phase ≠ .acting)
    (checked : g ∉ s.checkIncoming) (coming : (s.view g).coming = 0) :
    Good ((s.addToProcess g true).1.pushTask g reads) where
  fine := by
    intro fd
    rw [pushTask_view]
    split
    · rename_i same
      subst same
      exact (good.fine fd).start fd reads idle watched action
        ((good.fine fd).acting acting).1 coming (by simpa [view] using checked)
    · exact good.fine fd
  own := good.own

theorem mark (idle : s.inProcess g = false) (acting : s.phase ≠ .acting)
    (checked : g ∉ s.checkIncoming) (coming : (s.view g).coming = 0) :
    Good (s.addToProcess g false).1 where
  fine := by
    intro fd
    rw [addToProcess_view]
    split
    · rename_i same
      subst same
      have taken := (good.fine fd).acting acting
      have unchecked : (s.view fd).incoming = false := by simpa [view] using checked
      apply (good.fine fd).mark idle taken.1 coming
      rintro (ended | incoming)
      · cases taken.2.symm.trans ended
      · cases unchecked.symm.trans incoming
    · exact good.fine fd
  own := good.own

theorem mtRead {deleted : Bool} (possible : s.canChange g deleted = true)
    (idle : s.inProcess g = false) (action : s.actions.lookup g = none) (acting : s.phase ≠ .acting)
    (checked : g ∉ s.checkIncoming) (coming : (s.view g).coming = 0) :
    Good (s.mtRead g deleted) := by
  rw [EventLoop.mtRead, idle]
  cases deleted with
  | true => exact good.begin true idle possible action acting checked coming
  | false => exact good.mark idle acting checked coming

theorem writeToFd {merged : Nat} {deleted : Bool} (possible : s.canChange g deleted = true)
    (idle : s.inProcess g = false) (action : s.actions.lookup g = none)
    (writing : s.phase = .writing) : Good (s.writeToFd g merged deleted) := by
  have late : s.phase.late = true := by rw [writing]; rfl
  have acting : s.phase ≠ .acting := by rw [writing]; decide
  have coming := (good.fine g).settled late
  have unchecked := (good.fine g).checking (by rw [writing]; decide)
  have checked : g ∉ s.checkIncoming := by simpa [view] using unchecked
  rw [EventLoop.writeToFd, idle]
  cases deleted with
  | true =>
    have begun := good.begin false idle possible action acting checked coming
    exact ⟨begun.fine, begun.own⟩
  | false =>
    have marked := good.mark idle acting checked coming
    exact ⟨marked.fine, marked.own⟩

theorem accept (closed : s.opened g = none) (handling : s.phase = .handling) :
    Good (s.accept g) where
  fine := by
    intro fd
    rw [accept_view]
    split
    · rename_i same
      subst same
      apply (good.fine fd).accept closed
      rintro (ended | incoming)
      · cases ((good.fine fd).acting (by rw [handling]; decide)).2.symm.trans ended
      · cases ((good.fine fd).checking (by rw [handling]; decide)).symm.trans incoming
    · exact good.fine fd
  own := good.own

theorem taskRead {place : Nat} {t : Task} (found : s.tasks[place]? = some t) {c : Conn}
    (connection : s.opened t.fd = some c) :
    Good { s with tasks := s.tasks.set place { t with bytes := t.bytes ++ [c] } } where
  fine := by
    have inside : t ∈ (s.view t.fd).tasks := by
      simpa [view] using mem_of_getElem? found
    intro fd
    obtain ⟨_, replaced⟩ := s.tasks_view fd found (good.fine fd).one
    have tasks := replaced { t with bytes := t.bytes ++ [c] } rfl
    by_cases same : fd = t.fd
    · subst same
      rw [if_pos rfl] at tasks
      rw [view, tasks]
      exact (good.fine t.fd).reads inside connection
    · rw [if_neg same] at tasks
      rw [view, tasks]
      exact good.fine fd
  own := good.own

theorem taskFinish {place : Nat} {t : Task} (found : s.tasks[place]? = some t) (status : Todo)
    (left : Bool) :
    Good (({ s with tasks := s.tasks.eraseIdx place }).processFinished t status left) where
  fine := by
    have inside : t ∈ (s.view t.fd).tasks := by
      simpa [view] using mem_of_getElem? found
    have task := (good.fine t.fd).task t inside
    have nothing : (s.view t.fd).action = none := task.2.2.1
    obtain ⟨rest, remaining, views⟩ := s.processFinished_view found status left
    have origin : ∀ c, c ∈ s.messages t.fd ∨ c ∈ t.bytes → c = t.conn := by
      rintro c (before | now)
      · exact Option.some.inj (((good.fine t.fd).rest c before).symm.trans task.2.1)
      · exact task.2.2.2.2 c now
    intro fd
    rw [views fd (good.fine fd).one]
    split
    · rename_i same
      subst same
      have report : ((s.view t.fd).report (s.result t status) rest).Fine s.phase :=
        (good.fine t.fd).report inside rfl
          (fun c member => origin c (s.mem_result_bytes member))
          (fun c member => origin c (remaining c member))
      rw [nothing, Option.getD_none, ite_self]
      exact report
    · exact good.fine fd
  own := good.own

section

variable (acting : s.phase = .acting) (taken : s.mtActions.lookup g = some r)

include acting taken

theorem endClosed :
    Good ((s.ended g).remove g) where
  fine := by
    intro fd
    have fine := good.fine fd
    rw [remove_view, ended_view]
    split
    · rename_i same
      subst same
      rw [acting] at fine
      rw [show ((s.ended fd).remove fd).phase = .acting from acting]
      exact fine.close (w := (s.view fd).finish false) (fine.tasks_nil_of_taken taken) rfl rfl rfl
        rfl (absurd rfl)
    · exact fine
  own := good.own

theorem rearm (open_ : r.status ≠ .remove) (added : Bool) (interest : Interest) :
    Good ((s.ended g).rearm g added interest) := by
  cases added with
  | false => exact good.endClosed acting taken
  | true =>
    refine ⟨fun fd => ?_, good.own⟩
    have fine := good.fine fd
    rw [rearm_view]
    split
    · rename_i same
      subst same
      rw [acting] at fine
      rw [show ((s.ended fd).rearm fd true interest).phase = .acting from acting]
      exact fine.finish_watch taken open_
    · exact fine

theorem take (open_ : r.status ≠ .remove) (added established : Bool) (interest : Interest) :
    Good (((s.ended g).rearm g added interest).take g r established) := by
  have armed := good.rearm acting taken open_ added interest
  rw [EventLoop.take]
  cases owner : ((s.ended g).rearm g added interest).clients g with
  | none => exact armed
  | some c =>
    refine ⟨armed.fine, ?_⟩
    cases added with
    | false => simp [EventLoop.rearm, EventLoop.remove] at owner
    | true =>
      have connection := (good.fine g).owner c owner
      obtain ⟨_, same, bytes, _⟩ := (good.fine g).of_taken taken open_
      intro entry member
      rcases mem_append.mp member with before | now
      · exact good.own entry before
      · cases mem_singleton.mp now
        intro d inside
        rw [bytes d inside]
        exact Option.some.inj (same.symm.trans connection)

end

theorem act (acting : s.phase = .acting) {r : Responce} (taken : s.mtActions.lookup g = some r)
    (added established : Bool) : Good (s.act g r added established) := by
  rw [EventLoop.act]
  cases status : r.status with
  | ok => exact good.rearm acting taken (by rw [status]; decide) added _
  | okRead => exact good.take acting taken (by rw [status]; decide) added established _
  | okParsed => exact good.take acting taken (by rw [status]; decide) added established _
  | remove => exact good.endClosed acting taken
  | setEpollOut =>
    have armed := good.rearm acting taken (by rw [status]; decide) added ⟨false, true⟩
    cases added with
    | true => exact ⟨armed.fine, armed.own⟩
    | false => exact ⟨armed.fine, armed.own⟩

theorem fewer {e : Event} (more : s.events = e :: events) :
    Good { s with events } where
  fine := by
    intro fd
    apply (good.fine fd).fewer
    rw [view, more]
    grind
  own := good.own

theorem next {after : Phase} (woken : s.phase ≠ .woken) (acting : s.phase ≠ .acting)
    (incoming : s.phase = .checking → s.checkIncoming = [])
    (settled : after.late = true → s.phase.late = true ∨ s.events = []) :
    Good { s with phase := after } where
  fine := by
    intro fd
    apply (good.fine fd).next woken acting
    · by_cases checking : s.phase = .checking
      · simp [view, incoming checking]
      · exact (good.fine fd).checking checking
    · intro late
      rcases settled late with before | none
      · exact (good.fine fd).settled before
      · simp [view, none]
  own := good.own

theorem wake (waiting : s.phase = .waiting) (once : (events.filterMap Event.fd?).Nodup)
    (happen : ∀ e ∈ events, s.canHappen e = true) :
    Good { s with phase := .woken, events } where
  fine := by
    intro fd
    have fine := good.fine fd
    rw [waiting] at fine
    apply fine.wake (nodup_iff_count_le_one.mp once fd)
    intro some
    obtain ⟨e, member, same⟩ := mem_filterMap.mp (count_pos_iff.mp some)
    have possible := happen e member
    cases e with
    | listening => cases same
    | client g err epollin epollout =>
      cases same
      simp only [canHappen] at possible
      split at possible
      · cases possible
      · rename_i watched
        simp [view, watched]
  own := good.own

theorem coming_tail {err epollin epollout : Bool}
    (more : s.events = .client g err epollin epollout :: events) :
    (events.filterMap Event.fd?).count g = 0 := by
  have once := (good.fine g).once
  simp only [view, more, Event.fd?, filterMap_cons, count_cons_self] at once
  omega

theorem peek {available deleted : Bool} (checking : s.phase = .checking)
    (member : g ∈ s.checkIncoming) (usable : s.canUse g available = true)
    (possible : s.canChange g deleted = true) :
    Good (if available then
        ({ s with checkIncoming := s.checkIncoming.filter (· ≠ g) }).mtRead g deleted
      else { s with checkIncoming := s.checkIncoming.filter (· ≠ g) }) := by
  have looked : Good { s with checkIncoming := s.checkIncoming.filter (· ≠ g) } := by
    refine ⟨fun fd => ?_, good.own⟩
    by_cases same : fd = g
    · subst same
      have fine := (good.fine fd).looked
      simpa [view] using fine
    · have fine := good.fine fd
      simpa [view, same] using fine
  cases available with
  | false => exact looked
  | true =>
    have free := (good.fine g).free (.inr (by simpa [view] using member))
    apply looked.mtRead possible free.1 free.2.1
    · rw [checking]
      decide
    · simp
    · -- a descriptor with an event would be closed, and there is data on this one
      by_contra some
      have closed : s.opened g = none := free.2.2.2 (Nat.pos_of_ne_zero some)
      simp [canUse, closed] at usable

theorem leak (closed : s.opened g = none) (handling : s.phase = .handling) :
    Good { s with
      phase := .stopped, opened := update s.opened g (some (s.countAccepted + 1)) } := by
  refine ⟨fun fd => ?_, good.own⟩
  have unchecked : ¬ ((s.view fd).ended = true ∨ (s.view fd).incoming = true) := by
    rintro (ended | incoming)
    · cases ((good.fine fd).acting (by simp [handling])).2.symm.trans ended
    · cases ((good.fine fd).checking (by simp [handling])).symm.trans incoming
  have stop : ∀ {v : View}, v.Fine s.phase → v.incoming = false → v.Fine .stopped :=
    fun fine incoming => fine.next (by simp [handling]) (by simp [handling]) incoming
      (fun late => by cases late)
  have incoming := (good.fine fd).checking (by simp [handling])
  by_cases same : fd = g
  · subst same
    have unwatched : s.interest fd = none := by
      by_contra some
      have opened := (good.fine fd).watch (Option.isSome_iff_ne_none.mpr some)
      simp [view, closed] at opened
    have accepted := stop ((good.fine fd).accept closed (s.countAccepted + 1) false unchecked)
      incoming
    simpa [view, View.accept, unwatched] using accepted
  · simpa [view, same] using stop (good.fine fd) incoming

theorem readable {checked deleted epollout : Bool} {events : List Event}
    (handling : s.phase = .handling) (more : s.events = .client g false true epollout :: events)
    (possible : s.canChange g deleted = true) :
    Good (if checked then
        ({ s with phase := .draining g epollout, events }).mtRead g deleted
      else ({ s with phase := .draining g epollout, events }).remove g) := by
  have popped : Good { s with phase := .draining g epollout, events } :=
    (good.fewer more).next (by simp [handling]) (by simp [handling]) (by simp [handling])
      (fun late => by cases late)
  have here := coming_head more
  have idle := (good.fine g).idle here
  cases checked with
  | false => exact popped.remove idle ((good.fine g).acting (by simp [handling])).1
  | true =>
    have incoming := (good.fine g).checking (by simp [handling])
    apply popped.mtRead possible idle ((good.fine g).fresh here (by simp [handling]))
    · simp
    · simpa [view] using incoming
    · exact good.coming_tail more

theorem drain {modified : Bool} (possible : s.canChange g modified = true) :
    Good (s.drain g modified) := by
  rw [EventLoop.drain]
  split
  · exact good
  · refine ⟨fun fd => ?_, good.own⟩
    have fine := good.fine fd
    cases modified with
    | false => exact fine
    | true =>
      by_cases same : fd = g
      · subst same
        have watched : (s.interest fd).isSome = true := possible
        simpa [view, watched] using fine
      · simpa [view, same] using fine

theorem writable {checked modified : Bool} (draining : s.phase = .draining g true)
    (possible : s.canChange g modified = true) (careful : checked = true ∨ s.inProcess g = false) :
    Good (if checked then ({ s with phase := .handling }).drain g modified
      else ({ s with phase := .handling }).remove g) := by
  have after : Good { s with phase := .handling } :=
    good.next (by simp [draining]) (by simp [draining]) (by simp [draining])
      (fun late => by cases late)
  cases checked with
  | false =>
    exact after.remove (careful.resolve_left (by decide))
      ((good.fine g).acting (by simp [draining])).1
  | true => exact after.drain possible

theorem proceed {after : EventLoop} (done : s.proceed = some after) : Good after := by
  rw [EventLoop.proceed] at done
  cases phase : s.phase <;> simp only [phase, reduceCtorEq] at done
  case acting =>
    split at done
    · rename_i none
      cases done
      refine ⟨fun fd => ?_, good.own⟩
      have fine := good.fine fd
      rw [phase] at fine
      apply fine.takeIncoming
      apply AList.lookup_eq_none.mpr
      show fd ∉ s.mtActions.keys
      grind
    · cases done
  case checking =>
    split at done
    · rename_i none
      cases done
      exact good.next (by simp [phase]) (by simp [phase]) (fun _ => none)
        (fun late => by cases late)
    · cases done
  case handling =>
    split at done
    · rename_i none
      cases done
      exact good.next (by simp [phase]) (by simp [phase]) (by simp [phase]) (fun _ => .inr none)
    · rename_i more
      cases done
      exact (good.fewer more).next (by simp [phase]) (by simp [phase]) (by simp [phase])
        (fun late => by cases late)
    · cases done
  case draining fd epollout =>
    cases epollout with
    | false =>
      cases done
      exact good.next (by simp [phase]) (by simp [phase]) (by simp [phase])
        (fun late => by cases late)
    | true => cases done
  case kicking =>
    cases done
    have writing : Good { s with phase := .writing } :=
      good.next (by simp [phase]) (by simp [phase]) (by simp [phase])
        (fun _ => .inl (by rw [phase]; rfl))
    exact ⟨writing.fine, writing.own⟩
  case sweeping =>
    cases done
    exact good.next (by simp [phase]) (by simp [phase]) (by simp [phase])
      (fun late => by cases late)
  all_goals
    cases done
    exact good.next (by simp [phase]) (by simp [phase]) (by simp [phase])
      (fun _ => .inl (by rw [phase]; rfl))

theorem step (action : Action) (careful : s.Careful action) {after : EventLoop}
    (taken : s.step action = some after) : Good after := by
  have quiet (fd : Fd) (other : s.phase ≠ .acting) : s.mtActions.lookup fd = none :=
    ((good.fine fd).acting other).1
  cases took taken with
  | epollWait waiting once happen => exact good.wake waiting once happen
  | getActions woken =>
    refine ⟨fun fd => ?_, good.own⟩
    have fine := good.fine fd
    rw [woken] at fine
    exact fine.takeActions
  | act acting _ found => exact good.act acting found _ _
  | peek checking member usable possible => exact good.peek checking member usable possible
  | accept handling closed => exact good.accept closed handling
  | leak handling closed => exact good.leak closed handling
  | accepted _ more => exact good.fewer more
  | fails phase =>
    rcases phase with phase | phase <;>
      exact good.next (by simp [phase]) (by simp [phase]) (by simp [phase])
        (fun late => by cases late)
  | hangup handling more =>
    exact (good.fewer more).remove ((good.fine _).idle (coming_head more))
      (quiet _ (by simp [handling]))
  | readable handling more possible => exact good.readable handling more possible
  | writable draining possible =>
    simp only [Careful, draining] at careful
    exact good.writable draining possible careful
  | push _ => exact ⟨good.fine, good.own⟩
  | authorized => exact ⟨good.fine, good.own⟩
  | kick kicking idle => exact good.remove idle (quiet _ (by simp [kicking]))
  | write writing idle _ _ _ possible =>
    exact good.writeToFd possible idle (by simpa [Careful] using careful) writing
  | inactive sweeping => exact good.remove careful (quiet _ (by simp [sweeping]))
  | proceed done => exact good.proceed done
  | taskRead found connection => exact good.taskRead found connection
  | taskFinish found _ => exact good.taskFinish found _ _

theorem separate : s.Separate where
  alone := by
    apply nodup_iff_count_le_one.mpr
    intro fd
    have one := (good.fine fd).one
    rw [view, ← countP_eq_length_filter] at one
    rw [List.count, countP_map]
    exact one
  kept := fun t member =>
    ((good.fine t.fd).task t (by simpa [view] using member)).2.1
  own := good.own

end Good

/-- Along careful steps no descriptor has two tasks, every task works on the connection it was
started for, and bytes are taken for the connection they come from. -/
theorem tasks_separate {s : EventLoop} (reached : Reaches step Careful {} s) :
    s.Separate :=
  (reached.invariant Good .start
    (fun _ action _ good careful taken => good.step action careful taken)).separate

/-- The sections behind the events, in a turn that has nothing to do in them. -/
def idleEnd : List Action := [.proceed, .proceed, .proceed, .proceed, .proceed]

/-- A client connects, sends a request and gets a reply that its socket does not take at once;
meanwhile it sends more. -/
def slowClient : List Action :=
  [.epollWait [.listening], .getActions, .proceed, .proceed, .accept 5 true, .accepted] ++
  idleEnd ++
  [.epollWait [.client 5 false true false], .getActions, .proceed, .proceed,
    .readable true true, .proceed] ++ idleEnd ++
  [.taskRead 0, .taskFinish 0 .okRead false,
    .epollWait [], .getActions, .act 5 true false, .proceed, .peek 5 false false, .proceed,
    .proceed, .push 5, .proceed, .proceed, .write 5 3 true, .proceed, .proceed,
    .taskFinish 0 .setEpollOut false,
    .epollWait [], .getActions, .act 5 true false, .proceed, .peek 5 true true, .proceed] ++
  idleEnd ++
  [.taskRead 0, .taskFinish 0 .okRead false,
    .epollWait [], .getActions, .act 5 true false, .proceed, .peek 5 false false, .proceed] ++
  idleEnd ++
  [.epollWait [.client 5 false true true, .listening], .getActions, .proceed, .proceed,
    .readable true true, .taskRead 0]

/-- Up to the read of the last event the steps are careful. -/
theorem tasks_separate_sample :
    ∃ s, Reaches step Careful {} s ∧ s.tasks.length = 1 ∧ s.Separate := by
  refine Reaches.of_runActions_and slowClient (by decide +kernel) ?_
  intro s reached _
  exact tasks_separate reached

/-- The socket breaks between the two parts of the last event: its descriptor is closed and given
to the next connection while the task that reads from it is in flight, and the task reads from the
new connection. -/
theorem task_reads_other_connection :
    ∃ s, Reaches step (fun _ _ => True) {} s ∧
      s.tasks.any (fun t => t.conn = 1 ∧ t.bytes = [1, 2] ∧ s.opened t.fd = some 2) = true :=
  Reaches.of_runActions_any (slowClient ++ [.writable false false, .accept 5 true, .taskRead 0])
    (by decide +kernel)

end RssDisk.Network.Listen
