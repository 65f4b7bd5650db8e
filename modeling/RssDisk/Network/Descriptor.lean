import RssDisk.Network.Listen

/-!
# One descriptor of the event loop

Every step of the event loop, of the kernel and of the pool concerns one descriptor, so the
invariant is stated for what can be seen of one descriptor: its connection, whether it is watched
or in process, its result, its tasks and what the loop has still to do for it in this turn.
-/

namespace RssDisk.Network.Listen

open Lib Function List

/-- What can be seen of one descriptor. -/
structure View where
  opened : Option Conn
  watched : Bool
  inProcess : Bool
  action : Option Responce
  taken : Option Responce
  client : Option Conn
  /-- The connections the bytes of its incomplete message come from. -/
  left : List Conn
  tasks : List Task
  coming : Nat
  ended : Bool
  incoming : Bool

def EventLoop.view (s : EventLoop) (fd : Fd) : View where
  opened := s.opened fd
  watched := (s.interest fd).isSome
  inProcess := s.inProcess fd
  action := s.actions.lookup fd
  taken := s.mtActions.lookup fd
  client := s.clients fd
  left := s.messages fd
  tasks := s.tasks.filter (·.fd = fd)
  coming := (s.events.filterMap Event.fd?).count fd
  ended := s.checkDataIncoming.contains fd
  incoming := s.checkIncoming.contains fd

/-- A result belongs to the connection that is in process, or it closes a descriptor that is not in
process. -/
def View.Fits (v : View) (r : Responce) : Prop :=
  (v.inProcess = true ∧ v.opened = some r.conn ∧ ∀ c ∈ r.bytes, c = r.conn) ∨
    (v.inProcess = false ∧ r.status = .remove)

/-- The sections behind the events. -/
def Phase.late : Phase → Bool
  | .pushing | .kicking | .writing | .sweeping => true
  | _ => false

/-- What holds of every descriptor. -/
structure View.Fine (phase : Phase) (v : View) : Prop where
  one : v.tasks.length ≤ 1
  task : ∀ t ∈ v.tasks, v.inProcess = true ∧ v.opened = some t.conn ∧ v.action = none ∧
    v.taken = none ∧ ∀ c ∈ t.bytes, c = t.conn
  busy : v.inProcess = true → v.opened.isSome ∧ v.watched = false
  watch : v.watched = true → v.opened.isSome
  result : ∀ r, v.action = some r → v.Fits r
  handled : ∀ r, v.taken = some r → v.Fits r ∧ v.action = none
  owner : ∀ c, v.client = some c → v.opened = some c
  rest : ∀ c ∈ v.left, v.opened = some c
  once : v.coming ≤ 1
  idle : 0 < v.coming → v.inProcess = false
  /-- Once the results are taken, a descriptor with an event has none. -/
  fresh : 0 < v.coming → phase ≠ .woken → v.action = none
  /-- A descriptor whose task has ended has no other one, and it has an event only when it is
  closed. -/
  free : v.ended = true ∨ v.incoming = true → v.inProcess = false ∧ v.action = none ∧
    v.taken = none ∧ (0 < v.coming → v.opened = none)
  acting : phase ≠ .acting → v.taken = none ∧ v.ended = false
  checking : phase ≠ .checking → v.incoming = false
  settled : phase.late = true → v.coming = 0

namespace View

variable {v : View} {phase : Phase}

theorem Fine.tasks_nil (fine : v.Fine phase) (idle : v.inProcess = false) : v.tasks = [] := by
  apply eq_nil_iff_forall_not_mem.mpr
  intro t member
  have busy := (fine.task t member).1
  grind

theorem Fine.coming_zero (fine : v.Fine phase) (busy : v.inProcess = true) : v.coming = 0 := by
  by_contra some
  have idle := fine.idle (Nat.pos_of_ne_zero some)
  grind

theorem Fine.not_checked (fine : v.Fine phase) (busy : v.inProcess = true) :
    ¬ (v.ended = true ∨ v.incoming = true) := by
  intro checked
  have idle := (fine.free checked).1
  rw [busy] at idle
  cases idle

theorem Fine.of_taken {r : Responce} (fine : v.Fine phase) (taken : v.taken = some r)
    (open_ : r.status ≠ .remove) :
    v.inProcess = true ∧ v.opened = some r.conn ∧ (∀ c ∈ r.bytes, c = r.conn) ∧
      v.action = none := by
  obtain ⟨⟨busy, connection, bytes⟩ | ⟨_, closes⟩, none⟩ := fine.handled r taken
  · exact ⟨busy, connection, bytes, none⟩
  · exact absurd closes open_

theorem Fine.tasks_nil_of_taken {r : Responce} (fine : v.Fine phase) (taken : v.taken = some r) :
    v.tasks = [] := by
  apply eq_nil_iff_forall_not_mem.mpr
  intro t member
  have none := (fine.task t member).2.2.2.1
  rw [taken] at none
  cases none

def close (v : View) : View :=
  { v with opened := none, watched := false, action := none, client := none, left := [] }

def start (v : View) (fd : Fd) (reads : Bool) : View :=
  { v with
    inProcess := true, watched := false, ended := false
    tasks := v.tasks ++ [⟨fd, reads, v.opened.getD 0, []⟩] }

/-- It could not be taken out of `epoll`. -/
def mark (v : View) : View :=
  { v with action := some ⟨.remove, 0, []⟩ }

/-- The result of its task is handled. -/
def finish (v : View) (watched : Bool) : View :=
  { v with taken := none, inProcess := false, ended := true, watched }

def accept (v : View) (c : Conn) (watched : Bool) : View :=
  { v with opened := some c, watched, client := if watched then some c else v.client }

theorem Fine.close {w : View} (fine : v.Fine phase) (alone : w.tasks = [])
    (idle : w.inProcess = false) (done : w.taken = none) (coming : w.coming = v.coming)
    (incoming : w.incoming = v.incoming) (ended : phase ≠ .acting → w.ended = false) :
    w.close.Fine phase where
  one := by simp [View.close, alone]
  task := by simp [View.close, alone]
  busy := fun busy => by cases idle.symm.trans busy
  watch := fun watched => by cases watched
  result := fun r found => by cases found
  handled := fun r found => by cases done.symm.trans found
  owner := fun c found => by cases found
  rest := fun c member => by cases member
  once := coming ▸ fine.once
  idle := fun _ => idle
  fresh := fun _ _ => rfl
  free := fun _ => ⟨idle, rfl, done, fun _ => rfl⟩
  acting := fun other => ⟨done, ended other⟩
  checking := incoming ▸ fine.checking
  settled := coming ▸ fine.settled

theorem Fine.start (fine : v.Fine phase) (fd : Fd) (reads : Bool) (idle : v.inProcess = false)
    (watched : v.watched = true) (action : v.action = none) (taken : v.taken = none)
    (coming : v.coming = 0) (incoming : v.incoming = false) :
    (v.start fd reads).Fine phase :=
  { fine with
    one := by simp [View.start, fine.tasks_nil idle]
    task := by
      intro t member
      have same : t = ⟨fd, reads, v.opened.getD 0, []⟩ := by
        simpa [View.start, fine.tasks_nil idle] using member
      subst same
      obtain ⟨c, connection⟩ := Option.isSome_iff_exists.mp (fine.watch watched)
      refine ⟨rfl, ?_, action, taken, fun c member => by cases member⟩
      show v.opened = some (v.opened.getD 0)
      rw [connection]
      rfl
    busy := fun _ => ⟨fine.watch watched, rfl⟩
    watch := fun watched => by cases watched
    result := fun r found => by cases action.symm.trans found
    handled := fun r found => by cases taken.symm.trans found
    idle := fun some => absurd coming (Nat.ne_of_gt some)
    fresh := fun _ _ => action
    free := by
      rintro (ended | later)
      · cases ended
      · cases incoming.symm.trans later
    acting := fun other => ⟨taken, rfl⟩ }

theorem Fine.mark (fine : v.Fine phase) (idle : v.inProcess = false) (taken : v.taken = none)
    (coming : v.coming = 0) (unchecked : ¬ (v.ended = true ∨ v.incoming = true)) :
    v.mark.Fine phase :=
  { fine with
    task := by
      have none : v.mark.tasks = [] := fine.tasks_nil idle
      simp [none]
    result := fun r found => by
      cases found
      exact .inr ⟨idle, rfl⟩
    handled := fun r found => by cases taken.symm.trans found
    fresh := fun some => absurd coming (Nat.ne_of_gt some)
    free := fun checked => absurd checked unchecked }

theorem Fine.finish_watch (fine : v.Fine .acting) {r : Responce} (taken : v.taken = some r)
    (open_ : r.status ≠ .remove) : (v.finish true).Fine .acting :=
  { fine with
    task := by
      have none : (v.finish true).tasks = [] := fine.tasks_nil_of_taken taken
      simp [none]
    busy := fun busy => by cases busy
    watch := fun _ => (fine.busy (fine.of_taken taken open_).1).1
    result := fun r found => by cases (fine.of_taken taken open_).2.2.2.symm.trans found
    handled := fun r found => by cases found
    idle := fun _ => rfl
    fresh := fun _ _ => (fine.of_taken taken open_).2.2.2
    free := fun _ => ⟨rfl, (fine.of_taken taken open_).2.2.2, rfl, fun some =>
      absurd (fine.coming_zero (fine.of_taken taken open_).1) (Nat.ne_of_gt some)⟩
    acting := fun other => absurd rfl other }

theorem Fine.idle_of_closed (fine : v.Fine phase) (closed : v.opened = none) :
    v.inProcess = false := by
  by_contra busy
  have some := (fine.busy (eq_true_of_ne_false busy)).1
  rw [closed] at some
  cases some

theorem Fine.accept (fine : v.Fine phase) (closed : v.opened = none) (c : Conn) (watched : Bool)
    (unchecked : ¬ (v.ended = true ∨ v.incoming = true)) : (v.accept c watched).Fine phase :=
  { fine with
    task := by
      have none : (v.accept c watched).tasks = [] := fine.tasks_nil (fine.idle_of_closed closed)
      simp [none]
    busy := fun busy => by cases (fine.idle_of_closed closed).symm.trans busy
    watch := fun _ => rfl
    result := by
      intro r found
      rcases fine.result r found with ⟨busy, _⟩ | ⟨idle, closes⟩
      · cases (fine.idle_of_closed closed).symm.trans busy
      · exact .inr ⟨idle, closes⟩
    handled := by
      intro r found
      obtain ⟨⟨busy, _⟩ | ⟨idle, closes⟩, none⟩ := fine.handled r found
      · cases (fine.idle_of_closed closed).symm.trans busy
      · exact ⟨.inr ⟨idle, closes⟩, none⟩
    owner := by
      intro other found
      cases watched with
      | true => exact found
      | false => cases closed.symm.trans (fine.owner other found)
    rest := fun other member => by cases closed.symm.trans (fine.rest other member)
    free := fun checked => absurd checked unchecked }

/-- A task of the descriptor finishes. -/
def report (v : View) (r : Responce) (left : List Conn) : View :=
  { v with tasks := [], action := some r, left }

theorem Fine.report (fine : v.Fine phase) {t : Task} (member : t ∈ v.tasks) {r : Responce}
    {left : List Conn} (conn : r.conn = t.conn) (bytes : ∀ c ∈ r.bytes, c = t.conn)
    (rest : ∀ c ∈ left, c = t.conn) : (v.report r left).Fine phase :=
  { fine with
    one := Nat.zero_le 1
    task := fun t member => by cases member
    result := fun other found => by
      cases found
      have task := fine.task t member
      exact .inl ⟨task.1, by rw [conn]; exact task.2.1, by rw [conn]; exact bytes⟩
    handled := fun other found => by cases (fine.task t member).2.2.2.1.symm.trans found
    rest := fun c inside => by
      rw [rest c inside]
      exact (fine.task t member).2.1
    fresh := fun some =>
      absurd (fine.coming_zero (fine.task t member).1) (Nat.ne_of_gt some)
    free := fun checked => absurd checked (fine.not_checked (fine.task t member).1) }

theorem Fine.reads (fine : v.Fine phase) {t : Task} (member : t ∈ v.tasks) {c : Conn}
    (connection : v.opened = some c) :
    ({ v with tasks := [{ t with bytes := t.bytes ++ [c] }] } : View).Fine phase :=
  { fine with
    one := Nat.le_refl 1
    task := by
      intro other inside
      cases mem_singleton.mp inside
      obtain ⟨busy, same, action, taken, bytes⟩ := fine.task t member
      refine ⟨busy, same, action, taken, ?_⟩
      intro d inside
      rcases mem_append.mp inside with early | last
      · exact bytes d early
      · cases mem_singleton.mp last
        exact Option.some.inj (connection.symm.trans same)
    result := fine.result
    handled := fine.handled }

theorem Fine.wake (fine : v.Fine .waiting) {coming : Nat} (once : coming ≤ 1)
    (watched : 0 < coming → v.watched = true) : ({ v with coming } : View).Fine .woken :=
  { fine with
    result := fine.result
    handled := fine.handled
    once := once
    idle := by
      intro some
      by_contra busy
      have unwatched := (fine.busy (eq_true_of_ne_false busy)).2
      rw [watched some] at unwatched
      cases unwatched
    fresh := fun _ other => absurd rfl other
    free := by
      rintro (ended | incoming)
      · cases (fine.acting (by decide)).2.symm.trans ended
      · cases (fine.checking (by decide)).symm.trans incoming
    acting := fun _ => fine.acting (by decide)
    checking := fun _ => fine.checking (by decide)
    settled := fun late => by cases late }

theorem Fine.takeActions (fine : v.Fine .woken) :
    ({ v with taken := v.action, action := none } : View).Fine .acting :=
  { fine with
    task := by
      intro t member
      obtain ⟨busy, connection, action, _, bytes⟩ := fine.task t member
      exact ⟨busy, connection, rfl, action, bytes⟩
    result := fun r found => by cases found
    handled := fun r found => ⟨fine.result r found, rfl⟩
    fresh := fun _ _ => rfl
    free := by
      rintro (ended | incoming)
      · cases (fine.acting (by decide)).2.symm.trans ended
      · cases (fine.checking (by decide)).symm.trans incoming
    acting := fun other => absurd rfl other
    checking := fun _ => fine.checking (by decide)
    settled := fun late => by cases late }

theorem Fine.takeIncoming (fine : v.Fine .acting) (none : v.taken = none) :
    ({ v with incoming := v.ended, ended := false } : View).Fine .checking :=
  { fine with
    result := fine.result
    handled := fine.handled
    fresh := fun some _ => fine.fresh some (by decide)
    free := by
      rintro (ended | incoming)
      · cases ended
      · exact fine.free (.inl incoming)
    acting := fun _ => ⟨none, rfl⟩
    checking := fun other => absurd rfl other
    settled := fun late => by cases late }

theorem Fine.next {after : Phase} (fine : v.Fine phase) (woken : phase ≠ .woken)
    (acting : phase ≠ .acting) (incoming : v.incoming = false)
    (settled : after.late = true → v.coming = 0) : v.Fine after :=
  { fine with
    fresh := fun some _ => fine.fresh some woken
    acting := fun _ => fine.acting acting
    checking := fun _ => incoming
    settled }

theorem Fine.fewer (fine : v.Fine phase) {coming : Nat} (fewer : coming ≤ v.coming) :
    ({ v with coming } : View).Fine phase :=
  { fine with
    once := Nat.le_trans fewer fine.once
    idle := fun some => fine.idle (Nat.lt_of_lt_of_le some fewer)
    fresh := fun some => fine.fresh (Nat.lt_of_lt_of_le some fewer)
    free := fun checked =>
      have free := fine.free checked
      ⟨free.1, free.2.1, free.2.2.1, fun some => free.2.2.2 (Nat.lt_of_lt_of_le some fewer)⟩
    settled := fun late => by
      have none := fine.settled late
      show coming = 0
      omega
    result := fine.result
    handled := fine.handled }

theorem Fine.looked (fine : v.Fine phase) : ({ v with incoming := false } : View).Fine phase :=
  { fine with
    free := fun checked => fine.free (checked.imp_right (fun impossible => by cases impossible))
    checking := fun _ => rfl
    result := fine.result
    handled := fine.handled }

end View

end RssDisk.Network.Listen
