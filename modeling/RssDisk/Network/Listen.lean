import Mathlib.Logic.Function.Basic
import RssDisk.Lib.Reach
import RssDisk.Lib.Unordered

/-!
# The event loop of the server

`epoll_v2::listen` runs in one thread. It takes the events of the descriptors, gives reading and
writing to a pool of threads and takes their results. A descriptor is taken out of `epoll` while a
task works on it and is put back when the result of the task is handled. `fd_in_process` marks such
descriptors.

The model follows one turn of the loop section by section: the results of tasks, the descriptors
that may have got data meanwhile, the events, the messages to be sent, the clients that did not
authorize, the writing, the connections without activity. Between two steps of the loop any task
may read, or finish. The outcomes of the socket calls are part of the actions, and a call can
succeed only where the kernel lets it.

What travels is left out, except from which connection it comes: a connection is known by the
number that the server gives it when it accepts it.
-/

namespace RssDisk.Network.Listen

open Lib Function

/-- A descriptor. -/
abbrev Fd := Nat

/-- `count_accepted_on`: the number of a connection; the first one is 1. -/
abbrev Conn := Nat

/-- `e_multithreaded::todo`. -/
inductive Todo where
  | ok
  | okRead
  | okParsed
  | remove
  | setEpollOut
deriving DecidableEq

/-- `e_multithreaded::responce`. -/
structure Responce where
  status : Todo
  conn : Conn := 0
  bytes : List Conn := []

/-- A read or write task of the pool that has not finished. -/
structure Task where
  fd : Fd
  reads : Bool
  /-- The connection the descriptor belonged to when the task was started. -/
  conn : Conn
  /-- The connections the bytes come from that it has read so far. -/
  bytes : List Conn := []

/-- With what a task can finish. -/
def Task.mayFinish (t : Task) : Todo → Bool
  | .remove => true
  | .okRead => t.reads
  | .ok | .setEpollOut => !t.reads
  | .okParsed => false

/-- What `epoll` watches a descriptor for. -/
structure Interest where
  epollin : Bool
  epollout : Bool

/-- An event of `epoll_wait`. -/
inductive Event where
  | listening
  /-- Something happened on a connection: an error or a hangup, bytes to be read, room to write. -/
  | client (fd : Fd) (err epollin epollout : Bool)

/-- The descriptor of an event on a connection. -/
def Event.fd? : Event → Option Fd
  | .listening => none
  | .client fd _ _ _ => some fd

/-- The section of the loop. -/
inductive Phase where
  /-- Before `epoll_wait`. -/
  | waiting
  /-- Before `get_actions`. -/
  | woken
  | acting
  | checking
  | handling
  /-- An event behind its `EPOLLIN` part. -/
  | draining (fd : Fd) (epollout : Bool)
  | pushing
  | kicking
  | writing
  | sweeping
  /-- `listen` has returned. -/
  | stopped
deriving DecidableEq

/-- The state of the server, its pool and its descriptors. -/
structure EventLoop where
  phase : Phase := .waiting
  opened : Fd → Option Conn := fun _ => none
  /-- What `epoll` watches. -/
  interest : Fd → Option Interest := fun _ => none
  /-- `fd_in_process`. -/
  inProcess : Fd → Bool := fun _ => false
  /-- `fd_check_data_incoming`. -/
  checkDataIncoming : List Fd := []
  /-- `actions`: the results of tasks. -/
  actions : UMap Fd Responce := ∅
  /-- `messages`: the connections the bytes of incomplete messages come from. -/
  messages : Fd → List Conn := fun _ => []
  /-- The descriptors in `encryption_data`. -/
  encrypted : Fd → Bool := fun _ => false
  /-- `authorized_clients`. -/
  clients : Fd → Option Conn := fun _ => none
  /-- `awaiting_authorize_clients`. -/
  awaitingAuthorize : Fd → Bool := fun _ => false
  /-- `awaiting_for_write`: for each message whether it waits for `EPOLLOUT`. -/
  queue : Fd → List Bool := fun _ => []
  tasks : List Task := []
  countAccepted : Nat := 0
  /-- `mt_actions`: the results this turn has still to handle. -/
  mtActions : UMap Fd Responce := ∅
  /-- `check_incoming`: the descriptors this turn has still to look at. -/
  checkIncoming : List Fd := []
  events : List Event := []
  /-- From which connections bytes were taken for which connection. -/
  parsed : List (List Conn × Conn) := []

namespace EventLoop

variable (s : EventLoop)

/-- `epoll_v2::remove`. -/
def remove (fd : Fd) : EventLoop :=
  { s with
    queue := update s.queue fd []
    clients := update s.clients fd none
    awaitingAuthorize := update s.awaitingAuthorize fd false
    actions := s.actions.erase fd
    messages := update s.messages fd []
    encrypted := update s.encrypted fd false
    interest := update s.interest fd none
    opened := update s.opened fd none }

def processEnded (fd : Fd) : EventLoop :=
  { s with
    inProcess := update s.inProcess fd false
    checkDataIncoming := fd :: s.checkDataIncoming }

/-- `add_to_process`, and whether it succeeds: it takes the descriptor out of `epoll`. -/
def addToProcess (fd : Fd) (deleted : Bool) : EventLoop × Bool :=
  if deleted then
    ({ s with
      inProcess := update s.inProcess fd true
      checkDataIncoming := s.checkDataIncoming.filter (· ≠ fd)
      interest := update s.interest fd none }, true)
  else ({ s with actions := s.actions.insert fd ⟨.remove, 0, []⟩ }, false)

def pushTask (fd : Fd) (reads : Bool) : EventLoop :=
  { s with tasks := s.tasks ++ [⟨fd, reads, (s.opened fd).getD 0, []⟩] }

/-- `f_mt_read`. -/
def mtRead (fd : Fd) (deleted : Bool) : EventLoop :=
  if s.inProcess fd then s
  else
    let added := s.addToProcess fd deleted
    if added.2 then added.1.pushTask fd true else added.1

/-- `write_to_fd` on a queue that is not empty: the first messages are merged into one, and a task
takes it. -/
def writeToFd (fd : Fd) (merged : Nat) (deleted : Bool) : EventLoop :=
  let rest := (s.queue fd).drop merged
  if s.inProcess fd then { s with queue := update s.queue fd (false :: rest) }
  else
    let added := s.addToProcess fd deleted
    if added.2 then { added.1.pushTask fd false with queue := update s.queue fd rest }
    else { added.1 with queue := update s.queue fd (false :: rest) }

/-- `process_finished`: what was read on an encrypted connection is split together with what the
last read has left, and `left` says whether something is left again. -/
def processFinished (t : Task) (status : Todo) (left : Bool) : EventLoop :=
  let parses := status = .okRead ∧ s.encrypted t.fd = true
  let bytes := if parses then s.messages t.fd ++ t.bytes else t.bytes
  let r : Responce := ⟨if parses then .okParsed else status, t.conn, bytes⟩
  { s with
    messages :=
      if parses then update s.messages t.fd (if left then bytes else []) else s.messages
    actions := if status = .remove then s.actions.insert t.fd r else s.actions.emplace t.fd r }

/-- `EPOLL_CTL_ADD` at the end of a task. -/
def rearm (fd : Fd) (added : Bool) (interest : Interest) : EventLoop :=
  if added then { s with interest := update s.interest fd (some interest) } else s.remove fd

/-- Bytes that were read are given to the client of the descriptor; `established` says whether the
encryption is confirmed by them. -/
def take (fd : Fd) (r : Responce) (established : Bool) : EventLoop :=
  match s.clients fd with
  | none => s
  | some c =>
    { s with
      parsed := s.parsed ++ [(r.bytes, c)]
      encrypted :=
        if r.status = .okRead ∧ established = true then update s.encrypted fd true
        else s.encrypted }

/-- The handling of one result; `added` is the outcome of `EPOLL_CTL_ADD`. -/
def act (fd : Fd) (r : Responce) (added established : Bool) : EventLoop :=
  let s := ({ s with mtActions := s.mtActions.erase fd }).processEnded fd
  match r.status with
  | .ok => s.rearm fd added ⟨true, !(s.queue fd).isEmpty⟩
  | .okRead | .okParsed =>
    (s.rearm fd added ⟨true, !(s.queue fd).isEmpty⟩).take fd r established
  | .setEpollOut =>
    ({ s with queue := update s.queue fd (true :: s.queue fd) }).rearm fd added ⟨false, true⟩
  | .remove => s.remove fd

/-- The `EPOLLOUT` part of an event on a descriptor that is in order. -/
def drain (fd : Fd) (modified : Bool) : EventLoop :=
  match s.queue fd with
  | [] => s
  | _ :: rest =>
    { s with
      queue := update s.queue fd (false :: rest)
      interest :=
        if modified then update s.interest fd (some ⟨true, false⟩) else s.interest }

def accept (fd : Fd) : EventLoop :=
  { s with
    opened := update s.opened fd (some (s.countAccepted + 1))
    interest := update s.interest fd (some ⟨true, false⟩)
    clients := update s.clients fd (some (s.countAccepted + 1))
    awaitingAuthorize := update s.awaitingAuthorize fd true
    countAccepted := s.countAccepted + 1 }

end EventLoop

/-- What the loop, the kernel and the pool can do. -/
inductive Action where
  /-- `epoll_wait` returns. -/
  | epollWait (events : List Event)
  | getActions
  | act (fd : Fd) (added established : Bool)
  /-- `recv` with `MSG_PEEK`, and `f_mt_read` when there is something. -/
  | peek (fd : Fd) (available deleted : Bool)
  | accept (fd : Fd) (added : Bool)
  /-- `accept` finds no more connections. -/
  | accepted
  /-- `epoll_wait` or `accept` fails. -/
  | fails
  | hangup
  /-- The `EPOLLIN` part of an event, after `socket_check`. -/
  | readable (checked deleted : Bool)
  /-- The `EPOLLOUT` part of an event, after `socket_check`. -/
  | writable (checked modified : Bool)
  /-- A message for a client is queued: a response, an event or an echo, or the confirmation of the
  encryption while a result is handled. -/
  | push (fd : Fd)
  | authorized (fd : Fd)
  | kick (fd : Fd)
  /-- `write_to_fd`. -/
  | write (fd : Fd) (merged : Nat) (deleted : Bool)
  | inactive (fd : Fd)
  | proceed
  | taskRead (place : Nat)
  | taskFinish (place : Nat) (status : Todo) (left : Bool)

namespace EventLoop

variable (s : EventLoop)

/-- `EPOLL_CTL_DEL` and `EPOLL_CTL_MOD` can succeed on a watched descriptor only. -/
def canChange (fd : Fd) (changed : Bool) : Bool :=
  !changed || (s.interest fd).isSome

/-- `EPOLL_CTL_ADD` can succeed on an open descriptor that is not watched. -/
def canAdd (fd : Fd) (added : Bool) : Bool :=
  !added || ((s.opened fd).isSome && (s.interest fd).isNone)

/-- Calls on a socket can succeed on an open descriptor only. -/
def canUse (fd : Fd) (used : Bool) : Bool :=
  !used || (s.opened fd).isSome

/-- An event can come from what is watched. -/
def canHappen : Event → Bool
  | .listening => true
  | .client fd _ epollin epollout =>
    match s.interest fd with
    | none => false
    | some interest => (!epollin || interest.epollin) && (!epollout || interest.epollout)

/-- The next section, when everything of this one is done. -/
def proceed : Option EventLoop :=
  match s.phase with
  | .acting =>
    if s.mtActions.keys = [] then
      some { s with
        phase := .checking
        checkIncoming := s.checkDataIncoming
        checkDataIncoming := [] }
    else none
  | .checking => if s.checkIncoming = [] then some { s with phase := .handling } else none
  | .handling =>
    match s.events with
    | [] => some { s with phase := .pushing }
    | .client fd false false true :: events => some { s with phase := .draining fd true, events }
    | _ => none
  | .draining _ false => some { s with phase := .handling }
  | .pushing => some { s with phase := .kicking }
  | .kicking =>
    -- queues without a client are cleared
    some { s with
      phase := .writing
      queue := fun fd => if s.inProcess fd ∨ (s.clients fd).isSome then s.queue fd else [] }
  | .writing => some { s with phase := .sweeping }
  | .sweeping => some { s with phase := .waiting }
  | _ => none

def step : Action → Option EventLoop
  | .epollWait events =>
    if s.phase = .waiting ∧ (events.filterMap Event.fd?).Nodup ∧ events.all s.canHappen then
      some { s with phase := .woken, events }
    else none
  | .getActions =>
    if s.phase = .woken then
      some { s with phase := .acting, mtActions := s.actions, actions := ∅ }
    else none
  | .act fd added established =>
    if s.phase = .acting ∧ s.canAdd fd added then
      (s.mtActions.lookup fd).map (fun r => s.act fd r added established)
    else none
  | .peek fd available deleted =>
    if s.phase = .checking ∧ fd ∈ s.checkIncoming ∧ s.canUse fd available ∧
        s.canChange fd deleted then
      let s := { s with checkIncoming := s.checkIncoming.filter (· ≠ fd) }
      some (if available then s.mtRead fd deleted else s)
    else none
  | .accept fd added =>
    match s.phase, s.events with
    | .handling, .listening :: _ =>
      if (s.opened fd).isNone then
        if added then some (s.accept fd)
        else
          some { s with
            phase := .stopped, opened := update s.opened fd (some (s.countAccepted + 1)) }
      else none
    | _, _ => none
  | .accepted =>
    match s.phase, s.events with
    | .handling, .listening :: events => some { s with events }
    | _, _ => none
  | .fails =>
    match s.phase, s.events with
    | .waiting, _ => some { s with phase := .stopped }
    | .handling, .listening :: _ => some { s with phase := .stopped }
    | _, _ => none
  | .hangup =>
    match s.phase, s.events with
    | .handling, .client fd err epollin epollout :: events =>
      if err ∨ (!epollin ∧ !epollout) then some (({ s with events }).remove fd) else none
    | _, _ => none
  | .readable checked deleted =>
    match s.phase, s.events with
    | .handling, .client fd false true epollout :: events =>
      if s.canUse fd checked ∧ s.canChange fd deleted then
        let s := { s with phase := .draining fd epollout, events }
        some (if checked then s.mtRead fd deleted else s.remove fd)
      else none
    | _, _ => none
  | .writable checked modified =>
    match s.phase with
    | .draining fd true =>
      if s.canUse fd checked ∧ s.canChange fd modified then
        let s := { s with phase := .handling }
        some (if checked then s.drain fd modified else s.remove fd)
      else none
    | _ => none
  | .push fd =>
    if (s.phase = .pushing ∨ s.phase = .acting) ∧ (s.clients fd).isSome then
      some { s with queue := update s.queue fd (s.queue fd ++ [false, false, false]) }
    else none
  | .authorized fd =>
    if s.phase = .kicking then
      some { s with awaitingAuthorize := update s.awaitingAuthorize fd false }
    else none
  | .kick fd =>
    if s.phase = .kicking ∧ s.awaitingAuthorize fd ∧ !s.inProcess fd then some (s.remove fd)
    else none
  | .write fd merged deleted =>
    if s.phase = .writing ∧ !s.inProcess fd ∧ (s.queue fd).head? = some false ∧
        (s.clients fd).isSome ∧ 0 < merged ∧ s.canChange fd deleted then
      some (s.writeToFd fd merged deleted)
    else none
  | .inactive fd =>
    if s.phase = .sweeping ∧ (s.clients fd).isSome then some (s.remove fd) else none
  | .proceed => s.proceed
  | .taskRead place =>
    match s.tasks[place]? with
    | none => none
    | some t =>
      if t.reads then
        (s.opened t.fd).map (fun c =>
          { s with tasks := s.tasks.set place { t with bytes := t.bytes ++ [c] } })
      else none
  | .taskFinish place status left =>
    match s.tasks[place]? with
    | none => none
    | some t =>
      if t.mayFinish status then
        some (({ s with tasks := s.tasks.eraseIdx place }).processFinished t status left)
      else none

/-- The steps behind which no task is left on a descriptor that the loop gives up: a socket is not
found broken for writing, and a connection is not found without activity, while a task works on it;
and no task is started for a descriptor that a failed `EPOLL_CTL_DEL` has marked for removal. -/
def Careful : Action → Prop
  | .writable checked _ =>
    match s.phase with
    | .draining fd _ => checked = true ∨ s.inProcess fd = false
    | _ => True
  | .write fd _ _ => (s.actions.lookup fd).isNone
  | .inactive fd => s.inProcess fd = false
  | _ => True

instance (action : Action) : Decidable (s.Careful action) := by
  unfold Careful
  split
  · split <;> infer_instance
  all_goals infer_instance

/-- No descriptor has two tasks, every task works on the connection it was started for, and bytes
are taken for the connection they come from. -/
structure Separate : Prop where
  alone : (s.tasks.map Task.fd).Nodup
  /-- A descriptor with a task is neither closed nor given to another connection. -/
  kept : ∀ t ∈ s.tasks, s.opened t.fd = some t.conn
  own : ∀ entry ∈ s.parsed, ∀ c ∈ entry.1, c = entry.2

end EventLoop

end RssDisk.Network.Listen
