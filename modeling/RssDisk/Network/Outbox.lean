import RssDisk.Network.Session
import RssDisk.Network.Undisturbed

/-!
# What the server sends

A message for a client is queued between two delimiters in `awaiting_for_write`. The event loop
merges short messages and gives the first one to a task of the pool. The task calls `send` once; a
message that was not taken whole travels with its cursor through `actions` back to the front of the
queue and waits there for `EPOLLOUT`.

The model goes along with the event loop: it adds what is queued, what each task carries and what
waits with a result, and it records for each connection its descriptor, the texts that were queued
and the bytes that the kernel has taken.
-/

namespace RssDisk.Network.Outbox

open Lib Listen Function

structure MWrite where
  msg : Bytes
  tSizeSend : Nat := 0
  /-- Whether it waits for `EPOLLOUT`. -/
  isOnWaitingEpollout : Bool := false
deriving DecidableEq

/-- The bytes that were not sent. -/
def MWrite.rest (w : MWrite) : Bytes :=
  w.msg.drop w.tSizeSend

/-- What a task carries: a write task its message and, behind `::send`, its status; a read task
nothing. -/
structure Cargo where
  w : MWrite := { msg := [] }
  status : Option Todo := none

/-- The loop of `write_to_fd` over the queue: it appends short messages to `one` and leaves the
others. -/
def takeShort (one : Bytes) : List MWrite → Bytes × List MWrite
  | [] => (one, [])
  | w :: msgs =>
    if w.tSizeSend ≠ 0 then (one, w :: msgs)
    else if w.msg.length < 1024 * 1024 ∧ one.length < 1024 * 1024 then
      takeShort (one ++ w.msg) msgs
    else (one, w :: msgs)

/-- The queue when short messages are merged. -/
def splitShortMessages (msgs : List MWrite) : List MWrite :=
  let taken := takeShort [] msgs
  if 1 < msgs.length - taken.2.length then { msg := taken.1 } :: taken.2 else msgs

/-- The call of `::send` of a write task: the message behind it, the bytes that the kernel takes,
and the status. -/
def MWrite.send (w : MWrite) (result : SendResult) : Option (MWrite × Bytes × Todo) :=
  if w.msg = [] then some (w, [], .ok)
  else
    match result with
    | .wrote n =>
      if 0 < n ∧ n ≤ w.rest.length then
        let sent := { w with tSizeSend := w.tSizeSend + n }
        some (sent, w.rest.take n, if sent.tSizeSend = w.msg.length then .ok else .setEpollOut)
      else none
    | .again => some (w, [], .setEpollOut)
    | .stopped => some (w, [], .remove)

/-- The event loop and what it sends. -/
structure State where
  loop : EventLoop := {}
  /-- `awaiting_for_write`. -/
  awaiting : Fd → List MWrite := fun _ => []
  cargos : List Cargo := []
  /-- The messages of `actions`. -/
  results : Fd → MWrite := fun _ => { msg := [] }
  /-- The messages of `mt_actions`. -/
  mtResults : Fd → MWrite := fun _ => { msg := [] }
  home : Conn → Option Fd := fun _ => none
  pushed : Conn → List Bytes := fun _ => []
  sent : Conn → Bytes := fun _ => []

/-- What the loop, the kernel and the pool can do. -/
inductive Deed where
  | loop (action : Action)
  /-- `push_message`. -/
  | push (fd : Fd) (text : Bytes)
  /-- `write_to_fd`. -/
  | write (fd : Fd) (deleted : Bool)
  /-- A write task calls `::send`. -/
  | send (place : Nat) (result : SendResult)
  /-- A write task calls `process_finished`. -/
  | finish (place : Nat)

namespace State

/-- The steps that concern no message: writing, and finishing a write task, are steps of their
own. -/
def plain (o : State) : Action → Bool
  | .push _ => false
  | .write _ _ _ => false
  | .taskFinish place _ _ => (o.loop.tasks[place]?).any (fun t => t.reads)
  | _ => true

/-- What a step of the event loop does to the messages. -/
def follow (o : State) : Action → State
  | .getActions => { o with mtResults := o.results }
  | .act fd _ _ =>
    if (o.loop.mtActions.lookup fd).any (fun r => r.status = .setEpollOut) then
      { o with
        awaiting := update o.awaiting fd
          ({ o.mtResults fd with isOnWaitingEpollout := true } :: o.awaiting fd) }
    else o
  | .writable true _ =>
    match o.loop.phase with
    | .draining fd _ =>
      match o.awaiting fd with
      | [] => o
      | w :: msgs =>
        { o with
          awaiting := update o.awaiting fd ({ w with isOnWaitingEpollout := false } :: msgs) }
    | _ => o
  | .proceed =>
    if o.loop.phase = .kicking then
      { o with
        awaiting := fun fd =>
          if o.loop.inProcess fd ∨ (o.loop.clients fd).isSome then o.awaiting fd else [] }
    else o
  | .taskFinish place _ _ => { o with cargos := o.cargos.eraseIdx place }
  | _ => o

/-- `remove` deletes the messages of a descriptor. -/
def clear (o : State) : Option Fd → State
  | some fd => { o with awaiting := update o.awaiting fd [] }
  | none => o

/-- The messages behind a step of the event loop; a new read task carries nothing. -/
def turn (o : State) (action : Action) (loop : EventLoop) : State :=
  let o' := (o.follow action).clear (o.loop.removes action)
  { o' with
    loop
    cargos := o'.cargos ++ List.replicate (loop.tasks.length - o'.cargos.length) {}
    home := o.loop.homes o.home action }

/-- One step. The messages stand between the delimiter. -/
def step (det : Bytes) (o : State) : Deed → Option State
  | .loop action =>
    if o.plain action then (o.loop.step action).map (o.turn action) else none
  | .push fd text =>
    match o.loop.clients fd with
    | none => none
    | some c =>
      (o.loop.step (.push fd)).map (fun loop =>
        { o with
          loop
          awaiting := update o.awaiting fd
            (o.awaiting fd ++ [{ msg := det }, { msg := text }, { msg := det }])
          pushed := update o.pushed c (o.pushed c ++ [text]) })
  | .write fd deleted =>
    match splitShortMessages (o.awaiting fd) with
    | [] => none
    | w :: msgs =>
      (o.loop.step (.write fd ((o.awaiting fd).length - msgs.length) deleted)).map (fun loop =>
        if deleted then
          { o with
            loop, awaiting := update o.awaiting fd msgs, cargos := o.cargos ++ [{ w }] }
        else { o with loop, awaiting := update o.awaiting fd (w :: msgs) })
  | .send place result =>
    match o.loop.tasks[place]?, o.cargos[place]? with
    | some ⟨fd, false, _, _⟩, some ⟨w, none⟩ =>
      match w.send result, o.loop.opened fd with
      | some (w, bytes, status), some c =>
        some { o with
          cargos := o.cargos.set place ⟨w, some status⟩
          sent := update o.sent c (o.sent c ++ bytes) }
      | some (w, [], status), none =>
        some { o with cargos := o.cargos.set place ⟨w, some status⟩ }
      | _, _ => none
    | _, _ => none
  | .finish place =>
    match o.loop.tasks[place]?, o.cargos[place]? with
    | some ⟨fd, false, _, _⟩, some ⟨w, some status⟩ =>
      (o.loop.step (.taskFinish place status false)).map (fun loop =>
        { o with
          loop
          cargos := o.cargos.eraseIdx place
          results :=
            if status = .remove ∨ (o.loop.actions.lookup fd).isNone then update o.results fd w
            else o.results })
    | _, _ => none

/-- A step that does not close a descriptor while a task works on it. -/
def Undisturbed (fd : Fd) (o : State) : Deed → Prop
  | .loop action => o.loop.Undisturbed fd action
  | _ => True

instance (fd : Fd) (o : State) (deed : Deed) : Decidable (o.Undisturbed fd deed) := by
  cases deed <;> unfold Undisturbed <;> infer_instance

end State

/-- What can be seen of the messages of one descriptor. -/
structure Desk where
  view : View
  hands : List (Task × Cargo)
  result : MWrite
  /-- The message of its result that this turn has still to handle. -/
  handled : MWrite
  awaiting : List MWrite

/-- What the tasks of a descriptor carry. -/
def hands (tasks : List Task) (cargos : List Cargo) (fd : Fd) : List (Task × Cargo) :=
  (tasks.zip cargos).filter (fun pair => pair.1.fd = fd)

/-- What can be seen of the messages of a descriptor. -/
def State.desk (o : State) (fd : Fd) : Desk where
  view := o.loop.view fd
  hands := hands o.loop.tasks o.cargos fd
  result := o.results fd
  handled := o.mtResults fd
  awaiting := o.awaiting fd

/-- What waits with a result to be put back. -/
def back (waiting : Option Listen.Responce) (w : MWrite) : Bytes :=
  if waiting.any (fun r => r.status = .setEpollOut) then w.rest else []

namespace Desk

/-- The bytes that are still to be sent: with a task, with a result, or in the queue. -/
def pending (d : Desk) : Bytes :=
  d.hands.flatMap (fun pair => pair.2.w.rest) ++ back d.view.action d.result ++
    back d.view.taken d.handled ++ d.awaiting.flatMap MWrite.rest

/-- No task works on the descriptor, and a removal waits for it. -/
structure Doomed (d : Desk) : Prop where
  busy : d.view.inProcess = true
  alone : d.view.tasks = []
  closing : View.Closing d.view.action ∧ View.Closing d.view.taken
  waits : d.view.action.isSome ∨ d.view.taken.isSome

end Desk

/-- The texts between their delimiters. -/
def framed (det : Bytes) (texts : List Bytes) : Bytes :=
  texts.flatMap (fun text => det ++ text ++ det)

end RssDisk.Network.Outbox
