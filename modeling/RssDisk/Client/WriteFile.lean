import Mathlib.Data.Finset.Insert
import RssDisk.Lib.Reach

/-!
# The parts of `write_file`

`write_file` sends the file to some servers and waits for their answers; when too few of them are
`ok` in the time of a part, it goes on with other servers in the next part. The callbacks of all
parts stay until the call returns, and all of them count down `count_awainting_responses`, which
every part sets to zero at its start.

Here the call is a system: the thread of the caller, and the threads that run callbacks. A part's
wait ends too early when the callback for a request of an earlier part counts down while answers of
this part are outstanding.
-/

namespace RssDisk.Client.WriteFile

open Lib List Option

structure Server where
  index : Nat
  ip : UInt32
deriving DecidableEq, Repr

/-- A request, and the part in which it was sent. -/
structure Request where
  server : Server
  part : Nat
deriving DecidableEq, Repr

/-- `write_options`, as far as the loop over the parts reads them. -/
structure WriteOptions where
  countServerToWrite : Int
  countParts : Int

/-- Where the thread of the caller is. -/
inductive Phase where
  | between
  /-- In `f_send`. -/
  | sending
  /-- In `wait_for`. -/
  | waiting
  | leaving
  | returned
deriving DecidableEq, Repr

/-- A call of `write_file` that waits for answers. -/
structure Call where
  phase : Phase := .between
  part : Nat := 0
  /-- `servers_pool_indexex`. -/
  pool : List Server
  loopSend : Int
  needToSend : Int := 0
  /-- `count_awainting_responses`. -/
  count : Int := 0
  /-- `count_ok`, which becomes `writed_count`. -/
  countOk : Int := 0
  /-- `ips_ok`, which becomes `writed_ips`. -/
  ipsOk : Finset UInt32 := ∅
  awaited : List Request := []
  /-- The requests whose callback runs and has not counted down. -/
  running : List Request := []
  passed : List Nat := []
  /-- The requests that were acknowledged in the time of their part. -/
  inTime : List Request := []

def start (options : WriteOptions) (pool : List Server) : Call where
  pool
  loopSend := options.countServerToWrite

inductive Event where
  | begin
  /-- `pop_index_rand` finds a server; when it is connected the request is sent. -/
  | pop (server : Server) (connected : Bool)
  /-- `f_send` returns, and the wait begins. -/
  | wait
  /-- An answer comes: the callback counts it when it is `ok`. -/
  | answer (r : Request) (ok : Bool)
  | countDown (r : Request)
  | deadline (part : Nat)
  | wake
  | close
deriving DecidableEq, Repr

/-- One round of `f_send`. -/
def Call.popped (s : Call) (server : Server) (connected : Bool) : Call :=
  let s := { s with pool := s.pool.erase server }
  if connected then
    { s with
      awaited := ⟨server, s.part⟩ :: s.awaited
      needToSend := s.needToSend - 1
      count := s.count + 1 }
  else s

/-- An answer: behind the return nobody sees it. -/
def Call.answered (s : Call) (r : Request) (ok : Bool) : Call :=
  let s := { s with
    awaited := s.awaited.erase r
    inTime := if ok ∧ r.part ∉ s.passed then r :: s.inTime else s.inTime }
  if s.phase = .returned then s
  else
    { s with
      running := r :: s.running
      countOk := if ok then s.countOk + 1 else s.countOk
      ipsOk := if ok then insert r.server.ip s.ipsOk else s.ipsOk }

/-- The end of a part. -/
def Call.woken (options : WriteOptions) (s : Call) : Call :=
  if options.countServerToWrite ≤ s.countOk then
    { s with phase := .leaving, part := s.part + 1 }
  else
    { s with
      phase := .between, part := s.part + 1, loopSend := options.countServerToWrite - s.countOk }

/-- The time of a part runs from the start of its wait. -/
def Call.Begun (s : Call) (part : Nat) : Prop :=
  part < s.part ∨ part = s.part ∧ s.phase = .waiting

instance (s : Call) (part : Nat) : Decidable (s.Begun part) :=
  inferInstanceAs (Decidable (_ ∨ _))

/-- One step of the call; `none` when it is not possible. -/
def step (options : WriteOptions) (s : Call) : Event → Option Call
  | .begin =>
    if s.phase = .between then
      if s.part < options.countParts ∧ s.pool ≠ [] then
        some { s with phase := .sending, count := 0, needToSend := s.loopSend }
      else some { s with phase := .leaving }
    else none
  | .pop server connected =>
    if s.phase = .sending ∧ 0 < s.needToSend ∧ server ∈ s.pool then
      some (s.popped server connected)
    else none
  | .wait =>
    if s.phase = .sending ∧ (s.needToSend ≤ 0 ∨ s.pool = []) then
      some { s with phase := .waiting }
    else none
  | .answer r ok => if r ∈ s.awaited then some (s.answered r ok) else none
  | .countDown r =>
    if r ∈ s.running then
      some { s with running := s.running.erase r, count := s.count - 1 }
    else none
  | .deadline part =>
    if s.Begun part then some { s with passed := part :: s.passed } else none
  | .wake =>
    if s.phase = .waiting ∧ (s.count ≤ 0 ∨ s.part ∈ s.passed) then some (s.woken options)
    else none
  | .close =>
    if s.phase = .leaving ∧ s.running = [] then some { s with phase := .returned } else none

/-- The requests that are not answered, or whose callback has not counted down. -/
def Call.outstanding (s : Call) : List Request := s.awaited ++ s.running

/-- How many of them are of the current part. -/
def Call.open_ (s : Call) : Nat := s.outstanding.countP (fun r => r.part = s.part)

/-- A callback that counts down in a part is one of its own requests, or all of its requests are
answered and it waits. -/
def Timely (s : Call) : Event → Prop
  | .countDown r =>
    r.part = s.part ∨ s.phase ≠ .sending ∧ (s.phase = .waiting → s.open_ = 0)
  | _ => True

instance (s : Call) : DecidablePred (Timely s)
  | .countDown _ => inferInstanceAs (Decidable (_ ∨ _))
  | .begin | .pop .. | .wait | .answer .. | .deadline _ | .wake | .close => isTrue trivial

/-- A part whose wait has ended: its time has passed, or all of its requests are answered. -/
def Call.Complete (s : Call) (part : Nat) : Prop :=
  part ∈ s.passed ∨ ∀ r ∈ s.outstanding, r.part ≠ part

/-- The acknowledgements in time are reported. -/
def Call.Reports (s : Call) : Prop :=
  s.inTime.length ≤ s.countOk ∧ ∀ r ∈ s.inTime, r.server.ip ∈ s.ipsOk

/-- What a run keeps. -/
structure Sound (s : Call) : Prop where
  complete : ∀ part < s.part, s.Complete part
  /-- Requests are of parts whose wait has ended, or of the part that sends or waits. -/
  sent : ∀ r ∈ s.outstanding, r.part < s.part ∨
    r.part = s.part ∧ (s.phase = .sending ∨ s.phase = .waiting)
  /-- While a part sends, its outstanding requests are counted. -/
  sending : s.phase = .sending → (s.open_ : Int) ≤ s.count
  /-- While a part waits, its outstanding requests are counted, unless there are none. -/
  waiting : s.phase = .waiting → (s.open_ : Int) ≤ s.count ∨ s.open_ = 0
  reports : s.Reports

section

variable {options : WriteOptions} {s t : Call} {r : Request}

theorem Call.Complete.mono {part : Nat} (complete : s.Complete part)
    (passed : s.passed ⊆ t.passed) (outstanding : t.outstanding ⊆ s.outstanding) :
    t.Complete part := by
  cases complete with
  | inl late => exact .inl (passed late)
  | inr answered => exact .inr (fun r member => answered r (outstanding member))

theorem open_eq_zero : s.open_ = 0 ↔ ∀ r ∈ s.outstanding, r.part ≠ s.part := by
  rw [Call.open_, countP_eq_zero]
  simp

theorem Sound.open_between (sound : Sound s) (between : s.phase = .between) : s.open_ = 0 := by
  rw [open_eq_zero]
  intro r member same
  cases sound.sent r member with
  | inl before => omega
  | inr now => simp [between] at now

theorem Sound.begins (sound : Sound s) (between : s.phase = .between) (need : Int) :
    Sound { s with phase := .sending, count := 0, needToSend := need } where
  complete := sound.complete
  sent r member := by
    cases sound.sent r member with
    | inl before => exact .inl before
    | inr now => simp [between] at now
  sending _ := by
    have none_open : s.open_ = 0 := sound.open_between between
    exact Int.natCast_nonpos_iff.mpr none_open
  waiting := by simp
  reports := sound.reports

theorem Sound.rests (sound : Sound s) (rest : s.phase ≠ .sending ∧ s.phase ≠ .waiting)
    {phase : Phase} (next : phase ≠ .sending ∧ phase ≠ .waiting) : Sound { s with phase } where
  complete := sound.complete
  sent r member := by
    cases sound.sent r member with
    | inl before => exact .inl before
    | inr now =>
      cases now.2 with
      | inl sends => exact absurd sends rest.1
      | inr waits => exact absurd waits rest.2
  sending sends := absurd sends next.1
  waiting waits := absurd waits next.2
  reports := sound.reports

theorem Sound.popped (sound : Sound s) (sends : s.phase = .sending) (server : Server)
    (connected : Bool) : Sound (s.popped server connected) := by
  cases connected with
  | false => exact { sound with }
  | true =>
    constructor
    · intro part before
      cases sound.complete part before with
      | inl late => exact .inl late
      | inr answered =>
        apply Or.inr
        intro r member
        cases mem_cons.mp member with
        | inl new =>
          rw [new]
          exact (ne_of_lt before).symm
        | inr old => exact answered r old
    · intro r member
      cases mem_cons.mp member with
      | inl new =>
        rw [new]
        exact .inr ⟨rfl, .inl sends⟩
      | inr old => exact sound.sent r old
    · intro _
      have counted := sound.sending sends
      have one_more : (s.popped server true).open_ = s.open_ + 1 :=
        countP_cons_of_pos (decide_eq_true rfl)
      rw [one_more]
      push_cast
      exact Int.add_le_add_right counted 1
    · intro waits
      exact absurd (sends.symm.trans waits) (by decide)
    · exact sound.reports

theorem Sound.waits (sound : Sound s) (sends : s.phase = .sending) :
    Sound { s with phase := .waiting } where
  complete := sound.complete
  sent r member := by
    cases sound.sent r member with
    | inl before => exact .inl before
    | inr now => exact .inr ⟨now.1, .inr rfl⟩
  sending := by simp
  waiting _ := .inl (sound.sending sends)
  reports := sound.reports

theorem answered_outstanding (member : r ∈ s.awaited) (here : s.phase ≠ .returned) (ok : Bool) :
    (s.answered r ok).outstanding.Perm s.outstanding := by
  rw [Call.answered]
  simp only [if_neg here, Call.outstanding]
  have moved : (s.awaited.erase r ++ r :: s.running).Perm (r :: s.awaited.erase r ++ s.running) :=
    perm_middle
  exact moved.trans ((perm_cons_erase member).symm.append_right _)

theorem Sound.answered (sound : Sound s) (member : r ∈ s.awaited) (here : s.phase ≠ .returned)
    (ok : Bool) : Sound (s.answered r ok) := by
  have same := answered_outstanding member here ok
  have still : (s.answered r ok).open_ = s.open_ := by
    have part : (s.answered r ok).part = s.part := by
      simp only [Call.answered, if_neg here]
    rw [Call.open_, Call.open_, part]
    exact same.countP_eq _
  have reports : (s.answered r ok).Reports := by
    obtain ⟨counted, listed⟩ := sound.reports
    simp only [Call.Reports, Call.answered, if_neg here]
    cases ok with
    | false => exact ⟨counted, listed⟩
    | true =>
      simp only [true_and, ↓reduceIte]
      split
      · refine ⟨by rw [length_cons]; push_cast; omega, fun q acknowledged => ?_⟩
        cases mem_cons.mp acknowledged with
        | inl new =>
          grind
        | inr old => exact Finset.mem_insert_of_mem (listed q old)
      · exact ⟨by omega, fun q old => Finset.mem_insert_of_mem (listed q old)⟩
  have fields : (s.answered r ok).part = s.part ∧ (s.answered r ok).phase = s.phase ∧
      (s.answered r ok).count = s.count ∧ (s.answered r ok).passed = s.passed := by
    simp only [Call.answered, if_neg here, and_self]
  obtain ⟨part, phase, count, passed⟩ := fields
  constructor
  · intro p before
    rw [part] at before
    exact (sound.complete p before).mono (fun q late => passed ▸ late) same.subset
  · intro q outstanding
    rw [part, phase]
    exact sound.sent q (same.subset outstanding)
  · rw [phase, still, count]
    exact sound.sending
  · rw [phase, still, count]
    exact sound.waiting
  · exact reports

theorem Sound.unseen (sound : Sound s) (member : r ∈ s.awaited) (gone : s.phase = .returned)
    (ok : Bool) : Sound (s.answered r ok) := by
  have outstanding : r ∈ s.outstanding := mem_append_left _ member
  have before : r.part < s.part := by
    cases sound.sent r outstanding with
    | inl before => exact before
    | inr now => simp [gone] at now
  have late : r.part ∈ s.passed := by
    cases sound.complete r.part before with
    | inl late => exact late
    | inr answered => exact absurd rfl (answered r outstanding)
  have rest : s.answered r ok = { s with awaited := s.awaited.erase r } := by
    simp [Call.answered, gone, late]
  have fewer : s.awaited.erase r ++ s.running ⊆ s.outstanding :=
    append_subset.mpr ⟨fun q left => mem_append_left _ (mem_of_mem_erase left),
      subset_append_right _ _⟩
  rw [rest]
  constructor
  · intro p ended
    exact (sound.complete p ended).mono (List.Subset.refl _) fewer
  · intro q left
    exact sound.sent q (fewer left)
  · grind
  · grind
  · exact sound.reports

theorem countDown_outstanding (member : r ∈ s.running) :
    s.outstanding.Perm (r :: (s.awaited ++ s.running.erase r)) :=
  ((perm_cons_erase member).append_left _).trans perm_middle

theorem Sound.countDown (sound : Sound s) (member : r ∈ s.running)
    (timely : Timely s (.countDown r)) :
    Sound { s with running := s.running.erase r, count := s.count - 1 } := by
  have split := countDown_outstanding member
  have fewer : s.awaited ++ s.running.erase r ⊆ s.outstanding :=
    fun q left => split.mem_iff.mpr (mem_cons_of_mem _ left)
  have counted : s.open_ = (s.awaited ++ s.running.erase r).countP (fun q => q.part = s.part) +
      if r.part = s.part then 1 else 0 := by
    rw [Call.open_, split.countP_eq, countP_cons]
    simp
  constructor
  · intro p ended
    exact (sound.complete p ended).mono (List.Subset.refl _) fewer
  · intro q left
    exact sound.sent q (fewer left)
  · intro sends
    have before := sound.sending sends
    have own : r.part = s.part := by
      cases timely with
      | inl own => exact own
      | inr other => exact absurd sends other.1
    rw [counted, if_pos own] at before
    push_cast at before
    exact Int.le_sub_one_of_lt (Int.lt_of_add_one_le before)
  · intro waits
    cases timely with
    | inl own =>
      have before := sound.waiting waits
      rw [counted, if_pos own] at before
      apply Or.inl
      have below : ((s.awaited ++ s.running.erase r).countP (fun q => q.part = s.part) : Int) + 1 ≤
          s.count := by omega
      exact Int.le_sub_one_of_lt (Int.lt_of_add_one_le below)
    | inr other =>
      have none_open := other.2 waits
      apply Or.inr
      rw [counted] at none_open
      exact (Nat.add_eq_zero_iff.mp none_open).1
  · exact sound.reports

theorem Sound.deadline (sound : Sound s) (part : Nat) :
    Sound { s with passed := part :: s.passed } where
  complete p ended := (sound.complete p ended).mono (subset_cons_self _ _) (List.Subset.refl _)
  sent := sound.sent
  sending := sound.sending
  waiting := sound.waiting
  reports := sound.reports

theorem Sound.complete_part (sound : Sound s) (waits : s.phase = .waiting)
    (ends : s.count ≤ 0 ∨ s.part ∈ s.passed) : s.Complete s.part := by
  cases ends with
  | inl zero =>
    apply Or.inr
    rw [← open_eq_zero]
    have counted := sound.waiting waits
    omega
  | inr late => exact .inl late

theorem Sound.woken (sound : Sound s) (waits : s.phase = .waiting)
    (ends : s.count ≤ 0 ∨ s.part ∈ s.passed) : Sound (s.woken options) := by
  have last := sound.complete_part waits ends
  have parts : ∀ p < s.part + 1, s.Complete p := by
    intro p ended
    cases Nat.lt_succ_iff_lt_or_eq.mp ended with
    | inl before => exact sound.complete p before
    | inr now =>
      rw [now]
      exact last
  have sent : ∀ r ∈ s.outstanding, r.part < s.part + 1 := by
    intro r outstanding
    cases sound.sent r outstanding with
    | inl before => omega
    | inr now => omega
  rw [Call.woken]
  split
  · exact ⟨parts, fun r left => .inl (sent r left), by simp, by simp, sound.reports⟩
  · exact ⟨parts, fun r left => .inl (sent r left), by simp, by simp, sound.reports⟩

theorem Sound.step (sound : Sound s) {event : Event} (timely : Timely s event)
    (taken : step options s event = some t) : Sound t := by
  cases event with
  | begin =>
    obtain ⟨between, taken⟩ := ite_none_right_eq_some.mp taken
    split at taken
    · cases taken
      exact sound.begins between _
    · cases taken
      exact sound.rests (by simp [between]) (by simp)
  | pop server connected =>
    obtain ⟨⟨sends, -⟩, taken⟩ := ite_none_right_eq_some.mp taken
    grind [sound.popped]
  | wait =>
    obtain ⟨⟨sends, -⟩, taken⟩ := ite_none_right_eq_some.mp taken
    cases taken
    exact sound.waits sends
  | answer r ok =>
    obtain ⟨member, taken⟩ := ite_none_right_eq_some.mp taken
    cases taken
    by_cases gone : s.phase = .returned
    · exact sound.unseen member gone ok
    · exact sound.answered member gone ok
  | countDown r =>
    obtain ⟨member, taken⟩ := ite_none_right_eq_some.mp taken
    grind [sound.countDown]
  | deadline part =>
    obtain ⟨-, taken⟩ := ite_none_right_eq_some.mp taken
    cases taken
    exact sound.deadline part
  | wake =>
    obtain ⟨⟨waits, ends⟩, taken⟩ := ite_none_right_eq_some.mp taken
    grind [sound.woken]
  | close =>
    obtain ⟨⟨leaves, -⟩, taken⟩ := ite_none_right_eq_some.mp taken
    cases taken
    exact sound.rests (by simp [leaves]) (by simp)

theorem Sound.start (options : WriteOptions) (pool : List Server) : Sound (start options pool) where
  complete := by
    intro part before
    exact absurd before (Nat.not_lt_zero _)
  sent := by
    intro r outstanding
    cases outstanding
  sending := by simp [WriteFile.start]
  waiting := by simp [WriteFile.start]
  reports := ⟨le_rfl, by simp [WriteFile.start]⟩

end

/-- Along runs where no callback for a request of an earlier part counts down while a part sends or
has requests outstanding: a wait ends only when all requests of its part are answered or its time
has passed, and every acknowledgement in the time of its part is in `writed_count` and
`writed_ips`. -/
theorem waits_and_reports {options : WriteOptions} {pool : List Server} {s : Call}
    (reached : Reaches (step options) Timely (start options pool) s) :
    (∀ part < s.part, part ∈ s.passed ∨ ∀ r ∈ s.outstanding, r.part ≠ part) ∧
      s.inTime.length ≤ s.countOk ∧ ∀ r ∈ s.inTime, r.server.ip ∈ s.ipsOk := by
  have sound : Sound s := reached.invariant Sound (.start options pool)
    (fun _ _ _ kept timely taken => kept.step timely taken)
  exact ⟨sound.complete, sound.reports⟩

def twoServers : List Server := [⟨0, 10⟩, ⟨1, 11⟩]

/-- One server is to be written to, in at most two parts. -/
def oneOfTwo : WriteOptions := ⟨1, 2⟩

/-- The first server is silent, its time passes, and the second one acknowledges: it is reported. -/
theorem waits_and_reports_second :
    ∃ s : Call, (s.phase = .returned ∧ s.part = 2 ∧ s.inTime = [⟨⟨1, 11⟩, 1⟩]) ∧
      1 ≤ s.countOk ∧ (11 : UInt32) ∈ s.ipsOk := by
  have ran : ∃ s, Reaches (step oneOfTwo) Timely (start oneOfTwo twoServers) s ∧
      (s.phase = .returned ∧ s.part = 2 ∧ s.inTime = [⟨⟨1, 11⟩, 1⟩]) :=
    Reaches.of_runActions_any
      [.begin, .pop ⟨0, 10⟩ true, .wait, .deadline 0, .wake, .begin, .pop ⟨1, 11⟩ true, .wait,
        .answer ⟨⟨1, 11⟩, 1⟩ true, .countDown ⟨⟨1, 11⟩, 1⟩, .wake, .close] (by decide +kernel)
  obtain ⟨s, reached, found⟩ := ran
  obtain ⟨-, counted, listed⟩ := waits_and_reports reached
  rw [found.2.2] at counted listed
  exact ⟨s, found, counted, listed _ (mem_singleton_self _)⟩

/-- The late answer of the first server, which is not `ok`, ends the wait for the second one before
its time: the call returns, and the acknowledgement of the second server is not reported. -/
theorem late_answer_ends_wait :
    ∃ s : Call,
      Reaches (step oneOfTwo) (fun _ _ => True) (start oneOfTwo twoServers) s ∧
        (s.phase = .returned ∧ s.passed = [0] ∧ s.inTime = [⟨⟨1, 11⟩, 1⟩] ∧ s.countOk = 0 ∧
          s.ipsOk = ∅) :=
  Reaches.of_runActions_any
    [.begin, .pop ⟨0, 10⟩ true, .wait, .deadline 0, .wake, .begin, .pop ⟨1, 11⟩ true, .wait,
      .answer ⟨⟨0, 10⟩, 0⟩ false, .countDown ⟨⟨0, 10⟩, 0⟩, .wake, .begin, .close,
      .answer ⟨⟨1, 11⟩, 1⟩ true] (by decide +kernel)

end RssDisk.Client.WriteFile
