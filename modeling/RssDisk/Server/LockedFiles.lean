import Mathlib.Data.List.Perm.Basic
import RssDisk.Bitbase
import RssDisk.Lib.Reach
import RssDisk.Lib.Unordered

/-!
# Locks on names

`server::locked_files`: a table of names with the number of threads inside, and a table of names
with the thread that writes or waits for writing. The number is kept in eight bits. Every section
under the mutex is one step; a thread that waits for the readers to leave does nothing else.
-/

namespace RssDisk.Server

open Lib List AList UInt8

/-- `std::thread::id`. -/
abbrev ThreadId := Nat

structure LockedFiles where
  /-- `files`: how many threads are inside. -/
  files : UMap Bytes UInt8 := ∅
  /-- `pending_update`: the thread that writes, or waits for that. -/
  pendingUpdate : UMap Bytes ThreadId := ∅

/-- How `add` goes on behind its first section. -/
inductive Admission where
  /-- `add` returns `false`. -/
  | refused
  /-- `add` returns `true`. -/
  | entered
  /-- `add` waits until all threads have left. -/
  | waiting
deriving DecidableEq, Repr

namespace LockedFiles

variable (l : LockedFiles) (fileName : Bytes) (thread : ThreadId)

/-- `++files[file_name_]`. -/
def increment : LockedFiles :=
  { l with files := l.files.insert fileName ((l.files.lookup fileName).getD 0 + 1) }

/-- The first section of `add`. -/
def add (isWrite : Bool) : LockedFiles × Admission :=
  if (l.pendingUpdate.lookup fileName).isSome then (l, .refused)
  else if isWrite then
    let l := { l with pendingUpdate := l.pendingUpdate.insert fileName thread }
    if (l.files.lookup fileName).isNone then (l.increment fileName, .entered) else (l, .waiting)
  else (l.increment fileName, .entered)

/-- One turn of the loop in which `add` waits, and whether it is left. -/
def retry : LockedFiles × Bool :=
  if (l.files.lookup fileName).isNone then (l.increment fileName, true) else (l, false)

def erase : LockedFiles :=
  let l :=
    if l.pendingUpdate.lookup fileName = some thread then
      { l with pendingUpdate := l.pendingUpdate.erase fileName }
    else l
  match l.files.lookup fileName with
  | some count =>
    if count - 1 = 0 then { l with files := l.files.erase fileName }
    else { l with files := l.files.insert fileName (count - 1) }
  | none => l

end LockedFiles

/-- What a thread is for a name. -/
inductive Stage where
  /-- Inside, after `add` without `is_write`. -/
  | reader
  /-- Inside, after `add` with `is_write`. -/
  | writer
  /-- In the loop of `add`. -/
  | waiting
deriving DecidableEq, Repr

/-- A thread that is inside a name, or waits for it. -/
structure Hold where
  thread : ThreadId
  name : Bytes
  stage : Stage
deriving DecidableEq, Repr

def threadsOn (holds : List Hold) (name : Bytes) : List Hold :=
  holds.filter (fun hold => hold.name = name)

/-- The tables with the threads. -/
structure Locking where
  locks : LockedFiles := {}
  holds : List Hold := []

/-- The sections under the mutex. -/
inductive Section where
  /-- The first section of `add`. -/
  | add (thread : ThreadId) (fileName : Bytes) (isWrite : Bool)
  /-- A turn of the loop of `add`. -/
  | retry (thread : ThreadId) (fileName : Bytes)
  /-- The destructor of `locker_file`, for a thread that is inside. -/
  | release (hold : Hold)
deriving DecidableEq, Repr

namespace Locking

variable (s : Locking)

/-- The thread is in the loop of `add`. -/
def waits (thread : ThreadId) : Bool :=
  s.holds.any (fun hold => hold.thread = thread ∧ hold.stage = .waiting)

def step : Section → Option Locking
  | .add thread fileName isWrite =>
    if s.waits thread then none
    else
      let locks := (s.locks.add fileName thread isWrite).1
      match (s.locks.add fileName thread isWrite).2 with
      | .refused => some { s with locks }
      | .entered =>
        some ⟨locks, ⟨thread, fileName, if isWrite then .writer else .reader⟩ :: s.holds⟩
      | .waiting => some ⟨locks, ⟨thread, fileName, .waiting⟩ :: s.holds⟩
  | .retry thread fileName =>
    if ⟨thread, fileName, .waiting⟩ ∈ s.holds then
      if (s.locks.retry fileName).2 then
        some ⟨(s.locks.retry fileName).1,
          ⟨thread, fileName, .writer⟩ :: s.holds.erase ⟨thread, fileName, .waiting⟩⟩
      else some s
    else none
  | .release hold =>
    if hold ∈ s.holds ∧ hold.stage ≠ .waiting ∧ !s.waits hold.thread then
      some ⟨s.locks.erase hold.name hold.thread, s.holds.erase hold⟩
    else none

def readers (name : Bytes) : List Hold :=
  (threadsOn s.holds name).filter (fun hold => hold.stage = .reader)

/-- A reader enters only when fewer than 256 are inside. -/
def FewReaders : Section → Prop
  | .add _ fileName false => (s.readers fileName).length < 256
  | _ => True

instance (action : Section) : Decidable (s.FewReaders action) := by
  unfold FewReaders
  split <;> infer_instance

end Locking

section

variable {l : LockedFiles} {fileName other : Bytes} {thread : ThreadId}

theorem LockedFiles.increment_files :
    (l.increment fileName).files.lookup other =
      if other = fileName then some ((l.files.lookup fileName).getD 0 + 1)
      else l.files.lookup other := by
  by_cases same : other = fileName
  · subst same
    simp [increment]
  · simp [increment, same, lookup_insert_ne]

theorem LockedFiles.erase_pending :
    (l.erase fileName thread).pendingUpdate.lookup other =
      if other = fileName ∧ l.pendingUpdate.lookup fileName = some thread then none
      else l.pendingUpdate.lookup other := by
  have kept : (l.erase fileName thread).pendingUpdate =
      if l.pendingUpdate.lookup fileName = some thread then l.pendingUpdate.erase fileName
      else l.pendingUpdate := by
    unfold erase
    dsimp only
    repeat' split
    all_goals rfl
  rw [kept]
  by_cases same : other = fileName
  · subst same
    by_cases owner : l.pendingUpdate.lookup other = some thread
    · simp [owner]
    · simp [owner]
  · by_cases owner : l.pendingUpdate.lookup fileName = some thread
    · simp [owner, same, lookup_erase_ne]
    · simp [owner]

theorem LockedFiles.erase_files :
    (l.erase fileName thread).files.lookup other =
      if other = fileName then
        (l.files.lookup fileName).bind
          (fun count => if count - 1 = 0 then none else some (count - 1))
      else l.files.lookup other := by
  have kept : (l.erase fileName thread).files =
      match l.files.lookup fileName with
      | some count =>
        if count - 1 = 0 then l.files.erase fileName else l.files.insert fileName (count - 1)
      | none => l.files := by
    unfold erase
    by_cases owner : l.pendingUpdate.lookup fileName = some thread
    · simp only [owner, ↓reduceIte]
      repeat' split
      all_goals rfl
    · simp only [owner, ↓reduceIte]
      repeat' split
      all_goals rfl
  rw [kept]
  cases found : l.files.lookup fileName with
  | none =>
    by_cases same : other = fileName
    · subst same
      simp [found]
    · simp [same]
  | some count =>
    by_cases same : other = fileName
    · subst same
      by_cases last : count - 1 = 0
      · simp [last]
      · simp [last]
    · by_cases last : count - 1 = 0
      · simp [last, same, lookup_erase_ne]
      · simp [last, same, lookup_insert_ne]

end

/-- The entry of the table for a number of threads. -/
def countOf (threads : Nat) : Option UInt8 :=
  if threads = 0 then none else some (UInt8.ofNat threads)

theorem countOf_succ (threads : Nat) :
    countOf (threads + 1) = some ((countOf threads).getD 0 + 1) := by
  unfold countOf
  by_cases none : threads = 0
  · subst none
    rfl
  · simp [none, ofNat_add]

theorem countOf_pred {threads : Nat} (few : threads < 256) :
    (countOf (threads + 1)).bind (fun count => if count - 1 = 0 then none else some (count - 1)) =
      countOf threads := by
  have less : UInt8.ofNat (threads + 1) - 1 = UInt8.ofNat threads := by
    rw [ofNat_add]
    exact UInt8.add_sub_cancel _ _
  have zero : UInt8.ofNat threads = 0 ↔ threads = 0 := by
    rw [← UInt8.toNat_inj, UInt8.toNat_ofNat_of_lt' few]
    rfl
  simp only [countOf, Nat.succ_ne_zero, ↓reduceIte, Option.bind_some, less, zero]

/-- What the tables and the threads of a name can be. -/
inductive Shape (name : Bytes) : Option ThreadId → Option UInt8 → List Hold → Prop
  | reading {holds : List Hold} (reading : ∀ hold ∈ holds, hold.stage = .reader)
      (few : holds.length ≤ 256) : Shape name none (countOf holds.length) holds
  | waiting {thread : ThreadId} {holds readers : List Hold}
      (threads : holds.Perm (⟨thread, name, .waiting⟩ :: readers))
      (reading : ∀ hold ∈ readers, hold.stage = .reader) (few : readers.length ≤ 256) :
      Shape name (some thread) (countOf readers.length) holds
  | writing (thread : ThreadId) : Shape name (some thread) (some 1) [⟨thread, name, .writer⟩]

theorem Shape.perm {name : Bytes} {pending : Option ThreadId} {count : Option UInt8}
    {holds others : List Hold} (shape : Shape name pending count holds)
    (same : holds.Perm others) : Shape name pending count others := by
  cases shape with
  | reading reading few =>
    rw [same.length_eq] at few ⊢
    exact .reading (fun hold inside => reading hold (same.mem_iff.mpr inside)) few
  | waiting threads reading few => exact .waiting (same.symm.trans threads) reading few
  | writing thread =>
    rw [perm_singleton.mp same.symm]
    exact .writing thread

theorem threadsOn_cons (hold : Hold) (holds : List Hold) (name : Bytes) :
    threadsOn (hold :: holds) name =
      if hold.name = name then hold :: threadsOn holds name else threadsOn holds name := by
  by_cases same : hold.name = name
  · simp [threadsOn, same]
  · simp [threadsOn, same]

theorem threadsOn_erase {hold : Hold} {holds : List Hold} (inside : hold ∈ holds) (name : Bytes) :
    (threadsOn holds name).Perm
      (if hold.name = name then hold :: threadsOn (holds.erase hold) name
      else threadsOn (holds.erase hold) name) := by
  rw [← threadsOn_cons]
  exact (perm_cons_erase inside).filter _

namespace Locking

variable {s t : Locking} {action : Section} {name : Bytes}

/-- The tables and the threads of a name fit. -/
def Fits (s : Locking) (name : Bytes) : Prop :=
  Shape name (s.locks.pendingUpdate.lookup name) (s.locks.files.lookup name)
    (threadsOn s.holds name)

/-- What a section can do. -/
inductive Change (s : Locking) : Section → Locking → Prop
  /-- A refusal, or a turn of the loop in which threads are still inside. -/
  | nothing (action : Section) : Change s action s
  | read (thread : ThreadId) (name : Bytes) (free : s.locks.pendingUpdate.lookup name = none) :
      Change s (.add thread name false)
        ⟨s.locks.increment name, ⟨thread, name, .reader⟩ :: s.holds⟩
  | write (thread : ThreadId) (name : Bytes) (free : s.locks.pendingUpdate.lookup name = none)
      (empty : s.locks.files.lookup name = none) :
      Change s (.add thread name true)
        ⟨{ s.locks with
            pendingUpdate := s.locks.pendingUpdate.insert name thread }.increment name,
          ⟨thread, name, .writer⟩ :: s.holds⟩
  | wait (thread : ThreadId) (name : Bytes) (free : s.locks.pendingUpdate.lookup name = none)
      (full : s.locks.files.lookup name ≠ none) :
      Change s (.add thread name true)
        ⟨{ s.locks with pendingUpdate := s.locks.pendingUpdate.insert name thread },
          ⟨thread, name, .waiting⟩ :: s.holds⟩
  | enter (thread : ThreadId) (name : Bytes) (waited : ⟨thread, name, .waiting⟩ ∈ s.holds)
      (empty : s.locks.files.lookup name = none) :
      Change s (.retry thread name)
        ⟨s.locks.increment name,
          ⟨thread, name, .writer⟩ :: s.holds.erase ⟨thread, name, .waiting⟩⟩
  | leave (hold : Hold) (inside : hold ∈ s.holds) (entered : hold.stage ≠ .waiting)
      (runs : s.waits hold.thread = false) :
      Change s (.release hold) ⟨s.locks.erase hold.name hold.thread, s.holds.erase hold⟩

theorem step_change (taken : s.step action = some t) : Change s action t := by
  cases action with
  | add thread name isWrite =>
    rw [step] at taken
    split at taken
    · cases taken
    · by_cases pending : (s.locks.pendingUpdate.lookup name).isSome
      · simp only [LockedFiles.add, pending, ↓reduceIte, Option.some.injEq] at taken
        rw [← taken]
        exact .nothing _
      · have free : s.locks.pendingUpdate.lookup name = none := by simpa using pending
        cases isWrite with
        | false =>
          simp only [LockedFiles.add, free, Option.isSome_none, Bool.false_eq_true, ↓reduceIte,
            Option.some.injEq] at taken
          rw [← taken]
          exact .read thread name free
        | true =>
          cases found : s.locks.files.lookup name with
          | none =>
            simp only [LockedFiles.add, free, found, Option.isSome_none, Option.isNone_none,
              Bool.false_eq_true, ↓reduceIte, Option.some.injEq] at taken
            rw [← taken]
            exact .write thread name free found
          | some count =>
            simp only [LockedFiles.add, free, found, Option.isSome_none, Option.isNone_some,
              Bool.false_eq_true, ↓reduceIte, Option.some.injEq] at taken
            rw [← taken]
            exact .wait thread name free (by simp [found])
  | retry thread name =>
    rw [step] at taken
    split at taken
    · rename_i waited
      cases found : s.locks.files.lookup name with
      | none =>
        simp only [LockedFiles.retry, found, Option.isNone_none, ↓reduceIte,
          Option.some.injEq] at taken
        rw [← taken]
        exact .enter thread name waited found
      | some count =>
        simp only [LockedFiles.retry, found, Option.isNone_some, Bool.false_eq_true, ↓reduceIte,
          Option.some.injEq] at taken
        rw [← taken]
        exact .nothing _
    · cases taken
  | release hold =>
    rw [step] at taken
    split at taken
    · rename_i leaving
      cases taken
      exact .leave hold leaving.1 leaving.2.1 (by simpa using leaving.2.2)
    · cases taken

theorem Fits.free (fits : s.Fits name) (free : s.locks.pendingUpdate.lookup name = none) :
    (∀ hold ∈ threadsOn s.holds name, hold.stage = .reader) ∧
      (threadsOn s.holds name).length ≤ 256 ∧
      s.locks.files.lookup name = countOf (threadsOn s.holds name).length := by
  unfold Fits at fits
  rw [free] at fits
  generalize threads : threadsOn s.holds name = holds at fits ⊢
  generalize count : s.locks.files.lookup name = entry at fits ⊢
  cases fits with
  | reading reading few => exact ⟨reading, few, rfl⟩

theorem Fits.waited (fits : s.Fits name) {thread : ThreadId}
    (waited : ⟨thread, name, .waiting⟩ ∈ s.holds) :
    ∃ readers, (threadsOn s.holds name).Perm (⟨thread, name, .waiting⟩ :: readers) ∧
      s.locks.pendingUpdate.lookup name = some thread ∧
      s.locks.files.lookup name = countOf readers.length := by
  have present : ⟨thread, name, .waiting⟩ ∈ threadsOn s.holds name := by
    simp [threadsOn, waited]
  unfold Fits at fits
  generalize threadsOn s.holds name = holds at fits present ⊢
  generalize s.locks.files.lookup name = entry at fits ⊢
  generalize s.locks.pendingUpdate.lookup name = pending at fits ⊢
  cases fits with
  | reading reading few => exact absurd (reading _ present) (by simp)
  | waiting threads reading few =>
    rename_i owner readers
    have same : thread = owner := by
      rcases mem_cons.mp (threads.mem_iff.mp present) with first | reader
      · exact (Hold.mk.inj first).1
      · exact absurd (reading _ reader) (by simp)
    grind
  | writing owner => simp at present

theorem Fits.of_same (fits : s.Fits name)
    (pending : t.locks.pendingUpdate.lookup name = s.locks.pendingUpdate.lookup name)
    (files : t.locks.files.lookup name = s.locks.files.lookup name)
    (threads : (threadsOn s.holds name).Perm (threadsOn t.holds name)) : t.Fits name := by
  unfold Fits
  rw [pending, files]
  exact Shape.perm fits threads

section

variable {thread : ThreadId} (fits : ∀ name, s.Fits name)

include fits

theorem Fits.read (free : s.locks.pendingUpdate.lookup name = none)
    (few : (s.readers name).length < 256) (other : Bytes) :
    (Locking.mk (s.locks.increment name) (⟨thread, name, .reader⟩ :: s.holds)).Fits other := by
  by_cases same : other = name
  · subst same
    obtain ⟨reading, _, count⟩ := (fits other).free free
    have all : s.readers other = threadsOn s.holds other :=
      filter_eq_self.mpr (fun hold inside => by simpa using reading hold inside)
    rw [all] at few
    have entry : (s.locks.increment other).files.lookup other =
        countOf (⟨thread, other, .reader⟩ :: threadsOn s.holds other).length := by
      rw [LockedFiles.increment_files, if_pos rfl, count, length_cons, countOf_succ]
    unfold Fits
    rw [entry, threadsOn_cons, if_pos rfl,
      show (s.locks.increment other).pendingUpdate.lookup other = none from free]
    refine .reading (fun hold inside => ?_) few
    rcases mem_cons.mp inside with first | later
    · rw [first]
    · exact reading hold later
  · refine (fits other).of_same rfl ?_ ?_
    · rw [LockedFiles.increment_files, if_neg same]
    · rw [threadsOn_cons, if_neg (Ne.symm same)]

theorem Fits.write (thread : ThreadId) (free : s.locks.pendingUpdate.lookup name = none)
    (empty : s.locks.files.lookup name = none) (other : Bytes) :
    (Locking.mk ({ s.locks with
        pendingUpdate := s.locks.pendingUpdate.insert name thread }.increment name)
      (⟨thread, name, .writer⟩ :: s.holds)).Fits other := by
  by_cases same : other = name
  · subst same
    obtain ⟨_, _, count⟩ := (fits other).free free
    have nobody : threadsOn s.holds other = [] := by
      rw [empty, countOf] at count
      split at count
      · grind
      · cases count
    unfold Fits
    rw [LockedFiles.increment_files, if_pos rfl, threadsOn_cons, if_pos rfl, nobody]
    simp only [LockedFiles.increment, lookup_insert, empty, Option.getD_none]
    exact .writing thread
  · refine (fits other).of_same ?_ ?_ ?_
    · exact lookup_insert_ne same
    · rw [LockedFiles.increment_files, if_neg same]
    · rw [threadsOn_cons, if_neg (Ne.symm same)]

theorem Fits.wait (thread : ThreadId) (free : s.locks.pendingUpdate.lookup name = none)
    (other : Bytes) :
    (Locking.mk { s.locks with pendingUpdate := s.locks.pendingUpdate.insert name thread }
      (⟨thread, name, .waiting⟩ :: s.holds)).Fits other := by
  by_cases same : other = name
  · subst same
    obtain ⟨reading, few, count⟩ := (fits other).free free
    unfold Fits
    rw [threadsOn_cons, if_pos rfl]
    simp only [lookup_insert, count]
    exact .waiting (List.Perm.refl _) reading few
  · refine (fits other).of_same (lookup_insert_ne same) rfl ?_
    rw [threadsOn_cons, if_neg (Ne.symm same)]

theorem Fits.enter (waited : ⟨thread, name, .waiting⟩ ∈ s.holds)
    (empty : s.locks.files.lookup name = none) (other : Bytes) :
    (Locking.mk (s.locks.increment name)
      (⟨thread, name, .writer⟩ :: s.holds.erase ⟨thread, name, .waiting⟩)).Fits other := by
  have left := threadsOn_erase waited other
  by_cases same : other = name
  · subst same
    obtain ⟨readers, threads, pending, count⟩ := (fits other).waited waited
    rw [if_pos rfl] at left
    have nobody : threadsOn (s.holds.erase ⟨thread, other, .waiting⟩) other = [] := by
      have alone := (left.symm.trans threads).cons_inv
      rw [empty, countOf] at count
      split at count
      · rename_i zero
        rw [length_eq_zero_iff.mp zero] at alone
        exact alone.eq_nil
      · cases count
    unfold Fits
    rw [LockedFiles.increment_files, if_pos rfl, threadsOn_cons, if_pos rfl, nobody, empty,
      show (s.locks.increment other).pendingUpdate.lookup other = some thread from pending]
    exact .writing thread
  · rw [if_neg (Ne.symm same)] at left
    refine (fits other).of_same rfl ?_ ?_
    · rw [LockedFiles.increment_files, if_neg same]
    · rw [threadsOn_cons, if_neg (Ne.symm same)]
      exact left

theorem Fits.leave {hold : Hold} (inside : hold ∈ s.holds) (entered : hold.stage ≠ .waiting)
    (runs : s.waits hold.thread = false) (other : Bytes) :
    (Locking.mk (s.locks.erase hold.name hold.thread) (s.holds.erase hold)).Fits other := by
  have left := threadsOn_erase inside other
  by_cases same : other = hold.name
  · rw [if_pos same.symm] at left
    have shape : Shape other (s.locks.pendingUpdate.lookup other) (s.locks.files.lookup other)
      (hold :: threadsOn (s.holds.erase hold) other) := (fits other).perm left
    have blocked : ∀ thread, ⟨thread, other, .waiting⟩ ∈ s.holds → thread ≠ hold.thread := by
      rintro _ waiting rfl
      rw [waits, any_eq_false] at runs
      exact runs _ waiting (by simp)
    have present : ∀ other : Hold, other ∈ threadsOn s.holds hold.name → other ∈ s.holds :=
      fun _ => mem_of_mem_filter
    unfold Fits
    rw [LockedFiles.erase_pending, LockedFiles.erase_files, if_pos same, ← same]
    dsimp only
    rw [← same] at present
    generalize threadsOn (s.holds.erase hold) other = rest at shape left ⊢
    generalize s.locks.files.lookup other = entry at shape ⊢
    generalize s.locks.pendingUpdate.lookup other = pending at shape ⊢
    cases shape with
    | reading reading few =>
      rw [length_cons] at few ⊢
      rw [countOf_pred (by omega)]
      simp only [reduceCtorEq, and_false, ↓reduceIte]
      exact .reading (fun hold inside => reading hold (mem_cons_of_mem _ inside)) (by omega)
    | waiting threads reading few =>
      rename_i owner readers
      -- the thread that leaves is a reader, so the waiting one stays registered
      have reader : hold ∈ readers := by
        rcases mem_cons.mp (threads.mem_iff.mp mem_cons_self) with first | later
        · rw [first] at entered
          exact absurd rfl entered
        · exact later
      have waiting : ⟨owner, other, .waiting⟩ ∈ s.holds :=
        present _ ((left.trans threads).mem_iff.mpr mem_cons_self)
      have kept : rest.Perm (⟨owner, other, .waiting⟩ :: readers.erase hold) := by
        have moved := threads.trans ((perm_cons_erase reader).cons _)
        exact (moved.trans (List.Perm.swap _ _ _)).cons_inv
      have length : readers.length = (readers.erase hold).length + 1 := by
        grind
      rw [length] at few
      rw [length, countOf_pred (by omega), if_neg (fun owned => blocked owner waiting
        (Option.some.inj owned.2))]
      exact .waiting kept (fun hold inside => reading hold (mem_of_mem_erase inside))
        (by omega)
    | writing owner =>
      have nobody : Shape other none (countOf ([] : List Hold).length) [] :=
        .reading (by simp) (by simp)
      simpa [countOf] using nobody
  · rw [if_neg (Ne.symm same)] at left
    refine (fits other).of_same ?_ ?_ left
    · rw [LockedFiles.erase_pending, if_neg (fun both => same both.1)]
    · rw [LockedFiles.erase_files, if_neg same]

theorem Fits.step (few : s.FewReaders action) (taken : s.step action = some t) :
    ∀ name, t.Fits name := by
  cases step_change taken with
  | nothing => exact fits
  | read thread name free => exact Fits.read fits free few
  | write thread name free empty => exact Fits.write fits thread free empty
  | wait thread name free => exact Fits.wait fits thread free
  | enter thread name waited empty => exact Fits.enter fits waited empty
  | leave hold inside entered runs => exact Fits.leave fits inside entered runs

end

/-- While no more than 256 readers are inside a name at once, a writer is alone inside. -/
theorem writer_alone (reached : Reaches step FewReaders {} s) {writer other : Hold}
    (inside : writer ∈ s.holds) (isWriter : writer.stage = .writer) (present : other ∈ s.holds)
    (sameName : other.name = writer.name) : other = writer := by
  have fits : ∀ name, s.Fits name := by
    have nobody (name : Bytes) : Shape name none (countOf ([] : List Hold).length) [] :=
      .reading (by simp) (by simp)
    exact reached.invariant (fun s => ∀ name, s.Fits name) nobody
      (fun s action t fits few taken => Fits.step fits few taken)
  have first : writer ∈ threadsOn s.holds writer.name := by simp [threadsOn, inside]
  have second : other ∈ threadsOn s.holds writer.name := by simp [threadsOn, present, sameName]
  have shape : Shape writer.name _ _ _ := fits writer.name
  generalize threadsOn s.holds writer.name = holds at first second shape
  generalize s.locks.files.lookup writer.name = entry at shape
  generalize s.locks.pendingUpdate.lookup writer.name = pending at shape
  cases shape with
  | reading reading few => exact absurd (reading _ first) (by simp [isWriter])
  | waiting threads reading few =>
    rcases mem_cons.mp (threads.mem_iff.mp first) with waiting | reader
    · rw [waiting] at isWriter
      cases isWriter
    · exact absurd (reading _ reader) (by simp [isWriter])
  | writing thread => rw [mem_singleton.mp first, mem_singleton.mp second]

/-- A writer waits for a reader to leave, and is alone inside then. -/
theorem writer_alone_sample :
    ∃ s, Reaches step FewReaders {} s ∧ ⟨1, [97], .writer⟩ ∈ s.holds ∧
      ∀ other ∈ s.holds, other.name = [97] → other = ⟨1, [97], .writer⟩ := by
  have ran : ∃ s, Reaches step FewReaders {} s ∧ ⟨1, [97], .writer⟩ ∈ s.holds :=
    Reaches.of_runActions_any [.add 0 [97] false, .add 1 [97] true,
      .release ⟨0, [97], .reader⟩, .retry 1 [97]] (by decide)
  obtain ⟨s, reached, inside⟩ := ran
  exact ⟨s, reached, inside, fun other present sameName =>
    writer_alone reached inside rfl present sameName⟩

/-- The sections of a number of readers, of a writer that waits for them, of the first reader
when it leaves, and of the writer again. -/
def crowd (readers : Nat) : List Section :=
  (List.range readers).map (fun thread => .add thread [97] false) ++
    [.add readers [97] true, .release ⟨0, [97], .reader⟩, .retry readers [97]]

/-- With 257 readers the writer comes in when the first of them leaves. -/
theorem writer_among_readers :
    ∃ s, Reaches step (fun _ _ => True) {} s ∧
      ⟨257, [97], .writer⟩ ∈ s.holds ∧ ⟨256, [97], .reader⟩ ∈ s.holds :=
  Reaches.of_runActions_any (crowd 257) (by decide +kernel)

/-- While no more than 256 readers are inside a name at once, `add` refuses a name exactly when a
writer is inside or waits, and lets a writer wait exactly when readers are inside. The writer stops
waiting when all of them have left, and a name that all have left is in no table. -/
theorem admission_exact (reached : Reaches step FewReaders {} s) (name : Bytes)
    (thread : ThreadId) (isWrite : Bool) :
    (s.locks.add name thread isWrite).2 =
        (if (threadsOn s.holds name).all (fun hold => hold.stage = .reader) then
          if isWrite ∧ threadsOn s.holds name ≠ [] then .waiting else .entered
        else .refused) ∧
      (s.locks.retry name).2 = (threadsOn s.holds name).all (fun hold => hold.stage = .waiting) ∧
      (threadsOn s.holds name = [] →
        s.locks.files.lookup name = none ∧ s.locks.pendingUpdate.lookup name = none) := by
  have fits : Shape name _ _ _ := reached.invariant (fun s => ∀ name, s.Fits name)
    (fun name => (.reading (by simp) (by simp) : Shape name none (countOf [].length) []))
    (fun s action t fits few taken => Fits.step fits few taken) name
  simp only [LockedFiles.add, LockedFiles.retry]
  generalize threadsOn s.holds name = holds at fits ⊢
  generalize s.locks.files.lookup name = entry at fits ⊢
  generalize s.locks.pendingUpdate.lookup name = pending at fits ⊢
  cases fits with
  | reading reading few =>
    cases holds with
    | nil => cases isWrite <;> simp [countOf]
    | cons hold holds =>
      have first := reading hold mem_cons_self
      have all : (hold :: holds).all (fun hold => hold.stage = .reader) := by simpa using reading
      cases isWrite <;> simp [countOf, all, first]
  | waiting threads reading few =>
    rename_i owner readers
    rw [threads.all_eq, threads.all_eq]
    refine ⟨by simp, ?_, fun none => absurd (none ▸ threads) (by simp)⟩
    cases readers with
    | nil => simp [countOf]
    | cons hold readers => simp [countOf, reading hold mem_cons_self]
  | writing owner => simp

/-- A writer waits for a reader; another reader is refused. -/
theorem admission_exact_sample : ∃ s, Reaches step FewReaders {} s ∧
    s.holds = [⟨1, [97], .waiting⟩, ⟨0, [97], .reader⟩] ∧
      (s.locks.add [97] 2 false).2 = .refused := by
  have ran : ∃ s, Reaches step FewReaders {} s ∧
      s.holds = [⟨1, [97], .waiting⟩, ⟨0, [97], .reader⟩] :=
    Reaches.of_runActions_any [.add 0 [97] false, .add 1 [97] true] (by decide)
  obtain ⟨s, reached, holds⟩ := ran
  exact ⟨s, reached, holds, by rw [(admission_exact reached [97] 2 false).1, holds]; rfl⟩

end Locking

end RssDisk.Server
