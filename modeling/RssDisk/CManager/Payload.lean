import RssDisk.CManager

/-!
# Payloads of the database of keys

`insert` is meant to take the complete records at the front of a payload and nothing else. It does
so exactly when what follows them is harmless. A negative size can lead the walk back, and then it
does not end; a record that is refused is entered again behind its header.
-/

namespace RssDisk.CManager

open Lib Bitbase List Option

variable {pos : Int} {trace : List Int}

section

variable {d : Bytes}

theorem loop_of_goes {next : Int} {change : Option Change} (goes : round d pos = .goes next change)
    (rounds : Nat) :
    loop d (rounds + 1) pos =
      (loop d rounds next).map (fun rest => (pos :: rest.1, change.toList ++ rest.2)) := by
  rw [loop, goes]

theorem loop_of_ends (ends : round d pos = .ends) (rounds : Nat) :
    loop d (rounds + 1) pos = some ([], []) := by
  rw [loop, ends]

theorem loop_of_fails (fails : round d pos = .fails) (rounds : Nat) : loop d rounds pos = none := by
  cases rounds with
  | zero => rfl
  | succ rounds => rw [loop, fails]

theorem loop_eq_none_of_closed (inner : Int → Prop)
    (closed : ∀ pos, inner pos → ∃ next change, round d pos = .goes next change ∧ inner next)
    (rounds : Nat) (start : inner pos) : loop d rounds pos = none := by
  induction rounds generalizing pos with
  | zero => rfl
  | succ rounds ih =>
    obtain ⟨next, change, goes, stays⟩ := closed pos start
    rw [loop_of_goes goes, ih stays]
    rfl

/-- A payload from a place on: its complete records, and the place behind them, at which there is
no complete record. -/
inductive Records (d : Bytes) : Nat → List Record → Nat → Prop
  | nil {place : Nat} (inside : place ≤ d.length) (none : readRecord (d.drop place) = none) :
      Records d place [] place
  | cons {place last : Nat} {r : Record} {rest : Bytes} {records : List Record}
      (read : readRecord (d.drop place) = some (r, rest))
      (others : Records d (place + r.size) records last) : Records d place (r :: records) last

theorem records_completeUpTo {place count : Nat} (inside : place ≤ d.length)
    (enough : d.length ≤ place + count) :
    Records d place (completeUpTo count (d.drop place)).1
      (d.length - (completeUpTo count (d.drop place)).2.length) := by
  induction count generalizing place with
  | zero =>
    have whole : place = d.length := by omega
    subst whole
    have none : readRecord (d.drop d.length) = none := by simp [readRecord]
    simpa [completeUpTo] using Records.nil inside none
  | succ count ih =>
    rw [completeUpTo]
    cases read : readRecord (d.drop place) with
    | none =>
      have last : d.length - (d.drop place).length = place := by
        rw [length_drop]
        omega
      simp only [last]
      exact .nil inside read
    | some found =>
      obtain ⟨r, rest⟩ := found
      obtain ⟨_, _, _, _, _, size, _, fits, behind⟩ := readRecord_eq_some read
      have others := ih fits (by omega)
      rw [← behind] at others
      exact .cons read others

theorem records_complete (d : Bytes) :
    Records d 0 (complete d).1 (d.length - (complete d).2.length) :=
  records_completeUpTo (Nat.zero_le _) (by omega)

theorem start_mem_places (start : Nat) (records : List Record) : start ∈ places start records := by
  cases records with
  | nil => exact mem_singleton_self _
  | cons r records => exact mem_cons_self

namespace Records

variable {place last : Nat} {records : List Record}

theorem le_last (found : Records d place records last) : place ≤ last ∧ last ≤ d.length := by
  induction found with
  | nil inside none => exact ⟨Nat.le_refl _, inside⟩
  | cons read others ih => exact ⟨by omega, ih.2⟩

section

variable {rounds : Nat} {changes : List Change} (sized : d.length < 2 ^ 63)
  (found : Records d place records last)

include sized found

theorem round_eq_goes (low : last < 2 ^ 31) {here : Nat} (member : here ∈ places place records)
    (ne : here ≠ last) :
    ∃ next ∈ places place records, ∃ change, round d here = .goes (next : Nat) change := by
  induction found with
  | nil inside none => exact absurd (mem_singleton.mp member) ne
  | @cons place last r rest records read others ih =>
    rcases mem_cons.mp member with rfl | behind
    · have goes := round_record sized read (by have := others.le_last; omega)
      exact ⟨_, mem_cons_of_mem _ (start_mem_places _ _), _, goes⟩
    · obtain ⟨next, inner, goes⟩ := ih low behind ne
      exact ⟨next, mem_cons_of_mem _ inner, goes⟩

theorem loop_eq (low : last < 2 ^ 31) (tail : loop d rounds last = some (trace, changes))
    (inner : ∀ pos ∈ trace, pos = last) :
    ∃ trace, loop d (records.length + rounds) place =
      some (trace, records.filterMap Record.change ++ changes) ∧
        ∀ pos ∈ trace, ∃ here ∈ places place records, pos = (here : Nat) := by
  induction found with
  | nil inside none =>
    refine ⟨trace, ?_, fun pos member => ⟨_, mem_singleton_self _, inner pos member⟩⟩
    grind
  | @cons place last r rest records read others ih =>
    obtain ⟨walked, run, within⟩ := ih low tail inner
    have goes := round_record sized read (by have := others.le_last; omega)
    refine ⟨place :: walked, ?_, ?_⟩
    · rw [length_cons, Nat.add_right_comm, loop_of_goes goes, run, map_some]
      cases change : r.change with
      | none => simp [change]
      | some made => simp [change]
    · intro pos member
      rcases mem_cons.mp member with rfl | behind
      · exact ⟨place, mem_cons_self, rfl⟩
      · obtain ⟨here, among, same⟩ := within pos behind
        exact ⟨here, mem_cons_of_mem _ among, same⟩

theorem loop_tail (run : loop d rounds place = some (trace, changes)) :
    ∃ rounds walked made, loop d rounds last = some (walked, made) ∧
      changes = records.filterMap Record.change ++ made ∧ ∀ pos ∈ walked, pos ∈ trace := by
  induction found generalizing rounds trace changes with
  | nil inside none => exact ⟨rounds, trace, changes, run, rfl, fun _ member => member⟩
  | @cons place last r rest records read others ih =>
    have low : place + r.size < 2 ^ 31 := by
      by_contra high
      rw [loop_of_fails (round_record_fails sized read (by omega))] at run
      cases run
    cases rounds with
    | zero => cases run
    | succ rounds =>
      rw [loop_of_goes (round_record sized read low)] at run
      obtain ⟨⟨walked, made⟩, behind, same⟩ := map_eq_some_iff.mp run
      obtain ⟨rfl, rfl⟩ := Prod.mk.inj same
      obtain ⟨left, visited, rest, tail, rfl, among⟩ := ih behind
      refine ⟨left, visited, rest, tail, ?_, fun pos member =>
        mem_cons_of_mem _ (among pos member)⟩
      cases change : r.change with
      | none => simp [change]
      | some made => simp [change]

end

end Records

/-- The sizes in the header at a place let the walk go on at another place: behind the header when
the end of the key is outside of the payload, behind the key when that of the content is, and else
behind the content. A record with a key is taken there, and left out unless it may be. -/
def Leads (taken : Prop) (d : Bytes) (place next : Int) (h : Header) : Prop :=
  let key := place + 28 + h.headerBytes.toInt
  let content := key + h.contentBytes.toInt
  key < 2 ^ 31 ∧
    (¬ (0 ≤ key ∧ key ≤ d.length) ∧ next = place + 28 ∨
      (0 ≤ key ∧ key ≤ d.length) ∧ content < 2 ^ 31 ∧
        (¬ (0 ≤ content ∧ content ≤ d.length) ∧ next = key ∨
          (0 ≤ content ∧ content ≤ d.length) ∧ (h.headerBytes = 0 ∨ taken) ∧ next = content))

/-- At most the 28 bytes of a header follow a place, which can be held with them. -/
def Ending (d : Bytes) (place : Int) : Prop := d.length ≤ place + 28 ∧ place + 28 < 2 ^ 31

/-- What follows the complete records is harmless: at most a header does, or its sizes lead to a
place behind which at most a header follows. -/
def Harmless (d : Bytes) (place : Nat) : Prop :=
  Ending d place ∨ place + 28 < d.length ∧ (place : Int) + 28 < 2 ^ 31 ∧
    ∃ next, Leads False d place next (headerAt d place) ∧ Ending d next

theorem readBody_ne_ends (place : Int) (h : Header) : readBody d place h ≠ .ends := by
  unfold readBody readContent
  grind

theorem round_eq_ends_iff (sized : d.length < 2 ^ 63) (place : Nat) :
    round d place = .ends ↔ Ending d place := by
  rw [round_eq sized, Ending]
  by_cases past : 2 ^ 31 ≤ place + 28
  · rw [if_pos past]
    exact ⟨nofun, fun ending => by omega⟩
  · rw [if_neg past]
    by_cases more : place + 28 < d.length
    · rw [if_pos more]
      exact ⟨fun ends => absurd ends (readBody_ne_ends _ _), fun ending => by omega⟩
    · rw [if_neg more]
      exact ⟨fun _ => by omega, fun _ => rfl⟩

/-- A round goes where the sizes in its header lead. -/
theorem round_goes_iff (sized : d.length < 2 ^ 63) (place : Nat) {next : Int} (taken : Prop) :
    (∃ change, round d place = .goes next change ∧ (change = none ∨ taken)) ↔
      place + 28 < d.length ∧ (place : Int) + 28 < 2 ^ 31 ∧
        Leads taken d place next (headerAt d place) := by
  rw [round_eq sized]
  by_cases past : 2 ^ 31 ≤ place + 28
  · rw [if_pos past]
    exact ⟨nofun, fun leads => by omega⟩
  rw [if_neg past]
  by_cases more : place + 28 < d.length
  swap
  · rw [if_neg more]
    exact ⟨nofun, fun leads => absurd leads.1 more⟩
  rw [if_pos more, readBody_eq sized (by omega) (by omega), Leads]
  generalize headerAt d place = h
  have start : ((place + 28 : Nat) : Int) = place + 28 := rfl
  have low := h.headerBytes.le_toInt
  have high := h.headerBytes.toInt_lt
  have keyless : (d.drop (place + 28)).take (toSize h.headerBytes.toInt) = [] ↔
      h.headerBytes = 0 := by
    rw [take_eq_nil_iff, drop_eq_nil_iff, ← Int32.toInt_inj]
    unfold toSize
    simp only [Int32.toInt_zero]
    omega
  rw [start]
  by_cases far : 2 ^ 31 ≤ (place : Int) + 28 + h.headerBytes.toInt
  · rw [if_pos far]
    exact ⟨nofun, fun refused => absurd refused.2.2.1 (by omega)⟩
  rw [if_neg far]
  by_cases inside : 0 ≤ (place : Int) + 28 + h.headerBytes.toInt ∧
      (place : Int) + 28 + h.headerBytes.toInt ≤ d.length
  swap
  · grind
  rw [if_pos inside]
  obtain ⟨key, same⟩ := Int.eq_ofNat_of_zero_le inside.1
  simp only [same] at inside ⊢
  rw [readContent_eq sized (by omega) (by omega)]
  grind

theorem Leads.nonneg {place : Nat} {next : Int} {h : Header} {taken : Prop}
    (leads : Leads taken d place next h) : 0 ≤ next := by
  obtain ⟨-, ⟨-, rfl⟩ | ⟨inside, -, ⟨-, rfl⟩ | ⟨within, -, rfl⟩⟩⟩ := leads
  · omega
  · exact inside.1
  · exact within.1

/-- The loop ends at a harmless place, or takes nothing there and ends behind it. -/
theorem harmless_iff (sized : d.length < 2 ^ 63) (place : Nat) :
    Harmless d place ↔
      round d place = .ends ∨ ∃ next, round d place = .goes next none ∧ round d next = .ends := by
  have quiet (next : Int) : round d place = .goes next none ↔ place + 28 < d.length ∧
      (place : Int) + 28 < 2 ^ 31 ∧ Leads False d place next (headerAt d place) := by
    rw [← round_goes_iff sized]
    simp
  rw [Harmless, round_eq_ends_iff sized]
  simp only [quiet]
  refine or_congr_right ⟨?_, ?_⟩
  · rintro ⟨more, low, next, leads, ending⟩
    obtain ⟨behind, rfl⟩ := Int.eq_ofNat_of_zero_le leads.nonneg
    exact ⟨behind, ⟨more, low, leads⟩, (round_eq_ends_iff sized behind).mpr ending⟩
  · rintro ⟨next, ⟨more, low, leads⟩, ends⟩
    obtain ⟨behind, rfl⟩ := Int.eq_ofNat_of_zero_le leads.nonneg
    exact ⟨more, low, behind, leads, (round_eq_ends_iff sized behind).mp ends⟩

/-- A walk that stays within some places, from which no round leads back to them, and changes
nothing, began at a harmless place. -/
theorem harmless_of_loop {place rounds : Nat} (sized : d.length < 2 ^ 63)
    (run : loop d rounds place = some (trace, []))
    (spins : ∀ rounds next change, round d place = .goes next change → next ∈ trace →
      loop d rounds next = none) : Harmless d place := by
  rw [harmless_iff sized]
  cases rounds with
  | zero => cases run
  | succ rounds =>
    cases first : round d place with
    | ends => exact .inl rfl
    | fails =>
      rw [loop_of_fails first] at run
      cases run
    | goes next change =>
      rw [loop_of_goes first] at run
      obtain ⟨⟨walked, made⟩, rest, same⟩ := map_eq_some_iff.mp run
      obtain ⟨rfl, nothing⟩ := Prod.mk.inj same
      obtain ⟨unchanged, -⟩ := append_eq_nil_iff.mp nothing
      have quiet : change = none := by simpa using unchanged
      subst quiet
      refine .inr ⟨next, rfl, ?_⟩
      cases rounds with
      | zero => cases rest
      | succ rounds =>
        cases second : round d next with
        | ends => rfl
        | fails =>
          grind [loop_of_fails]
        | goes other change =>
          have visited := rest
          rw [loop_of_goes second] at visited
          obtain ⟨_, -, same⟩ := map_eq_some_iff.mp visited
          have among : next ∈ walked := by
            grind
          rw [spins (rounds + 1) next none first (mem_cons_of_mem _ among)] at rest
          cases rest

end

/-- `insert` ends, it reads no header but those of the complete records and the one at the place
behind them, and it makes the changes of the complete records. -/
def ReadsComplete (d : Bytes) : Prop :=
  ∃ rounds trace changes, loop d rounds 0 = some (trace, changes) ∧
    changes = (complete d).1.filterMap Record.change ∧
      (∀ pos ∈ trace, ∃ here ∈ places 0 (complete d).1, pos = (here : Nat)) ∧
        ∀ clock store, insert clock rounds store d =
          some (applyAll clock store changes, decide (changes ≠ []))

/-- `insert` takes the complete records at the front of a payload and nothing else exactly when what
follows them is harmless. -/
theorem insert_reads_complete_iff (d : Bytes) (sized : d.length < 2 ^ 63) :
    ReadsComplete d ↔ Harmless d (d.length - (complete d).2.length) := by
  have found := records_complete d
  constructor
  · rintro ⟨rounds, trace, changes, run, made, inner, -⟩
    obtain ⟨left, walked, rest, tail, parts, among⟩ := found.loop_tail sized run
    have nothing : rest = [] := by
      rw [made] at parts
      exact self_eq_append_right.mp parts
    subst nothing
    refine harmless_of_loop sized tail (fun rounds next change goes member => ?_)
    -- A round from behind the records to one of the places goes round for ever.
    have low : d.length - (complete d).2.length < 2 ^ 31 := by
      by_contra high
      rw [round_eq sized, if_pos (by omega)] at goes
      cases goes
    refine loop_eq_none_of_closed (fun pos => ∃ here ∈ places 0 (complete d).1, pos = (here : Nat))
      ?_ rounds (inner next (among next member))
    rintro pos ⟨here, place, rfl⟩
    by_cases last : here = d.length - (complete d).2.length
    · rw [last]
      exact ⟨next, change, goes, inner next (among next member)⟩
    · obtain ⟨other, inside, change, onward⟩ := found.round_eq_goes sized low place last
      exact ⟨other, change, onward, other, inside, rfl⟩
  · intro harmless
    rw [harmless_iff sized] at harmless
    have low : d.length - (complete d).2.length < 2 ^ 31 := by
      by_contra high
      have fails : round d (d.length - (complete d).2.length : Nat) = .fails := by
        rw [round_eq sized, if_pos (by omega)]
      rcases harmless with ends | ⟨next, goes, -⟩
      · cases fails.symm.trans ends
      · cases fails.symm.trans goes
    have tail : ∃ trace, loop d 2 (d.length - (complete d).2.length : Nat) = some (trace, []) ∧
        ∀ pos ∈ trace, pos = (d.length - (complete d).2.length : Nat) := by
      rcases harmless with ends | ⟨next, goes, ends⟩
      · exact ⟨[], loop_of_ends ends 1, by simp⟩
      · refine ⟨[_], ?_, fun pos member => mem_singleton.mp member⟩
        rw [loop_of_goes goes, loop_of_ends ends]
        rfl
    obtain ⟨trace, run, inner⟩ := tail
    obtain ⟨walked, whole, among⟩ := found.loop_eq sized low run inner
    rw [append_nil, Nat.cast_zero] at whole
    refine ⟨_, walked, _, whole, rfl, among, fun clock store => ?_⟩
    rw [insert, whole]
    rfl

/-- A payload with one record and a byte. -/
def oneRecord : Bytes :=
  i64ToChars 7 ++ i64ToChars 9 ++ i32ToChars 60 ++ i32ToChars 1 ++ i32ToChars 2 ++ [97, 1, 2, 0]

/-- A byte behind a record is harmless. -/
theorem insert_reads_complete_iff_sample : ReadsComplete oneRecord :=
  (insert_reads_complete_iff oneRecord (by decide)).mpr (.inl ⟨by decide, by decide⟩)

/-- A header whose key has the size -28. -/
def spinning : Bytes :=
  i64ToChars 7 ++ i64ToChars 9 ++ i32ToChars 60 ++ i32ToChars (-28) ++ i32ToChars 0 ++ [97]

/-- At a negative size the walk goes back and does not end. -/
theorem insert_spins :
    ¬ ReadsComplete spinning ∧ ∀ clock rounds store, insert clock rounds store spinning = none := by
  have back : ∃ change, round spinning 0 = .goes 0 change := by
    refine ⟨some ⟨[97], ⟨[], 9, 7⟩, 60⟩, ?_⟩
    decide
  obtain ⟨change, goes⟩ := back
  have spins : ∀ rounds, loop spinning rounds 0 = none := by
    intro rounds
    refine loop_eq_none_of_closed (fun pos => pos = 0) ?_ rounds rfl
    grind
  constructor
  · rintro ⟨rounds, trace, changes, run, -⟩
    rw [spins rounds] at run
    cases run
  · intro clock rounds store
    rw [insert, spins rounds]
    rfl

end RssDisk.CManager
