import Mathlib.Data.Nat.Find
import RssDisk.Lib.Cut
import RssDisk.Lib.Feed

/-!
# Two ways to split a stream at a delimiter

Messages follow each other in a stream, and a delimiter ends each of them. One machine looks for
the delimiter behind everything it has read since the last one, and so finds its first occurrence.
The other one compares byte for byte and begins anew at the first byte that does not fit: it does
not see a delimiter that begins inside a failed attempt. Both leave out empty messages.
-/

namespace RssDisk.Lib

open List

variable {α : Type} {delimiter text front : List α}

/-- A message that is not empty. -/
def piece (text : List α) : List (List α) :=
  if text = [] then [] else [text]

/-- What the second machine holds. -/
structure Attempt (α : Type) where
  before : List α := []
  matched : List α := []

/-- Wherever the first symbol of a delimiter comes again, the rest is a beginning of it. -/
def SelfSimilar (delimiter : List α) : Prop :=
  ∀ place < delimiter.length, 0 < place → delimiter[place]? = delimiter[0]? →
    delimiter.drop place <+: delimiter

/-- The attempt is the longest end of what was read that can become the delimiter. -/
structure Attempt.Longest (delimiter : List α) (a : Attempt α) (held : List α) : Prop where
  whole : a.before ++ a.matched = held
  begins : a.matched <+: delimiter
  short : a.matched.length < delimiter.length
  longest : ∀ tail, tail <:+ held → tail <+: delimiter → tail.length ≤ a.matched.length

theorem prefix_drop_of_infix (inside : delimiter <:+: text) :
    ∃ place, place + delimiter.length ≤ text.length ∧ delimiter <+: text.drop place := by
  obtain ⟨front, back, whole⟩ := inside
  refine ⟨front.length, ?_, ?_⟩
  · simp [← whole]
  · rw [← whole, append_assoc, drop_left]
    exact prefix_append delimiter back

theorem infix_of_prefix_drop {back : List α} {place : Nat}
    (starts : delimiter <+: (front ++ back).drop place)
    (within : place + delimiter.length ≤ front.length) : delimiter <:+: front := by
  have low : place ≤ front.length := by omega
  rw [drop_append_of_le_length low] at starts
  have inside : delimiter <+: front.drop place := by
    rcases prefix_or_prefix_of_prefix starts (prefix_append (front.drop place) back) with
      short | long
    · exact short
    · have same := long.eq_of_length_le (by rw [length_drop]; omega)
      exact same ▸ prefix_rfl
  exact inside.isInfix.trans (drop_suffix place front).isInfix

theorem prefix_concat {c : α} (begins : front <+: delimiter)
    (next : delimiter[front.length]? = some c) : front ++ [c] <+: delimiter := by
  obtain ⟨back, whole⟩ := begins
  rw [← whole, getElem?_append_right (Nat.le_refl _), Nat.sub_self] at next
  cases back with
  | nil => cases next
  | cons b back =>
    cases next
    exact ⟨back, by rw [← whole]; simp⟩

namespace Attempt.Longest

variable {a : Attempt α} {held : List α}

theorem start (filled : delimiter ≠ []) : Attempt.Longest delimiter {} [] where
  whole := rfl
  begins := List.nil_prefix
  short := length_pos_iff.mpr filled
  longest := fun _ ends _ => ends.length_le

theorem continues (longest : a.Longest delimiter held) (similar : SelfSimilar delimiter)
    (some : front ≠ []) (ends : front <:+ held) (begins : front <+: delimiter) :
    delimiter[front.length]? = delimiter[a.matched.length]? := by
  have inside : front <:+ a.matched :=
    suffix_of_suffix_length_le ends (longest.whole ▸ suffix_append _ _)
      (longest.longest front ends begins)
  obtain ⟨early, split⟩ := inside
  obtain ⟨rest, whole⟩ := longest.begins
  rw [← split, append_assoc] at whole
  obtain rfl | later := Nat.eq_zero_or_pos early.length |>.imp_left length_eq_zero_iff.mp
  · rw [← split, nil_append]
  have dropped : delimiter.drop early.length = front ++ rest := by
    rw [← whole, drop_left]
  have low : early.length < delimiter.length := by
    have lengths := congrArg List.length whole
    have positive := length_pos_iff.mpr some
    grind
  have again : delimiter[early.length]? = delimiter[0]? := by
    obtain ⟨back, delimiter_eq⟩ := begins
    rw [← Nat.add_zero early.length, ← getElem?_drop, dropped, ← delimiter_eq,
      getElem?_append_left (length_pos_iff.mpr some),
      getElem?_append_left (length_pos_iff.mpr some)]
  have goesOn := similar early.length low later again
  have inRange : front.length < (delimiter.drop early.length).length := by
    have short := longest.short
    grind
  have same := prefix_iff_getElem?.mp goesOn front.length inRange
  rw [same, ← getElem?_eq_getElem, getElem?_drop, ← length_append, split]

end Attempt.Longest

variable [DecidableEq α]

/-- The machine that looks for the delimiter behind everything it has read. -/
def leftmost (delimiter held : List α) (c : α) : List α × List (List α) :=
  if delimiter <:+ held ++ [c] then
    ([], piece ((held ++ [c]).take (held.length + 1 - delimiter.length)))
  else (held ++ [c], [])

/-- The attempt after one more symbol. -/
def Attempt.advance (delimiter : List α) (a : Attempt α) (c : α) : Attempt α :=
  if delimiter[a.matched.length]? = some c then ⟨a.before, a.matched ++ [c]⟩
  else if delimiter[0]? = some c then ⟨a.before ++ a.matched, [c]⟩
  else ⟨a.before ++ a.matched ++ [c], []⟩

/-- The machine that begins anew at a symbol that does not fit. -/
def restart (delimiter : List α) (a : Attempt α) (c : α) : Attempt α × List (List α) :=
  let next := a.advance delimiter c
  if next.matched.length < delimiter.length then (next, []) else ({}, piece next.before)

/-- How much of the delimiter the second machine has matched after one more symbol. -/
def progress (delimiter : List α) (count : Nat) (c : α) : Nat :=
  if delimiter[count]? = some c then count + 1
  else if delimiter[0]? = some c then 1
  else 0

/-- How much of the delimiter the second machine has matched after a text. -/
def matchedBy (delimiter text : List α) : Nat :=
  text.foldl (progress delimiter) 0

/-- The delimiter behind a text is its first occurrence. -/
def LeftmostPasses (delimiter text : List α) : Prop :=
  text ≠ [] ∧ ∀ place < text.length, ¬ delimiter <+: (text ++ delimiter).drop place

/-- The second machine does not come to the end of the delimiter within the text, and what it has
matched at the end of the text does not go on with the first symbol of the delimiter. -/
def RestartPasses (delimiter text : List α) : Prop :=
  text ≠ [] ∧
    (∀ count ≤ text.length, matchedBy delimiter (text.take count) < delimiter.length) ∧
      (matchedBy delimiter text = 0 ∨
        delimiter[matchedBy delimiter text]? ≠ delimiter[0]?)

instance (delimiter text : List α) : Decidable (LeftmostPasses delimiter text) :=
  inferInstanceAs (Decidable (_ ∧ _))

instance (delimiter text : List α) : Decidable (RestartPasses delimiter text) :=
  inferInstanceAs (Decidable (_ ∧ _ ∧ _))

instance (delimiter : List α) : Decidable (SelfSimilar delimiter) :=
  inferInstanceAs (Decidable (∀ place < delimiter.length, _))

theorem leftmost_held (held : List α) (absent : ¬ delimiter <:+: held ++ text) :
    feedAll (leftmost delimiter) held text = (held ++ text, []) := by
  induction text generalizing held with
  | nil => rw [append_nil]; rfl
  | cons c text ih =>
    have here : ¬ delimiter <:+ held ++ [c] := by
      intro ends
      apply absent
      rw [← singleton_append, ← append_assoc]
      exact ends.isInfix.trans (prefix_append _ text).isInfix
    have rest := ih (held ++ [c]) (by rwa [append_assoc])
    have step : leftmost delimiter held c = (held ++ [c], []) := if_neg here
    rw [append_assoc, singleton_append] at rest
    simp only [feedAll, step, rest, nil_append]

theorem leftmost_ends {before : List α} (held : List α) (c : α) (behind : List α)
    (ends : held ++ [c] = before ++ delimiter) :
    feedAll (leftmost delimiter) held (c :: behind) =
      ((feedAll (leftmost delimiter) [] behind).1,
        piece before ++ (feedAll (leftmost delimiter) [] behind).2) := by
  have lengths : held.length + 1 = before.length + delimiter.length := by
    simpa using congrArg List.length ends
  have step : leftmost delimiter held c = ([], piece before) := by
    rw [leftmost, if_pos (ends ▸ suffix_append before delimiter), ends, lengths,
      Nat.add_sub_cancel, take_left]
  simp only [feedAll, step]

theorem leftmost_cut {held chunk before behind : List α} (filled : delimiter ≠ [])
    (absent : ¬ delimiter <:+: held)
    (found : cut delimiter (held ++ chunk) = some (before, behind)) :
    feedAll (leftmost delimiter) held chunk =
      ((feedAll (leftmost delimiter) [] behind).1,
        piece before ++ (feedAll (leftmost delimiter) [] behind).2) := by
  obtain ⟨body, last, rfl⟩ := (eq_nil_or_concat' delimiter).resolve_left filled
  have whole : held ++ chunk = before ++ body ++ last :: behind := by
    simpa using cut_eq found
  have first := first_of_cut found
  -- what is held ends before the delimiter does, since it does not contain it
  have short : held.length ≤ (before ++ body).length := by
    by_contra long
    apply absent
    have begins : before ++ (body ++ [last]) <+: held ++ chunk := by
      rw [whole]
      exact ⟨behind, by simp⟩
    have inside : before ++ (body ++ [last]) <+: held := by
      grind [prefix_of_prefix_length_le]
    exact (suffix_append before _).isInfix.trans inside.isInfix
  obtain ⟨front, held_front⟩ : held <+: before ++ body := by
    apply prefix_of_prefix_length_le (prefix_append held chunk) _ short
    grind
  have chunk_eq : chunk = front ++ last :: behind := by
    rw [← held_front, append_assoc] at whole
    exact append_cancel_left whole
  have nothing : ¬ body ++ [last] <:+: held ++ front := by
    intro inside
    obtain ⟨place, within, starts⟩ := prefix_drop_of_infix inside
    have low : place < before.length := by
      rw [held_front] at within
      grind
    apply first place low
    rw [whole, ← held_front, drop_append_of_le_length (by omega)]
    exact starts.trans (prefix_append _ _)
  have ends : held ++ front ++ [last] = before ++ (body ++ [last]) := by
    rw [held_front, append_assoc]
  rw [chunk_eq, feedAll_append, leftmost_held held nothing, leftmost_ends _ last behind ends]
  rfl

theorem leftmost_passes (passes : LeftmostPasses delimiter text) (filled : delimiter ≠ []) :
    feedAll (leftmost delimiter) [] (text ++ delimiter) = ([], [text]) := by
  have found : cut delimiter ([] ++ (text ++ delimiter)) = some (text, []) := by
    have first : cut delimiter (text ++ (delimiter ++ [])) = some (text, []) := by
      apply cut_first
      simpa using passes.2
    simpa using first
  rw [leftmost_cut filled (fun inside => filled (infix_nil.mp inside)) found, piece,
    if_neg passes.1]
  rfl

theorem leftmost_given (filled : delimiter ≠ []) (stream : List α) :
    ∀ text ∈ (feedAll (leftmost delimiter) [] stream).2, LeftmostPasses delimiter text := by
  have preserved : ∀ (held : List α) (c : α), ¬ delimiter <:+: held →
      ¬ delimiter <:+: (leftmost delimiter held c).1 ∧
        ∀ text ∈ (leftmost delimiter held c).2, LeftmostPasses delimiter text := by
    intro held c absent
    rw [leftmost]
    split
    · rename_i ends
      obtain ⟨before, whole⟩ := ends
      have lengths : before.length + delimiter.length = held.length + 1 := by
        simpa using congrArg List.length whole
      constructor
      · exact fun inside => filled (infix_nil.mp inside)
      · intro text member
        rw [← whole, ← lengths, Nat.add_sub_cancel, take_left, piece] at member
        split at member
        · cases member
        · rename_i notEmpty
          cases mem_singleton.mp member
          refine ⟨notEmpty, fun place low starts => absent ?_⟩
          rw [whole] at starts
          exact infix_of_prefix_drop starts (by omega)
    · rename_i open_
      constructor
      · intro inside
        rcases infix_concat_iff.mp inside with ends | earlier
        · exact open_ ends
        · exact absent earlier
      · exact fun _ member => absurd member not_mem_nil
  exact (feedAll_invariant _ _ preserved (fun inside => filled (infix_nil.mp inside)) stream).2

/-- A stream that is cut at the first occurrence of the delimiter, and again behind it: the parts
before the occurrences, and what is behind the last one. -/
inductive Parts (delimiter : List α) : List α → List (List α) → List α → Prop
  | last {rest : List α} (absent : ¬ delimiter <:+: rest) : Parts delimiter rest [] rest
  | next {before behind : List α} {parts : List (List α)} {rest : List α}
      (first : ∀ place < before.length,
        ¬ delimiter <+: (before ++ (delimiter ++ behind)).drop place)
      (others : Parts delimiter behind parts rest) :
      Parts delimiter (before ++ (delimiter ++ behind)) (before :: parts) rest

omit [DecidableEq α] in
theorem piece_append_filter (before : List α) (parts : List (List α)) :
    piece before ++ parts.filter (· ≠ []) = (before :: parts).filter (· ≠ []) := by
  rw [piece, filter_cons]
  by_cases empty : before = []
  · simp [empty]
  · simp [empty]

theorem leftmost_parts (filled : delimiter ≠ []) (stream : List α) :
    ∃ parts, Parts delimiter stream parts (feedAll (leftmost delimiter) [] stream).1 ∧
      (feedAll (leftmost delimiter) [] stream).2 = parts.filter (· ≠ []) := by
  have positive : 0 < delimiter.length := length_pos_iff.mpr filled
  have nothing : ¬ delimiter <:+: [] := fun inside => filled (infix_nil.mp inside)
  generalize size : stream.length = n
  induction n using Nat.strong_induction_on generalizing stream with
  | _ n ih =>
    cases found : cut delimiter stream with
    | none =>
      have absent := not_infix_of_cut found
      rw [leftmost_held [] absent]
      exact ⟨[], .last absent, rfl⟩
    | some both =>
      obtain ⟨before, behind⟩ := both
      have whole := cut_eq found
      have first := first_of_cut found
      rw [leftmost_cut filled nothing found]
      subst whole
      simp only [length_append] at size
      obtain ⟨parts, others, given⟩ := ih behind.length (by omega) behind rfl
      refine ⟨before :: parts, .next first others, ?_⟩
      rw [given]
      exact piece_append_filter before parts

theorem Attempt.advance_text (a : Attempt α) (c : α) :
    (a.advance delimiter c).before ++ (a.advance delimiter c).matched =
      a.before ++ a.matched ++ [c] := by
  unfold Attempt.advance
  split_ifs <;> simp

theorem Attempt.advance_length (a : Attempt α) (c : α) :
    (a.advance delimiter c).matched.length = progress delimiter a.matched.length c := by
  unfold Attempt.advance progress
  split_ifs <;> simp

theorem Attempt.advance_matched {a : Attempt α} (begins : a.matched <+: delimiter) (c : α) :
    (a.advance delimiter c).matched <+: delimiter := by
  unfold Attempt.advance
  split_ifs with fits again
  · exact prefix_concat begins fits
  · exact prefix_concat List.nil_prefix again
  · exact List.nil_prefix

theorem matchedBy_concat (text : List α) (c : α) :
    matchedBy delimiter (text ++ [c]) = progress delimiter (matchedBy delimiter text) c := by
  rw [matchedBy, foldl_append]
  rfl

/-- What is known of the machine between two delimiters. -/
structure Attempt.Tracks (delimiter : List α) (a : Attempt α) : Prop where
  begins : a.matched <+: delimiter
  count : matchedBy delimiter (a.before ++ a.matched) = a.matched.length
  within : ∀ count ≤ (a.before ++ a.matched).length,
    matchedBy delimiter ((a.before ++ a.matched).take count) < delimiter.length
  began : a.matched ≠ [] → matchedBy delimiter a.before = 0 ∨
    delimiter[matchedBy delimiter a.before]? ≠ delimiter[0]?

namespace Attempt.Tracks

theorem start (filled : delimiter ≠ []) : Attempt.Tracks delimiter {} where
  begins := List.nil_prefix
  count := rfl
  within := by
    intro count _
    rw [append_nil, take_nil]
    exact length_pos_iff.mpr filled
  began := fun attempted => absurd rfl attempted

variable {a : Attempt α}

theorem began_advance (tracks : a.Tracks delimiter) (c : α) :
    (a.advance delimiter c).matched ≠ [] →
      matchedBy delimiter (a.advance delimiter c).before = 0 ∨
        delimiter[matchedBy delimiter (a.advance delimiter c).before]? ≠ delimiter[0]? := by
  intro attempted
  rw [Attempt.advance] at attempted ⊢
  split_ifs at attempted ⊢ with fits again
  · rcases eq_nil_or_concat' a.matched with nothing | ⟨front, last, more⟩
    · left
      have count := tracks.count
      grind
    · exact tracks.began (by rw [more]; simp)
  · right
    rw [tracks.count, again]
    exact fits
  · exact absurd rfl attempted

theorem advance (tracks : a.Tracks delimiter) {c : α}
    (short : (a.advance delimiter c).matched.length < delimiter.length) :
    (a.advance delimiter c).Tracks delimiter where
  begins := a.advance_matched tracks.begins c
  count := by rw [advance_text, matchedBy_concat, tracks.count, advance_length]
  within := by
    intro count low
    rw [advance_text] at low ⊢
    rcases Nat.lt_or_ge (a.before ++ a.matched).length count with last | earlier
    · have all : (a.before ++ a.matched ++ [c]).length ≤ count := by
        rw [length_append]
        exact last
      rw [take_of_length_le all, matchedBy_concat, tracks.count, ← advance_length]
      exact short
    · rw [take_append_of_le_length earlier]
      exact tracks.within count earlier
  began := began_advance tracks c

theorem passes (tracks : a.Tracks delimiter) (filled : delimiter ≠ []) {c : α}
    (whole : delimiter.length ≤ (a.advance delimiter c).matched.length)
    (notEmpty : (a.advance delimiter c).before ≠ []) :
    RestartPasses delimiter (a.advance delimiter c).before := by
  have attempted : (a.advance delimiter c).matched ≠ [] := by
    intro nothing
    rw [nothing] at whole
    exact filled (length_eq_zero_iff.mp (Nat.le_zero.mp whole))
  have early : (a.advance delimiter c).before <+: a.before ++ a.matched := by
    have text : (a.advance delimiter c).before ++ (a.advance delimiter c).matched =
        a.before ++ a.matched ++ [c] := a.advance_text c
    apply prefix_of_prefix_length_le (prefix_append _ _)
      (text ▸ prefix_append _ [c])
    have lengths := congrArg List.length text
    have some := length_pos_iff.mpr attempted
    grind
  refine ⟨notEmpty, ?_, began_advance tracks c attempted⟩
  intro count low
  obtain ⟨back, same⟩ := early
  have below := tracks.within count (by rw [← same, length_append]; omega)
  rwa [← same, take_append_of_le_length low] at below

end Attempt.Tracks

theorem restart_tracks (filled : delimiter ≠ []) (a : Attempt α) (c : α)
    (tracks : a.Tracks delimiter) :
    (restart delimiter a c).1.Tracks delimiter ∧
      ∀ text ∈ (restart delimiter a c).2, RestartPasses delimiter text := by
  rw [restart]
  split
  · rename_i short
    exact ⟨tracks.advance short, fun _ member => absurd member not_mem_nil⟩
  · rename_i whole
    constructor
    · exact .start filled
    · intro text member
      rw [piece] at member
      split at member
      · cases member
      · grind [tracks.passes]

/-- What the second machine has read is a part with a complete delimiter behind it, or it is
held. -/
theorem restart_parts {a : Attempt α} (begins : a.matched <+: delimiter) (stream : List α) :
    ∃ parts : List (List α), a.before ++ a.matched ++ stream = parts.flatMap (· ++ delimiter) ++
        (feedAll (restart delimiter) a stream).1.before ++
        (feedAll (restart delimiter) a stream).1.matched ∧
      (feedAll (restart delimiter) a stream).2 = parts.filter (· ≠ []) := by
  induction stream generalizing a with
  | nil => exact ⟨[], by simp [feedAll], rfl⟩
  | cons c stream ih =>
    have further := a.advance_matched begins c
    have read : a.before ++ a.matched ++ c :: stream =
        (a.advance delimiter c).before ++ (a.advance delimiter c).matched ++ stream := by
      rw [a.advance_text, append_assoc _ [c], singleton_append]
    rw [read]
    simp only [feedAll, restart]
    split
    · obtain ⟨parts, whole, given⟩ := ih further
      exact ⟨parts, whole, given⟩
    · rename_i complete
      obtain ⟨parts, whole, given⟩ := ih (a := {}) List.nil_prefix
      have done : (a.advance delimiter c).matched = delimiter :=
        further.eq_of_length_le (Nat.le_of_not_lt complete)
      refine ⟨(a.advance delimiter c).before :: parts, ?_, ?_⟩
      · rw [nil_append, nil_append] at whole
        rw [done, flatMap_cons]
        simp only [append_assoc] at whole ⊢
        rw [← whole]
      · rw [given]
        exact piece_append_filter _ parts

theorem restart_given (filled : delimiter ≠ []) (stream : List α) :
    ∀ text ∈ (feedAll (restart delimiter) {} stream).2, RestartPasses delimiter text :=
  (feedAll_invariant _ _ (restart_tracks filled) (.start filled) stream).2

theorem restart_held (filled : delimiter ≠ [])
    (within : ∀ count ≤ text.length, matchedBy delimiter (text.take count) < delimiter.length) :
    ∃ a : Attempt α, feedAll (restart delimiter) {} text = (a, []) ∧
      a.before ++ a.matched = text ∧ a.Tracks delimiter := by
  induction text using List.reverseRecOn with
  | nil => exact ⟨{}, rfl, rfl, .start filled⟩
  | append_singleton text c ih =>
    obtain ⟨a, read, whole, tracks⟩ := ih (by
      intro count low
      have below := within count (by rw [length_append]; omega)
      rwa [take_append_of_le_length low] at below)
    have short : (a.advance delimiter c).matched.length < delimiter.length := by
      have below := within (text ++ [c]).length (Nat.le_refl _)
      rwa [take_length, matchedBy_concat, ← whole, tracks.count,
        ← Attempt.advance_length] at below
    have step : restart delimiter a c = (a.advance delimiter c, []) := if_pos short
    refine ⟨a.advance delimiter c, ?_, ?_, tracks.advance short⟩
    · rw [feedAll_append, read]
      simp only [feedAll, step, append_nil]
    · rw [Attempt.advance_text, whole]

theorem restart_rest (before : List α) {back : List α} (whole : front ++ back = delimiter)
    (more : back ≠ []) :
    feedAll (restart delimiter) ⟨before, front⟩ back = ({}, piece before) := by
  induction back generalizing front with
  | nil => exact absurd rfl more
  | cons c back ih =>
    have fits : delimiter[front.length]? = some c := by
      rw [← whole, getElem?_append_right (Nat.le_refl _), Nat.sub_self]
      rfl
    have next : Attempt.advance delimiter ⟨before, front⟩ c = ⟨before, front ++ [c]⟩ := if_pos fits
    have lengths : delimiter.length = (front ++ [c]).length + back.length := by
      rw [← whole]
      simp only [length_append, length_cons, length_nil]
      omega
    rw [feedAll, restart, next]
    cases back with
    | nil =>
      rw [if_neg (by rw [lengths]; simp)]
      simp only [feedAll, append_nil]
    | cons d back =>
      rw [if_pos (by rw [lengths]; simp), ih (by rw [← whole]; simp) (cons_ne_nil d back)]
      rfl

theorem restart_delimiter (filled : delimiter ≠ []) :
    feedAll (restart delimiter) {} delimiter = ({}, []) :=
  restart_rest [] (nil_append delimiter) filled

theorem leftmost_delimiter (filled : delimiter ≠ []) :
    feedAll (leftmost delimiter) [] delimiter = ([], []) := by
  have found : cut delimiter ([] ++ delimiter) = some ([], []) := by
    have first : cut delimiter ([] ++ (delimiter ++ [])) = some ([], []) :=
      cut_first (fun place low => absurd low (Nat.not_lt_zero place))
    simpa using first
  rw [leftmost_cut filled (fun inside => filled (infix_nil.mp inside)) found]
  rfl

/-- A text in which the machine does not find the delimiter, and at whose end it is ready for it,
comes out. -/
theorem restart_passes (passes : RestartPasses delimiter text) (filled : delimiter ≠ []) :
    feedAll (restart delimiter) {} (text ++ delimiter) = ({}, [text]) := by
  obtain ⟨notEmpty, within, ready⟩ := passes
  obtain ⟨a, read, whole, tracks⟩ := restart_held filled within
  have out : piece text = [text] := if_neg notEmpty
  rw [← whole, tracks.count] at ready
  rw [← nil_append [text], ← out]
  apply feedAll_append_eq read
  rcases ready with nothing | other
  · have none : a.matched = [] := length_eq_zero_iff.mp nothing
    have same : a = ⟨text, []⟩ := by
      cases a
      grind
    rw [same]
    exact restart_rest text (nil_append delimiter) filled
  · obtain ⟨c, rest, rfl⟩ := exists_cons_of_ne_nil filled
    have next : a.advance (c :: rest) c = ⟨text, [c]⟩ := by
      have differs : (c :: rest)[a.matched.length]? ≠ some c := other
      have again : (c :: rest)[0]? = some c := rfl
      rw [Attempt.advance, if_neg differs, if_pos again, whole]
    have more : rest ≠ [] := by
      rintro rfl
      have low := tracks.within _ (Nat.le_refl _)
      rw [take_length, tracks.count] at low
      have zero : a.matched.length = 0 := Nat.lt_one_iff.mp low
      grind
    have short : 1 < (c :: rest).length := Nat.succ_lt_succ (length_pos_iff.mpr more)
    have step : restart (c :: rest) a c = (⟨text, [c]⟩, []) := by
      rw [restart, next]
      exact if_pos short
    have ends : feedAll (restart (c :: rest)) ⟨text, [c]⟩ rest = ({}, piece text) :=
      restart_rest text rfl more
    rw [feedAll, step, ends]
    rfl

namespace Attempt.Longest

variable {a : Attempt α} {held : List α}

/-- Where the delimiter goes on like its beginning, a failed attempt leaves at most its last symbol
to a new one. -/
theorem advance_longest (longest : a.Longest delimiter held) (similar : SelfSimilar delimiter)
    (c : α) {tail : List α} (ends : tail <:+ held ++ [c]) (begins : tail <+: delimiter) :
    tail.length ≤ (a.advance delimiter c).matched.length := by
  obtain rfl | ⟨front, last, rfl⟩ := eq_nil_or_concat' tail
  · exact Nat.zero_le _
  obtain ⟨others, same⟩ := ends
  rw [← append_assoc] at same
  obtain ⟨front_ends, rfl⟩ := append_singleton_inj.mp same
  have front_suffix : front <:+ held := ⟨others, front_ends⟩
  have front_begins : front <+: delimiter := (prefix_append front [last]).trans begins
  have next : delimiter[front.length]? = some last := by
    obtain ⟨back, rfl⟩ := begins
    simp
  rw [Attempt.advance_length, progress, length_append, length_singleton]
  rcases eq_nil_or_concat' front with rfl | ⟨_, _, notEmpty⟩
  · have again : delimiter[0]? = some last := next
    split_ifs <;> simp
  · have fits := longest.continues similar (by rw [notEmpty]; simp) front_suffix front_begins
    rw [if_pos (fits.symm.trans next)]
    exact Nat.succ_le_succ (longest.longest front front_suffix front_begins)

end Attempt.Longest

theorem restart_leftmost (similar : SelfSimilar delimiter) (filled : delimiter ≠ [])
    (a : Attempt α) (held : List α) (c : α) (longest : a.Longest delimiter held) :
    Attempt.Longest delimiter (restart delimiter a c).1 (leftmost delimiter held c).1 ∧
      (restart delimiter a c).2 = (leftmost delimiter held c).2 := by
  have text : (a.advance delimiter c).before ++ (a.advance delimiter c).matched = held ++ [c] := by
    rw [Attempt.advance_text, longest.whole]
  have begins := a.advance_matched longest.begins c
  rw [restart, leftmost]
  by_cases ends : delimiter <:+ held ++ [c]
  · have whole := longest.advance_longest similar c ends prefix_rfl
    have same : (a.advance delimiter c).matched = delimiter := begins.eq_of_length_le whole
    have lengths : (a.advance delimiter c).before.length + delimiter.length = held.length + 1 := by
      have both := congrArg List.length text
      rwa [same, length_append, length_append, length_singleton] at both
    rw [if_neg (Nat.not_lt_of_le whole), if_pos ends, ← text, same, ← lengths,
      Nat.add_sub_cancel, take_left]
    exact ⟨.start filled, rfl⟩
  · have short : (a.advance delimiter c).matched.length < delimiter.length := by
      by_contra whole
      apply ends
      rw [← text, begins.eq_of_length_le (Nat.le_of_not_lt whole)]
      exact suffix_append _ delimiter
    rw [if_pos short, if_neg ends]
    exact ⟨⟨text, begins, short,
      fun _ tail_ends tail_begins => longest.advance_longest similar c tail_ends tail_begins⟩, rfl⟩

theorem matchedBy_take {count : Nat} (low : count ≤ delimiter.length) :
    matchedBy delimiter (delimiter.take count) = count := by
  induction count with
  | zero => rw [take_zero]; rfl
  | succ count ih =>
    rw [take_add_one, getElem?_eq_getElem low, Option.toList_some, matchedBy_concat,
      ih (Nat.le_of_succ_le low), progress, if_pos (getElem?_eq_getElem low)]

/-- With any other delimiter, its beginning up to the first place where it does not go on like
itself comes out of the first machine only. -/
theorem exists_passes (different : ¬ SelfSimilar delimiter) :
    ∃ text, LeftmostPasses delimiter text ∧ ¬ RestartPasses delimiter text := by
  have bad : ∃ place, place < delimiter.length ∧ 0 < place ∧
      delimiter[place]? = delimiter[0]? ∧ ¬ delimiter.drop place <+: delimiter := by
    simpa only [SelfSimilar, not_forall, exists_prop] using different
  obtain ⟨low, later, again, differs⟩ := Nat.find_spec bad
  have least := fun place (below : place < Nat.find bad) => Nat.find_min bad below
  generalize Nat.find bad = place at low later again differs least
  refine ⟨delimiter.take place, ⟨?_, ?_⟩, ?_⟩
  · rw [Ne, take_eq_nil_iff]
    rintro (zero | rfl)
    · omega
    · cases low
  · intro earlier below starts
    rw [length_take_of_le (Nat.le_of_lt low)] at below
    rw [drop_append_of_le_length (by rw [length_take_of_le (Nat.le_of_lt low)]; omega)]
      at starts
    -- a delimiter that begins inside the text shifts the delimiter onto itself
    have shifted : delimiter.drop (place - earlier) <+: delimiter := by
      have both := starts.drop (place - earlier)
      rwa [drop_left' (by simp; omega)] at both
    obtain rfl | positive := Nat.eq_zero_or_pos earlier
    · exact differs shifted
    · have first : delimiter[earlier]? = delimiter[0]? := by
        have zero := prefix_iff_getElem?.mp starts 0 (by omega)
        rw [getElem?_append_left (by simp; omega), getElem?_drop, Nat.add_zero,
          getElem?_take_of_lt below] at zero
        rw [zero, getElem?_eq_getElem]
      have similar : delimiter.drop earlier <+: delimiter := by
        by_contra other
        exact least earlier below ⟨by omega, positive, first, other⟩
      have onward := similar.drop (place - earlier)
      rw [drop_drop, Nat.add_sub_cancel' (Nat.le_of_lt below)] at onward
      exact differs (onward.trans shifted)
  · intro passes
    have ready := passes.2.2
    rw [matchedBy_take (Nat.le_of_lt low)] at ready
    rcases ready with zero | other
    · omega
    · exact other again

/-- The machines give out the same from every stream exactly when the delimiter goes on like its
beginning wherever its first symbol comes again. -/
theorem restart_eq_leftmost_iff (filled : delimiter ≠ []) :
    (∀ stream, (feedAll (restart delimiter) {} stream).2 =
      (feedAll (leftmost delimiter) [] stream).2) ↔ SelfSimilar delimiter := by
  constructor
  · intro same
    by_contra different
    obtain ⟨text, passes, fails⟩ := exists_passes different
    apply fails
    apply restart_given filled (text ++ delimiter)
    rw [same, leftmost_passes passes filled]
    exact mem_singleton_self text
  · intro similar stream
    exact feedAll_simulates (Attempt.Longest delimiter) (restart_leftmost similar filled)
      (.start filled) stream

end RssDisk.Lib
