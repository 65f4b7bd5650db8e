import Mathlib.Data.Nat.Log
import Mathlib.Tactic.Ring

/-!
# Probing a sorted sequence

A probe looks for a value in a sorted sequence of `count` elements through comparisons only. The
elements below the value are those before `lo`, the equal ones those from `lo` and before `hi`, and
the rest lie above it. The probe halves towards the end or towards the last element it found below,
never narrowing the end, and walks one element at a time once at most `gap` elements are left on the
side it moves to.
-/

namespace RssDisk.Lib.Probe

open Bool

/-- How a probe ends, with the cursor of its last comparison. -/
inductive Exit where
  | hit (cursor : Nat)
  | stepDown (cursor : Nat)
  | stepUp (cursor : Nat)
  | top
  | bottom
  | exhausted
deriving DecidableEq, Repr

/-- The probe came from above and ends on an element below. -/
def Exit.isDown : Exit → Bool
  | .stepDown _ => true
  | _ => false

/-- The probe came from below and ends on an element above. -/
def Exit.isUp : Exit → Bool
  | .stepUp _ => true
  | _ => false

/-- The probe finds an element before the last one. -/
def Exit.isBefore (count : Nat) : Exit → Bool
  | .hit cursor => cursor + 1 < count
  | _ => false

variable (gap count lo hi : Nat)

/-- The probe from a cursor: `prev` is the last cursor found below the value, and the flags say
that the probe walks upwards or downwards. -/
def run : Nat → Nat → Nat → Bool → Bool → Exit
  | 0, _, _, _, _ => .exhausted
  | fuel + 1, cursor, prev, up, down =>
    if cursor < lo then
      if down then .stepDown cursor
      else if gap < count - cursor then
        run fuel (cursor + (count - cursor) / 2) cursor up down
      else if cursor + 1 = count then .top
      else run fuel (cursor + 1) cursor true down
    else if cursor < hi then .hit cursor
    else if up then .stepUp cursor
    else if gap < cursor - prev then run fuel (prev + (cursor - prev) / 2) prev up down
    else if cursor = 0 then .bottom
    else run fuel (cursor - 1) prev up true

/-- What an exit says about the boundaries of the sequence. -/
def ExitSpec : Exit → Prop
  | .hit cursor => lo ≤ cursor ∧ cursor < hi
  | .stepDown cursor => cursor + 1 = lo ∧ lo = hi ∧ lo < count
  | .stepUp cursor => cursor = lo ∧ lo = hi ∧ 0 < lo ∧ lo < count
  | .top => lo = count ∧ hi = count
  | .bottom => lo = 0 ∧ hi = 0
  | .exhausted => True

/-- What holds whenever the probe compares: the cursor is inside, the last element found below
is below, and a walk has just left the element on its other side. -/
structure Probing (cursor prev : Nat) (up down : Bool) : Prop where
  inside : cursor < count
  remembered : prev ≤ cursor
  /-- The remembered element lies below the value, unless nothing was found below yet. -/
  below : prev = 0 ∨ prev < lo
  upward : up = true → 0 < cursor ∧ cursor ≤ lo ∧ count - cursor ≤ gap
  downward : down = true → hi ≤ cursor + 1 ∧ cursor + 1 < count ∧ cursor - prev ≤ gap

variable {gap count lo hi}

namespace Probing

variable {cursor prev : Nat} {up down : Bool}

section

variable (probing : Probing gap count lo hi cursor prev up down)

include probing

theorem halveUp (isBelow : cursor < lo) (notDown : ¬ down = true) (far : gap < count - cursor) :
    Probing gap count lo hi (cursor + (count - cursor) / 2) cursor up down := by
  refine ⟨by omega, by omega, .inr isBelow, ?_, fun walking => absurd walking notDown⟩
  intro walking
  have := (probing.upward walking).2.2
  omega

theorem walkUp (isBelow : cursor < lo) (notDown : ¬ down = true) (near : ¬ gap < count - cursor)
    (more : ¬ cursor + 1 = count) :
    Probing gap count lo hi (cursor + 1) cursor true down := by
  have := probing.inside
  exact ⟨by omega, by omega, .inr isBelow, fun _ => ⟨by omega, by omega, by omega⟩,
    fun walking => absurd walking notDown⟩

theorem halveDown (notUp : ¬ up = true) (wide : gap < cursor - prev) :
    Probing gap count lo hi (prev + (cursor - prev) / 2) prev up down := by
  have := probing.inside
  refine ⟨by omega, by omega, probing.below, fun walking => absurd walking notUp, ?_⟩
  intro walking
  have := (probing.downward walking).2.2
  omega

theorem walkDown (notBelow : ¬ cursor < lo) (notEqual : ¬ cursor < hi) (notUp : ¬ up = true)
    (near : ¬ gap < cursor - prev) (more : ¬ cursor = 0) :
    Probing gap count lo hi (cursor - 1) prev up true := by
  obtain ⟨inside, remembered, below, _, _⟩ := probing
  exact ⟨by omega, by omega, below, fun walking => absurd walking notUp,
    fun _ => ⟨by omega, by omega, by omega⟩⟩

end

end Probing

theorem run_exit (ordered : lo ≤ hi) (bounded : hi ≤ count) {fuel cursor prev : Nat}
    {up down : Bool} (probing : Probing gap count lo hi cursor prev up down) :
    ExitSpec count lo hi (run gap count lo hi fuel cursor prev up down) := by
  induction fuel generalizing cursor prev up down with
  | zero => trivial
  | succ fuel ih =>
    have inside := probing.inside
    unfold run
    split_ifs with isBelow isDown far last isEqual isUp wide first
    · obtain ⟨fromAbove, room, _⟩ := probing.downward isDown
      exact ⟨by omega, by omega, by omega⟩
    · exact ih (probing.halveUp isBelow isDown far)
    · exact ⟨by omega, by omega⟩
    · exact ih (probing.walkUp isBelow isDown far last)
    · exact ⟨by omega, isEqual⟩
    · obtain ⟨positive, fromBelow, _⟩ := probing.upward isUp
      exact ⟨by omega, by omega, by omega, by omega⟩
    · exact ih (probing.halveDown isUp wide)
    · exact ⟨by omega, by omega⟩
    · exact ih (probing.walkDown isBelow isEqual isUp wide first)

theorem hit_of_occurs {exit : Exit} (spec : ExitSpec count lo hi exit) (occurs : lo < hi)
    (ended : exit ≠ .exhausted) : ∃ cursor, exit = .hit cursor ∧ lo ≤ cursor ∧ cursor < hi := by
  cases exit with
  | hit cursor => exact ⟨cursor, rfl, spec⟩
  | stepDown cursor => exact absurd spec.2.1 (by omega)
  | stepUp cursor => exact absurd spec.2.1 (by omega)
  | top => exact absurd spec (by unfold ExitSpec; omega)
  | bottom => exact absurd spec (by unfold ExitSpec; omega)
  | exhausted => exact absurd rfl ended

/-! ## The number of comparisons

While the probe halves, the distance from the remembered element to the boundary is at most
twice the distance to the cursor, so each upward move at least halves the former and each
downward move halves the latter. -/

/-- Number of halvings until a distance is zero. -/
def bits (distance : Nat) : Nat := Nat.log 2 (distance * 2)

theorem bits_half {distance : Nat} (positive : 0 < distance) :
    bits (distance / 2) + 1 = bits distance := by
  have whole : bits distance = Nat.log 2 distance + 1 :=
    Nat.log_mul_base (by decide) (by omega)
  rcases Nat.lt_or_ge distance 2 with small | large
  · have one : distance = 1 := by omega
    subst one
    decide
  · have part : bits (distance / 2) = Nat.log 2 (distance / 2) + 1 :=
      Nat.log_mul_base (by decide) (by omega)
    have step : Nat.log 2 (distance / 2) = Nat.log 2 distance - 1 := Nat.log_div_base 2 distance
    have positiveLog : 0 < Nat.log 2 distance := Nat.log_pos (by decide) large
    omega

theorem bits_mono {left right : Nat} (ordered : left ≤ right) : bits left ≤ bits right :=
  Nat.log_mono_right (Nat.mul_le_mul_right 2 ordered)

theorem bits_le {distance exponent : Nat} (bound : distance < 2 ^ exponent) :
    bits distance ≤ exponent := by
  rcases Nat.eq_zero_or_pos distance with rfl | positive
  · simp [bits]
  · have whole : bits distance = Nat.log 2 distance + 1 :=
      Nat.log_mul_base (by decide) (by omega)
    have small : Nat.log 2 distance < exponent := Nat.log_lt_of_lt_pow (by omega) bound
    omega

theorem run_down_terminates {fuel cursor prev : Nat}
    (probing : Probing gap count lo hi cursor prev false true) (enough : cursor - prev < fuel) :
    run gap count lo hi fuel cursor prev false true ≠ .exhausted := by
  induction fuel generalizing cursor with
  | zero => omega
  | succ fuel ih =>
    have near := (probing.downward rfl).2.2
    simp only [run, false_eq_true, ↓reduceIte]
    split_ifs with isBelow isEqual wide first
    · exact Exit.noConfusion
    · exact Exit.noConfusion
    · omega
    · exact Exit.noConfusion
    · have next := probing.walkDown isBelow isEqual false_ne_true wide first
      exact ih next (by have := next.remembered; omega)

theorem run_up_terminates {fuel cursor prev : Nat}
    (probing : Probing gap count lo hi cursor prev true false) (enough : count - cursor ≤ fuel) :
    run gap count lo hi fuel cursor prev true false ≠ .exhausted := by
  induction fuel generalizing cursor prev with
  | zero => exact absurd probing.inside (by omega)
  | succ fuel ih =>
    have near := (probing.upward rfl).2.2
    simp only [run, false_eq_true, ↓reduceIte]
    split_ifs with isBelow far last isEqual
    · omega
    · exact Exit.noConfusion
    · exact ih (probing.walkUp isBelow false_ne_true far last) (by omega)
    · exact Exit.noConfusion
    · exact Exit.noConfusion

/-- Comparisons that a halving probe has left: the upward moves, each followed by its downward
moves, and one walk. -/
def budget (gap count lo cursor prev : Nat) : Nat :=
  bits (lo - prev - 1) * (bits count + 1) + bits (cursor - prev) + gap + 2

theorem run_terminates (positive : 0 < gap) {fuel cursor prev : Nat}
    (probing : Probing gap count lo hi cursor prev false false)
    (balanced : lo ≤ prev + 2 * (cursor - prev) + 1) (bounded : lo ≤ count)
    (moved : 0 < cursor - prev ∨ count ≤ gap)
    (enough : budget gap count lo cursor prev ≤ fuel) :
    run gap count lo hi fuel cursor prev false false ≠ .exhausted := by
  induction fuel generalizing cursor prev with
  | zero => simp [budget] at enough
  | succ fuel ih =>
    have inside := probing.inside
    unfold budget at enough
    simp only [run, false_eq_true, ↓reduceIte]
    split_ifs with isBelow far last isEqual wide first
    · have step : 0 < cursor - prev := by omega
      -- the boundary lies within twice the move, so half of the distance is left
      have halved : lo - cursor - 1 ≤ (lo - prev - 1) / 2 := by omega
      have fewer : bits (lo - cursor - 1) + 1 ≤ bits (lo - prev - 1) := by
        rw [← bits_half (show 0 < lo - prev - 1 by omega)]
        exact Nat.succ_le_succ (bits_mono halved)
      have fresh : bits ((count - cursor) / 2) ≤ bits count := bits_mono (by omega)
      have rounds := Nat.mul_le_mul_right (bits count + 1) fewer
      rw [Nat.add_mul] at rounds
      refine ih (probing.halveUp isBelow false_ne_true far) (by omega) (.inl (by omega)) ?_
      rw [budget, Nat.add_sub_cancel_left]
      omega
    · exact Exit.noConfusion
    · exact run_up_terminates (probing.walkUp isBelow false_ne_true far last) (by omega)
    · exact Exit.noConfusion
    · have shorter := bits_half (show 0 < cursor - prev by omega)
      refine ih (probing.halveDown false_ne_true wide) (by omega) (.inl (by omega)) ?_
      rw [budget, Nat.add_sub_cancel_left]
      omega
    · exact Exit.noConfusion
    · exact run_down_terminates
        (probing.walkDown isBelow isEqual false_ne_true wide first) (by omega)

theorem budget_start_le {exponent : Nat} (bound : count < 2 ^ exponent) (bounded : lo ≤ count) :
    budget gap count lo (count / 2) 0 ≤ exponent * (exponent + 2) + gap + 2 := by
  have whole : bits count ≤ exponent := bits_le bound
  have left : bits (lo - 0 - 1) ≤ exponent := bits_le (by omega)
  have half : bits (count / 2 - 0) ≤ exponent := bits_le (by omega)
  have rounds : bits (lo - 0 - 1) * (bits count + 1) ≤ exponent * (exponent + 1) :=
    Nat.mul_le_mul left (Nat.succ_le_succ whole)
  have last : exponent * (exponent + 2) = exponent * (exponent + 1) + exponent := by ring
  rw [budget, last]
  omega

/-! ## Which way the last walk goes

A walk up starts only where the halving towards the end has come within `gap` elements of the end,
and how far that is depends on the number of elements alone. -/

/-- What is left of a sequence after as few halvings, rounding up and at least one, as leave at
most `gap` elements. -/
def tail (gap count : Nat) : Nat :=
  let halvings := max 1 (Nat.clog 2 ((count + gap - 1) / gap))
  (count + 2 ^ halvings - 1) / 2 ^ halvings

theorem tail_of_near {half : Nat} (same : half = count - count / 2) (near : half ≤ gap) :
    tail gap count = half := by
  have one : max 1 (Nat.clog 2 ((count + gap - 1) / gap)) = 1 := by
    refine max_eq_left (Nat.clog_le_of_le_pow ?_)
    rcases Nat.eq_zero_or_pos gap with rfl | positive
    · simp
    · rw [pow_one, Nat.div_le_iff_le_mul_add_pred positive]
      omega
  simp only [tail, one, pow_one]
  omega

theorem tail_of_far {half : Nat} (positive : 0 < gap) (same : half = count - count / 2)
    (far : gap < half) : tail gap count = tail gap half := by
  have blocks : ((count + gap - 1) / gap + 1) / 2 = (half + gap - 1) / gap := by
    rw [← Nat.add_div_right _ positive, Nat.div_div_eq_div_mul, Nat.mul_comm,
      ← Nat.div_div_eq_div_mul]
    congr 1
    omega
  have many : 2 ≤ (half + gap - 1) / gap := by
    rw [Nat.le_div_iff_mul_le positive]
    omega
  have more : 2 ≤ (count + gap - 1) / gap := by omega
  have rest := Nat.clog_pos (by decide : 1 < 2) many
  have halvings : Nat.clog 2 ((count + gap - 1) / gap) =
      Nat.clog 2 ((half + gap - 1) / gap) + 1 := by
    rw [Nat.clog_of_two_le (by decide) more, ← blocks]
    rfl
  simp only [tail, halvings]
  rw [max_eq_right (by omega), max_eq_right (by omega)]
  generalize Nat.clog 2 ((half + gap - 1) / gap) = k
  have power := Nat.two_pow_pos k
  rw [Nat.pow_succ, Nat.mul_comm, ← Nat.div_div_eq_div_mul]
  congr 1
  omega

theorem tail_le_half (positive : 0 < gap) (count : Nat) : tail gap count ≤ count - count / 2 := by
  induction count using Nat.strong_induction_on with
  | h count ih =>
    by_cases far : gap < count - count / 2
    · rw [tail_of_far positive rfl far]
      exact (ih _ (by omega)).trans (Nat.sub_le _ _)
    · exact (tail_of_near rfl (by omega)).le

/-- A probe that walks down, or has no element below the value near the end, does not step up. -/
theorem run_ne_stepUp {fuel cursor prev found : Nat} {down : Bool}
    (never : down = true ∨ lo + gap ≤ count) :
    run gap count lo hi fuel cursor prev false down ≠ .stepUp found := by
  induction fuel generalizing cursor prev down with
  | zero => exact Exit.noConfusion
  | succ fuel ih =>
    simp only [run, false_eq_true, ↓reduceIte]
    split_ifs with isBelow isDown far last isEqual wide first
    · exact Exit.noConfusion
    · exact ih never
    · exact Exit.noConfusion
    · grind
    · exact Exit.noConfusion
    · exact ih never
    · exact Exit.noConfusion
    · exact ih (.inl rfl)

theorem run_up_ne_stepDown {fuel cursor prev found : Nat} :
    run gap count lo hi fuel cursor prev true false ≠ .stepDown found := by
  induction fuel generalizing cursor prev with
  | zero => exact Exit.noConfusion
  | succ fuel ih =>
    simp only [run, false_eq_true, ↓reduceIte]
    split_ifs with isBelow far last isEqual
    · exact ih
    · exact Exit.noConfusion
    · exact ih
    · exact Exit.noConfusion
    · exact Exit.noConfusion

/-- While the probe only moves up, it comes to the places that halve what is left. It walks up from
the first of them near the end if that is below the value, and never if that is not below. -/
theorem run_of_tail (positive : 0 < gap) (same : lo = hi) {fuel cursor prev : Nat}
    (inside : prev < count) (middle : cursor = prev + (count - prev) / 2) (found : Nat) :
    (count < lo + tail gap (count - prev) →
      run gap count lo hi fuel cursor prev false false ≠ .stepDown found) ∧
    (lo + tail gap (count - prev) ≤ count →
      run gap count lo hi fuel cursor prev false false ≠ .stepUp found) := by
  induction fuel generalizing cursor prev with
  | zero => exact ⟨fun _ => Exit.noConfusion, fun _ => Exit.noConfusion⟩
  | succ fuel ih =>
    have half : count - cursor = count - prev - (count - prev) / 2 := by omega
    have bounded := tail_le_half positive (count - prev)
    simp only [run, false_eq_true, ↓reduceIte]
    by_cases isBelow : cursor < lo
    · rw [if_pos isBelow]
      by_cases far : gap < count - cursor
      · rw [if_pos far, tail_of_far positive half far]
        exact ih (by omega) rfl
      · rw [if_neg far, tail_of_near half (by omega)]
        refine ⟨fun _ => ?_, fun _ => by omega⟩
        split_ifs
        · exact Exit.noConfusion
        · exact run_up_ne_stepDown
    · rw [if_neg isBelow, if_neg (by omega : ¬ cursor < hi)]
      refine ⟨fun _ => by omega, fun _ => ?_⟩
      by_cases far : gap < count - cursor
      · split_ifs
        · exact run_ne_stepUp (.inr (by omega))
        · exact Exit.noConfusion
        · exact run_ne_stepUp (.inl rfl)
      · rw [if_neg (by omega : ¬ gap < cursor - prev)]
        split_ifs
        · exact Exit.noConfusion
        · exact run_ne_stepUp (.inl rfl)

/-- When no element is above the value and at least two are equal to it, the last element is not
the one that the probe finds, unless the probe starts there. -/
theorem run_hit_lt (wide : 2 ≤ gap) (full : hi = count) (many : lo + 1 < count)
    {fuel cursor prev found : Nat} {up : Bool} (inside : cursor + 1 < count)
    (hit : run gap count lo hi fuel cursor prev up false = .hit found) : found + 1 < count := by
  subst full
  induction fuel generalizing cursor prev up with
  | zero => cases hit
  | succ fuel ih =>
    simp only [run, false_eq_true, ↓reduceIte, show cursor < hi by omega] at hit
    split_ifs at hit with isBelow far last
    · exact ih (by omega) hit
    · exact ih (by omega) hit
    · cases hit
      exact inside

/-- A probe started in the middle of a non-empty sequence ends, at an exit that shows the
boundaries, when it may compare often enough. -/
theorem run_start (positive : 0 < gap) (ordered : lo ≤ hi) (bounded : hi ≤ count)
    (inhabited : 0 < count) {fuel exponent : Nat} (bound : count < 2 ^ exponent)
    (enough : exponent * (exponent + 2) + gap + 2 ≤ fuel) :
    run gap count lo hi fuel (count / 2) 0 false false ≠ .exhausted ∧
      ExitSpec count lo hi (run gap count lo hi fuel (count / 2) 0 false false) := by
  have probing : Probing gap count lo hi (count / 2) 0 false false :=
    ⟨by omega, by omega, .inl rfl, by simp, by simp⟩
  refine ⟨?_, run_exit ordered bounded probing⟩
  exact run_terminates positive probing (by omega) (by omega) (by omega)
    ((budget_start_le bound (by omega)).trans enough)

end RssDisk.Lib.Probe
