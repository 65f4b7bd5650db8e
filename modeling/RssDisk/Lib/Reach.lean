/-!
# Runs of a system

A system takes one action after another, and an action that is not possible is refused. A state is
reached along steps that meet a condition; what the start has and every such step keeps, holds in
every state that is reached.
-/

namespace RssDisk.Lib

variable {σ α : Type}

/-- The states that are reached from a start by steps that meet a condition. -/
inductive Reaches (step : σ → α → Option σ) (allowed : σ → α → Prop) (start : σ) : σ → Prop
  | start : Reaches step allowed start start
  | next {s t : σ} (action : α) (before : Reaches step allowed start s)
      (meets : allowed s action) (taken : step s action = some t) :
      Reaches step allowed start t

/-- The state after a list of actions that all are possible and meet the condition. -/
def runActions (step : σ → α → Option σ) (allowed : σ → α → Prop)
    [∀ s, DecidablePred (allowed s)] : σ → List α → Option σ
  | s, [] => some s
  | s, action :: actions =>
    if allowed s action then (step s action).bind (fun t => runActions step allowed t actions)
    else none

namespace Reaches

variable {step : σ → α → Option σ} {allowed : σ → α → Prop} {start s t : σ}

theorem invariant (reached : Reaches step allowed start s) (kept : σ → Prop) (initial : kept start)
    (preserved : ∀ s action t, kept s → allowed s action → step s action = some t → kept t) :
    kept s := by
  induction reached with
  | start => exact initial
  | next action _ meets taken ih => exact preserved _ action _ ih meets taken

theorem trans (first : Reaches step allowed start s) (second : Reaches step allowed s t) :
    Reaches step allowed start t := by
  induction second with
  | start => exact first
  | next action _ meets taken ih => exact ih.next action meets taken

theorem mono {allowed' : σ → α → Prop} (reached : Reaches step allowed start s)
    (weaker : ∀ s action, allowed s action → allowed' s action) :
    Reaches step allowed' start s := by
  induction reached with
  | start => exact .start
  | next action _ meets taken ih => exact ih.next action (weaker _ action meets) taken

/-- When every step of one system, in states with an invariant, is some steps of another one
between the images of its states, the image of a state that is reached is reached. -/
theorem simulates {σ' α' : Type} {step' : σ' → α' → Option σ'} {allowed' : σ' → α' → Prop}
    (reached : Reaches step allowed start s) (image : σ → σ') (kept : σ → Prop)
    (initial : kept start)
    (moves : ∀ s action t, kept s → allowed s action → step s action = some t →
      kept t ∧ Reaches step' allowed' (image s) (image t)) :
    kept s ∧ Reaches step' allowed' (image start) (image s) := by
  induction reached with
  | start => exact ⟨initial, .start⟩
  | next action _ meets taken ih =>
    obtain ⟨good, there⟩ := moves _ action _ ih.1 meets taken
    exact ⟨good, ih.2.trans there⟩

theorem of_runActions [∀ s, DecidablePred (allowed s)] {actions : List α}
    (ran : runActions step allowed start actions = some t) : Reaches step allowed start t := by
  induction actions generalizing start with
  | nil =>
    cases ran
    exact .start
  | cons action actions ih =>
    rw [runActions] at ran
    split at ran
    · rename_i meets
      obtain ⟨next, taken, rest⟩ := Option.bind_eq_some_iff.mp ran
      exact (Reaches.start.next action meets taken).trans (ih rest)
    · cases ran

theorem of_runActions_any [∀ s, DecidablePred (allowed s)] {found : σ → Prop}
    [DecidablePred found] (actions : List α)
    (ran : (runActions step allowed start actions).any (fun t => found t) = true) :
    ∃ t, Reaches step allowed start t ∧ found t := by
  cases reached : runActions step allowed start actions with
  | none =>
    rw [reached] at ran
    cases ran
  | some t =>
    rw [reached, Option.any_some, decide_eq_true_eq] at ran
    exact ⟨t, of_runActions reached, ran⟩

theorem of_runActions_and [∀ s, DecidablePred (allowed s)] {found more : σ → Prop}
    [DecidablePred found] (actions : List α)
    (ran : (runActions step allowed start actions).any (fun t => found t) = true)
    (follows : ∀ t, Reaches step allowed start t → found t → more t) :
    ∃ t, Reaches step allowed start t ∧ found t ∧ more t := by
  obtain ⟨t, reached, met⟩ := of_runActions_any actions ran
  exact ⟨t, reached, met, follows t reached met⟩

end Reaches

end RssDisk.Lib
