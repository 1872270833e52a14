import Mathlib.Data.List.Basic
import Moduless.Interaction.Pool

/-!
Schedules: executable runs of a pool.

A schedule lists which thread moves next and how the open choices fall.
Playing it checks every move against the given guards, so a pool that a
schedule produces is one the step relation reaches.
-/

namespace Moduless.Interaction

variable {I : Interface} {σ C ρ : Type}

inductive Move (sys : System I σ C ρ) where
  | begin (c : C)
  | run (thread times : Nat) (w : (o : I.Op) → sys.machine.Choice o)

namespace System

variable (sys : System I σ C ρ) (start : Pool I σ C ρ → C → Bool)
  (cond : Pool I σ C ρ → Thread I C ρ → Event I → Bool)

/-- One operation of the thread at a position. -/
def advance (w : (o : I.Op) → sys.machine.Choice o) (i : Nat) (p : Pool I σ C ρ) :
    Option (Pool I σ C ρ) :=
  match p.threads[i]? with
  | some ⟨c, t, .call o k⟩ =>
    match sys.machine.exec p.state o (w o) with
    | none => none
    | some (r, s) =>
      if cond p ⟨c, t, .call o k⟩ ⟨o, r⟩ then
        some ⟨s, p.threads.take i ++ ⟨c, t ++ [⟨o, r⟩], k r⟩ :: p.threads.drop (i + 1) ++
          (sys.spawn o).map sys.fresh⟩
      else none
  | _ => none

def advances (w : (o : I.Op) → sys.machine.Choice o) (i : Nat) :
    Nat → Pool I σ C ρ → Option (Pool I σ C ρ)
  | 0, p => some p
  | n + 1, p =>
    match sys.advance cond w i p with
    | none => none
    | some q => advances w i n q

def play : List (Move sys) → Pool I σ C ρ → Option (Pool I σ C ρ)
  | [], p => some p
  | .begin c :: rest, p =>
    if start p c then play rest ⟨p.state, p.threads ++ [sys.fresh c]⟩ else none
  | .run i n w :: rest, p =>
    match sys.advances cond w i n p with
    | none => none
    | some q => play rest q

variable {sys start cond} {start' : Pool I σ C ρ → C → Prop}
  {cond' : Pool I σ C ρ → Thread I C ρ → Event I → Prop} {p q : Pool I σ C ρ}

theorem step_of_advance {w : (o : I.Op) → sys.machine.Choice o} {i : Nat}
    (hCond : ∀ p th e, cond p th e = true → cond' p th e)
    (h : sys.advance cond w i p = some q) : sys.Step start' cond' p q := by
  unfold advance at h
  split at h
  next c t o k hThread =>
    split at h
    next => cases h
    next r s hExec =>
      split at h
      next hGuard =>
        cases h
        have hSplit : p.threads =
            p.threads.take i ++ ⟨c, t, .call o k⟩ :: p.threads.drop (i + 1) := by
          obtain ⟨hlt, hget⟩ := List.getElem?_eq_some_iff.mp hThread
          rw [← hget, List.getElem_cons_drop, List.take_append_drop]
        exact .run p _ _ c t o k r s hSplit ⟨w o, hExec⟩ (hCond _ _ _ hGuard)
      next => cases h
  next => cases h

theorem reach_of_advances {w : (o : I.Op) → sys.machine.Choice o} {i n : Nat}
    (hCond : ∀ p th e, cond p th e = true → cond' p th e)
    (h : sys.advances cond w i n p = some q) : sys.Reach start' cond' p q := by
  induction n generalizing p with
  | zero =>
    cases h
    exact .refl
  | succ n ih =>
    rw [advances] at h
    split at h
    next => cases h
    next q' hStep => exact (Reach.refl.tail (step_of_advance hCond hStep)).trans (ih h)

/-- A pool that a schedule produces is reached. -/
theorem reach_of_play {moves : List (Move sys)}
    (hStart : ∀ p c, start p c = true → start' p c)
    (hCond : ∀ p th e, cond p th e = true → cond' p th e)
    (h : sys.play start cond moves p = some q) : sys.Reach start' cond' p q := by
  induction moves generalizing p with
  | nil =>
    cases h
    exact .refl
  | cons m moves ih =>
    cases m with
    | begin c =>
      rw [play] at h
      split at h
      next hs => exact (Reach.refl.tail (.begin p c (hStart p c hs))).trans (ih h)
      next => cases h
    | run i n w =>
      rw [play] at h
      split at h
      next => cases h
      next q' hRun => exact (reach_of_advances hCond hRun).trans (ih h)

theorem reach_get_play {moves : List (Move sys)}
    (hStart : ∀ p c, start p c = true → start' p c)
    (hCond : ∀ p th e, cond p th e = true → cond' p th e)
    (h : (sys.play start cond moves p).isSome = true) :
    sys.Reach start' cond' p ((sys.play start cond moves p).get h) :=
  reach_of_play hStart hCond (Option.some_get h).symm

end System
end Moduless.Interaction
