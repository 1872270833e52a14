import Moduless.Interaction.Program

/-!
Machines: what the operations of an interface do to a state.

An operation whose outcome the state does not fix takes a choice, so a machine
can be executed: `replay` runs a program to its end under given choices, and
`Runs` is the relation it computes.
-/

namespace Moduless.Interaction

structure Machine (I : Interface) (σ : Type) where
  Choice : I.Op → Type
  exec : σ → (o : I.Op) → Choice o → Option (I.Ans o × σ)

namespace Machine

variable {I : Interface} {σ α β : Type} (M : Machine I σ)

/-- Some choice makes the operation of the event give its answer. -/
def Exec (s : σ) (e : Event I) (s' : σ) : Prop := ∃ ch, M.exec s e.op ch = some (e.ans, s')

/-- The program runs from `s` to its end without interruption. -/
inductive Runs : σ → Program I α → List (Event I) → α → σ → Prop
  | ret (s : σ) (a : α) : Runs s (.ret a) [] a s
  | call {s s₁ s' : σ} {o : I.Op} {k : I.Ans o → Program I α} {r : I.Ans o}
      {t : List (Event I)} {a : α} :
      M.Exec s ⟨o, r⟩ s₁ → Runs s₁ (k r) t a s' → Runs s (.call o k) (⟨o, r⟩ :: t) a s'

def replay (w : (o : I.Op) → M.Choice o) : σ → Program I α → Option (List (Event I) × α × σ)
  | s, .ret a => some ([], a, s)
  | s, .call o k =>
    match M.exec s o (w o) with
    | none => none
    | some (r, s₁) =>
      match replay w s₁ (k r) with
      | none => none
      | some (t, a, s') => some (⟨o, r⟩ :: t, a, s')

/-- What a program returns under given choices, and the state it leaves. -/
def result (w : (o : I.Op) → M.Choice o) (s : σ) (p : Program I α) : Option (α × σ) :=
  (M.replay w s p).map Prod.snd

variable {M}

theorem runs_of_replay {w : (o : I.Op) → M.Choice o} {s s' : σ} {p : Program I α}
    {t : List (Event I)} {a : α} (h : M.replay w s p = some (t, a, s')) : M.Runs s p t a s' := by
  induction p generalizing s t with
  | ret b =>
    cases h
    exact .ret _ _
  | call o k ih =>
    rw [replay] at h
    split at h
    next => cases h
    next r s₁ hExec =>
      split at h
      next => cases h
      next u b s₂ hRest =>
        cases h
        exact .call ⟨w o, hExec⟩ (ih r hRest)

/-- Each event of a replay is its operation under the given choice. -/
theorem exec_of_replay {w : (o : I.Op) → M.Choice o} {s s' : σ} {p : Program I α}
    {t : List (Event I)} {a : α} (h : M.replay w s p = some (t, a, s')) :
    ∀ e ∈ t, ∃ s₀ s₁, M.exec s₀ e.op (w e.op) = some (e.ans, s₁) := by
  induction p generalizing s t with
  | ret b =>
    cases h
    simp
  | call o k ih =>
    rw [replay] at h
    split at h
    next => cases h
    next r s₁ hExec =>
      split at h
      next => cases h
      next u b s₂ hRest =>
        cases h
        exact List.forall_mem_cons.mpr ⟨⟨s, s₁, hExec⟩, ih r hRest⟩

theorem result_call (w : (o : I.Op) → M.Choice o) (s : σ) (o : I.Op)
    (k : I.Ans o → Program I α) :
    M.result w s (.call o k) = (M.exec s o (w o)).bind fun out => M.result w out.2 (k out.1) := by
  simp only [result, replay]
  cases M.exec s o (w o) with
  | none => rfl
  | some out =>
    obtain ⟨r, s₁⟩ := out
    dsimp only [Option.bind_some]
    cases M.replay w s₁ (k r) <;> rfl

theorem result_bind (w : (o : I.Op) → M.Choice o) (s : σ) (p : Program I α)
    (f : α → Program I β) :
    M.result w s (p >>= f) = (M.result w s p).bind fun out => M.result w out.2 (f out.1) := by
  induction p generalizing s with
  | ret a => rfl
  | call o k ih =>
    rw [Program.call_bind, result_call, result_call, Option.bind_assoc]
    simp only [ih]

theorem Runs.finishes {s s' : σ} {p : Program I α} {t : List (Event I)} {a : α}
    (h : M.Runs s p t a s') : p.Finishes t a := by
  induction h with
  | ret => exact .stay _
  | call _ _ ih => exact .step ih

theorem runs_ret {s s' : σ} {a b : α} {t : List (Event I)} :
    M.Runs s (.ret a) t b s' ↔ t = [] ∧ a = b ∧ s = s' := by
  constructor
  · intro h
    cases h
    exact ⟨rfl, rfl, rfl⟩
  · rintro ⟨rfl, rfl, rfl⟩
    exact .ret _ _

theorem runs_call {s s' : σ} {o : I.Op} {k : I.Ans o → Program I α} {t : List (Event I)} {a : α} :
    M.Runs s (.call o k) t a s' ↔
      ∃ r s₁ u, t = ⟨o, r⟩ :: u ∧ M.Exec s ⟨o, r⟩ s₁ ∧ M.Runs s₁ (k r) u a s' := by
  constructor
  · intro h
    cases h with
    | call hExec hRest => exact ⟨_, _, _, rfl, hExec, hRest⟩
  · rintro ⟨r, s₁, u, rfl, hExec, hRest⟩
    exact .call hExec hRest

theorem runs_bind {s s' : σ} {p : Program I α} {f : α → Program I β} {t : List (Event I)} {b : β} :
    M.Runs s (p >>= f) t b s' ↔
      ∃ a u v s₁, t = u ++ v ∧ M.Runs s p u a s₁ ∧ M.Runs s₁ (f a) v b s' := by
  constructor
  · intro h
    induction p generalizing s t with
    | ret a => exact ⟨a, [], t, s, rfl, .ret s a, h⟩
    | call o k ih =>
      obtain ⟨r, s₁, w, rfl, hExec, hRest⟩ := runs_call.mp h
      obtain ⟨a, u, v, s₂, rfl, hu, hv⟩ := ih r hRest
      exact ⟨a, _, v, s₂, rfl, .call hExec hu, hv⟩
  · rintro ⟨a, u, v, s₁, rfl, hu, hv⟩
    induction hu with
    | ret => exact hv
    | call hExec _ ih => exact .call hExec (ih hv)

/-- What every permitted operation keeps, a whole run of such operations keeps. -/
theorem Runs.invariant {J : σ → Prop} {N : I.Op → Prop} {s s' : σ} {p : Program I α}
    {t : List (Event I)} {a : α} (h : M.Runs s p t a s') (hUses : p.Uses N)
    (hExec : ∀ s o r s', N o → J s → M.Exec s ⟨o, r⟩ s' → J s') (hs : J s) : J s' := by
  induction h with
  | ret => exact hs
  | call hStep _ ih => exact ih (hUses.2 _) (hExec _ _ _ _ hUses.1 hs hStep)

/-- The events happen one after the other, whichever programs cause them. -/
inductive Trace (M : Machine I σ) : σ → List (Event I) → σ → Prop
  | nil (s : σ) : Trace M s [] s
  | cons {s s₁ s' : σ} {e : Event I} {t : List (Event I)} :
      M.Exec s e s₁ → Trace M s₁ t s' → Trace M s (e :: t) s'

section Trace

variable {s s' : σ} {e : Event I} {t u : List (Event I)}

theorem trace_append : M.Trace s (t ++ u) s' ↔ ∃ s₁, M.Trace s t s₁ ∧ M.Trace s₁ u s' := by
  constructor
  · intro h
    induction t generalizing s with
    | nil => exact ⟨s, .nil s, h⟩
    | cons e t ih =>
      cases h with
      | cons hExec hRest =>
        obtain ⟨s₁, ht, hu⟩ := ih hRest
        exact ⟨s₁, .cons hExec ht, hu⟩
  · rintro ⟨s₁, ht, hu⟩
    induction ht with
    | nil => exact hu
    | cons hExec _ ih => exact .cons hExec (ih hu)

/-- What every event keeps, a whole trace keeps. -/
theorem Trace.invariant {J : σ → Prop} (h : M.Trace s t s')
    (hExec : ∀ s e s', e ∈ t → J s → M.Exec s e s' → J s') (hs : J s) : J s' := by
  induction h with
  | nil => exact hs
  | cons hStep _ ih =>
    refine ih (fun s e s' he => hExec s e s' (List.mem_cons_of_mem _ he)) ?_
    exact hExec _ _ _ List.mem_cons_self hs hStep

/-- The same for what is said about the events so far and the state after them. -/
theorem Trace.history {J : List (Event I) → σ → Prop} (h : M.Trace s t s') (hs : J [] s)
    (hExec : ∀ u s e s', e ∈ t → J u s → M.Exec s e s' → J (u ++ [e]) s') : J t s' := by
  have hAll : ∀ u, J u s → J (u ++ t) s' := by
    clear hs
    induction h with
    | nil =>
      intro u hu
      rwa [List.append_nil]
    | @cons s s₁ s' e t hStep _ ih =>
      intro u hu
      rw [List.append_cons]
      refine ih (fun u s e s' he => hExec u s e s' (List.mem_cons_of_mem _ he)) _ ?_
      exact hExec u _ _ _ List.mem_cons_self hu hStep
  exact hAll [] hs

end Trace

/-- The postcondition of a program that runs to its end without interruption. -/
def Ensures (M : Machine I σ) (s : σ) (p : Program I α) (Q : α → σ → Prop) : Prop :=
  ∀ t a s', M.Runs s p t a s' → Q a s'

section Ensures

variable {s : σ} {Q : α → σ → Prop} {R : β → σ → Prop}

@[simp] theorem ensures_ret {a : α} : M.Ensures s (.ret a) Q ↔ Q a s := by
  constructor
  · intro h
    exact h [] a s (.ret s a)
  · intro h t b s' hRuns
    obtain ⟨-, rfl, rfl⟩ := runs_ret.mp hRuns
    exact h

theorem ensures_call {o : I.Op} {k : I.Ans o → Program I α} :
    M.Ensures s (.call o k) Q ↔ ∀ r s₁, M.Exec s ⟨o, r⟩ s₁ → M.Ensures s₁ (k r) Q := by
  constructor
  · intro h r s₁ hExec t a s' hRuns
    exact h _ a s' (.call hExec hRuns)
  · intro h t a s' hRuns
    obtain ⟨r, s₁, u, -, hExec, hRest⟩ := runs_call.mp hRuns
    exact h r s₁ hExec u a s' hRest

theorem ensures_bind {p : Program I α} {f : α → Program I β} :
    M.Ensures s (p >>= f) R ↔ M.Ensures s p fun a s' => M.Ensures s' (f a) R := by
  induction p generalizing s with
  | ret a =>
    rw [ensures_ret]
    rfl
  | call o k ih =>
    rw [Program.call_bind, ensures_call, ensures_call]
    exact forall_congr' fun r => forall_congr' fun s₁ => imp_congr_right fun _ => ih r

theorem Ensures.mono {Q' : α → σ → Prop} {p : Program I α} (h : M.Ensures s p Q)
    (hQ : ∀ a s', Q a s' → Q' a s') : M.Ensures s p Q' :=
  fun t a s' hRuns => hQ a s' (h t a s' hRuns)

end Ensures

/-- Some run of the program to its end meets the condition. -/
def Allows (M : Machine I σ) (s : σ) (p : Program I α) (Q : List (Event I) → α → σ → Prop) :
    Prop := ∃ t a s', M.Runs s p t a s' ∧ Q t a s'

section Allows

variable {s : σ} {Q : List (Event I) → α → σ → Prop} {R : List (Event I) → β → σ → Prop}

theorem allows_ret {a : α} (h : Q [] a s) : M.Allows s (.ret a) Q := ⟨[], a, s, .ret s a, h⟩

theorem allows_call {o : I.Op} {k : I.Ans o → Program I α} {r : I.Ans o} {s₁ : σ}
    (hExec : M.Exec s ⟨o, r⟩ s₁) (h : M.Allows s₁ (k r) fun t => Q (⟨o, r⟩ :: t)) :
    M.Allows s (.call o k) Q := by
  obtain ⟨t, a, s', hRuns, hQ⟩ := h
  exact ⟨_, a, s', .call hExec hRuns, hQ⟩

theorem allows_bind {p : Program I α} {f : α → Program I β} (hp : M.Allows s p Q)
    (hf : ∀ t a s', Q t a s' → M.Allows s' (f a) fun u => R (t ++ u)) :
    M.Allows s (p >>= f) R := by
  obtain ⟨t, a, s₁, hFirst, hQ⟩ := hp
  obtain ⟨u, b, s', hRest, hR⟩ := hf t a s₁ hQ
  exact ⟨_, b, s', runs_bind.mpr ⟨a, t, u, s₁, rfl, hFirst, hRest⟩, hR⟩

end Allows
end Machine
end Moduless.Interaction
