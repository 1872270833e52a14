import Moduless.Interaction.Machine

/-!
Disciplines: an account of what one program has done so far, and the
operations it may perform in that state of the account.

`Obeys` is a rule of pre- and postconditions for programs. It asks for every
operation to be permitted when it is reached, under every answer that meets
the stated assumption. What holds of the account when the program returns is
the postcondition.
-/

namespace Moduless.Interaction

structure Discipline (I : Interface) (G : Type) where
  next : G → Event I → G
  permits : G → I.Op → Prop
  assumes : G → Event I → Prop

namespace Discipline

variable {I : Interface} {G α β : Type}

/-- The account after a history that starts with the account `g`. -/
def account (D : Discipline I G) (g : G) (t : List (Event I)) : G := t.foldl D.next g

@[simp] theorem account_nil (D : Discipline I G) (g : G) : D.account g [] = g := rfl

theorem account_append (D : Discipline I G) (g : G) (t u : List (Event I)) :
    D.account g (t ++ u) = D.account (D.account g t) u :=
  List.foldl_append

theorem account_snoc (D : Discipline I G) (g : G) (t : List (Event I)) (e : Event I) :
    D.account g (t ++ [e]) = D.next (D.account g t) e := by
  simp [account, List.foldl_append]

def Obeys (D : Discipline I G) (Q : α → G → Prop) : Program I α → G → Prop
  | .ret a, g => Q a g
  | .call o k, g =>
    D.permits g o ∧ ∀ r, D.assumes g ⟨o, r⟩ → Obeys D Q (k r) (D.next g ⟨o, r⟩)

variable {D : Discipline I G} {Q : α → G → Prop} {R : β → G → Prop} {g : G}

@[simp] theorem obeys_ret {a : α} : Obeys D Q (.ret a) g ↔ Q a g := Iff.rfl

@[simp] theorem obeys_call {o : I.Op} {k : I.Ans o → Program I α} :
    Obeys D Q (.call o k) g ↔
      D.permits g o ∧ ∀ r, D.assumes g ⟨o, r⟩ → Obeys D Q (k r) (D.next g ⟨o, r⟩) := Iff.rfl

theorem obeys_bind {p : Program I α} {f : α → Program I β} (hp : Obeys D Q p g)
    (hf : ∀ a g, Q a g → Obeys D R (f a) g) : Obeys D R (p >>= f) g := by
  induction p generalizing g with
  | ret a => exact hf a g hp
  | call o k ih =>
    obtain ⟨hPermit, hRest⟩ := hp
    exact ⟨hPermit, fun r hr => ih r (hRest r hr)⟩

theorem obeys_mono {Q' : α → G → Prop} {p : Program I α} (hp : Obeys D Q p g)
    (h : ∀ a g, Q a g → Q' a g) : Obeys D Q' p g := by
  induction p generalizing g with
  | ret a => exact h a g hp
  | call o k ih =>
    obtain ⟨hPermit, hRest⟩ := hp
    exact ⟨hPermit, fun r hr => ih r (hRest r hr)⟩

/-- What a program returns in any case may be added to its postcondition. -/
theorem obeys_returns {R : α → Prop} {p : Program I α} (hp : Obeys D Q p g) (hr : p.Returns R) :
    Obeys D (fun a g' => Q a g' ∧ R a) p g := by
  induction p generalizing g with
  | ret a => exact ⟨hp, hr⟩
  | call o k ih => exact ⟨hp.1, fun r hAssumed => ih r (hp.2 r hAssumed) (hr r)⟩

theorem obeys_of_returns {R : α → Prop} {p : Program I α} (h : ∀ g o, D.permits g o)
    (hp : p.Returns R) : Obeys D (fun a _ => R a) p g := by
  induction p generalizing g with
  | ret a => exact hp
  | call o k ih => exact ⟨h g o, fun r _ => ih r (hp r)⟩

@[simp] theorem obeys_ite {c : Prop} [Decidable c] {p q : Program I α} :
    Obeys D Q (if c then p else q) g ↔ (c → Obeys D Q p g) ∧ (¬ c → Obeys D Q q g) := by
  split <;> simp_all

/-- What each operation of a program may rely on and keeps, the program keeps. -/
theorem obeys_of_uses {N : I.Op → Prop} {P : G → Prop} {p : Program I α} (hp : p.Uses N)
    (h : ∀ g o, P g → N o → D.permits g o ∧ ∀ r, P (D.next g ⟨o, r⟩)) (hg : P g) :
    Obeys D (fun _ g' => P g') p g := by
  induction p generalizing g with
  | ret a => exact hg
  | call o k ih =>
    obtain ⟨hPermit, hNext⟩ := h g o hg hp.1
    exact ⟨hPermit, fun r _ => ih r (hp.2 r) (hNext r)⟩

/-- What the program of each operation keeps, a program run with them keeps. -/
theorem obeys_handle {J : Interface} {f : (o : J.Op) → Program I (J.Ans o)} {P : G → Prop}
    (h : ∀ o g, P g → Obeys D (fun _ g' => P g') (f o) g) (p : Program J α) (hg : P g) :
    Obeys D (fun _ g' => P g') (p.handle f) g := by
  induction p generalizing g with
  | ret a => exact hg
  | call o k ih => exact obeys_bind (h o g hg) fun r _ hg' => ih r hg'

/-- Where a history has led, the program still obeys, from the account of that
history on, if the answers of the history are as assumed. -/
theorem Obeys.leads_assuming {p q : Program I α} {t : List (Event I)} (hp : Obeys D Q p g)
    (h : p.Leads t q) (hAssume : ∀ e ∈ t, ∀ g, D.assumes g e) :
    Obeys D Q q (D.account g t) := by
  induction h generalizing g with
  | stay p => exact hp
  | step _ ih =>
    exact ih (hp.2 _ (hAssume _ List.mem_cons_self g)) fun e he =>
      hAssume e (List.mem_cons_of_mem _ he)

theorem Obeys.leads {p q : Program I α} {t : List (Event I)} (hp : Obeys D Q p g)
    (h : p.Leads t q) (hAssume : ∀ g e, D.assumes g e) : Obeys D Q q (D.account g t) :=
  hp.leads_assuming h fun e _ g => hAssume g e

/-- The postcondition at the end of a history. -/
theorem Obeys.finishes {p : Program I α} {t : List (Event I)} {a : α} (hp : Obeys D Q p g)
    (h : p.Finishes t a) (hAssume : ∀ g e, D.assumes g e) : Q a (D.account g t) :=
  hp.leads h hAssume

/-- Each operation of a history was permitted by the account of what came before it. -/
theorem Obeys.permitted {p q : Program I α} {t u v : List (Event I)} {e : Event I}
    (hp : Obeys D Q p g) (h : p.Leads t q) (hAssume : ∀ g e, D.assumes g e)
    (ht : t = u ++ e :: v) : D.permits (D.account g u) e.op := by
  induction h generalizing g u with
  | stay p => simp at ht
  | step _ ih =>
    cases u with
    | nil =>
      cases ht
      exact hp.1
    | cons f u =>
      cases ht
      exact ih (u := u) (hp.2 _ (hAssume _ _)) rfl

/-- The rule for a run without interruption. `S` relates the state to the account; what
the discipline assumes of the answers may be shown from it. Each operation of the run was
permitted when it was performed. -/
theorem Obeys.runs {σ : Type} {M : Machine I σ} {S : σ → G → Prop} {p : Program I α} {s s' : σ}
    {t : List (Event I)} {a : α} (hp : Obeys D Q p g) (h : M.Runs s p t a s')
    (hStep : ∀ s g e s', S s g → D.permits g e.op → e ∈ t → M.Exec s e s' →
      D.assumes g e ∧ S s' (D.next g e))
    (hs : S s g) :
    Q a (D.account g t) ∧ S s' (D.account g t) ∧
      ∀ e ∈ t, ∃ g₀ s₀ s₁, D.permits g₀ e.op ∧ M.Exec s₀ e s₁ := by
  induction h generalizing g with
  | ret => exact ⟨hp, hs, by simp⟩
  | @call s₀ s₁ s₂ o k r t a hExec _ ih =>
    obtain ⟨hAssumed, hNext⟩ := hStep s₀ g ⟨o, r⟩ s₁ hs hp.1 List.mem_cons_self hExec
    obtain ⟨hQ, hS, hAll⟩ := ih (hp.2 r hAssumed)
      (fun s g e s' hs hPermit he => hStep s g e s' hs hPermit (List.mem_cons_of_mem _ he)) hNext
    exact ⟨hQ, hS, List.forall_mem_cons.mpr ⟨⟨g, s₀, s₁, hp.1, hExec⟩, hAll⟩⟩

end Discipline
end Moduless.Interaction
