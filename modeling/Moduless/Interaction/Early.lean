import Moduless.Interaction.Discipline

/-!
Programs with early returns. `ExceptT ε (Program I)` is a program that either
goes on with a value or has returned with an `ε`; these are the rules for
sequencing such programs.
-/

namespace Moduless.Interaction

variable {I : Interface} {ε α β G : Type}

instance : LawfulMonad (Program I) :=
  LawfulMonad.mk' (Program I)
    (fun p => by
      induction p with
      | ret a => rfl
      | call o k ih => exact congrArg (Program.call o) (funext ih))
    (fun _ _ => rfl)
    (fun p f g => Program.bind_assoc p f g)

/-- A postcondition for both ways out. -/
def either (E : ε → G → Prop) (Q : α → G → Prop) : Except ε α → G → Prop
  | .error e => E e
  | .ok a => Q a

namespace Program

variable {x : ExceptT ε (Program I) α} {f : α → ExceptT ε (Program I) β} {p : Program I α}

theorem run_lift_bind : ((liftM p : ExceptT ε (Program I) α) >>= f).run =
    p >>= fun a => (f a).run := by
  simp [ExceptT.run_bind]

theorem uses_early {N : I.Op → Prop} (hx : Uses N x.run) (hf : ∀ a, Uses N (f a).run) :
    Uses N (x >>= f).run := by
  refine uses_bind hx fun out => ?_
  cases out with
  | error e => trivial
  | ok a => exact hf a

theorem uses_lift {N : I.Op → Prop} (hp : Uses N p) (hf : ∀ a, Uses N (f a).run) :
    Uses N ((liftM p : ExceptT ε (Program I) α) >>= f).run := by
  rw [run_lift_bind]
  exact uses_bind hp hf

theorem uses_lifted {N : I.Op → Prop} (hp : Uses N p) :
    Uses N (liftM p : ExceptT ε (Program I) α).run := uses_bind hp fun _ => trivial

theorem finishes_early {t : List (Event I)} {b : β} :
    (x >>= f).run.Finishes t (.ok b) ↔
      ∃ a u v, t = u ++ v ∧ x.run.Finishes u (.ok a) ∧ (f a).run.Finishes v (.ok b) := by
  constructor
  · intro h
    obtain ⟨out, u, v, rfl, hu, hv⟩ := finishes_bind.mp h
    cases out with
    | error e =>
      obtain ⟨_, heq⟩ := finishes_ret.mp hv
      cases heq
    | ok a => exact ⟨a, u, v, rfl, hu, hv⟩
  · rintro ⟨a, u, v, rfl, hu, hv⟩
    exact finishes_bind.mpr ⟨.ok a, u, v, rfl, hu, hv⟩

/-- A sequence of two ends in the first one, or in the second one. -/
theorem finishes_early_cases {t : List (Event I)} {c : Except ε β}
    (h : (x >>= f).run.Finishes t c) :
    (∃ e, c = .error e ∧ x.run.Finishes t (.error e)) ∨
      ∃ a u v, t = u ++ v ∧ x.run.Finishes u (.ok a) ∧ (f a).run.Finishes v c := by
  obtain ⟨out, u, v, rfl, hu, hv⟩ := finishes_bind.mp h
  cases out with
  | error e =>
    obtain ⟨rfl, rfl⟩ := finishes_ret.mp hv
    rw [List.append_nil]
    exact .inl ⟨e, rfl, hu⟩
  | ok a => exact .inr ⟨a, u, v, rfl, hu, hv⟩

theorem leads_early {t : List (Event I)} {a : α} (h : x.run.Finishes t (.ok a))
    (f : α → ExceptT ε (Program I) β) : (x >>= f).run.Leads t (f a).run :=
  Leads.bind h _

theorem finishes_lift {t : List (Event I)} {c : Except ε β} :
    ((liftM p : ExceptT ε (Program I) α) >>= f).run.Finishes t c ↔
      ∃ a u v, t = u ++ v ∧ p.Finishes u a ∧ (f a).run.Finishes v c := by
  rw [run_lift_bind, finishes_bind]

theorem finishes_throw {t : List (Event I)} {e : ε} {a : α} :
    ¬ (throw e : ExceptT ε (Program I) α).run.Finishes t (.ok a) := by
  intro h
  obtain ⟨_, heq⟩ := finishes_ret.mp h
  cases heq

theorem finishes_pure {t : List (Event I)} {a b : α} :
    (pure a : ExceptT ε (Program I) α).run.Finishes t (.ok b) ↔ t = [] ∧ a = b := by
  constructor
  · intro h
    obtain ⟨ht, heq⟩ := finishes_ret.mp h
    cases heq
    exact ⟨ht, rfl⟩
  · rintro ⟨rfl, rfl⟩
    exact .stay _

/-- Whatever the answers are, a value the program goes on with satisfies `Q`. -/
def ReturnsOk (Q : α → Prop) (x : ExceptT ε (Program I) α) : Prop :=
  x.run.Returns fun
    | .error _ => True
    | .ok a => Q a

theorem returnsOk_pure {Q : α → Prop} {a : α} (h : Q a) :
    ReturnsOk Q (pure a : ExceptT ε (Program I) α) := h

theorem returnsOk_throw {Q : α → Prop} {e : ε} :
    ReturnsOk Q (throw e : ExceptT ε (Program I) α) := trivial

theorem returnsOk_true (x : ExceptT ε (Program I) α) : ReturnsOk (fun _ => True) x := by
  refine (returns_true x.run).mono fun out _ => ?_
  cases out <;> trivial

theorem returnsOk_early {Q : α → Prop} {R : β → Prop} (hx : ReturnsOk Q x)
    (hf : ∀ a, Q a → ReturnsOk R (f a)) : ReturnsOk R (x >>= f) := by
  refine returns_bind hx fun out hout => ?_
  cases out with
  | error e => trivial
  | ok a => exact hf a hout

theorem returnsOk_lift {Q : α → Prop} {R : β → Prop} (hp : Returns Q p)
    (hf : ∀ a, Q a → ReturnsOk R (f a)) :
    ReturnsOk R ((liftM p : ExceptT ε (Program I) α) >>= f) := by
  unfold ReturnsOk
  rw [run_lift_bind]
  exact returns_bind hp hf

theorem Uses.early_returns {N : I.Op → Prop} {Q : α → Prop} (hx : Uses N x.run)
    (hQ : ReturnsOk Q x) (hf : ∀ a, Q a → Uses N (f a).run) : Uses N (x >>= f).run := by
  refine Uses.bind_returns hx hQ fun out hout => ?_
  cases out with
  | error e => trivial
  | ok a => exact hf a hout

end Program

namespace Discipline

variable {D : Discipline I G} {E : ε → G → Prop} {Q : α → G → Prop} {R : β → G → Prop} {g : G}
  {x : ExceptT ε (Program I) α} {f : α → ExceptT ε (Program I) β} {p : Program I α}

theorem obeys_early (hx : Obeys D (either E Q) x.run g)
    (hf : ∀ a g, Q a g → Obeys D (either E R) (f a).run g) :
    Obeys D (either E R) (x >>= f).run g := by
  refine obeys_bind hx fun out g hout => ?_
  cases out with
  | error e => exact hout
  | ok a => exact hf a g hout

theorem obeys_lift {S : Except ε β → G → Prop} (hp : Obeys D Q p g)
    (hf : ∀ a g, Q a g → Obeys D S (f a).run g) :
    Obeys D S ((liftM p : ExceptT ε (Program I) α) >>= f).run g := by
  rw [Program.run_lift_bind]
  exact obeys_bind hp hf

theorem obeys_lifted (hp : Obeys D Q p g) :
    Obeys D (either E Q) (liftM p : ExceptT ε (Program I) α).run g :=
  obeys_bind hp fun _ _ ha => ha

end Discipline
end Moduless.Interaction
