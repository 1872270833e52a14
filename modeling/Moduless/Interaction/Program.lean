import Mathlib.Logic.Basic

/-!
Programs that talk to their surroundings only through atomic operations, and
the histories they can produce.

An interface lists the operations and the answers each may get. Nothing here
fixes what an answer is: a history is any sequence of operations with any
answers, so a property of all histories holds whatever the surroundings do.
-/

namespace Moduless.Interaction

structure Interface where
  Op : Type
  Ans : Op → Type

structure Event (I : Interface) where
  op : I.Op
  ans : I.Ans op

inductive Program (I : Interface) (α : Type) where
  | ret (a : α)
  | call (o : I.Op) (k : I.Ans o → Program I α)

namespace Program

variable {I : Interface} {α β γ : Type}

protected def bind : Program I α → (α → Program I β) → Program I β
  | .ret a, f => f a
  | .call o k, f => .call o fun r => (k r).bind f

instance : Monad (Program I) where
  pure := .ret
  bind := Program.bind

def perform (o : I.Op) : Program I (I.Ans o) := .call o .ret

@[simp] theorem pure_eq_ret (a : α) : (pure a : Program I α) = .ret a := rfl

@[simp] theorem ret_bind (a : α) (f : α → Program I β) : (ret a : Program I α) >>= f = f a := rfl

@[simp] theorem call_bind (o : I.Op) (k : I.Ans o → Program I α) (f : α → Program I β) :
    (call o k) >>= f = call o fun r => k r >>= f := rfl

@[simp] theorem perform_bind (o : I.Op) (f : I.Ans o → Program I β) :
    perform o >>= f = call o f := rfl

theorem bind_assoc (p : Program I α) (f : α → Program I β) (g : β → Program I γ) :
    (p >>= f) >>= g = p >>= fun a => f a >>= g := by
  induction p with
  | ret a => rfl
  | call o k ih =>
    simp only [call_bind]
    congr 1
    funext r
    exact ih r

/-- Runs a program on another interface, with a program for each operation. -/
def handle {J : Interface} (f : (o : I.Op) → Program J (I.Ans o)) : Program I α → Program J α
  | .ret a => .ret a
  | .call o k => f o >>= fun r => (k r).handle f

theorem handle_bind {J : Interface} (g : (o : I.Op) → Program J (I.Ans o)) (p : Program I α)
    (f : α → Program I β) : (p >>= f).handle g = p.handle g >>= fun a => (f a).handle g := by
  induction p with
  | ret a => rfl
  | call o k ih =>
    simp only [call_bind, handle, bind_assoc, ih]

/-- The events and the value when each operation has one answer. -/
def answered (w : (o : I.Op) → I.Ans o) : Program I α → List (Event I) × α
  | .ret a => ([], a)
  | .call o k => (⟨o, w o⟩ :: (answered w (k (w o))).1, (answered w (k (w o))).2)

theorem answered_bind (w : (o : I.Op) → I.Ans o) (p : Program I α) (f : α → Program I β) :
    (p >>= f).answered w = ((p.answered w).1 ++ ((f (p.answered w).2).answered w).1,
      ((f (p.answered w).2).answered w).2) := by
  induction p with
  | ret a => rfl
  | call o k ih => simp only [call_bind, answered, ih, List.cons_append]

/-- Every operation the program can come to perform satisfies `N`. -/
def Uses (N : I.Op → Prop) : Program I α → Prop
  | .ret _ => True
  | .call o k => N o ∧ ∀ r, Uses N (k r)

@[simp] theorem uses_ret {N : I.Op → Prop} {a : α} : Uses N (ret a : Program I α) := trivial

@[simp] theorem uses_call {N : I.Op → Prop} {o : I.Op} {k : I.Ans o → Program I α} :
    Uses N (call o k) ↔ N o ∧ ∀ r, Uses N (k r) := Iff.rfl

@[simp] theorem uses_ite {N : I.Op → Prop} {c : Prop} [Decidable c] {p q : Program I α} :
    Uses N (if c then p else q) ↔ (c → Uses N p) ∧ (¬ c → Uses N q) := by
  split <;> simp_all

theorem uses_bind {N : I.Op → Prop} {p : Program I α} {f : α → Program I β}
    (hp : Uses N p) (hf : ∀ a, Uses N (f a)) : Uses N (p >>= f) := by
  induction p with
  | ret a => exact hf a
  | call o k ih => exact ⟨hp.1, fun r => ih r (hp.2 r)⟩

theorem Uses.mono {N N' : I.Op → Prop} {p : Program I α} (hp : Uses N p)
    (h : ∀ o, N o → N' o) : Uses N' p := by
  induction p with
  | ret a => trivial
  | call o k ih => exact ⟨h o hp.1, fun r => ih r (hp.2 r)⟩

/-- Whatever the answers are, the value returned satisfies `Q`. -/
def Returns (Q : α → Prop) : Program I α → Prop
  | .ret a => Q a
  | .call _ k => ∀ r, Returns Q (k r)

@[simp] theorem returns_ret {Q : α → Prop} {a : α} : Returns Q (ret a : Program I α) ↔ Q a :=
  Iff.rfl

@[simp] theorem returns_call {Q : α → Prop} {o : I.Op} {k : I.Ans o → Program I α} :
    Returns Q (call o k) ↔ ∀ r, Returns Q (k r) := Iff.rfl

theorem returns_bind {Q : α → Prop} {R : β → Prop} {p : Program I α} {f : α → Program I β}
    (hp : Returns Q p) (hf : ∀ a, Q a → Returns R (f a)) : Returns R (p >>= f) := by
  induction p with
  | ret a => exact hf a hp
  | call o k ih => exact fun r => ih r (hp r)

theorem returns_true (p : Program I α) : Returns (fun _ => True) p := by
  induction p with
  | ret a => trivial
  | call o k ih => exact ih

theorem Returns.mono {Q Q' : α → Prop} {p : Program I α} (hp : Returns Q p)
    (h : ∀ a, Q a → Q' a) : Returns Q' p := by
  induction p with
  | ret a => exact h a hp
  | call o k ih => exact fun r => ih r (hp r)

theorem Uses.bind_returns {N : I.Op → Prop} {Q : α → Prop} {p : Program I α}
    {f : α → Program I β} (hp : Uses N p) (hQ : Returns Q p) (hf : ∀ a, Q a → Uses N (f a)) :
    Uses N (p >>= f) := by
  induction p with
  | ret a => exact hf a hQ
  | call o k ih => exact ⟨hp.1, fun r => ih r (hp.2 r) (hQ r)⟩

/-- After the events `t` the program `p` stands at `q`. -/
inductive Leads : Program I α → List (Event I) → Program I α → Prop
  | stay (p : Program I α) : Leads p [] p
  | step {o : I.Op} {k : I.Ans o → Program I α} {r : I.Ans o} {t : List (Event I)}
      {q : Program I α} : Leads (k r) t q → Leads (.call o k) (⟨o, r⟩ :: t) q

/-- The program can produce exactly the events `t` and return `a`. -/
def Finishes (p : Program I α) (t : List (Event I)) (a : α) : Prop := Leads p t (.ret a)

theorem Leads.trans {p q s : Program I α} {t u : List (Event I)}
    (h : Leads p t q) (h' : Leads q u s) : Leads p (t ++ u) s := by
  induction h with
  | stay p => exact h'
  | step _ ih => exact .step (ih h')

/-- Where a history has led, the program has the rest of it to produce. -/
theorem Leads.rest {p q s : Program I α} {t u : List (Event I)} (h : Leads p t q)
    (h' : Leads p (t ++ u) s) : Leads q u s := by
  induction h with
  | stay p => exact h'
  | step _ ih =>
    cases h' with
    | step h' => exact ih h'

theorem Leads.snoc {p : Program I α} {t : List (Event I)} {o : I.Op}
    {k : I.Ans o → Program I α} (h : Leads p t (.call o k)) (r : I.Ans o) :
    Leads p (t ++ [⟨o, r⟩]) (k r) :=
  h.trans (.step (.stay _))

theorem Leads.bind {p q : Program I α} {t : List (Event I)} (h : Leads p t q)
    (f : α → Program I β) : Leads (p >>= f) t (q >>= f) := by
  induction h with
  | stay p => exact .stay _
  | step _ ih => exact .step ih

/-- A program that only hands its value on stands where the first one does. -/
theorem Leads.of_map {p : Program I α} {f : α → β} {t : List (Event I)} {o : I.Op}
    {k : I.Ans o → Program I β} (h : Leads (p >>= fun a => ret (f a)) t (.call o k)) :
    ∃ k', Leads p t (.call o k') := by
  induction p generalizing t with
  | ret a => cases h
  | call o' k' ih =>
    cases h with
    | stay => exact ⟨k', .stay _⟩
    | step hRest =>
      obtain ⟨k'', hk''⟩ := ih _ hRest
      exact ⟨k'', .step hk''⟩

/-- Before each of its events a program stood at the operation. -/
theorem Leads.before {p q : Program I α} {t : List (Event I)} (h : Leads p t q) {e : Event I}
    (he : e ∈ t) : ∃ u k, Leads p u (.call e.op k) := by
  induction h with
  | stay p => cases he
  | @step o k r t q _ ih =>
    rcases List.mem_cons.mp he with rfl | he
    · exact ⟨[], k, .stay _⟩
    · obtain ⟨u, k', hu⟩ := ih he
      exact ⟨⟨o, r⟩ :: u, k', .step hu⟩

theorem Uses.leads {N : I.Op → Prop} {p q : Program I α} {t : List (Event I)} (hp : Uses N p)
    (h : Leads p t q) : Uses N q := by
  induction h with
  | stay p => exact hp
  | step _ ih => exact ih (hp.2 _)

theorem Uses.hist {N : I.Op → Prop} {p q : Program I α} {t : List (Event I)} (hp : Uses N p)
    (h : Leads p t q) : ∀ e ∈ t, N e.op := by
  induction h with
  | stay p => simp
  | step _ ih => exact List.forall_mem_cons.mpr ⟨hp.1, ih (hp.2 _)⟩

theorem leads_call {o : I.Op} {k : I.Ans o → Program I α} {q : Program I α}
    {t : List (Event I)} :
    Leads (.call o k) t q ↔
      (t = [] ∧ q = .call o k) ∨ ∃ r u, t = ⟨o, r⟩ :: u ∧ Leads (k r) u q := by
  constructor
  · intro h
    cases h with
    | stay => exact .inl ⟨rfl, rfl⟩
    | step h => exact .inr ⟨_, _, rfl, h⟩
  · rintro (⟨rfl, rfl⟩ | ⟨r, u, rfl, h⟩)
    · exact .stay _
    · exact .step h

theorem finishes_ret {a b : α} {t : List (Event I)} :
    Finishes (ret a : Program I α) t b ↔ t = [] ∧ a = b := by
  constructor
  · intro h
    cases h
    exact ⟨rfl, rfl⟩
  · rintro ⟨rfl, rfl⟩
    exact .stay _

theorem Returns.finishes {Q : α → Prop} {p : Program I α} {t : List (Event I)} {a : α}
    (hp : Returns Q p) (h : Finishes p t a) : Q a := by
  induction p generalizing t with
  | ret b =>
    obtain ⟨-, rfl⟩ := finishes_ret.mp h
    exact hp
  | call o k ih =>
    cases h with
    | step hRest => exact ih _ (hp _) hRest

theorem returns_of_finishes {Q : α → Prop} {p : Program I α} (h : ∀ t a, p.Finishes t a → Q a) :
    p.Returns Q := by
  induction p with
  | ret a => exact h [] a (.stay _)
  | call o k ih => exact fun r => ih r fun t a hRest => h (⟨o, r⟩ :: t) a (.step hRest)

theorem finishes_call {o : I.Op} {k : I.Ans o → Program I α} {t : List (Event I)} {b : α} :
    Finishes (call o k) t b ↔ ∃ r u, t = ⟨o, r⟩ :: u ∧ Finishes (k r) u b := by
  constructor
  · intro h
    cases h with
    | step h => exact ⟨_, _, rfl, h⟩
  · rintro ⟨r, u, rfl, h⟩
    exact .step h

theorem finishes_bind {p : Program I α} {f : α → Program I β} {t : List (Event I)} {b : β} :
    Finishes (p >>= f) t b ↔
      ∃ a u v, t = u ++ v ∧ Finishes p u a ∧ Finishes (f a) v b := by
  induction p generalizing t with
  | ret a =>
    simp only [ret_bind, finishes_ret]
    constructor
    · intro h
      exact ⟨a, [], t, rfl, ⟨rfl, rfl⟩, h⟩
    · rintro ⟨_, _, v, rfl, ⟨rfl, rfl⟩, h⟩
      exact h
  | call o k ih =>
    simp only [call_bind, finishes_call, ih]
    constructor
    · rintro ⟨r, _, rfl, a, u, v, rfl, hu, hv⟩
      exact ⟨a, ⟨o, r⟩ :: u, v, rfl, ⟨r, u, rfl, hu⟩, hv⟩
    · rintro ⟨a, _, v, rfl, ⟨r, u, rfl, hu⟩, hv⟩
      exact ⟨r, u ++ v, rfl, a, u, v, rfl, hu, hv⟩

end Program
end Moduless.Interaction
