import Mathlib.Data.List.Perm.Basic
import Moduless.Interaction.Pool

/-!
Invariants of pools whose threads obey a discipline.

`Reach.disciplined` is the rule for any invariant of the pool; a step may rely on
the operation being permitted. `Reach.accounts` is its form for invariants that
relate the shared state to the accounts of all threads. The order of the threads
does not matter to such an invariant, so one step is a change of the account at
the head of the list.
-/

namespace Moduless.Interaction

variable {I : Interface} {σ C ρ G : Type}

def Pool.accounts (D : Discipline I G) (init : C → G) (p : Pool I σ C ρ) : List G :=
  p.threads.map fun th => D.account (init th.call) th.hist

/-- What a relation between the state and the accounts has to satisfy to hold
throughout every run. -/
structure Discipline.Kept (D : Discipline I G) (M : Machine I σ) (init : C → G)
    (S : σ → List G → Prop) : Prop where
  perm : ∀ {s gs gs'}, gs.Perm gs' → S s gs → S s gs'
  fresh : ∀ {s gs} c, S s gs → S s (init c :: gs)
  step : ∀ {s g gs e s'}, S s (g :: gs) → D.permits g e.op → D.assumes g e → M.Exec s e s' →
    S s' (D.next g e :: gs)

/-- The same under a condition on each operation, which sees the state and the accounts
before it. -/
structure Discipline.KeptIf (D : Discipline I G) (M : Machine I σ) (init : C → G)
    (K : σ → List G → Event I → Prop) (S : σ → List G → Prop) : Prop where
  perm : ∀ {s gs gs'}, gs.Perm gs' → S s gs → S s gs'
  condPerm : ∀ {s gs gs' e}, gs.Perm gs' → K s gs e → K s gs' e
  fresh : ∀ {s gs} c, S s gs → S s (init c :: gs)
  step : ∀ {s g gs e s'}, S s (g :: gs) → K s (g :: gs) e → D.permits g e.op → D.assumes g e →
    M.Exec s e s' → S s' (D.next g e :: gs)

/-- The same where the condition also sees whose operation it is, and calls begin only
under a condition on the accounts. -/
structure Discipline.KeptBy (D : Discipline I G) (M : Machine I σ) (init : C → G)
    (B : List G → C → Prop) (K : σ → G → List G → Event I → Prop) (S : σ → List G → Prop) :
    Prop where
  perm : ∀ {s gs gs'}, gs.Perm gs' → S s gs → S s gs'
  fresh : ∀ {s gs} c, B gs c → S s gs → S s (init c :: gs)
  step : ∀ {s g gs e s'}, S s (g :: gs) → K s g gs e → D.permits g e.op → D.assumes g e →
    M.Exec s e s' → S s' (D.next g e :: gs)

theorem Discipline.KeptIf.keptBy {D : Discipline I G} {M : Machine I σ} {init : C → G}
    {K : σ → List G → Event I → Prop} {S : σ → List G → Prop} (h : D.KeptIf M init K S) :
    D.KeptBy M init (fun _ _ => True) (fun s g gs e => K s (g :: gs) e) S where
  perm := h.perm
  fresh := fun c _ => h.fresh c
  step := h.step

theorem Discipline.Kept.keptIf {D : Discipline I G} {M : Machine I σ} {init : C → G}
    {S : σ → List G → Prop} (h : D.Kept M init S) :
    D.KeptIf M init (fun _ _ _ => True) S where
  perm := h.perm
  condPerm := fun _ h => h
  fresh := h.fresh
  step := fun hs _ hPermit hAssumed hExec => h.step hs hPermit hAssumed hExec

namespace System

variable {sys : System I σ C ρ} {start : Pool I σ C ρ → C → Prop}
  {cond : Pool I σ C ρ → Thread I C ρ → Event I → Prop} {p q : Pool I σ C ρ}
  {D : Discipline I G} {a : C → G} {K : σ → List G → Event I → Prop} {S : σ → List G → Prop}
  {Q : C → ρ → G → Prop}

/-- The rule for invariants under a discipline. What the discipline assumes of
the answers may be shown from the invariant itself. -/
theorem Reach.disciplined {J : Pool I σ C ρ → Prop} (h : sys.Reach start cond p q)
    (hBody : ∀ c, D.Obeys (Q c) (sys.body c) (a c))
    (hAssume : ∀ p th e s, J p → th ∈ p.threads → sys.machine.Exec p.state e s → cond p th e →
      D.assumes (D.account (a th.call) th.hist) e)
    (hThreads : p.threads = []) (hInit : J p)
    (hBegin : ∀ p c, J p → start p c → J ⟨p.state, p.threads ++ [sys.fresh c]⟩)
    (hRun : ∀ s before after c t o k r s', J ⟨s, before ++ ⟨c, t, .call o k⟩ :: after⟩ →
      D.permits (D.account (a c) t) o → D.assumes (D.account (a c) t) ⟨o, r⟩ →
      sys.machine.Exec s ⟨o, r⟩ s' →
      cond ⟨s, before ++ ⟨c, t, .call o k⟩ :: after⟩ ⟨c, t, .call o k⟩ ⟨o, r⟩ →
      J ⟨s', before ++ ⟨c, t ++ [⟨o, r⟩], k r⟩ :: after ++ (sys.spawn o).map sys.fresh⟩) :
    J q ∧ ∀ th ∈ q.threads, D.Obeys (Q th.call) th.prog (D.account (a th.call) th.hist) := by
  refine h.invariant (J := fun p => J p ∧
    ∀ th ∈ p.threads, D.Obeys (Q th.call) th.prog (D.account (a th.call) th.hist))
    ⟨hInit, by simp [hThreads]⟩ ?_ ?_
  · rintro p c ⟨hp, hObeys⟩ hStart
    exact ⟨hBegin p c hp hStart, forall_begin hObeys (hBody c)⟩
  · rintro s before after c t o k r s' ⟨hp, hObeys⟩ hExec hCond
    have hThread := hObeys ⟨c, t, .call o k⟩ (by simp)
    have hAssumed := hAssume _ _ _ _ hp (by simp) hExec hCond
    refine ⟨hRun s before after c t o k r s' hp hThread.1 hAssumed hExec hCond,
      forall_run hObeys ?_ fun c' _ => hBody c'⟩
    rw [D.account_snoc]
    exact hThread.2 r hAssumed

private theorem kept_fresh {B : List G → C → Prop} {K : σ → G → List G → Event I → Prop}
    (hKept : D.KeptBy sys.machine a B K S) {s : σ} {gs : List G}
    (hs : S s gs) (cs : List C) (hBegin : ∀ c ∈ cs, ∀ gs, B gs c) :
    S s (gs ++ (cs.map sys.fresh).map fun th => D.account (a th.call) th.hist) := by
  have hInit : ((cs.map sys.fresh).map fun th => D.account (a th.call) th.hist) =
      cs.map a := by
    simp only [List.map_map]
    rfl
  rw [hInit]
  clear hInit
  induction cs generalizing gs with
  | nil => simpa using hs
  | cons c cs ih =>
    have hMove : (a c :: gs ++ cs.map a).Perm (gs ++ (c :: cs).map a) := by
      have hMiddle : (gs ++ a c :: cs.map a).Perm (a c :: (gs ++ cs.map a)) := List.perm_middle
      simpa using hMiddle.symm
    obtain ⟨hHere, hRest⟩ := List.forall_mem_cons.mp hBegin
    exact hKept.perm hMove (ih (hKept.fresh c (hHere gs) hs) hRest)

/-- The rule for invariants over accounts, under conditions on the calls and on the
operations of each thread. -/
theorem Reach.accountsBy {B : List G → C → Prop} {K : σ → G → List G → Event I → Prop}
    (h : sys.Reach start cond p q) (hKept : D.KeptBy sys.machine a B K S)
    (hBody : ∀ c, D.Obeys (Q c) (sys.body c) (a c))
    (hAssume : ∀ p th e s, S p.state (p.accounts D a) → th ∈ p.threads →
      sys.machine.Exec p.state e s → cond p th e →
      D.assumes (D.account (a th.call) th.hist) e)
    (hStart : ∀ p c, start p c → B (p.accounts D a) c)
    (hSpawn : ∀ o, ∀ c ∈ sys.spawn o, ∀ gs, B gs c)
    (hCond : ∀ s before after th e, cond ⟨s, before ++ th :: after⟩ th e →
      K s (D.account (a th.call) th.hist)
        ((before ++ after).map fun th => D.account (a th.call) th.hist) e)
    (hThreads : p.threads = []) (hs : S p.state []) :
    S q.state (q.accounts D a) ∧
      ∀ th ∈ q.threads, D.Obeys (Q th.call) th.prog (D.account (a th.call) th.hist) := by
  refine h.disciplined (J := fun p => S p.state (p.accounts D a)) hBody hAssume hThreads
    (by simpa [Pool.accounts, hThreads] using hs) ?_ ?_
  · intro p c hp hc
    have hNew := hKept.fresh c (hStart p c hc) hp
    have hMove : (a c :: p.accounts D a).Perm
        (Pool.accounts D a ⟨p.state, p.threads ++ [sys.fresh c]⟩) := by
      simp only [Pool.accounts, List.map_append, List.map_singleton]
      exact (List.perm_append_singleton _ _).symm
    exact hKept.perm hMove hNew
  · intro s before after c t o k r s' hp hPermit hAssumed hExec hStep
    have hPerm : (Pool.accounts D a ⟨s, before ++ ⟨c, t, .call o k⟩ :: after⟩).Perm
        (D.account (a c) t :: ((before ++ after).map fun th => D.account (a th.call) th.hist)) := by
      simp [Pool.accounts, List.perm_middle]
    have hNew := hKept.step (hKept.perm hPerm hp) (hCond s before after _ _ hStep) hPermit
      hAssumed hExec
    rw [← D.account_snoc] at hNew
    have hBack : S s' ((before ++ ⟨c, t ++ [⟨o, r⟩], k r⟩ :: after).map
        fun th => D.account (a th.call) th.hist) :=
      hKept.perm (by simpa using List.perm_middle.symm) hNew
    simpa [Pool.accounts] using kept_fresh hKept hBack (sys.spawn o) (hSpawn o)

/-- The rule for invariants over accounts, under a condition on the operations. -/
theorem Reach.accountsIf (h : sys.Reach start cond p q) (hKept : D.KeptIf sys.machine a K S)
    (hBody : ∀ c, D.Obeys (Q c) (sys.body c) (a c))
    (hAssume : ∀ p th e s, S p.state (p.accounts D a) → th ∈ p.threads →
      sys.machine.Exec p.state e s → cond p th e →
      D.assumes (D.account (a th.call) th.hist) e)
    (hCond : ∀ p th e, cond p th e → K p.state (p.accounts D a) e)
    (hThreads : p.threads = []) (hs : S p.state []) :
    S q.state (q.accounts D a) ∧
      ∀ th ∈ q.threads, D.Obeys (Q th.call) th.prog (D.account (a th.call) th.hist) := by
  refine h.accountsBy hKept.keptBy hBody hAssume (fun _ _ _ => trivial)
    (fun _ _ _ _ => trivial) (fun s before after th e hc => ?_) hThreads hs
  refine hKept.condPerm ?_ (hCond _ _ _ hc)
  simp [Pool.accounts, List.perm_middle]

/-- The rule for invariants over accounts. -/
theorem Reach.accounts (h : sys.Reach start cond p q) (hKept : D.Kept sys.machine a S)
    (hBody : ∀ c, D.Obeys (Q c) (sys.body c) (a c))
    (hAssume : ∀ p th e s, S p.state (p.accounts D a) → th ∈ p.threads →
      sys.machine.Exec p.state e s → cond p th e →
      D.assumes (D.account (a th.call) th.hist) e)
    (hThreads : p.threads = []) (hs : S p.state []) :
    S q.state (q.accounts D a) ∧
      ∀ th ∈ q.threads, D.Obeys (Q th.call) th.prog (D.account (a th.call) th.hist) :=
  h.accountsIf hKept.keptIf hBody hAssume (fun _ _ _ _ => trivial) hThreads hs

end System
end Moduless.Interaction
