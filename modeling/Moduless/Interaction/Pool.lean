import Moduless.Interaction.Discipline

/-!
Pools of threads that run programs over one shared state.

A step of the pool is one atomic operation of one thread, or the start of a
new call. The schedule is arbitrary, so what holds in every reachable pool
holds under every interleaving. Each thread keeps its own history; the account
a discipline keeps of it is a function of that history. A session is a run without
interleaving.
-/

namespace Moduless.Interaction

/-- Which program each call runs, and which calls an operation starts. -/
structure System (I : Interface) (σ C ρ : Type) where
  machine : Machine I σ
  body : C → Program I ρ
  spawn : I.Op → List C

structure Thread (I : Interface) (C ρ : Type) where
  call : C
  hist : List (Event I)
  prog : Program I ρ

structure Pool (I : Interface) (σ C ρ : Type) where
  state : σ
  threads : List (Thread I C ρ)

variable {I : Interface} {σ C ρ G : Type}

def Thread.Done (th : Thread I C ρ) : Prop := ∃ a, th.prog = .ret a

def Thread.isDone (th : Thread I C ρ) : Bool :=
  match th.prog with
  | .ret _ => true
  | .call _ _ => false

theorem Thread.isDone_iff {th : Thread I C ρ} : th.isDone = true ↔ th.Done := by
  obtain ⟨c, t, p⟩ := th
  cases p <;> simp [isDone, Done]

namespace System

variable (sys : System I σ C ρ)

def fresh (c : C) : Thread I C ρ := ⟨c, [], sys.body c⟩

/-- One step of a pool. `start` says which calls may begin, `cond` which
operations are considered; both see the pool before the step. -/
inductive Step (start : Pool I σ C ρ → C → Prop)
    (cond : Pool I σ C ρ → Thread I C ρ → Event I → Prop) :
    Pool I σ C ρ → Pool I σ C ρ → Prop
  | begin (p : Pool I σ C ρ) (c : C) (h : start p c) :
      Step start cond p ⟨p.state, p.threads ++ [sys.fresh c]⟩
  | run (p : Pool I σ C ρ) (before after : List (Thread I C ρ)) (c : C) (t : List (Event I))
      (o : I.Op) (k : I.Ans o → Program I ρ) (r : I.Ans o) (s : σ)
      (hThread : p.threads = before ++ ⟨c, t, .call o k⟩ :: after)
      (hExec : sys.machine.Exec p.state ⟨o, r⟩ s)
      (hCond : cond p ⟨c, t, .call o k⟩ ⟨o, r⟩) :
      Step start cond p
        ⟨s, before ++ ⟨c, t ++ [⟨o, r⟩], k r⟩ :: after ++ (sys.spawn o).map sys.fresh⟩

inductive Reach (start : Pool I σ C ρ → C → Prop)
    (cond : Pool I σ C ρ → Thread I C ρ → Event I → Prop) (p : Pool I σ C ρ) :
    Pool I σ C ρ → Prop
  | refl : Reach start cond p p
  | tail {q q' : Pool I σ C ρ} : Reach start cond p q → sys.Step start cond q q' →
      Reach start cond p q'

variable {sys} {start : Pool I σ C ρ → C → Prop}
  {cond : Pool I σ C ρ → Thread I C ρ → Event I → Prop} {p q : Pool I σ C ρ}

theorem Reach.trans {r : Pool I σ C ρ} (h : sys.Reach start cond p q)
    (h' : sys.Reach start cond q r) : sys.Reach start cond p r := by
  induction h' with
  | refl => exact h
  | tail _ hs ih => exact .tail ih hs

/-- Induction over a run: an invariant that every start and every operation
keeps holds in every pool reached. -/
theorem Reach.invariant {J : Pool I σ C ρ → Prop} (h : sys.Reach start cond p q)
    (hInit : J p)
    (hBegin : ∀ p c, J p → start p c → J ⟨p.state, p.threads ++ [sys.fresh c]⟩)
    (hRun : ∀ s before after c t o k r s', J ⟨s, before ++ ⟨c, t, .call o k⟩ :: after⟩ →
      sys.machine.Exec s ⟨o, r⟩ s' →
      cond ⟨s, before ++ ⟨c, t, .call o k⟩ :: after⟩ ⟨c, t, .call o k⟩ ⟨o, r⟩ →
      J ⟨s', before ++ ⟨c, t ++ [⟨o, r⟩], k r⟩ :: after ++ (sys.spawn o).map sys.fresh⟩) :
    J q := by
  induction h with
  | refl => exact hInit
  | tail _ hs ih =>
    cases hs with
    | begin c hc => exact hBegin _ c ih hc
    | run before after c t o k r s hThread hExec hCond =>
      rename_i q _
      obtain ⟨s₀, ths⟩ := q
      subst hThread
      exact hRun _ before after c t o k r s ih hExec hCond

section Steps

variable {T : Thread I C ρ → Prop}

theorem forall_begin {c : C} (hOld : ∀ th ∈ p.threads, T th) (hNew : T (sys.fresh c)) :
    ∀ th ∈ p.threads ++ [sys.fresh c], T th := by
  intro th hth
  rcases List.mem_append.mp hth with hth | hth
  · exact hOld th hth
  · exact List.mem_singleton.mp hth ▸ hNew

theorem forall_run {before after : List (Thread I C ρ)} {c : C} {t : List (Event I)} {o : I.Op}
    {k : I.Ans o → Program I ρ} {r : I.Ans o}
    (hOld : ∀ th ∈ before ++ ⟨c, t, .call o k⟩ :: after, T th)
    (hSelf : T ⟨c, t ++ [⟨o, r⟩], k r⟩) (hSpawned : ∀ c' ∈ sys.spawn o, T (sys.fresh c')) :
    ∀ th ∈ before ++ ⟨c, t ++ [⟨o, r⟩], k r⟩ :: after ++ (sys.spawn o).map sys.fresh, T th := by
  intro th hth
  simp only [List.mem_append, List.mem_cons, List.mem_map] at hth
  rcases hth with (hth | rfl | hth) | ⟨c', hc', rfl⟩
  · exact hOld th (by simp [hth])
  · exact hSelf
  · exact hOld th (by simp [hth])
  · exact hSpawned c' hc'

end Steps

/-- A property that each thread has when it starts, and keeps under its own
operations, is had by every thread of every pool reached. -/
theorem Reach.threads {T : Thread I C ρ → Prop} (h : sys.Reach start cond p q)
    (hInit : ∀ th ∈ p.threads, T th) (hFresh : ∀ c, T (sys.fresh c))
    (hRun : ∀ p c t o k r s, T ⟨c, t, .call o k⟩ → sys.machine.Exec p.state ⟨o, r⟩ s →
      cond p ⟨c, t, .call o k⟩ ⟨o, r⟩ → T ⟨c, t ++ [⟨o, r⟩], k r⟩) :
    ∀ th ∈ q.threads, T th := by
  refine h.invariant (J := fun p => ∀ th ∈ p.threads, T th) hInit ?_ ?_
  · exact fun p c hp _ => forall_begin hp (hFresh c)
  · intro s before after c t o k r s' hp hExec hCond
    exact forall_run hp (hRun _ c t o k r s' (hp _ (by simp)) hExec hCond) fun c' _ => hFresh c'

/-- The same for the threads that start after `p`, where the property may speak of the state
and has to be kept under the operations of the others as well. All operations may rely on
what is known of the pools reached from `p`. -/
theorem Reach.laterIn {T : σ → Thread I C ρ → Prop} (h : sys.Reach start cond p q)
    (hFresh : ∀ s c, T s (sys.fresh c))
    (hKeep : ∀ p' th th' e s, sys.Reach start cond p p' → sys.machine.Exec p'.state e s →
      cond p' th' e → T p'.state th → T s th)
    (hRun : ∀ p' c t o k r s, sys.Reach start cond p p' → T p'.state ⟨c, t, .call o k⟩ →
      sys.machine.Exec p'.state ⟨o, r⟩ s → cond p' ⟨c, t, .call o k⟩ ⟨o, r⟩ →
      T s ⟨c, t ++ [⟨o, r⟩], k r⟩) :
    p.threads.length ≤ q.threads.length ∧
      ∀ th ∈ q.threads.drop p.threads.length, T q.state th := by
  induction h with
  | refl => simp
  | tail hReach hs ih =>
    obtain ⟨hLength, ih⟩ := ih
    cases hs with
    | begin c hc =>
      refine ⟨by simp; omega, fun th hth => ?_⟩
      rw [List.drop_append_of_le_length hLength, List.mem_append, List.mem_singleton] at hth
      rcases hth with hth | rfl
      · exact ih th hth
      · exact hFresh _ c
    | run before after c t o k r s hThread hExec hCond =>
      have hOther := fun th => hKeep _ th _ _ _ hReach hExec hCond
      rw [hThread] at hLength ih
      simp only [List.length_append, List.length_cons] at hLength
      refine ⟨by simp; omega, fun th hth => ?_⟩
      rw [List.drop_append_of_le_length (by simp; omega), List.mem_append] at hth
      rcases hth with hth | hth
      · rcases Nat.lt_or_ge before.length p.threads.length with hlt | hge
        · rw [List.drop_append, List.drop_of_length_le (Nat.le_of_lt hlt),
            List.nil_append] at hth ih
          obtain ⟨n, hn⟩ := Nat.exists_eq_add_of_lt hlt
          rw [show p.threads.length - before.length = n + 1 by omega,
            List.drop_succ_cons] at hth ih
          exact hOther th (ih th hth)
        · rw [List.drop_append_of_le_length hge, List.mem_append, List.mem_cons] at hth
          rw [List.drop_append_of_le_length hge] at ih
          rcases hth with hth | rfl | hth
          · exact hOther th (ih th (by simp [hth]))
          · exact hRun _ c t o k r s hReach (ih _ (by simp)) hExec hCond
          · exact hOther th (ih th (by simp [hth]))
      · obtain ⟨c', -, rfl⟩ := List.mem_map.mp hth
        exact hFresh _ c'

theorem Reach.later {T : Thread I C ρ → Prop} (h : sys.Reach start cond p q)
    (hFresh : ∀ c, T (sys.fresh c))
    (hRun : ∀ p' c t o k r s, sys.Reach start cond p p' → T ⟨c, t, .call o k⟩ →
      sys.machine.Exec p'.state ⟨o, r⟩ s → T ⟨c, t ++ [⟨o, r⟩], k r⟩) :
    p.threads.length ≤ q.threads.length ∧ ∀ th ∈ q.threads.drop p.threads.length, T th :=
  h.laterIn (T := fun _ => T) (fun _ => hFresh) (fun _ _ _ _ _ _ _ _ hth => hth)
    fun p' c t o k r s hReach hth hExec _ => hRun p' c t o k r s hReach hth hExec

/-- Each thread's history is one its program can produce. -/
theorem Reach.leads (h : sys.Reach start cond p q)
    (hInit : ∀ th ∈ p.threads, (sys.body th.call).Leads th.hist th.prog) :
    ∀ th ∈ q.threads, (sys.body th.call).Leads th.hist th.prog :=
  h.threads hInit (fun _ => .stay _) fun _ _ _ _ _ r _ hth _ _ => hth.snoc r

/-- Calls one after the other, each running to its end before the next one begins. `cond`
says which are considered; it sees the state before a call and what the call does. The log
holds what all of them did. -/
inductive Session (sys : System I σ C ρ) (cond : σ → C → List (Event I) → Prop) (init : σ) :
    List (Event I) → σ → Prop
  | start : Session sys cond init [] init
  | call {log t : List (Event I)} {s s' : σ} {c : C} {a : ρ} (h : Session sys cond init log s)
      (hRun : sys.machine.Runs s (sys.body c) t a s') (hCond : cond s c t) :
      Session sys cond init (log ++ t) s'

end System
end Moduless.Interaction
