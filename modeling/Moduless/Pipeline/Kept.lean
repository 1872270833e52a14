import Moduless.Pipeline.Runner

/-!
What the filters of a phase keep of a request's context.

A relation between contexts that is kept by the few things a filter call does with them is
kept by the whole run of a phase. What is assumed of the filters' answers is a parameter:
nothing, or that they leave something alone.
-/

namespace Moduless.Pipeline
open Go PluginHost Interaction Discipline

/-- An answer of a filter is as assumed. -/
def Answers (Good : FilterResponse → Prop) : Event Host → Prop
  | ⟨.ask (.filterReturn _), .ok resp⟩ => Good resp
  | _ => True

/-- Nothing is forbidden, and the filters answer as assumed. -/
def answering (Good : FilterResponse → Prop) : Discipline Host Unit where
  next _ _ := ()
  permits _ _ := True
  assumes _ e := Answers Good e

/-- Kept between contexts by what happens to them in the phase. -/
structure Kept (Good : FilterResponse → Prop) (phase : Phase)
    (S : RequestContext → RequestContext → Prop) : Prop where
  refl : ∀ rc, S rc rc
  trans : ∀ {rc rc₁ rc₂}, S rc rc₁ → S rc₁ rc₂ → S rc rc₂
  admissions : ∀ rc leases, S rc { rc with admissions := leases }
  protoHeaders : ∀ rc wire, S rc { rc with protoHeaders := wire }
  mutation : ∀ rc resp allow, Good resp → resp.action = .mutate →
    S rc (rc.applyMutation resp.mutation phase allow)

theorem answering_of_returns {α : Type} {Good : FilterResponse → Prop} {R : α → Prop}
    {p : HostM α} (hp : p.Returns R) : Obeys (answering Good) (fun a _ => R a) p () :=
  obeys_of_returns (fun _ _ => trivial) hp

/-- Where nothing is assumed, the postcondition holds whatever the answers are. -/
theorem returns_of_answering {α : Type} {R : α → Prop} {p : HostM α}
    (h : Obeys (answering fun _ => True) (fun a _ => R a) p ()) : p.Returns R := by
  induction p with
  | ret a => exact h
  | call o k ih =>
    refine fun r => ih r (h.2 r ?_)
    change Answers (fun _ => True) ⟨o, r⟩
    unfold Answers
    split <;> trivial

namespace Kept

variable {Good : FilterResponse → Prop} {phase : Phase}
  {S : RequestContext → RequestContext → Prop} {rc : RequestContext}

theorem built (h : Kept Good phase S) (rc : RequestContext) (f : Filter) (now : Int) :
    S rc (rc.buildFilterRequest phase f now).2 := by
  unfold RequestContext.buildFilterRequest RequestContext.wireHeaders
  cases rc.protoHeaders with
  | none => exact h.protoHeaders rc _
  | some wire => exact h.refl rc

theorem admitKey (h : Kept Good phase S) (key : Str) (i : Instance) :
    (rc.admitKey key i).Returns fun out => S rc out.2 := by
  unfold RequestContext.admitKey
  split
  next => exact h.refl rc
  next =>
    refine Program.returns_bind (Program.returns_true _) fun release _ => ?_
    cases release with
    | none => exact h.refl rc
    | some lease => exact h.admissions rc _

theorem applyDecision (h : Kept Good phase S) (f : Filter) {resp : FilterResponse}
    (hGood : Good resp) :
    (Pipeline.applyDecision phase f rc resp).Returns fun out => S rc out.2 := by
  unfold Pipeline.applyDecision
  split
  next =>
    split
    next => exact fun _ => h.refl rc
    next => exact h.refl rc
  next hMutate =>
    dsimp only
    split
    next => exact fun _ => h.mutation rc resp _ hGood hMutate
    next => exact h.mutation rc resp _ hGood hMutate
  next => exact h.refl rc

theorem callFilter (h : Kept Good phase S) (f : Filter) (i : Instance) :
    Obeys (answering Good) (fun out _ => S rc out.2) (Pipeline.callFilter phase f i rc) () := by
  refine obeys_ask trivial fun now _ => obeys_ask trivial fun _ _ =>
    obeys_ask trivial fun answer hAnswer => answering_of_returns ?_
  cases answer with
  | error e =>
    refine Program.returns_bind (Program.returns_true _) fun _ _ => returns_ask fun _ => ?_
    exact h.built rc f now
  | ok resp =>
    refine Program.returns_bind (Program.returns_true _) fun _ _ => ?_
    refine (h.applyDecision f hAnswer).mono fun out hOut => ?_
    exact h.trans (h.built rc f now) hOut

theorem runOne (h : Kept Good phase S) (f : Filter) :
    Obeys (answering Good) (fun out _ => S rc out.2) (Pipeline.runOne phase f rc) () := by
  unfold Pipeline.runOne
  split
  next => exact ⟨trivial, fun _ _ => h.refl rc⟩
  next =>
    refine obeys_bind (answering_of_returns (Program.returns_true _)) fun target _ _ => ?_
    cases target with
    | none => exact ⟨trivial, fun _ _ => h.refl rc⟩
    | some target =>
      refine obeys_bind (answering_of_returns (Program.returns_true _)) fun allowed _ _ => ?_
      split
      next => exact h.refl rc
      next =>
        refine obeys_bind (answering_of_returns (h.admitKey _ target)) fun admitted _ hSame => ?_
        split
        next => exact ⟨trivial, fun _ _ => hSame⟩
        next =>
          exact obeys_mono (h.callFilter f target) fun out _ hOut => h.trans hSame hOut

theorem runFilters (h : Kept Good phase S) (fs : List Filter) :
    Obeys (answering Good) (fun out _ => S rc out.2) (Pipeline.runFilters phase fs rc) () := by
  induction fs generalizing rc with
  | nil => exact h.refl rc
  | cons f fs ih =>
    unfold Pipeline.runFilters
    split
    next => exact ih
    next =>
      refine obeys_bind (h.runOne f) fun out _ hSame => ?_
      split
      next => exact hSame
      next => exact obeys_mono ih fun out' _ hOut => h.trans hSame hOut

theorem run (h : Kept Good phase S) (chain : Chain) :
    Obeys (answering Good) (fun out _ => S rc out.2) (Pipeline.run chain phase rc) () := by
  unfold Pipeline.run
  split
  next => exact h.refl rc
  next => exact h.runFilters _

end Kept
end Moduless.Pipeline
