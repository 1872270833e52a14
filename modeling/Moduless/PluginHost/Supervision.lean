import Moduless.PluginHost.Administration

/-!
The supervisor under a discipline. What a discipline says about the accounts of a watcher
is shown once for the loop that polls the instance and for the recovery that calls itself;
a discipline supplies what it says about the few operations that count.
-/

namespace Moduless.PluginHost
open Go Interaction Discipline

variable {G : Type} {D : Discipline Host G} {cfg : ManagerConfig} {key : Str} {P : G → Prop}
  {g : G}

theorem obeys_relaunch {Q : Except HostError Instance → G → Prop}
    (hPermit : D.permits g (.manager (.relaunchable key)))
    (hDisabled : ∀ found, Q (.error (.pluginDisabled key))
      (D.next g ⟨.manager (.relaunchable key), found⟩))
    (hFound : ∀ pkg, D.Obeys Q (cfg.launchOne pkg 0)
      (D.next g ⟨.manager (.relaunchable key), (some pkg, true)⟩)) :
    D.Obeys Q (cfg.relaunch key) g := by
  refine obeys_op hPermit fun found _ => ?_
  obtain ⟨pkg, enabled⟩ := found
  cases pkg with
  | none => exact hDisabled _
  | some pkg =>
    cases enabled with
    | false => exact hDisabled _
    | true => exact hFound pkg

/-- A recovery of the plugin keeps `P`. -/
structure Supervised (D : Discipline Host G) (cfg : ManagerConfig) (key : Str) (P : G → Prop) :
    Prop where
  looking {α : Type} {p : HostM α} {g : G} : p.Uses Op.Looking → P g → D.Obeys (fun _ => P) p g
  counts {g : G} : P g → D.permits g (.crash (.tooManyCrashes cfg.supervisor key)) ∧
    P (D.next g ⟨.crash (.tooManyCrashes cfg.supervisor key), false⟩)
  quarantines {g : G} : P g → D.Obeys (fun _ => P)
    (op (.crash (.quarantine key)) >>= fun _ => remove key >>= quarantineAll)
    (D.next g ⟨.crash (.tooManyCrashes cfg.supervisor key), true⟩)
  delays {g : G} : P g → D.Obeys (fun _ => P) (op (.crash (.crashCount key))) g
  relaunches {g : G} : P g → D.Obeys (fun r g' => match r with
    | .error _ => P g'
    | .ok i => D.Obeys (fun _ => P) (install key [i]) g') (cfg.relaunch key) g

namespace Supervised

theorem look {β : Type} {Q : β → G → Prop} {o : Op} {f : o.Ans → HostM β}
    (h : Supervised D cfg key P) (hg : P g) (ho : o.Looking)
    (hf : ∀ r g, P g → D.Obeys Q (f r) g) : D.Obeys Q (op o >>= f) g :=
  obeys_bind (h.looking (p := op o) ⟨ho, fun _ => trivial⟩ hg) hf

theorem recover (h : Supervised D cfg key P) (n : Nat) (hg : P g) :
    D.Obeys (fun _ => P) (cfg.recover key n) g := by
  induction n generalizing g with
  | zero => exact h.looking looking_diverge hg
  | succ n ih =>
    refine obeys_op (h.counts hg).1 fun tooMany _ => ?_
    cases tooMany with
    | true => exact h.quarantines hg
    | false =>
      refine obeys_bind (h.delays (h.counts hg).2) fun count g₁ h₁ => ?_
      refine h.look (o := .ask _) h₁ trivial fun wake g₂ h₂ => ?_
      cases wake with
      | stop | done => exact h₂
      | timer =>
        refine h.look h₂ trivial fun snap g₃ h₃ => obeys_ite.mpr ⟨fun _ => h₃, fun _ => ?_⟩
        refine obeys_bind (h.relaunches h₃) fun inst g₄ h₄ => ?_
        cases inst with
        | ok i =>
          exact obeys_bind h₄ fun _ _ h₅ => h.looking ⟨trivial, fun _ => trivial⟩ h₅
        | error e =>
          cases e with
          | pluginDisabled k => exact h₄
          | _ => exact ih h₄

theorem pollLoop {i : Instance} (h : Supervised D cfg i.key P) (n : Nat) (hg : P g) :
    D.Obeys (fun _ => P) (cfg.pollLoop i n) g := by
  induction n generalizing g with
  | zero => exact h.looking looking_diverge hg
  | succ n ih =>
    refine h.look (o := .ask _) hg trivial fun wake g₁ h₁ => ?_
    cases wake with
    | stop | done => exact h₁
    | timer =>
      refine h.look h₁ trivial fun gone g₂ h₂ => obeys_ite.mpr ⟨fun _ => ih h₂, fun _ => ?_⟩
      refine obeys_bind (h.looking (looking_isUnexpected i) h₂) fun crashed g₃ h₃ =>
        obeys_ite.mpr ⟨fun _ => h₃, fun _ => ?_⟩
      exact h.look h₃ nofun fun _ _ h₄ => h.look (o := .ask _) h₄ trivial fun n _ h₅ =>
        h.recover n h₅

theorem watchLoop {i : Instance} (h : Supervised D cfg i.key P) (hg : P g) :
    D.Obeys (fun _ => P) (cfg.watchLoop i) g :=
  h.look (o := .ask _) hg trivial fun n _ h₁ => h.pollLoop n h₁

end Supervised
end Moduless.PluginHost
