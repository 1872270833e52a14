import Moduless.DB.SchemaInterference
import Moduless.PluginHost.Manager

/-!
The schema of a package is reconciled whenever its services are built.

Services are built for each launch, whether the launch then succeeds or not, so what a
history has done to the indexes is determined by the launches in it.
-/

namespace Moduless.PluginHost
open Go Pipeline Interaction Machine DB

/-- `ProvisionSchema`, for the collections of a package. -/
def Package.provisionSchema (pkg : Package) : SchemaM Unit :=
  if pkg.manifest.collections = [] then pure ()
  else reconcileSchema pkg.key pkg.manifest.collections

/-- The tables of the collections a package declares. -/
def Package.tables (pkg : Package) : List Str :=
  pkg.manifest.collections.filterMap fun col =>
    match tableName pkg.key col.name with
    | .ok table => some (relation table)
    | .error _ => none

def builtBy : Event Host → Option HostServices
  | ⟨.launch spec, _⟩ => some spec.hostImpl
  | _ => none

/-- The services built in a history, in order. -/
def built (t : List (Event Host)) : List HostServices := t.filterMap builtBy

@[simp] theorem built_append (t u : List (Event Host)) : built (t ++ u) = built t ++ built u :=
  List.filterMap_append

/-- What building services may leave of the indexes, while other work leaves those on the
tables alone. An error is only logged. -/
inductive Provisioned (tables : List Str) : Catalog → List HostServices → Catalog → Prop
  | nil (c : Catalog) : Provisioned tables c [] c
  | cons {c c₁ c' : Catalog} {services : HostServices} {rest : List HostServices} :
      RunsAmid tables c services.pkg.provisionSchema.run c₁ → Provisioned tables c₁ rest c' →
      Provisioned tables c (services :: rest) c'

/-- The schema of the package has nothing to create or to drop on the tables. -/
def Package.LeavesAlone (pkg : Package) (tables : List Str) (c : Catalog) : Prop :=
  LeavesIndexes tables c pkg.key pkg.manifest.collections

theorem Package.avoids_iff {c : Catalog} {tables : List Str} (hc : c.Valid) (pkg : Package) :
    Avoids tables c pkg.provisionSchema.run ↔ pkg.LeavesAlone tables c := by
  unfold Package.provisionSchema Package.LeavesAlone
  split
  next hNone => rw [hNone]; exact Iff.rfl
  next => exact avoids_reconcileSchema hc

/-- Building the services of a package, once or more often, leaves the indexes of the tables
alone if there is nothing to create or to drop on them. -/
theorem Package.LeavesAlone.sameOn {c c₁ c' : Catalog} {tables : List Str} {pkg : Package}
    (h : pkg.LeavesAlone tables c) (hc : c.Valid) {n : Nat}
    (hMany : Provisioned tables c₁ (.replicate n ⟨pkg⟩) c') (hSame : SameOn tables c c₁) :
    SameOn tables c c' := by
  induction n generalizing c₁ with
  | zero =>
    cases hMany
    exact hSame
  | succ n ih =>
    cases hMany with
    | cons hFirst hRest => exact ih hRest (((pkg.avoids_iff hc).mpr h).sameOn hFirst hSame)

end Moduless.PluginHost
