import Moduless.PluginHost.Launches
import Moduless.System

/-!
What an `Enable` or an `Upgrade` that returns an error leaves behind.

The registry, the manager's tables and the processes are as they were. The indexes of the
version that keeps running need not be: the schema of the new package is reconciled before
its first instance is launched.
-/

namespace Moduless
open Go Pipeline PluginHost Interaction Machine DB

/-- A call that changes which version of a plugin runs, with what an upgrade finds on
disk. -/
inductive Change where
  | enable (key : Str)
  | upgrade (key : Str) (files : PackageFiles)

namespace Change

/-- The package the call launches, if there is one. -/
def package (cfg : ManagerConfig) (s : HostState) : Change → Option Package
  | .enable key => s.packages.get key
  | .upgrade key files => (loadPackage (joinPath [cfg.dir, key]) files).toOption

theorem package_upgrade (cfg : ManagerConfig) (s : HostState) (key : Str) (files : PackageFiles) :
    (Change.upgrade key files).package cfg s =
      (loadPackage (joinPath [cfg.dir, key]) files).toOption := rfl

def Fails (cfg : ManagerConfig) (s : HostState) (t : List (Event Host)) (s' : HostState) :
    Change → Prop
  | .enable key => ∃ e, host.Runs s (cfg.enable key) t (some e) s'
  | .upgrade key files => ∃ e u, t = ⟨.ask (.readPackage (joinPath [cfg.dir, key])), files⟩ :: u ∧
      host.Runs s (cfg.upgrade key) t (some e) s'

end Change

section Failures

variable {cfg : ManagerConfig} {s s' : HostState} {t u : List (Event Host)} {change : Change}

/-- Where the rest of a call cannot fail, the call fails in launching its package. -/
theorem launchAll_failed {pkg : Package} {e : HostError}
    {k : Except HostError (List Instance) → HostM (Option HostError)}
    (h : host.Runs s (cfg.launchAll pkg >>= k) u (some e) s')
    (hError : ∀ e', ∃ e'', k (.error e') = .ret (some e''))
    (hOk : ∀ instances, (k (.ok instances)).Returns (· = none)) :
    ∃ e', host.Runs s (cfg.launchAll pkg) u (.error e') s' := by
  obtain ⟨launched, v, w, s₁, rfl, hLaunch, hEnd⟩ := runs_bind.mp h
  cases launched with
  | error e' =>
    obtain ⟨e'', hReturn⟩ := hError e'
    rw [hReturn] at hEnd
    obtain ⟨rfl, -, rfl⟩ := runs_ret.mp hEnd
    rw [List.append_nil]
    exact ⟨e', hLaunch⟩
  | ok instances =>
    have hNone := (hOk instances).finishes hEnd.finishes
    cases hNone

theorem Change.Fails.cases (h : change.Fails cfg s t s') :
    ∃ first u, t = first :: u ∧ builtBy first = none ∧ startedBy first = none ∧
      ((change.package cfg s = none ∧ u = [] ∧ s' = s) ∨
        ∃ pkg e, change.package cfg s = some pkg ∧
          host.Runs s (cfg.launchAll pkg) u (.error e) s') := by
  cases change with
  | enable key =>
    obtain ⟨e, hRuns⟩ := h
    obtain ⟨found, s₁, u, rfl, hExec, hRest⟩ := runs_op.mp hRuns
    obtain ⟨rfl, rfl⟩ := exec_package hExec
    refine ⟨_, u, rfl, rfl, rfl, ?_⟩
    cases hPkg : s₁.packages.get key with
    | none =>
      rw [hPkg] at hRest
      obtain ⟨rfl, -, rfl⟩ := runs_ret.mp hRest
      exact .inl ⟨hPkg, rfl, rfl⟩
    | some pkg =>
      rw [hPkg] at hRest
      obtain ⟨e', hLaunch⟩ := launchAll_failed hRest (fun e' => ⟨e', rfl⟩) fun instances =>
        returns_op fun _ => Program.returns_bind (Program.returns_true _) fun _ _ =>
          returns_op fun _ => returns_op fun _ => rfl
      exact .inr ⟨pkg, e', hPkg, hLaunch⟩
  | upgrade key files =>
    obtain ⟨e, u, rfl, hRuns⟩ := h
    obtain ⟨files', u', hEvent, hRest⟩ := runs_ask.mp hRuns
    obtain ⟨hFirst, rfl⟩ := List.cons.inj hEvent
    cases hFirst
    refine ⟨_, u, rfl, rfl, rfl, ?_⟩
    rw [Change.package_upgrade]
    cases hLoad : loadPackage (joinPath [cfg.dir, key]) files with
    | error e' =>
      rw [hLoad] at hRest
      obtain ⟨rfl, -, rfl⟩ := runs_ret.mp hRest
      exact .inl ⟨rfl, rfl, rfl⟩
    | ok pkg =>
      rw [hLoad] at hRest
      obtain ⟨e', hLaunch⟩ := launchAll_failed hRest (fun e' => ⟨.upgradeFailed key e', rfl⟩)
        fun instances => returns_op fun _ =>
          Program.returns_bind (Program.returns_true _) fun _ _ =>
            Program.returns_bind (Program.returns_true _) fun _ _ => returns_op fun _ => rfl
      exact .inr ⟨pkg, e', rfl, hLaunch⟩

theorem Change.fails_of_launchAll {pkg : Package} {e : HostError}
    (hPkg : change.package cfg s = some pkg)
    (hLaunch : host.Runs s (cfg.launchAll pkg) u (.error e) s') :
    ∃ first, builtBy first = none ∧ change.Fails cfg s (first :: u) s' := by
  cases change with
  | enable key =>
    refine ⟨⟨.manager (.package key), some pkg⟩, rfl, e, runs_op.mpr ⟨_, s, u, rfl, ?_, ?_⟩⟩
    · exact ⟨(), congrArg some (Prod.ext hPkg rfl)⟩
    · rw [← List.append_nil u]
      exact runs_bind.mpr ⟨_, u, [], s', rfl, hLaunch, .ret _ _⟩
  | upgrade key files =>
    rw [Change.package_upgrade] at hPkg
    cases hLoad : loadPackage (joinPath [cfg.dir, key]) files with
    | error e' =>
      rw [hLoad] at hPkg
      cases hPkg
    | ok pkg' =>
      rw [hLoad] at hPkg
      obtain rfl := Option.some.inj hPkg
      refine ⟨_, rfl, .upgradeFailed key e, u, rfl, runs_ask.mpr ⟨files, u, rfl, ?_⟩⟩
      rw [hLoad, ← List.append_nil u]
      exact runs_bind.mpr ⟨_, u, [], s', rfl, hLaunch, .ret _ _⟩

end Failures

/-- The call has changed nothing, and killed what it started. -/
structure Undone (old : Package) (s : HostState) (c : Catalog) (t : List (Event Host))
    (s' : HostState) (c' : Catalog) : Prop where
  registry : s'.registry = s.registry
  packages : s'.packages = s.packages
  enabled : s'.enabled = s.enabled
  killed : ∀ i ∈ started t, s'.procs i.id = .killed
  indexes : SameOn old.tables c c'

/-- Every `Enable` and every `Upgrade` that fails leaves everything as it was, if and only if
the schema of the package to be launched has nothing to create or to drop on the tables of
the version `old` that keeps running. -/
theorem failed_change_iff (cfg : ManagerConfig) (s : HostState) (change : Change) (c : Catalog)
    (hCatalog : c.Valid) (old : Package) :
    (∀ t s' c', change.Fails cfg s t s' → Provisioned old.tables c (built t) c' →
      Undone old s c t s' c') ↔
    ∀ pkg, change.package cfg s = some pkg → pkg.LeavesAlone old.tables c := by
  constructor
  · intro hUndone pkg hPkg
    refine (pkg.avoids_iff hCatalog).mp (avoids_of_sameOn fun c' hRuns => ?_)
    have hAllows : host.Allows s (cfg.launchAll pkg) _ := allows_launchAll pkg s
    obtain ⟨u, -, s', hLaunch, hBuilt, e, rfl⟩ := hAllows
    obtain ⟨first, hFirst, hFails⟩ := change.fails_of_launchAll hPkg hLaunch
    have hAll : built (first :: u) = [ManagerConfig.hostFor pkg] :=
      (List.filterMap_cons_none hFirst).trans hBuilt
    exact (hUndone _ s' c' hFails (hAll ▸ .cons hRuns (.nil c'))).indexes
  · intro hAlone t s' c' hFails hProvisioned
    obtain ⟨first, u, rfl, hBuilt, hStarted, hCases⟩ := hFails.cases
    have hBuiltTail : built (first :: u) = built u := List.filterMap_cons_none hBuilt
    have hStartedTail : started (first :: u) = started u := List.filterMap_cons_none hStarted
    rw [hBuiltTail] at hProvisioned
    rcases hCases with ⟨-, rfl, rfl⟩ | ⟨pkg, e, hPkg, hLaunch⟩
    · cases hProvisioned
      exact ⟨rfl, rfl, rfl, by rw [hStartedTail]; exact fun _ => nofun, .refl _ _⟩
    · obtain ⟨hRegistry, hPackages, hEnabled⟩ := kept_of_local (cfg.local_launchAll pkg) hLaunch
      obtain ⟨⟨n, -, hMany⟩, hKilled⟩ := failed_launchFrom hLaunch (by simp)
      rw [hMany] at hProvisioned
      refine ⟨hRegistry, hPackages, hEnabled, ?_, ?_⟩
      · rw [hStartedTail]
        exact hKilled
      · exact (hAlone pkg hPkg).sameOn hCatalog hProvisioned (.refl _ _)

/-- A plugin that keeps notes, with the given indexes. -/
def notesManifest (indexes : List IndexDecl) : Manifest :=
  { auditManifest 1 with collections := [⟨"notes".toList, indexes⟩] }

def titleDecl : IndexDecl := ⟨["title".toList], false⟩

def titleIndex : IndexRow :=
  { indexname := "idx_audit_notes_title".toList
    tablename := "ext_audit_notes".toList
    unique := false
    exprs := ["(data->>'title')".toList] }

def onDisk (m : Manifest) : PackageFiles :=
  ⟨true, some m, some ⟨false, true⟩, some "sum".toList, false⟩

/-- The package that is loaded from such a directory. -/
def loadedPackage (m : Manifest) (hLoad : (loadPackage "plugins/audit".toList
    (onDisk m)).toOption.isSome = true) : Package :=
  (loadPackage "plugins/audit".toList (onDisk m)).toOption.get hLoad

def indexedPackage : Package := loadedPackage (notesManifest [titleDecl]) rfl

/-- The same world, in which a launch succeeds or fails. -/
def refusing (ok : Bool) (w : (o : Op) → o.Choice) : (o : Op) → o.Choice
  | .launch _ => ok
  | o => w o

/-- The run of an upgrade that launches its instances or fails to. -/
def upgradeRun (m : Manifest) (ok : Bool) (s : HostState) :
    Option (List (Event Host) × Option HostError × HostState) :=
  host.replay (refusing ok (shipping m ["audit".toList])) s (plainConfig.upgrade "audit".toList)

/-- The first version declares the index. -/
def indexedUpgrade : List (Event Host) × Option HostError × HostState :=
  (upgradeRun (notesManifest [titleDecl]) true {}).get rfl

def indexedState : HostState := indexedUpgrade.2.2

theorem titleIndex_valid : Catalog.Valid [titleIndex] := ⟨by decide, by decide⟩

/-- A version with the same index and one more collection. -/
def draftsManifest : Manifest :=
  { auditManifest 1 with
    collections := [⟨"notes".toList, [titleDecl]⟩, ⟨"drafts".toList, [titleDecl]⟩] }

def draftsIndex : IndexRow :=
  { titleIndex with
    indexname := "idx_audit_drafts_title".toList
    tablename := "ext_audit_drafts".toList }

/-- A database in which nothing fails, with one index for each table. -/
def obliging : (o : SchemaOp) → o.Choice
  | .listIndexes table _ =>
    some (([titleIndex, draftsIndex].filter (·.tablename = table)).map IndexRow.indexname)
  | .createTable _ | .addVersion _ | .createIndex _ _ _ _ | .dropIndex _ => Delivery.answered

/-- That version does not start. -/
def draftsUpgrade : List (Event Host) × Option HostError × HostState :=
  (upgradeRun draftsManifest false indexedState).get rfl

theorem failed_change_undone :
    (Change.upgrade "audit".toList (onDisk draftsManifest)).Fails plainConfig indexedState
      draftsUpgrade.1 draftsUpgrade.2.2 ∧
    Provisioned indexedPackage.tables [titleIndex] (built draftsUpgrade.1)
      [titleIndex, draftsIndex] ∧
    Undone indexedPackage indexedState [titleIndex] draftsUpgrade.1 draftsUpgrade.2.2
      [titleIndex, draftsIndex] := by
  have hRun : upgradeRun draftsManifest false indexedState = some draftsUpgrade :=
    (Option.some_get _).symm
  have hFails : (Change.upgrade "audit".toList (onDisk draftsManifest)).Fails plainConfig
      indexedState draftsUpgrade.1 draftsUpgrade.2.2 := ⟨_, _, rfl, runs_of_replay hRun⟩
  have hProvisioned : Provisioned indexedPackage.tables [titleIndex] (built draftsUpgrade.1)
      [titleIndex, draftsIndex] :=
    .cons (runsAmid_of_runs (runs_of_replay (w := obliging) rfl) titleIndex_valid) (.nil _)
  refine ⟨hFails, hProvisioned, (failed_change_iff plainConfig indexedState
    (.upgrade _ (onDisk draftsManifest)) [titleIndex] titleIndex_valid indexedPackage).mpr
    (fun pkg hPkg => ?_) _ _ _ hFails hProvisioned⟩
  obtain rfl := Option.some.inj hPkg
  have hOld : indexedPackage.tables = ["ext_audit_notes".toList] := rfl
  rw [hOld]
  refine fun _ _ => ⟨fun _ idx hIdx => ⟨titleIndex, by simp, by decide, ?_⟩,
    fun _ => ⟨fun _ x hx _ _ _ => ?_, fun _ _ => ⟨?_, fun _ => ⟨?_, trivial⟩⟩⟩⟩
  · rw [List.mem_singleton.mp hIdx]
    rfl
  · rw [List.mem_singleton.mp hx]
    exact .head _
  · exact fun h => absurd h (by decide)
  · exact fun h => absurd h (by decide)

/-- The second version does not declare the index, and does not start. -/
def strippedUpgrade : List (Event Host) × Option HostError × HostState :=
  (upgradeRun (notesManifest []) false indexedState).get rfl

/-- The upgrade fails, the first version keeps running, and its index is gone. -/
theorem index_dropped :
    host.Runs {} (plainConfig.upgrade "audit".toList) indexedUpgrade.1 none indexedState ∧
    Provisioned indexedPackage.tables [] (built indexedUpgrade.1) [titleIndex] ∧
    indexedState.packages.get "audit".toList = some indexedPackage ∧
    indexedState.registry.current.replicas "audit".toList = [auditReplica 0] ∧
    (Change.upgrade "audit".toList (onDisk (notesManifest []))).Fails plainConfig indexedState
      strippedUpgrade.1 strippedUpgrade.2.2 ∧
    strippedUpgrade.2.2.registry.current.replicas "audit".toList = [auditReplica 0] ∧
    Provisioned indexedPackage.tables [titleIndex] (built strippedUpgrade.1) [] ∧
    ¬ Undone indexedPackage indexedState [titleIndex] strippedUpgrade.1 strippedUpgrade.2.2 [] := by
  have hFirst : upgradeRun (notesManifest [titleDecl]) true {} = some indexedUpgrade :=
    (Option.some_get _).symm
  have hSecond : upgradeRun (notesManifest []) false indexedState = some strippedUpgrade :=
    (Option.some_get _).symm
  refine ⟨runs_of_replay hFirst,
    .cons (runsAmid_of_runs (runs_of_replay (w := obliging) rfl) ⟨by decide, by decide⟩) (.nil _),
    rfl, rfl, ⟨_, _, rfl, runs_of_replay hSecond⟩, rfl,
    .cons (runsAmid_of_runs (runs_of_replay (w := obliging) rfl) titleIndex_valid) (.nil _),
    fun hUndone => ?_⟩
  exact List.not_mem_nil ((hUndone.indexes titleIndex (by decide)).mp (List.mem_singleton_self _))

end Moduless
