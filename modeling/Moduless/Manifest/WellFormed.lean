import Moduless.Manifest.Declaration
import Moduless.Pathmatch.Meaning

/-!
What a manifest has to be for `Validate` to accept it, without the order in which the checks
are made and without the parsers they use.
-/

namespace Moduless
open Go Pathmatch

/-- Five fields, each a list of stars, numbers and ranges within its bounds. -/
def CronLegal (expr : Str) : Prop :=
  ∃ minute hour dom month dow, fields expr = [minute, hour, dom, month, dow] ∧
    Cron.FieldLegal Cron.Unsigned 0 59 minute ∧ Cron.FieldLegal Cron.Unsigned 0 23 hour ∧
    Cron.FieldLegal Cron.Unsigned 1 31 dom ∧ Cron.FieldLegal Cron.Unsigned 1 12 month ∧
    Cron.FieldLegal Cron.Unsigned 0 6 dow

def PatternLegal (p : Str) : Prop := p = doubleStar ∨ ['/'] <+: p ∧ Legal (split p '/')

namespace Manifest

@[mk_iff]
structure FilterLegal (m : Manifest) (f : FilterDecl) : Prop where
  phase : f.phase ∈ knownPhases
  some_path : f.match_.paths ≠ []
  paths : ∀ p ∈ f.match_.paths, PatternLegal p
  authenticate : f.phase = phaseAuthenticate → permFilterAuthenticate ∈ m.permissions
  timeout : 0 ≤ f.timeoutMS
  maxBody : 0 ≤ f.maxBodyBytes
  capped : 0 < f.maxBodyBytes → f.needsRequestBody = true

@[mk_iff]
structure JobLegal (j : JobDecl) : Prop where
  name : j.name ≠ []
  cron : CronLegal j.cron

@[mk_iff]
structure ConfigLegal (c : ConfigDecl) : Prop where
  key : c.key ≠ []
  type_ : c.type_ = [] ∨ c.type_ ∈ configTypes

/-- Filters may go without a name; jobs and settings may not. -/
@[mk_iff]
structure WellFormed (m : Manifest) : Prop where
  key : m.key ≠ [] ∧ ∀ c ∈ m.key, illegalInKey c = false
  version : m.version ≠ []
  permissions : ∀ p ∈ m.permissions, p ∈ knownPermissions
  filters : ∀ f ∈ m.filters, m.FilterLegal f
  filterNames : ((m.filters.map FilterDecl.name).filter (· ≠ [])).Nodup
  jobs : ∀ j ∈ m.jobs, JobLegal j
  jobNames : (m.jobs.map JobDecl.name).Nodup
  cron : m.jobs ≠ [] → permCron ∈ m.permissions
  egress : m.egressAllow ≠ [] → permHTTPEgress ∈ m.permissions
  replicas : 0 ≤ m.replicas
  sizes : m.filters.length ≤ maxFilters ∧ m.collections.length ≤ maxCollections ∧
    m.jobs.length ≤ maxJobs ∧ m.config.length ≤ maxConfigKeys
  menus : (∀ w ∈ Forest.walks m.menus, w.length < maxMenuDepth) ∧
    (Forest.walks m.menus).length ≤ maxMenuNodes
  config : ∀ c ∈ m.config, ConfigLegal c
  configKeys : (m.config.map ConfigDecl.key).Nodup

section Checks

theorem guard_ok {ε α : Type} {c : Prop} [Decidable c] {e : ε} {p : Except ε α} {a : α} :
    (if c then .error e else p) = .ok a ↔ ¬ c ∧ p = .ok a := by
  split <;> simp_all

/-- The names are new to those seen before, and to each other. -/
def Unseen (seen names : List Str) : Prop := names.Nodup ∧ ∀ n ∈ names, n ∉ seen

theorem unseen_cons {seen names : List Str} {n : Str} :
    Unseen seen (n :: names) ↔ n ∉ seen ∧ Unseen (n :: seen) names := by
  simp only [Unseen, List.nodup_cons, List.mem_cons, not_or]
  constructor
  · rintro ⟨⟨hNew, hNodup⟩, hSeen⟩
    exact ⟨hSeen n (.inl rfl), hNodup, fun i hi => ⟨fun h => hNew (h ▸ hi), hSeen i (.inr hi)⟩⟩
  · rintro ⟨hNew, hNodup, hSeen⟩
    refine ⟨⟨fun hn => (hSeen n hn).1 rfl, hNodup⟩, ?_⟩
    rintro i (rfl | hi)
    · exact hNew
    · exact (hSeen i hi).2

theorem compileSetFrom_ok {s : PatternSet} {ps : List Str} :
    (∃ out, compileSetFrom s ps = .ok out) ↔ ∀ p ∈ ps, PatternLegal p := by
  induction ps generalizing s with
  | nil => simp [compileSetFrom]
  | cons p ps ih =>
    rw [List.forall_mem_cons, PatternLegal, ← compile_accepts, compileSetFrom]
    cases compile p with
    | error e => simp
    | ok c => simp [ih]

theorem readSchedule_ok {expr : Str} :
    (∃ s, Cron.readSchedule expr = .ok s) ↔ CronLegal expr := by
  have hRun : ∀ s, Cron.readSchedule expr = .ok s ↔
      (Cron.parseSchedule expr).run = some (.ok s) := fun s => by
    rw [Cron.readSchedule, ← Option.some_inj, Option.some_get]
  simp only [hRun]
  constructor
  · rintro ⟨s, hs⟩
    -- any other number of fields is an error
    match hFields : fields expr with
    | [minute, hour, dom, month, dow] =>
      exact ⟨minute, hour, dom, month, dow, hFields,
        (Cron.parseSchedule_accepts hFields).mp ⟨s, hs⟩⟩
    | [] | [_] | [_, _] | [_, _, _] | [_, _, _, _] | _ :: _ :: _ :: _ :: _ :: _ :: _ =>
      rw [Cron.parseSchedule, hFields] at hs
      cases hs
  · rintro ⟨minute, hour, dom, month, dow, hFields, hLegal⟩
    exact (Cron.parseSchedule_accepts hFields).mpr hLegal

theorem validateFilter_ok {m : Manifest} {seen : List Str} {f : FilterDecl} {index : Nat} :
    m.validateFilter seen f index = .ok () ↔
      m.FilterLegal f ∧ (f.name ≠ [] → f.name ∉ seen) := by
  have hPaths := @compileSetFrom_ok ⟨[], false⟩ f.match_.paths
  simp only [validateFilter, guard_ok, compileSet]
  -- the patterns are compiled between the checks before and after them
  cases hSet : compileSetFrom ⟨[], false⟩ f.match_.paths with
  | error e =>
    rw [hSet] at hPaths
    simp only [reduceCtorEq, exists_false, false_iff] at hPaths
    simp only [reduceCtorEq, and_false, false_iff, not_and]
    exact fun h => absurd h.paths hPaths
  | ok set =>
    have hLegal := hPaths.mp ⟨set, hSet⟩
    simp only [filterLegal_iff, guard_ok, hasPermission, List.contains_eq_mem, Bool.not_eq_true',
      decide_eq_false_iff_not, not_not, Bool.and_eq_true, decide_eq_true_eq, not_and, not_lt,
      gt_iff_lt, Bool.not_eq_false]
    tauto

theorem validateFilters_ok {m : Manifest} {seen : List Str} {index : Nat} {fs : List FilterDecl} :
    m.validateFilters seen index fs = .ok () ↔ (∀ f ∈ fs, m.FilterLegal f) ∧
      Unseen seen ((fs.map FilterDecl.name).filter (· ≠ [])) := by
  induction fs generalizing seen index with
  | nil => simp [validateFilters, Unseen]
  | cons f fs ih =>
    have hHead := @validateFilter_ok m seen f index
    rw [validateFilters, List.forall_mem_cons, List.map_cons, List.filter_cons]
    cases hf : m.validateFilter seen f index with
    | error e =>
      rw [hf] at hHead
      by_cases hName : f.name = []
      · simp_all
      · simp_all [unseen_cons]
    | ok _ =>
      have hHead := hHead.mp hf
      -- a filter without a name leaves the names seen as they are
      by_cases hName : f.name = []
      · simp [hName, ih, hHead.1]
      · simp [hName, ih, hHead.1, unseen_cons, hHead.2 hName]

theorem validateJobs_ok {seen : List Str} {js : List JobDecl} :
    validateJobs seen js = .ok () ↔
      (∀ j ∈ js, JobLegal j) ∧ Unseen seen (js.map JobDecl.name) := by
  induction js generalizing seen with
  | nil => simp [validateJobs, Unseen]
  | cons j js ih =>
    have hCron := @readSchedule_ok j.cron
    rw [validateJobs, guard_ok, guard_ok, guard_ok, List.forall_mem_cons, List.map_cons,
      unseen_cons]
    cases hRead : Cron.readSchedule j.cron with
    | error e =>
      rw [hRead] at hCron
      simp only [reduceCtorEq, exists_false, false_iff] at hCron
      simp only [reduceCtorEq, and_false, false_iff]
      exact fun h => hCron h.1.1.cron
    | ok s =>
      have hLegal := hCron.mp ⟨s, hRead⟩
      have hSome : j.cron ≠ [] := by
        rintro hNone
        obtain ⟨_, _, _, _, _, hFields, -⟩ := hLegal
        rw [hNone] at hFields
        cases hFields
      simp only [ih, hSome, jobLegal_iff, hLegal, List.contains_eq_mem, decide_eq_true_eq,
        not_false_eq_true, and_true, true_and]
      tauto

theorem validateConfig_ok {seen : List Str} {cs : List ConfigDecl} :
    validateConfig seen cs = .ok () ↔
      (∀ c ∈ cs, ConfigLegal c) ∧ Unseen seen (cs.map ConfigDecl.key) := by
  induction cs generalizing seen with
  | nil => simp [validateConfig, Unseen]
  | cons c cs ih =>
    rw [validateConfig, guard_ok, guard_ok, guard_ok, ih, List.forall_mem_cons, List.map_cons,
      unseen_cons]
    simp only [configLegal_iff, List.contains_eq_mem, Bool.and_eq_true, Bool.not_eq_true',
      decide_eq_true_eq, decide_eq_false_iff_not, not_and, not_not]
    tauto

end Checks

theorem validateLimits_ok {m : Manifest} : m.validateLimits = .ok () ↔
    (m.jobs ≠ [] → permCron ∈ m.permissions) ∧
    (m.egressAllow ≠ [] → permHTTPEgress ∈ m.permissions) ∧ 0 ≤ m.replicas ∧
    m.filters.length ≤ maxFilters ∧ m.collections.length ≤ maxCollections ∧
    m.jobs.length ≤ maxJobs ∧ m.config.length ≤ maxConfigKeys ∧
    checkMenuSize m.menus = .ok () ∧ validateConfig [] m.config = .ok () := by
  simp only [validateLimits, guard_ok]
  cases checkMenuSize m.menus with
  | error e => simp
  | ok _ => simp [hasPermission]

/-- `Validate` accepts exactly the manifests that are well formed. -/
theorem validate_ok_iff (m : Manifest) : m.validate = .ok () ↔ m.WellFormed := by
  have hAll : m.validate = .ok () ↔ m.key ≠ [] ∧ ¬ m.key.any illegalInKey ∧ m.version ≠ [] ∧
      (m.permissions.find? fun p => !knownPermissions.contains p) = none ∧
      m.validateFilters [] 0 m.filters = .ok () ∧ validateJobs [] m.jobs = .ok () ∧
      m.validateLimits = .ok () := by
    simp only [validate, guard_ok]
    cases m.permissions.find? fun p => !knownPermissions.contains p with
    | some p => simp
    | none =>
      cases m.validateFilters [] 0 m.filters with
      | error e => simp
      | ok _ => cases validateJobs [] m.jobs <;> simp
  rw [hAll, validateFilters_ok, validateJobs_ok, validateLimits_ok, validateConfig_ok,
    checkMenuSize_ok_iff, wellFormed_iff]
  simp only [Unseen, List.not_mem_nil, not_false_eq_true, implies_true, and_true,
    List.any_eq_true, not_exists, not_and, Bool.not_eq_true, List.find?_eq_none,
    List.contains_eq_mem, Bool.not_eq_true', decide_eq_false_iff_not, not_not]
  tauto

end Manifest
end Moduless
