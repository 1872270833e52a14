import Moduless.Go.Map
import Moduless.Manifest.CronMeaning
import Moduless.Manifest.Menu
import Moduless.Pathmatch.Pattern

/-!
A plugin's manifest: the declarations Core reads before it starts the plugin,
the checks a manifest has to pass, and the compiled form of its filters.
-/

namespace Moduless
open Go Pathmatch

def phasePreRoute : Str := "pre_route".toList
def phaseAuthenticate : Str := "authenticate".toList
def phaseAuthorize : Str := "authorize".toList
def phasePreHandler : Str := "pre_handler".toList
def phasePostHandler : Str := "post_handler".toList
def phaseOnError : Str := "on_error".toList
def phaseLog : Str := "log".toList

def knownPhases : List Str :=
  [phasePreRoute, phaseAuthenticate, phaseAuthorize, phasePreHandler, phasePostHandler,
    phaseOnError, phaseLog]

def permFilterAuthenticate : Str := "filter:authenticate".toList
def permCron : Str := "cron".toList
def permHTTPEgress : Str := "http:egress".toList

def knownPermissions : List Str :=
  ["db".toList, "db:tx".toList, "queue".toList, "cache".toList, "lock".toList, permCron,
    "events".toList, "files:read".toList, "files:write".toList, permHTTPEgress,
    permFilterAuthenticate]

structure FilterMatch where
  paths : List Str
  methods : List Str
  deriving DecidableEq

structure FilterDecl where
  name : Str
  phase : Str
  match_ : FilterMatch
  order : Int
  failClosed : Bool
  timeoutMS : Int
  needsRequestBody : Bool
  needsResponseBody : Bool
  maxBodyBytes : Int
  deriving DecidableEq

structure ConfigDecl where
  key : Str
  type_ : Str
  default_ : Str
  label : Str := []
  description : Str := []
  required : Bool := false
  secret : Bool := false
  deriving DecidableEq

structure JobDecl where
  name : Str
  cron : Str
  deriving DecidableEq

structure IndexDecl where
  fields : List Str
  unique : Bool
  deriving DecidableEq

structure CollectionDecl where
  name : Str
  indexes : List IndexDecl
  deriving DecidableEq

structure Manifest where
  key : Str
  version : Str
  weight : Int
  entrypoint : Str
  replicas : Int
  permissions : List Str
  filters : List FilterDecl
  config : List ConfigDecl
  collections : List CollectionDecl := []
  jobs : List JobDecl := []
  egressAllow : List Str := []
  displayName : Str := []
  menus : List MenuItem := []
  deriving DecidableEq

/-- `methods` is `none` when the filter applies to every method. -/
structure CompiledFilter where
  decl : FilterDecl
  paths : PatternSet
  methods : Option (List Str)
  deriving DecidableEq

def CompiledFilter.matchesMethod (c : CompiledFilter) (method : Str) : Bool :=
  match c.methods with
  | none => true
  | some set => set.contains method

def CompiledFilter.matches (c : CompiledFilter) (method path : Str) : Bool :=
  c.matchesMethod method && c.paths.matches path

def normalizeMethodsFrom (set : List Str) : List Str → Option (List Str)
  | [] => some set
  | m :: rest =>
    let m := trimUpper m
    if m = star ∨ m = [] then none else normalizeMethodsFrom (set ++ [m]) rest

/-- `none` for all methods, otherwise the listed ones in upper case. -/
def normalizeMethods (methods : List Str) : Option (List Str) :=
  if methods = [] then none else normalizeMethodsFrom [] methods

/-- How a message names the filter at a position: by its name, or by the
position and the phase when it has none. -/
structure FilterLabel where
  index : Nat
  name : Str
  phase : Str
  deriving DecidableEq

def filterLabel (f : FilterDecl) (index : Nat) : FilterLabel := ⟨index, f.name, f.phase⟩

inductive ManifestError where
  | keyRequired
  | keyIllegal (key : Str)
  | versionRequired
  | unknownPermission (perm : Str)
  | unknownPhase (filter : FilterLabel)
  | duplicateFilter (name : Str)
  | noPaths (filter : FilterLabel)
  | badPattern (filter : FilterLabel) (e : PatternError)
  | authenticateNotRequested (filter : FilterLabel)
  | negativeTimeout (filter : FilterLabel)
  | negativeMaxBody (filter : FilterLabel)
  | maxBodyWithoutRequestBody (filter : FilterLabel)
  | jobNameMissing
  | duplicateJob (name : Str)
  | jobCronMissing (name : Str)
  | badCron (name : Str) (e : Cron.ScheduleError)
  | cronNotRequested
  | egressNotRequested
  | negativeReplicas
  | tooManyFilters (n : Nat)
  | tooManyCollections (n : Nat)
  | tooManyJobs (n : Nat)
  | tooManyConfigKeys (n : Nat)
  | menuSize (e : Manifest.MenuError)
  | configKeyMissing
  | duplicateConfigKey (key : Str)
  | unknownConfigType (key type_ : Str)
  deriving DecidableEq

namespace Manifest

def hasPermission (m : Manifest) (perm : Str) : Bool := m.permissions.contains perm

def replicaCount (m : Manifest) : Nat := if m.replicas ≤ 0 then 1 else m.replicas.toNat

theorem replicaCount_pos (m : Manifest) : 0 < m.replicaCount := by
  unfold replicaCount
  split <;> omega

def maxFilters : Nat := 64
def maxCollections : Nat := 64
def maxJobs : Nat := 64
def maxConfigKeys : Nat := 128

def compileFiltersFrom (index : Nat) : List FilterDecl → Except ManifestError (List CompiledFilter)
  | [] => .ok []
  | f :: rest =>
    match compileSet f.match_.paths with
    | .error e => .error (.badPattern (filterLabel f index) e)
    | .ok set =>
      match compileFiltersFrom (index + 1) rest with
      | .error e => .error e
      | .ok out => .ok (⟨f, set, normalizeMethods f.match_.methods⟩ :: out)

def compileFilters (m : Manifest) : Except ManifestError (List CompiledFilter) :=
  compileFiltersFrom 0 m.filters

/-- The checks on one filter declaration; `seen` holds the names used before it. -/
def validateFilter (m : Manifest) (seen : List Str) (f : FilterDecl) (index : Nat) :
    Except ManifestError Unit :=
  let label := filterLabel f index
  if !knownPhases.contains f.phase then .error (.unknownPhase label)
  else if f.name ≠ [] && seen.contains f.name then .error (.duplicateFilter f.name)
  else if f.match_.paths = [] then .error (.noPaths label)
  else
    match compileSet f.match_.paths with
    | .error e => .error (.badPattern label e)
    | .ok _ =>
      if f.phase = phaseAuthenticate && !m.hasPermission permFilterAuthenticate then
        .error (.authenticateNotRequested label)
      else if f.timeoutMS < 0 then .error (.negativeTimeout label)
      else if f.maxBodyBytes < 0 then .error (.negativeMaxBody label)
      else if f.maxBodyBytes > 0 && !f.needsRequestBody then
        .error (.maxBodyWithoutRequestBody label)
      else .ok ()

def validateFilters (m : Manifest) : List Str → Nat → List FilterDecl → Except ManifestError Unit
  | _, _, [] => .ok ()
  | seen, index, f :: rest =>
    match m.validateFilter seen f index with
    | .error e => .error e
    | .ok () =>
      m.validateFilters (if f.name ≠ [] then f.name :: seen else seen) (index + 1) rest

/-- The checks on the jobs; `seen` holds the names used before. -/
def validateJobs : List Str → List JobDecl → Except ManifestError Unit
  | _, [] => .ok ()
  | seen, j :: rest =>
    if j.name = [] then .error .jobNameMissing
    else if seen.contains j.name then .error (.duplicateJob j.name)
    else if j.cron = [] then .error (.jobCronMissing j.name)
    else
      match Cron.readSchedule j.cron with
      | .error e => .error (.badCron j.name e)
      | .ok _ => validateJobs (j.name :: seen) rest

def configTypes : List Str :=
  ["string".toList, "int".toList, "bool".toList, "duration".toList, "text".toList]

def validateConfig : List Str → List ConfigDecl → Except ManifestError Unit
  | _, [] => .ok ()
  | seen, c :: rest =>
    if c.key = [] then .error .configKeyMissing
    else if seen.contains c.key then .error (.duplicateConfigKey c.key)
    else if c.type_ ≠ [] && !configTypes.contains c.type_ then
      .error (.unknownConfigType c.key c.type_)
    else validateConfig (c.key :: seen) rest

def illegalInKey (c : Char) : Bool := c = '/' || c = '\\' || c = '.' || c = ' '

/-- The checks after those on the filters and the jobs. -/
def validateLimits (m : Manifest) : Except ManifestError Unit :=
  if m.jobs ≠ [] && !m.hasPermission permCron then .error .cronNotRequested
  else if m.egressAllow ≠ [] && !m.hasPermission permHTTPEgress then .error .egressNotRequested
  else if m.replicas < 0 then .error .negativeReplicas
  else if m.filters.length > maxFilters then .error (.tooManyFilters m.filters.length)
  else if m.collections.length > maxCollections then
    .error (.tooManyCollections m.collections.length)
  else if m.jobs.length > maxJobs then .error (.tooManyJobs m.jobs.length)
  else if m.config.length > maxConfigKeys then .error (.tooManyConfigKeys m.config.length)
  else
    match checkMenuSize m.menus with
    | .error e => .error (.menuSize e)
    | .ok () => validateConfig [] m.config

def validate (m : Manifest) : Except ManifestError Unit :=
  if m.key = [] then .error .keyRequired
  else if m.key.any illegalInKey then .error (.keyIllegal m.key)
  else if m.version = [] then .error .versionRequired
  else
    match m.permissions.find? fun p => !knownPermissions.contains p with
    | some p => .error (.unknownPermission p)
    | none =>
      match m.validateFilters [] 0 m.filters with
      | .error e => .error e
      | .ok () =>
        match validateJobs [] m.jobs with
        | .error e => .error e
        | .ok () => m.validateLimits

def configDefaults (m : Manifest) : GoMap Str Str :=
  m.config.foldl (fun out c => if c.default_ ≠ [] then out.set c.key c.default_ else out) []

/-- Values an operator set win over the declared defaults. -/
def mergeConfig (m : Manifest) (set : GoMap Str Str) : GoMap Str Str :=
  let defaults := m.configDefaults
  if defaults = [] then set else set.foldl (fun out e => out.set e.1 e.2) defaults

theorem get_mergeConfig (m : Manifest) {set : GoMap Str Str} (hSet : set.keys.Nodup) (name : Str) :
    (m.mergeConfig set).get name = (set.get name).or (m.configDefaults.get name) := by
  rw [mergeConfig]
  split
  next hNone => rw [hNone, GoMap.get_nil, Option.or_none]
  next => exact GoMap.get_foldl_set hSet _ name

theorem validateFilters_phases {m : Manifest} {seen : List Str} {index : Nat}
    {fs : List FilterDecl} (h : m.validateFilters seen index fs = .ok ()) :
    ∀ f ∈ fs, f.phase ∈ knownPhases := by
  induction fs generalizing seen index with
  | nil => simp
  | cons f fs ih =>
    rw [validateFilters] at h
    split at h
    next => cases h
    next hf =>
      have hPhase : f.phase ∈ knownPhases := by
        by_contra hUnknown
        have : knownPhases.contains f.phase = false := by simpa using hUnknown
        simp only [validateFilter, this, Bool.not_false, if_true] at hf
        cases hf
      intro g hg
      rcases List.mem_cons.mp hg with rfl | hg
      · exact hPhase
      · exact ih h g hg

theorem validate_phases {m : Manifest} (h : m.validate = .ok ()) :
    ∀ f ∈ m.filters, f.phase ∈ knownPhases := by
  unfold validate at h
  split at h
  next => cases h
  next =>
    split at h
    next => cases h
    next =>
      split at h
      next => cases h
      next =>
        split at h
        next => cases h
        next =>
          split at h
          next => cases h
          next hf => exact validateFilters_phases hf

theorem validate_key {m : Manifest} (h : m.validate = .ok ()) :
    m.key ≠ [] ∧ m.key.any illegalInKey = false := by
  unfold validate at h
  split at h
  next => cases h
  next hSome =>
    split at h
    next => cases h
    next hLegal => exact ⟨hSome, Bool.eq_false_of_not_eq_true hLegal⟩

theorem compileFiltersFrom_decls {index : Nat} {fs : List FilterDecl} {out : List CompiledFilter}
    (h : compileFiltersFrom index fs = .ok out) : out.map CompiledFilter.decl = fs := by
  induction fs generalizing index out with
  | nil =>
    cases h
    rfl
  | cons f fs ih =>
    rw [compileFiltersFrom] at h
    split at h
    next => cases h
    next =>
      split at h
      next => cases h
      next hRest =>
        cases h
        simp [ih hRest]

theorem compileFilters_decls {m : Manifest} {out : List CompiledFilter}
    (h : m.compileFilters = .ok out) : out.map CompiledFilter.decl = m.filters :=
  compileFiltersFrom_decls h

end Manifest
end Moduless
