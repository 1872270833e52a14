import Moduless.Go.StableSort
import Moduless.Manifest.Declaration

/-!
The filter chain: every registered plugin's filters, grouped by request phase
and ordered within a phase.

The flags that decide whether the gateway buffers a request body are kept with
proofs that they say what the filters declare, so a chain whose flags disagree
with its filters cannot be built.
-/

namespace Moduless.Pipeline
open Go

inductive Phase where
  | unspecified
  | preRoute
  | authenticate
  | authorize
  | preHandler
  | postHandler
  | onError
  | log
  deriving DecidableEq

def phaseFromName (name : Str) : Option Phase :=
  if name = phasePreRoute then some .preRoute
  else if name = phaseAuthenticate then some .authenticate
  else if name = phaseAuthorize then some .authorize
  else if name = phasePreHandler then some .preHandler
  else if name = phasePostHandler then some .postHandler
  else if name = phaseOnError then some .onError
  else if name = phaseLog then some .log
  else none

structure Defaults where
  timeout : Duration
  maxBodyBytes : Int
  deriving DecidableEq

def defaultDefaults : Defaults := ⟨50 * millisecond, 1048576⟩

/-- `match_` is the compiled declaration; `decl` is the one it was compiled from. -/
structure Filter where
  pluginKey : Str
  name : Str
  order : Int
  decl : FilterDecl
  match_ : CompiledFilter
  timeout : Duration
  maxBody : Int
  allowIdentityMutation : Bool
  deriving DecidableEq

def Filter.matches (f : Filter) (method path : Str) : Bool := f.match_.matches method path

def Filter.label (f : Filter) : Str :=
  if f.name ≠ [] then f.pluginKey ++ "/".toList ++ f.name
  else f.pluginKey ++ "/".toList ++ f.decl.phase

structure PluginFilters where
  key : Str
  filters : List CompiledFilter
  allowIdentityMutation : Bool
  deriving DecidableEq

structure Chain where
  phases : Phase → List Filter
  anyNeedsRequestBody : Bool
  maxRequestBody : Int
  anyNeedsResponseBody : Bool
  requestBody_iff : anyNeedsRequestBody = true ↔
    ∃ ph, ∃ f ∈ phases ph, f.decl.needsRequestBody = true
  responseBody_iff : anyNeedsResponseBody = true ↔
    ∃ ph, ∃ f ∈ phases ph, f.decl.needsResponseBody = true

def emptyChain : Chain := ⟨fun _ => [], false, 0, false, by simp, by simp⟩

structure ChainError where
  plugin : Str
  phase : Str
  deriving DecidableEq

/-- The defaults `BuildChain` works with: an unset one falls back to Core's. -/
def Defaults.normalize (d : Defaults) : Defaults :=
  { timeout := if d.timeout ≤ 0 then defaultDefaults.timeout else d.timeout
    maxBodyBytes := if d.maxBodyBytes ≤ 0 then defaultDefaults.maxBodyBytes else d.maxBodyBytes }

def newFilter (d : Defaults) (p : PluginFilters) (cf : CompiledFilter) : Filter :=
  { pluginKey := p.key
    name := cf.decl.name
    order := cf.decl.order
    decl := cf.decl
    match_ := cf
    timeout := if cf.decl.timeoutMS > 0 then int64 (cf.decl.timeoutMS * millisecond)
      else d.timeout
    maxBody := if cf.decl.maxBodyBytes > 0 then cf.decl.maxBodyBytes else d.maxBodyBytes
    allowIdentityMutation := p.allowIdentityMutation }

def collectFilters (d : Defaults) (p : PluginFilters) :
    List CompiledFilter → Except ChainError (List (Phase × Filter))
  | [] => .ok []
  | cf :: rest =>
    match phaseFromName cf.decl.phase with
    | none => .error ⟨p.key, cf.decl.phase⟩
    | some ph =>
      match collectFilters d p rest with
      | .error e => .error e
      | .ok out => .ok ((ph, newFilter d p cf) :: out)

/-- The two nested loops of `BuildChain`: every filter with its phase, in the
order the plugins and their declarations are visited. -/
def collectPlugins (d : Defaults) : List PluginFilters → Except ChainError (List (Phase × Filter))
  | [] => .ok []
  | p :: rest =>
    match collectFilters d p p.filters with
    | .error e => .error e
    | .ok out =>
      match collectPlugins d rest with
      | .error e => .error e
      | .ok more => .ok (out ++ more)

/-- Order, then plugin key, then filter name. -/
def Filter.less (a b : Filter) : Bool :=
  if a.order ≠ b.order then a.order < b.order
  else if a.pluginKey ≠ b.pluginKey then a.pluginKey < b.pluginKey
  else a.name < b.name

/-- The order `sort.SliceStable` arranges by: `a` may stay before `b`. -/
def Filter.le (a b : Filter) : Prop := ¬ b.less a

instance : DecidableRel Filter.le := fun a b => inferInstanceAs (Decidable ¬ (b.less a = true))

def phaseFilters (fs : List (Phase × Filter)) (ph : Phase) : List Filter :=
  ((fs.filter fun e => e.1 = ph).map Prod.snd).insertionSort Filter.le

theorem mem_phaseFilters {fs : List (Phase × Filter)} {ph : Phase} {f : Filter} :
    f ∈ phaseFilters fs ph ↔ (ph, f) ∈ fs := by
  simp [phaseFilters, List.mem_insertionSort]

theorem exists_phaseFilters {fs : List (Phase × Filter)} {p : Filter → Bool} :
    (fs.any fun e => p e.2) = true ↔ ∃ ph, ∃ f ∈ phaseFilters fs ph, p f = true := by
  simp only [List.any_eq_true, mem_phaseFilters]
  constructor
  · rintro ⟨⟨ph, f⟩, hmem, hp⟩
    exact ⟨ph, f, hmem, hp⟩
  · rintro ⟨ph, f, hmem, hp⟩
    exact ⟨(ph, f), hmem, hp⟩

def chainOf (fs : List (Phase × Filter)) : Chain :=
  { phases := phaseFilters fs
    anyNeedsRequestBody := fs.any fun e => e.2.decl.needsRequestBody
    maxRequestBody := fs.foldl
      (fun n e => if e.2.decl.needsRequestBody && n < e.2.maxBody then e.2.maxBody else n) 0
    anyNeedsResponseBody := fs.any fun e => e.2.decl.needsResponseBody
    requestBody_iff := exists_phaseFilters (p := fun f => f.decl.needsRequestBody)
    responseBody_iff := exists_phaseFilters (p := fun f => f.decl.needsResponseBody) }

def buildChain (plugins : List PluginFilters) (defaults : Defaults) : Except ChainError Chain :=
  match collectPlugins defaults.normalize plugins with
  | .error e => .error e
  | .ok fs => .ok (chainOf fs)

namespace Chain

def hasPhase (c : Chain) (ph : Phase) : Bool := c.phases ph ≠ []

def filters (c : Chain) (ph : Phase) : List Filter := c.phases ph

def needsRequestBody (c : Chain) : Bool := c.anyNeedsRequestBody

def needsResponseBody (c : Chain) : Bool := c.anyNeedsResponseBody

end Chain

end Moduless.Pipeline
