import Moduless.PluginHost.HostState

/-!
The reservation ledger: what a goroutine's history says about the capacity it
has reserved.

`BeginRequest` and a release function each take several atomic steps. `Standing`
records where between them a goroutine is; while it is inside, its own share of
the in-flight count is not yet, or no longer, covered by an open `done` flag.
-/

namespace Moduless.PluginHost
open Go Pipeline Interaction

/-- `raised` after the increment, `confirmed` or `refused` after the second look
at the state, `released` after winning a `done` flag. -/
inductive Standing where
  | idle
  | raised (i : Instance)
  | confirmed (i : Instance)
  | refused (i : Instance)
  | released (i : Instance)
  deriving DecidableEq

/-- The instance whose count the goroutine itself still accounts for. -/
def Standing.on : Standing → Option Instance
  | .idle => none
  | .raised i | .confirmed i | .refused i | .released i => some i

/-- `held` are the reservations taken and not released, each with the key of the
pick it was taken for; `target` is the last pick. `closed` are the instances the
goroutine took out of `Ready`, `drained` those whose count it then found at zero. -/
structure Ledger where
  standing : Standing := .idle
  held : List (Str × Lease) := []
  target : Option (Str × Instance) := none
  closed : List Instance := []
  drained : List Instance := []
  taken : List Lease := []
  won : List Lease := []

namespace Ledger

def leases (g : Ledger) : List Lease := g.held.map Prod.snd

def weight (g : Ledger) (i : Instance) : Int := if g.standing.on = some i then 1 else 0

def next (g : Ledger) : Event Host → Ledger
  | ⟨.loadState i, st⟩ =>
    if g.standing = .raised i then
      { g with standing := if st = .ready then .confirmed i else .refused i }
    else g
  | ⟨.addInflight i _, _⟩ =>
    { g with standing := if g.standing = .idle then .raised i else .idle }
  | ⟨.newDone _, lease⟩ =>
    { g with
      standing := .idle
      held := ((g.target.map Prod.fst).getD [], lease) :: g.held
      taken := lease :: g.taken }
  | ⟨.casDone l, won⟩ =>
    { g with
      standing := if won then .released l.inst else .idle
      held := g.held.filter fun e => e.2 ≠ l
      won := if won then l :: g.won else g.won }
  | ⟨.picked key i, _⟩ => { g with target := some (key, i) }
  | ⟨.storeState i _, _⟩ => { g with closed := i :: g.closed }
  | ⟨.loadInflight i, n⟩ =>
    if n ≤ 0 ∧ i ∈ g.closed then { g with drained := i :: g.drained } else g
  | _ => g

end Ledger

/-- The discipline of reservations. With `owner` a goroutine releases only what
it took itself; with `strict` it calls a plugin only under a reservation on the
very instance, which it can if a key it holds a reservation for is always
resolved to that instance again. -/
def reservations (owner strict : Bool) : Discipline Host Ledger where
  next := Ledger.next
  permits g
    | .addInflight i d => (g.standing = .idle ∧ d = 1) ∨
        (d = -1 ∧ (g.standing = .refused i ∨ g.standing = .released i))
    | .newDone i => g.standing = .confirmed i
    | .casDone l => g.standing = .idle ∧ (owner = true → l ∈ g.leases)
    | .storeState _ st => st ≠ .ready
    | .casState _ _ new => new ≠ .ready
    | .ask (.filterCall i _ _) | .ask (.filterReturn i) | .ask (.httpCall i _ _)
    | .ask (.httpReturn i) => strict = true → ∃ l ∈ g.leases, l.inst = i
    | _ => True
  assumes g
    | ⟨.newDone i, l⟩ => l.inst = i ∧ l ∉ g.taken
    | ⟨.picked key i, _⟩ => strict = true → ∀ l, (key, l) ∈ g.held → l.inst = i
    | _ => True

end Moduless.PluginHost
