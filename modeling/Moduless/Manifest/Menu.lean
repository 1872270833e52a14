import Moduless.Forest.Rose
import Moduless.Go.Builtin

/-!
The menu tree a manifest declares, and the bounds on its size.

The level of a node is the length of its walk, and a forest has one walk for
each node. `checkMenuSize` tests the depth on entering a list of children, also
an empty one, so it wants every node to leave a level free below it.
-/

namespace Moduless
open Go Forest

/-- What a menu node says about itself; its children are below it in the tree. -/
structure MenuFields where
  path : Str
  title : Str := []
  icon : Str := []
  order : Int := 0
  entry : Str := []
  roles : List Str := []
  deriving DecidableEq

abbrev MenuItem := Rose MenuFields

namespace Manifest

def maxMenuDepth : Nat := 8
def maxMenuNodes : Nat := 256

inductive MenuError where
  | tooDeep
  | tooManyNodes
  deriving DecidableEq

mutual

/-- The recursive call of `walk` for the children of a node. -/
def walkChildren (depth total : Nat) : MenuItem → Except MenuError Nat
  | .node _ children =>
    if depth > maxMenuDepth then .error .tooDeep else walkNodes depth total children

/-- The loop of `walk`. It returns the number of nodes counted so far. -/
def walkNodes (depth total : Nat) : List MenuItem → Except MenuError Nat
  | [] => .ok total
  | n :: rest =>
    if total + 1 > maxMenuNodes then .error .tooManyNodes
    else
      match walkChildren (depth + 1) (total + 1) n with
      | .error e => .error e
      | .ok total => walkNodes depth total rest

end

def walk (nodes : List MenuItem) (depth total : Nat) : Except MenuError Nat :=
  if depth > maxMenuDepth then .error .tooDeep else walkNodes depth total nodes

def checkMenuSize (nodes : List MenuItem) : Except MenuError Unit :=
  match walk nodes 1 0 with
  | .error e => .error e
  | .ok _ => .ok ()

theorem walkNodes_node_ok {depth total t : Nat} {a : MenuFields} {kids rest : List MenuItem} :
    walkNodes depth total (.node a kids :: rest) = .ok t ↔
      total + 1 ≤ maxMenuNodes ∧ depth + 1 ≤ maxMenuDepth ∧
        ∃ u, walkNodes (depth + 1) (total + 1) kids = .ok u ∧ walkNodes depth u rest = .ok t := by
  rw [walkNodes, walkChildren]
  by_cases hTotal : total + 1 ≤ maxMenuNodes
  · by_cases hDepth : depth + 1 ≤ maxMenuDepth
    · rw [if_neg (Nat.not_lt.mpr hTotal), if_neg (Nat.not_lt.mpr hDepth)]
      cases walkNodes (depth + 1) (total + 1) kids with
      | error e => simp
      | ok u => simp [hTotal, hDepth]
    · simp [Nat.not_lt.mpr hTotal, Nat.not_le.mp hDepth, hDepth]
  · simp [Nat.not_le.mp hTotal, hTotal]

theorem walkNodes_ok_iff {depth total t : Nat} {f : List MenuItem}
    (hTotal : total ≤ maxMenuNodes) :
    walkNodes depth total f = .ok t ↔
      t = total + (walks f).length ∧ t ≤ maxMenuNodes ∧
        ∀ w ∈ walks f, depth + w.length ≤ maxMenuDepth := by
  induction f using forestInduction generalizing depth total t with
  | nil =>
    simp only [walkNodes, Except.ok.injEq, walks_nil, List.length_nil, Nat.add_zero,
      List.not_mem_nil, false_implies, implies_true, and_true]
    constructor
    · rintro rfl
      exact ⟨rfl, hTotal⟩
    · exact fun h => h.1.symm
  | node a kids rest ihKids ihRest =>
    have hWalks : (∀ w ∈ walks (.node a kids :: rest), depth + w.length ≤ maxMenuDepth) ↔
        depth + 1 ≤ maxMenuDepth ∧ (∀ w ∈ walks kids, depth + 1 + w.length ≤ maxMenuDepth) ∧
          ∀ w ∈ walks rest, depth + w.length ≤ maxMenuDepth := by
      simp [or_imp, forall_and, Nat.add_assoc, Nat.add_comm 1]
    have hLength : (walks (.node a kids :: rest)).length =
        1 + (walks kids).length + (walks rest).length := by
      simp only [walks_node, List.length_append, List.length_cons, List.length_map]
      omega
    rw [walkNodes_node_ok, hWalks, hLength]
    constructor
    · rintro ⟨hNode, hDepth, u, hKids, hRest⟩
      obtain ⟨rfl, hu, hBelow⟩ := (ihKids hNode).mp hKids
      obtain ⟨rfl, ht, hBeside⟩ := (ihRest hu).mp hRest
      exact ⟨by omega, ht, hDepth, hBelow, hBeside⟩
    · rintro ⟨rfl, ht, hDepth, hBelow, hBeside⟩
      have hNode : total + 1 ≤ maxMenuNodes := by omega
      have hKids : total + 1 + (walks kids).length ≤ maxMenuNodes := by omega
      refine ⟨hNode, hDepth, _, (ihKids hNode).mpr ⟨rfl, hKids, hBelow⟩, ?_⟩
      exact (ihRest hKids).mpr ⟨by omega, ht, hBeside⟩

/-- A forest is accepted if its nodes are few enough and none is on the last
allowed level or below it. -/
theorem checkMenuSize_ok_iff (nodes : List MenuItem) :
    checkMenuSize nodes = .ok () ↔
      (∀ w ∈ walks nodes, w.length < maxMenuDepth) ∧ (walks nodes).length ≤ maxMenuNodes := by
  have hRun : checkMenuSize nodes = .ok () ↔ ∃ t, walkNodes 1 0 nodes = .ok t := by
    rw [checkMenuSize, walk, if_neg (by decide)]
    cases walkNodes 1 0 nodes with
    | error e => simp
    | ok t => simp
  simp only [hRun, walkNodes_ok_iff (Nat.zero_le _), Nat.zero_add, Nat.add_comm 1,
    Nat.add_one_le_iff]
  constructor
  · rintro ⟨t, rfl, hNodes, hDepth⟩
    exact ⟨hDepth, hNodes⟩
  · rintro ⟨hDepth, hNodes⟩
    exact ⟨_, rfl, hNodes, hDepth⟩

/-- Within both limits. The root nodes are on level 1. -/
def WithinLimits (nodes : List MenuItem) : Prop :=
  (∀ w ∈ walks nodes, w.length ≤ maxMenuDepth) ∧ (walks nodes).length ≤ maxMenuNodes

instance (nodes : List MenuItem) : Decidable (WithinLimits nodes) := inferInstanceAs
  (Decidable ((∀ w ∈ walks nodes, w.length ≤ maxMenuDepth) ∧ _))

/-- `checkMenuSize` enforces the limits on the forests that are beyond them, and
on those within them that do not use the last level. -/
theorem checkMenuSize_enforces_iff (nodes : List MenuItem) :
    (checkMenuSize nodes = .ok () ↔ WithinLimits nodes) ↔
      (WithinLimits nodes → ∀ w ∈ walks nodes, w.length ≠ maxMenuDepth) := by
  rw [checkMenuSize_ok_iff]
  constructor
  · intro h hWithin w hw
    exact Nat.ne_of_lt ((h.mpr hWithin).1 w hw)
  · intro h
    constructor
    · rintro ⟨hDepth, hNodes⟩
      exact ⟨fun w hw => Nat.le_of_lt (hDepth w hw), hNodes⟩
    · intro hWithin
      exact ⟨fun w hw => Nat.lt_of_le_of_ne (hWithin.1 w hw) (h hWithin w hw), hWithin.2⟩

/-- A chain of nodes, one on each level. -/
def menuChain : Nat → List MenuItem
  | 0 => []
  | levels + 1 => [.node { path := "/level".toList } (menuChain levels)]

/-- A menu that uses all the levels there are is refused as too deep. -/
theorem last_level_refused :
    WithinLimits (menuChain maxMenuDepth) ∧
      checkMenuSize (menuChain maxMenuDepth) = .error .tooDeep := by
  decide

end Manifest
end Moduless
