import Mathlib.Data.List.Nodup
import Mathlib.Data.List.Perm.Basic

/-!
Finitely branching trees with labelled nodes, and forests of them.

A node is named by its walk, the labels from a root down to it. Walks are listed
in document order, each node before its descendants and each tree before its
right siblings.
-/

namespace Moduless.Forest

inductive Rose (α : Type) where
  | node (label : α) (children : List (Rose α))

variable {α : Type}

/-- A forest is empty, or it has a first tree: a label, the forest below it and
the forest beside it. -/
@[elab_as_elim]
theorem forestInduction {P : List (Rose α) → Prop} (nil : P [])
    (node : ∀ a kids rest, P kids → P rest → P (.node a kids :: rest)) : ∀ f, P f
  | [] => nil
  | .node a kids :: rest =>
    node a kids rest (forestInduction nil node kids) (forestInduction nil node rest)

mutual

def Rose.decEq [DecidableEq α] : (s t : Rose α) → Decidable (s = t)
  | .node a f, .node b g =>
    match decEq a b, forestDecEq f g with
    | isTrue hLabel, isTrue hKids => isTrue (hLabel ▸ hKids ▸ rfl)
    | isFalse hLabel, _ => isFalse fun h => hLabel (Rose.node.inj h).1
    | _, isFalse hKids => isFalse fun h => hKids (Rose.node.inj h).2

def forestDecEq [DecidableEq α] : (f g : List (Rose α)) → Decidable (f = g)
  | [], [] => isTrue rfl
  | [], _ :: _ => isFalse (by simp)
  | _ :: _, [] => isFalse (by simp)
  | s :: f, t :: g =>
    match Rose.decEq s t, forestDecEq f g with
    | isTrue hHead, isTrue hTail => isTrue (hHead ▸ hTail ▸ rfl)
    | isFalse hHead, _ => isFalse fun h => hHead (List.cons.inj h).1
    | _, isFalse hTail => isFalse fun h => hTail (List.cons.inj h).2

end

instance [DecidableEq α] : DecidableEq (Rose α) := Rose.decEq

mutual

/-- The walks that begin at the root of a tree. -/
def Rose.walks : Rose α → List (List α)
  | .node a kids => [a] :: (walks kids).map (a :: ·)

/-- The walks of a forest, one for each node. -/
def walks : List (Rose α) → List (List α)
  | [] => []
  | t :: rest => t.walks ++ walks rest

end

@[simp]
theorem walks_nil : walks ([] : List (Rose α)) = [] := rfl

@[simp]
theorem walks_node (a : α) (kids rest : List (Rose α)) :
    walks (.node a kids :: rest) = [a] :: (walks kids).map (a :: ·) ++ walks rest := rfl

end Moduless.Forest
