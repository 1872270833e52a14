import Moduless.HostSvc.Queue

/-!
What a consumer does with the messages it claimed: it hands over messages of its
batch only, and it rejects them only after its stream broke.
-/

namespace Moduless.HostSvc
open Go DB Interaction Discipline

/-- The messages of a consumer's last claim, and whether handing one over failed. -/
structure Batch where
  messages : List Message := []
  broken : Bool := false

def Batch.next (b : Batch) : Event QueueHost → Batch
  | ⟨.stmt (.claim _ _ _ _), ⟨_, .ok msgs⟩⟩ => ⟨msgs, false⟩
  | ⟨.deliver _, true⟩ => { b with broken := true }
  | _ => b

def Batch.Permits (b : Batch) : QueueOp → Prop
  | .deliver m => m ∈ b.messages
  | .stmt (.nack _ id answered _ _) =>
    b.broken = true ∧ ∃ m ∈ b.messages, m.id = id ∧ m.claim = answered
  | _ => True

/-- A call without a batch runs statements only. -/
def consuming : Discipline QueueHost (Option Batch) where
  next g e := g.map (·.next e)
  permits
    | none, o => ∃ s, o = .stmt s
    | some b, o => b.Permits o
  assumes _ _ := True

def QueueCall.batch : QueueCall → Option Batch
  | .stmt _ => none
  | .consume _ => some {}

theorem queue_obeys_op {G β : Type} {D : Discipline QueueHost G} {Q : β → G → Prop} {o : QueueOp}
    {f : o.Ans → QueueM β} {g : G} (hPermit : D.permits g o)
    (hf : ∀ r, D.assumes g ⟨o, r⟩ → D.Obeys Q (f r) (D.next g ⟨o, r⟩)) :
    D.Obeys Q (op o >>= f) g := ⟨hPermit, hf⟩

theorem obeys_deliverBatch {msgs : List Message} (rest : List Message) (h : rest ⊆ msgs) :
    consuming.Obeys (fun failed g => g = some ⟨msgs, failed⟩)
      (deliverBatch (fun m => op (.deliver m)) rest) (some ⟨msgs, false⟩) := by
  induction rest with
  | nil => exact rfl
  | cons m rest ih =>
    refine queue_obeys_op (h List.mem_cons_self) fun failed _ => ?_
    cases failed with
    | true => exact rfl
    | false => exact ih fun m hm => h (List.mem_cons_of_mem _ hm)

theorem obeys_releaseBatch (pluginKey : Str) {msgs : List Message} (rest : List Message)
    (h : rest ⊆ msgs) :
    consuming.Obeys (fun _ g => g = some ⟨msgs, true⟩) (releaseBatch pluginKey rest)
      (some ⟨msgs, true⟩) := by
  induction rest with
  | nil => exact rfl
  | cons m rest ih =>
    refine queue_obeys_op ⟨rfl, m, h List.mem_cons_self, rfl, rfl⟩ fun _ _ => ?_
    exact ih fun m hm => h (List.mem_cons_of_mem _ hm)

theorem obeys_consumeLoop (c : Consumer) (n : Nat) (b : Batch) :
    consuming.Obeys (fun _ _ => True)
      (consumeLoop c (some (op .awaitRoom)) (fun m => op (.deliver m)) n) (some b) := by
  induction n generalizing b with
  | zero => exact ⟨trivial, fun e => nomatch e⟩
  | succ n ih =>
    refine queue_obeys_op trivial fun (gone : Bool) _ =>
      obeys_ite.mpr ⟨fun _ => trivial, fun _ => ?_⟩
    refine queue_obeys_op trivial fun (failed : Bool) _ =>
      obeys_ite.mpr ⟨fun _ => trivial, fun _ => ?_⟩
    refine queue_obeys_op trivial fun claimed _ => ?_
    obtain ⟨now, result⟩ := claimed
    cases result with
    | error e => exact trivial
    | ok msgs =>
      cases msgs with
      | nil =>
        refine queue_obeys_op trivial fun (gone : Bool) _ => ?_
        exact obeys_ite.mpr ⟨fun _ => trivial, fun _ => ih _⟩
      | cons m msgs =>
        refine obeys_bind (obeys_deliverBatch (m :: msgs) fun _ h => h) fun broken g hg => ?_
        subst hg
        cases broken with
        | true =>
          exact obeys_bind (obeys_releaseBatch c.pluginKey (m :: msgs) fun _ h => h)
            fun _ _ _ => trivial
        | false => exact ih _

theorem obeys_queueCall (c : QueueCall) :
    consuming.Obeys (fun _ _ => True) c.body c.batch := by
  cases c with
  | stmt s => exact queue_obeys_op ⟨s, rfl⟩ fun _ _ => trivial
  | consume c => exact queue_obeys_op trivial fun n _ => obeys_consumeLoop _ n _

end Moduless.HostSvc
