import Moduless.DB.Documents

/-!
Isolation of documents.

A call is isolated from a table when nothing about the table can be told from
its answer and the table comes out of it as it went in. Calls of one plugin are
isolated from another's table exactly when their names do not denote it.
-/

namespace Moduless.DB
open Go

/-- The table is neither read nor written: whatever it holds, the answer and the
other tables come out the same, and it keeps what it holds. -/
def Untouched {ρ : Type} (rel : Str) (f : Database → ρ × Database) : Prop :=
  ∀ db t, f (Function.update db rel t) = ((f db).1, Function.update (f db).2 rel t)

def DataCall.Isolated (extKey : Str) (call : DataCall) (rel : Str) : Prop :=
  ∀ refusals, Untouched rel fun db => call.run extKey db refusals

section Untouched

variable {rel k c : Str} {α β : Type}

theorem Untouched.const (a : α) : Untouched rel fun db => (a, db) := fun _ _ => rfl

theorem Untouched.map {f : Database → α × Database} (h : Untouched rel f) (g : α → β) :
    Untouched rel fun db => (f db).map g id := by
  intro db t
  simp only [h db t]
  rfl

theorem untouched_onTable {name : Str} {refused : Bool}
    {stmt : Table → Except StoreError α × Table} (hName : relation name ≠ rel) :
    Untouched rel fun db => onTable db name refused stmt := by
  intro db t
  simp only [onTable, Function.update_of_ne hName]
  cases db (relation name) with
  | none => rfl
  | some rows =>
    cases refused with
    | true => rfl
    | false => simp [Function.update_comm hName]

theorem untouched_withTable {body : Database → Str → Except StoreError α × Database}
    (h : ∀ n, tableName k c = .ok n → Untouched rel fun db => body db n) :
    Untouched rel fun db => withTable db k c (body db) := by
  cases hName : tableName k c with
  | error e =>
    simp only [withTable, hName]
    exact .const _
  | ok n =>
    simp only [withTable, hName]
    exact h n hName

/-- The names a plugin's collection is kept under miss the table. -/
def Misses (k c rel : Str) : Prop := ∀ n, tableName k c = .ok n → relation n ≠ rel

variable (h : Misses k c rel)

include h

theorem untouched_putVersioned (docID data : Str) (v : Int) (refused : Bool) :
    Untouched rel fun db => putVersioned db k c docID data v refused :=
  untouched_withTable fun n hn => untouched_onTable (h n hn)

theorem untouched_getVersioned (docID : Str) (refused : Bool) :
    Untouched rel fun db => getVersioned db k c docID refused :=
  untouched_withTable fun n hn => untouched_onTable (h n hn)

theorem untouched_deleteIn (docID : Str) (refused : Bool) :
    Untouched rel fun db => deleteIn db k c docID refused :=
  untouched_withTable fun n hn => untouched_onTable (h n hn)

theorem untouched_select (query : Except StoreError (Table → β)) (refused : Bool) :
    Untouched rel fun db => select db k c query refused := by
  refine untouched_withTable fun n hn => ?_
  cases query with
  | error e => exact .const _
  | ok eval => exact untouched_onTable (h n hn)

end Untouched

section Batch

variable {rel k : Str} {refusals : Nat → Bool}

theorem untouched_applyBatch (ops : List BatchOp) (applied : Nat)
    (h : ∀ o ∈ ops, Misses k o.collection rel) :
    Untouched rel fun db => applyBatch k refusals applied db ops := by
  induction ops generalizing applied with
  | nil => exact .const _
  | cons o ops ih =>
    intro db t
    have hHead := h o (by simp)
    have hRest := ih (applied + 1) fun o' ho' => h o' (by simp [ho'])
    simp only [applyBatch]
    cases o.delete with
    | true =>
      simp only [if_true, untouched_deleteIn hHead o.docID (refusals applied) db t]
      cases hRun : deleteIn db k o.collection o.docID (refusals applied) with
      | mk r db' =>
        cases r with
        | error e => rfl
        | ok found => exact hRest db' t
    | false =>
      simp only [Bool.false_eq_true, if_false,
        untouched_putVersioned hHead o.docID o.data 0 (refusals applied) db t]
      cases hRun : putVersioned db k o.collection o.docID o.data 0 (refusals applied) with
      | mk r db' =>
        cases r with
        | error e => rfl
        | ok v => exact hRest db' t

theorem untouched_batchWrite (ops : List BatchOp) (inTx : Bool)
    (h : ∀ o ∈ ops, Misses k o.collection rel) :
    Untouched rel fun db => batchWrite db k ops inTx refusals := by
  intro db t
  simp only [batchWrite, untouched_applyBatch ops 0 h db t]
  cases applyBatch k refusals 0 db ops with
  | mk r db' =>
    cases r with
    | error e => cases inTx <;> rfl
    | ok n => rfl

end Batch

section Isolation

variable {k₁ k₂ c₂ n₂ rel : Str} {cs : List Str}

theorem DataCall.isolated {call : DataCall} (h : ∀ c ∈ call.collections, Misses k₁ c rel) :
    call.Isolated k₁ rel := by
  intro refusals
  cases call with
  | put c docID data v =>
    exact (untouched_putVersioned (h c (by simp [collections])) docID data v _).map _
  | get c docID => exact (untouched_getVersioned (h c (by simp [collections])) docID _).map _
  | delete c docID => exact (untouched_deleteIn (h c (by simp [collections])) docID _).map _
  | find c q => exact untouched_select (h c (by simp [collections])) q _
  | query c q => exact untouched_select (h c (by simp [collections])) q _
  | aggregate c q => exact untouched_select (h c (by simp [collections])) q _
  | batchWrite ops inTx =>
    refine (untouched_batchWrite ops inTx fun o ho => h _ ?_).map _
    exact List.mem_map_of_mem ho

/-- A write to the table can tell whether it exists. -/
theorem put_not_isolated {c n : Str} (hName : tableName k₁ c = .ok n) :
    ¬ (DataCall.put c [] [] 0).Isolated k₁ (relation n) := by
  intro h
  have hAnswer := congrArg Prod.fst (h (fun _ => false) (fun _ => some []) none)
  simp [DataCall.run, putVersioned, withTable, hName, onTable, Except.map] at hAnswer

/-- The calls of a plugin on some of its collections are isolated from a table,
and their names denote others, exactly when no pair shares it. -/
theorem documents_isolated_iff (h₂ : tableName k₂ c₂ = .ok n₂)
    (hcs : ∀ c ∈ cs, ∃ n, tableName k₁ c = .ok n) :
    ((∀ c ∈ cs, ∀ n, tableName k₁ c = .ok n → relation n ≠ relation n₂) ↔
      ∀ c ∈ cs, ¬ SharesTable k₁ c k₂ c₂) ∧
    ((∀ call : DataCall, call.collections ⊆ cs → call.Isolated k₁ (relation n₂)) ↔
      ∀ c ∈ cs, ¬ SharesTable k₁ c k₂ c₂) := by
  have hNames : (∀ c ∈ cs, Misses k₁ c (relation n₂)) ↔ ∀ c ∈ cs, ¬ SharesTable k₁ c k₂ c₂ := by
    refine forall₂_congr fun c hc => ?_
    obtain ⟨n, hn⟩ := hcs c hc
    rw [← relation_eq_iff hn h₂]
    constructor
    · exact fun hMisses => hMisses n hn
    · intro hne n' hn'
      obtain rfl := Except.ok.inj (hn.symm.trans hn')
      exact hne
  refine ⟨hNames, ?_⟩
  rw [← hNames]
  constructor
  · intro hIsolated c hc n hn hSame
    exact put_not_isolated hn (hSame ▸ hIsolated (.put c [] [] 0) (by simpa [DataCall.collections]))
  · exact fun hMisses call hCall => DataCall.isolated fun c hc => hMisses c (hCall hc)

/-- Plugins without underscores in their keys keep to their own tables. -/
theorem documents_isolated_audit :
    (DataCall.put "events".toList "1".toList "{}".toList 0).Isolated "audit".toList
      (relation "ext_billing_invoices".toList) := by
  have hShort : ∀ c ∈ ["events".toList],
      ¬ SharesTable "audit".toList c "billing".toList "invoices".toList := by
    intro c hc
    obtain rfl := List.mem_singleton.mp hc
    exact not_clash (by decide) (by decide) (by decide) (by decide) (by decide)
  have hName : tableName "billing".toList "invoices".toList =
      .ok "ext_billing_invoices".toList := rfl
  refine (documents_isolated_iff hName fun c hc => ?_).2.mpr hShort _ fun _ hc => hc
  rw [List.mem_singleton.mp hc]
  exact ⟨_, rfl⟩

/-- The documents of `a` in its collection `b_c` are those of `a_b` in `c`. -/
theorem document_shared :
    ("a".toList, "b_c".toList) ≠ ("a_b".toList, "c".toList) ∧
    tableName "a".toList "b_c".toList = .ok "ext_a_b_c".toList ∧
    tableName "a_b".toList "c".toList = .ok "ext_a_b_c".toList ∧
    ∀ refusals, (∀ n, refusals n = false) →
      let created : Database := fun _ => some []
      let own := DataCall.put "b_c".toList "1".toList "own".toList 0
      let other := DataCall.put "c".toList "1".toList "other".toList 0
      let read := DataCall.get "b_c".toList "1".toList
      let stored := (own.run "a".toList created refusals).2
      let overwritten := (other.run "a_b".toList stored refusals).2
      (read.run "a".toList overwritten refusals).1 =
        .ok (.document (some ⟨"other".toList, 2⟩)) := by
  refine ⟨by decide, rfl, rfl, fun refusals hNone => ?_⟩
  obtain rfl : refusals = fun _ => false := funext hNone
  rfl

end Isolation

end Moduless.DB
