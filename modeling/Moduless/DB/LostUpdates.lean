import Moduless.DB.Locking

/-!
What a write with an expected version says about the time since the read.

The update of a row checks the version in the row, so it succeeds on the version
the client read. That rules out every write in between as long as the row itself
stayed: a row that is deleted and created again counts from one.
-/

namespace Moduless.DB
open Go

section

variable {a : DocAddress} {db : Database} {x : Access} {c d : Str}

theorem Access.answered_of_ok {r : Reply} (h : (x.run db).1 = .ok r) :
    (x.call.run x.extKey db x.refusals).1 = .ok r ∧ x.delivery = .answered := by
  cases hDelivery : x.delivery with
  | answered => exact ⟨by simpa [Access.run, hDelivery] using h, rfl⟩
  | aborted | lost => simp [Access.run, hDelivery] at h

theorem document_of_onTable {n : Str} {t : Table} (hName : tableName x.extKey c = .ok n)
    (hNamed : a.Named x.extKey c d) (hRows : db (relation n) = some t) :
    a.version db = (t.get d).map Document.version := by
  obtain ⟨hRel, rfl⟩ := hNamed
  rw [hName] at hRel
  have hRel : relation n = a.rel := by simpa [Except.toOption] using hRel
  simp [DocAddress.version, DocAddress.document, ← hRel, hRows]

theorem version_of_get {doc : Document} (hCall : x.call = .get c d)
    (hNamed : a.Named x.extKey c d) (hRead : (x.run db).1 = .ok (.document (some doc))) :
    a.version db = some doc.version := by
  obtain ⟨hRun, -⟩ := Access.answered_of_ok hRead
  simp only [hCall, DataCall.run, getVersioned, withTable] at hRun
  cases hName : tableName x.extKey c with
  | error e => simp [hName, Except.map] at hRun
  | ok n =>
    cases hRows : db (relation n) with
    | none => simp [hName, onTable, hRows, Except.map] at hRun
    | some t =>
      rw [document_of_onTable hName hNamed hRows]
      cases hRefused : x.refusals 0 with
      | true => simp [hName, onTable, hRows, hRefused, Except.map] at hRun
      | false =>
        have hGet : t.get d = some doc := by
          simpa [hName, onTable, hRows, hRefused, Except.map] using hRun
        rw [hGet]
        rfl

theorem version_of_put {data : Str} {v w : Int} (hv : 0 < v) (hCall : x.call = .put c d data v)
    (hNamed : a.Named x.extKey c d) (hWritten : (x.run db).1 = .ok (.version w)) :
    a.version db = some v := by
  obtain ⟨hRun, -⟩ := Access.answered_of_ok hWritten
  have hv : v ≠ 0 := by omega
  simp only [hCall, DataCall.run, putVersioned, withTable] at hRun
  cases hName : tableName x.extKey c with
  | error e => simp [hName, Except.map] at hRun
  | ok n =>
    cases hRows : db (relation n) with
    | none => simp [hName, onTable, hRows, Except.map] at hRun
    | some t =>
      rw [document_of_onTable hName hNamed hRows]
      cases hRefused : x.refusals 0 with
      | true => simp [hName, onTable, hRows, hRefused, Except.map] at hRun
      | false =>
        cases hGet : t.get d with
        | none => simp [hName, onTable, hRows, hRefused, hv, hGet, Except.map] at hRun
        | some doc =>
          by_cases hSame : doc.version = v
          · simp [hSame]
          · simp [hName, onTable, hRows, hRefused, hv, hGet, hSame, Except.map] at hRun

end

/-- A client reads version `v` of a document and later writes it expecting `v`,
with the accesses of all clients in between. -/
structure LockedUpdate (a : DocAddress) (db : Database) (read : Access) (between : List Access)
    (write : Access) (v : Int) : Prop where
  sameClient : write.client = read.client
  positive : 0 < v
  reads : ∃ c d doc, read.call = .get c d ∧ a.Named read.extKey c d ∧
    (read.run db).1 = .ok (.document (some doc)) ∧ doc.version = v
  writes : ∃ c d data w, write.call = .put c d data v ∧ a.Named write.extKey c d ∧
    (write.run (Access.runAll (read.run db).2 between)).1 = .ok (.version w)

section

variable {a : DocAddress} {db : Database} {read write : Access} {between : List Access} {v : Int}

theorem LockedUpdate.versions (h : LockedUpdate a db read between write v) :
    a.version (read.run db).2 = some v ∧
      a.version (Access.runAll (read.run db).2 between) = some v := by
  obtain ⟨c, d, doc, hCall, hNamed, hRead, rfl⟩ := h.reads
  obtain ⟨c', d', data, w, hCall', hNamed', hWritten⟩ := h.writes
  refine ⟨?_, version_of_put h.positive hCall' hNamed' hWritten⟩
  have hEffects : read.effects a db = [] := by
    cases hDelivery : read.delivery <;> simp [Access.effects, hDelivery, hCall, DataCall.effects]
  rw [Access.version_run, hEffects]
  exact version_of_get hCall hNamed hRead

/-- Where nobody deletes the document between the read and the write, the write
overwrites no update of another client. -/
theorem lockedUpdate_sound (h : LockedUpdate a db read between write v)
    (hKept : ∀ e ∈ Access.history (read.run db).2 between, .remove ∉ e.1.effects a e.2) :
    ∀ e ∈ Access.history (read.run db).2 between,
      e.1.client ≠ read.client → e.1.effects a e.2 = [] := by
  obtain ⟨hBefore, hAfter⟩ := h.versions
  rw [Access.version_runAll, hBefore] at hAfter
  have hNone := DocEffect.eq_nil_of_foldl (by simpa [List.mem_flatMap] using hKept) hAfter
  intro e he _
  exact List.flatMap_eq_nil_iff.mp hNone e he

end

/-- One note at its first version. -/
def oneNote : Database :=
  fun _ => some [("1".toList, ⟨"draft".toList, 1⟩)]

def note : DocAddress := ⟨relation "ext_blog_notes".toList, "1".toList⟩

def access (client : Nat) (call : DataCall) (h : call.Autocommit) : Access :=
  { client, extKey := "blog".toList, call, autocommit := h }

def readNote : Access := access 1 (.get "notes".toList "1".toList) trivial

def writeNote : Access :=
  access 1 (.put "notes".toList "1".toList "mine".toList 1) trivial

def writeOther : Access :=
  access 2 (.put "notes".toList "2".toList "theirs".toList 0) trivial

def deleteNote : Access := access 2 (.delete "notes".toList "1".toList) trivial

def recreateNote : Access :=
  access 2 (.put "notes".toList "1".toList "theirs".toList 0) trivial

theorem lockedUpdate_sound_other :
    LockedUpdate note oneNote readNote [writeOther] writeNote 1 ∧
    ∀ e ∈ Access.history (readNote.run oneNote).2 [writeOther],
      e.1.client ≠ readNote.client → e.1.effects note e.2 = [] := by
  have hUpdate : LockedUpdate note oneNote readNote [writeOther] writeNote 1 :=
    ⟨rfl, by decide, ⟨_, _, _, rfl, by decide, rfl, rfl⟩, ⟨_, _, _, _, rfl, by decide, rfl⟩⟩
  refine ⟨hUpdate, lockedUpdate_sound hUpdate fun e he => ?_⟩
  obtain rfl := List.mem_singleton.mp he
  decide

/-- The note another client deleted and wrote anew is at version one again, and is
overwritten. -/
theorem recreated_note_overwritten :
    LockedUpdate note oneNote readNote [deleteNote, recreateNote] writeNote 1 ∧
    ∃ e ∈ Access.history (readNote.run oneNote).2 [deleteNote, recreateNote],
      e.1.client ≠ readNote.client ∧ e.1.effects note e.2 = [.write] := by
  refine ⟨⟨rfl, by decide, ⟨_, _, _, rfl, by decide, rfl, rfl⟩,
    ⟨_, _, _, _, rfl, by decide, rfl⟩⟩, ?_⟩
  exact ⟨_, List.mem_cons_of_mem _ (List.mem_singleton_self _), by decide, by decide⟩

end Moduless.DB
