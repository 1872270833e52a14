import Moduless.Auth.Store
import Moduless.Interaction.Accounts
import Moduless.Interaction.Schedule

/-!
Whether an administrator remains while calls overlap.

A call that passes its guard knows of an administrator other than the user it is
about. It still knows so when it writes, unless another call has taken that
administrator away in the meantime.
-/

namespace Moduless.Auth
open Go Interaction Discipline

/-- How far a call has come with its guard. -/
inductive Clearance where
  | unknown
  | admin (id : Int)
  | cleared (id : Int)
  deriving DecidableEq

namespace Clearance

/-- The guard has been passed, and the write is still to come. -/
def isCleared : Clearance → Bool
  | .cleared _ => true
  | _ => false

/-- `row.Role != "admin"` passes the guard, otherwise the count decides. -/
def found (id : Int) : Option SystemUser → Clearance
  | none => .unknown
  | some row => if row.role ≠ adminRole then .cleared id else .admin id

def counted : Clearance → Option Int → Clearance
  | .admin id, some n => if n ≤ 1 then .unknown else .cleared id
  | _, _ => .unknown

end Clearance

/-- What a call has found out, and that it writes only where the guard was passed. -/
def clearances : Discipline AuthHost Clearance where
  next g
    | ⟨.getUserByID id, row⟩ => .found id row
    | ⟨.countAdmins, n⟩ => g.counted n
    | ⟨.updateUserRole _ _, _⟩ | ⟨.deleteUser _, _⟩ => .unknown
    | _ => g
  permits g
    | .updateUserRole id role => role = adminRole ∨ g = .cleared id
    | .deleteUser id => g = .cleared id
    | _ => True
  assumes _ _ := True

section Calls

variable {compareHash : Str → Str → Bool} {g : Clearance}

theorem obeys_guard (id : Int) :
    clearances.Obeys (fun e g' => e = none → g' = .cleared id) (ensureNotLastAdmin id) g := by
  refine ⟨trivial, fun (row : Option SystemUser) _ => ?_⟩
  cases row with
  | none => exact fun h => absurd h (Option.some_ne_none _)
  | some row =>
    change clearances.Obeys _
      (if row.role ≠ adminRole then pure none else auth .countAdmins >>= _)
      (if row.role ≠ adminRole then .cleared id else .admin id)
    split
    next => exact fun _ => rfl
    next =>
      refine ⟨trivial, fun (n : Option Int) _ => ?_⟩
      cases n with
      | none => exact fun h => absurd h (Option.some_ne_none _)
      | some n =>
        change (if n ≤ 1 then some UserError.lastAdmin else none) = none →
          (if n ≤ 1 then Clearance.unknown else .cleared id) = .cleared id
        split
        next => exact fun h => absurd h (Option.some_ne_none _)
        next => exact fun _ => rfl

theorem obeys_setRole (id : Int) (role : Str) :
    clearances.Obeys (fun _ _ => True) (setRole id role) g := by
  rw [setRole]
  split
  next => trivial
  next =>
    split
    next =>
      refine obeys_bind (obeys_guard id) fun refused g' hPassed => ?_
      cases refused with
      | some e => trivial
      | none => exact ⟨.inr (hPassed rfl), fun _ _ => trivial⟩
    next hAdmin => exact ⟨.inl (not_not.mp hAdmin), fun _ _ => trivial⟩

theorem obeys_deleteUser (id : Int) :
    clearances.Obeys (fun _ _ => True) (deleteUser id) g := by
  refine obeys_bind (obeys_guard id) fun refused g' hPassed => ?_
  cases refused with
  | some e => trivial
  | none => exact ⟨hPassed rfl, fun _ _ => trivial⟩

/-- The operation does not write to the table. -/
def AuthOp.Sparing : AuthOp → Prop
  | .updateUserRole _ _ | .deleteUser _ => False
  | _ => True

theorem obeys_of_sparing {α : Type} {p : AuthM α} (h : p.Uses AuthOp.Sparing) :
    clearances.Obeys (fun _ _ => True) p g := by
  refine obeys_of_uses (P := fun _ => True) h (fun g o _ ho => ⟨?_, fun _ => trivial⟩) trivial
  cases o with
  | updateUserRole | deleteUser => exact ho.elim
  | _ => trivial

theorem sparing_login (username password : Str) :
    (login compareHash username password).Uses AuthOp.Sparing := by
  refine ⟨trivial, fun (found : Option SystemUser) => ?_⟩
  cases found with
  | none => trivial
  | some row =>
    refine Program.uses_ite.mpr ⟨fun _ => ⟨trivial, fun (bytes : Option (Fin 32 → UInt8)) => ?_⟩,
      fun _ => trivial⟩
    cases bytes with
    | none => trivial
    | some b => exact ⟨trivial, fun _ => ⟨trivial, fun _ => trivial⟩⟩

theorem sparing_resolve (token : Str) : (resolve token).Uses AuthOp.Sparing := by
  refine Program.uses_ite.mpr ⟨fun _ => trivial,
    fun _ => ⟨trivial, fun (found : Option Session) => ?_⟩⟩
  cases found with
  | none => trivial
  | some sess =>
    refine ⟨trivial, fun (now : Int) => Program.uses_ite.mpr ⟨fun _ => ?_, fun _ => trivial⟩⟩
    exact ⟨trivial, fun _ => trivial⟩

theorem obeys_serve (call : AuthCall) :
    clearances.Obeys (fun _ _ => True) (serve compareHash call) g := by
  cases call with
  | login username password =>
    exact obeys_bind (obeys_of_sparing (sparing_login username password)) fun _ _ _ => trivial
  | resolve token =>
    exact obeys_bind (obeys_of_sparing (sparing_resolve token)) fun _ _ _ => trivial
  | logout token => exact ⟨trivial, fun _ _ => trivial⟩
  | setRole id role => exact obeys_bind (obeys_setRole id role) fun _ _ _ => trivial
  | deleteUser id => exact obeys_bind (obeys_deleteUser id) fun _ _ _ => trivial

end Calls

def authSystem (compareHash : Str → Str → Bool) : System AuthHost AuthWorld AuthCall AuthReply :=
  ⟨authMachine, serve compareHash, fun _ => []⟩

abbrev AuthPool := Pool AuthHost AuthWorld AuthCall AuthReply

abbrev AuthThread := Thread AuthHost AuthCall AuthReply

def UserTable.OtherAdmin (t : UserTable) (id : Int) : Prop :=
  ∃ r ∈ t.rows, r.isAdmin = true ∧ r.id ≠ id

def UserTable.HasAdmin (t : UserTable) : Prop := ∃ r ∈ t.rows, r.isAdmin = true

instance (t : UserTable) : Decidable t.HasAdmin :=
  inferInstanceAs (Decidable (∃ r ∈ t.rows, _))

def UserTable.removes (t : UserTable) : AuthOp → Bool
  | .updateUserRole id role => role ≠ adminRole && t.rows.any fun r => r.isAdmin && r.id = id
  | .deleteUser id => t.rows.any fun r => r.isAdmin && r.id = id
  | _ => false

/-- When a statement takes an administrator away, no call but its own has passed its
guard and not written yet. -/
def Alone (w : AuthWorld) (gs : List Clearance) (e : Event AuthHost) : Prop :=
  w.users.removes e.op = true → gs.countP Clearance.isCleared ≤ 1

def AuthPool.clearances (p : AuthPool) : List Clearance :=
  p.accounts Auth.clearances fun _ => .unknown

def RemovesAlone (p : AuthPool) (_ : AuthThread) (e : Event AuthHost) : Prop :=
  Alone p.state p.clearances e

instance (p : AuthPool) (th : AuthThread) (e : Event AuthHost) : Decidable (RemovesAlone p th e) :=
  inferInstanceAs (Decidable (_ → _))

/-- There is an administrator, and besides each user whose removal a guard has let pass
there is another one. -/
structure Guarded (w : AuthWorld) (gs : List Clearance) : Prop where
  one : w.users.HasAdmin
  other : ∀ id, .cleared id ∈ gs → w.users.OtherAdmin id

section Tables

variable {t : UserTable} {id : Int}

theorem otherAdmin_of_count (h : 1 < t.countAdmins) (id : Int) : t.OtherAdmin id := by
  by_contra hNone
  have hOnly : ∀ i ∈ (t.rows.filter SystemUser.isAdmin).map SystemUser.id, i = id := by
    intro i hi
    obtain ⟨r, hr, rfl⟩ := List.mem_map.mp hi
    obtain ⟨hMem, hAdmin⟩ := List.mem_filter.mp hr
    by_contra hne
    exact hNone ⟨r, hMem, hAdmin, hne⟩
  have hNodup : ((t.rows.filter SystemUser.isAdmin).map SystemUser.id).Nodup :=
    t.ids.sublist (List.filter_sublist.map _)
  rw [List.eq_replicate_of_mem hOnly, List.nodup_replicate, List.length_map,
    ← List.countP_eq_length_filter] at hNodup
  have hCount : (1 : Int) < t.rows.countP SystemUser.isAdmin := h
  omega

theorem otherAdmin_of_hasAdmin (h : t.HasAdmin) {r : SystemUser} (hr : r ∈ t.rows)
    (hRole : r.role ≠ adminRole) : t.OtherAdmin r.id := by
  obtain ⟨a, ha, hAdmin⟩ := h
  refine ⟨a, ha, hAdmin, fun hSame => hRole ?_⟩
  rw [← UserTable.eq_of_id ha hr hSame]
  exact of_decide_eq_true hAdmin

theorem promoted {r : SystemUser} (hr : r ∈ t.rows) (hAdmin : r.isAdmin = true) :
    ∃ r' ∈ (t.updateRole id adminRole).rows, r'.isAdmin = true ∧ r'.id = r.id := by
  refine ⟨_, List.mem_map_of_mem hr, ?_⟩
  rw [SystemUser.withRole]
  split
  next => exact ⟨decide_eq_true rfl, rfl⟩
  next => exact ⟨hAdmin, rfl⟩

end Tables

section Steps

variable {w : AuthWorld} {g : Clearance} {gs : List Clearance} {id : Int} {users : UserTable}

/-- A call that has not passed its guard, or has already written. -/
theorem Guarded.forget {g' : Clearance} (h : Guarded w (g :: gs)) (hg : g'.isCleared = false) :
    Guarded w (g' :: gs) := by
  refine ⟨h.one, fun id hid => ?_⟩
  rcases List.mem_cons.mp hid with rfl | hid
  · exact absurd hg (by simp [Clearance.isCleared])
  · exact h.other id (List.mem_cons_of_mem _ hid)

theorem Guarded.pass (h : Guarded w (g :: gs)) (hOther : w.users.OtherAdmin id) :
    Guarded w (.cleared id :: gs) := by
  refine ⟨h.one, fun i hi => ?_⟩
  rcases List.mem_cons.mp hi with hi | hi
  · cases hi
    exact hOther
  · exact h.other i (List.mem_cons_of_mem _ hi)

theorem Guarded.promote (h : Guarded w (g :: gs)) :
    Guarded { w with users := w.users.updateRole id adminRole } (.unknown :: gs) := by
  have hForgot : Guarded w (.unknown :: gs) := h.forget rfl
  constructor
  · obtain ⟨r, hr, hAdmin⟩ := h.one
    obtain ⟨r', hr', hAdmin', -⟩ := promoted hr hAdmin
    exact ⟨r', hr', hAdmin'⟩
  · intro i hi
    obtain ⟨r, hr, hAdmin, hne⟩ := hForgot.other i hi
    obtain ⟨r', hr', hAdmin', hSame⟩ := promoted hr hAdmin
    exact ⟨r', hr', hAdmin', hSame ▸ hne⟩

/-- A statement that only touches the user its call was cleared for. -/
theorem Guarded.remove (h : Guarded w (.cleared id :: gs))
    (hKeeps : ∀ r ∈ w.users.rows, r.id ≠ id → r ∈ users.rows)
    (hAlone : (w.users.rows.any fun r => r.isAdmin && r.id = id) = true →
      (Clearance.cleared id :: gs).countP Clearance.isCleared ≤ 1) :
    Guarded { w with users := users } (.unknown :: gs) := by
  by_cases hAdmin : (w.users.rows.any fun r => r.isAdmin && r.id = id) = true
  · obtain ⟨r, hr, hIs, hne⟩ := h.other id List.mem_cons_self
    refine ⟨⟨r, hKeeps r hr hne, hIs⟩, fun i hi => ?_⟩
    have hCleared := List.countP_pos_iff.mpr
      ⟨_, List.mem_of_ne_of_mem (by simp) hi, (rfl : (Clearance.cleared i).isCleared = true)⟩
    have hOne := hAlone hAdmin
    rw [List.countP_cons_of_pos rfl] at hOne
    omega
  · have hNot : ∀ r ∈ w.users.rows, r.isAdmin = true → r.id ≠ id := by
      intro r hr hIs hSame
      exact hAdmin (List.any_eq_true.mpr ⟨r, hr, by simp [hIs, hSame]⟩)
    constructor
    · obtain ⟨r, hr, hIs⟩ := h.one
      exact ⟨r, hKeeps r hr (hNot r hr hIs), hIs⟩
    · intro i hi
      obtain ⟨r, hr, hIs, hne⟩ := h.other i (List.mem_cons_of_mem _
        (List.mem_of_ne_of_mem (by simp) hi))
      exact ⟨r, hKeeps r hr (hNot r hr hIs), hIs, hne⟩

theorem Guarded.found (h : Guarded w (g :: gs)) {row : Option SystemUser}
    (hRow : ∀ r, row = some r → r ∈ w.users.rows ∧ r.id = id) :
    Guarded w (.found id row :: gs) := by
  cases row with
  | none => exact h.forget rfl
  | some r =>
    obtain ⟨hr, rfl⟩ := hRow r rfl
    rw [Clearance.found]
    split
    next hRole => exact h.pass (otherAdmin_of_hasAdmin h.one hr hRole)
    next => exact h.forget rfl

theorem Guarded.counted (h : Guarded w (g :: gs)) {n : Option Int}
    (hCount : ∀ m, n = some m → m = w.users.countAdmins) : Guarded w (g.counted n :: gs) := by
  cases g with
  | unknown | cleared => exact h.forget rfl
  | admin id =>
    cases n with
    | none => exact h.forget rfl
    | some n =>
      rw [Clearance.counted]
      split
      next => exact h.forget rfl
      next hMore => exact h.pass (otherAdmin_of_count (hCount n rfl ▸ not_le.mp hMore) id)

theorem guarded_kept : clearances.KeptIf authMachine (fun _ : AuthCall => .unknown) Alone
    Guarded where
  perm hPerm h := ⟨h.one, fun id hid => h.other id (hPerm.mem_iff.mpr hid)⟩
  condPerm hPerm h hRemoves := (hPerm.countP_eq _) ▸ h hRemoves
  fresh _ h := ⟨h.one, fun id hid => h.other id (List.mem_of_ne_of_mem (by simp) hid)⟩
  step := by
    intro w g gs e w' h hAlone hPermit _ hExec
    cases authStep_of_exec hExec with
    | named | random | time | looked | put | dropped => exact ⟨h.one, h.other⟩
    | found hRow => exact h.found hRow
    | counted hCount => exact h.counted hCount
    | unchanged | kept => exact h.forget rfl
    | @updated id role ok =>
      by_cases hRole : role = adminRole
      · subst hRole
        exact h.promote
      · obtain rfl := hPermit.resolve_left hRole
        refine h.remove (fun r hr hne => UserTable.mem_updateRole hr hne) fun hAdmin => ?_
        exact hAlone (by simpa [UserTable.removes, hRole] using hAdmin)
    | @deleted id ok =>
      obtain rfl : g = .cleared id := hPermit
      exact h.remove (fun r hr hne => UserTable.mem_delete hr hne) hAlone

end Steps

/-- In every run in which an administrator is taken away only while no other call has
passed its guard and not written yet: if there was an administrator, there is one. -/
theorem administrator_remains {compareHash : Str → Str → Bool} {w : AuthWorld} {q : AuthPool}
    (h : (authSystem compareHash).Reach (fun _ _ => True) RemovesAlone ⟨w, []⟩ q)
    (hAdmin : w.users.HasAdmin) : q.state.users.HasAdmin := by
  obtain ⟨hGuarded, -⟩ := h.accountsIf (Q := fun _ _ _ => True) guarded_kept
    (fun call => obeys_serve call) (fun _ _ _ _ _ _ _ _ => trivial) (fun _ _ _ h => h) rfl
    ⟨hAdmin, fun _ hid => absurd hid List.not_mem_nil⟩
  exact hGuarded.one

/-- One administrator is deleted, and the other one's demotion is refused. -/
def servedPool : AuthPool :=
  ((authSystem fun _ _ => true).play (fun _ _ => true) (fun p th e => decide (RemovesAlone p th e))
    [.begin (.deleteUser 2), .begin (.setRole 1 "user".toList), .run 0 3 (authAt 0),
      .run 1 2 (authAt 0)] ⟨⟨twoAdmins, [], 0⟩, []⟩).get rfl

theorem administrator_remains_alice : servedPool.state.users.rows.length = 1 ∧
    servedPool.state.users.HasAdmin := by
  have hReach : (authSystem fun _ _ => true).Reach (fun _ _ => True) RemovesAlone
      ⟨⟨twoAdmins, [], 0⟩, []⟩ servedPool :=
    System.reach_get_play (fun _ _ _ => trivial) (fun _ _ _ h => of_decide_eq_true h) rfl
  exact ⟨rfl, administrator_remains hReach (by decide)⟩

/-- Two administrators are removed at the same time: both guards are passed before either
statement runs. -/
def crossedPool : AuthPool :=
  ((authSystem fun _ _ => true).play (fun _ _ => true) (fun _ _ _ => true)
    [.begin (.deleteUser 2), .begin (.setRole 1 "user".toList), .run 0 2 (authAt 0),
      .run 1 2 (authAt 0), .run 0 1 (authAt 0), .run 1 1 (authAt 0)]
    ⟨⟨twoAdmins, [], 0⟩, []⟩).get rfl

theorem administrators_gone : twoAdmins.HasAdmin ∧
    (authSystem fun _ _ => true).Reach (fun _ _ => True) (fun _ _ _ => True)
      ⟨⟨twoAdmins, [], 0⟩, []⟩ crossedPool ∧
    (∀ th ∈ crossedPool.threads, ∃ reply, th.prog = .ret reply) ∧
    ¬ crossedPool.state.users.HasAdmin := by
  refine ⟨by decide, System.reach_get_play (fun _ _ _ => trivial) (fun _ _ _ _ => trivial) rfl,
    ?_, by decide⟩
  exact List.forall_mem_cons.mpr ⟨⟨.administered none, rfl⟩,
    List.forall_mem_cons.mpr ⟨⟨.administered none, rfl⟩, fun _ h => absurd h List.not_mem_nil⟩⟩

end Moduless.Auth
