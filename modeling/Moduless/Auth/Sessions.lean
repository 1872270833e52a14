import Moduless.Auth.Store

/-!
What a session token stands for over a sequence of calls.

`Login` copies the row of the user into the session, and nothing visits the session
again before it ends. The token therefore speaks of the table as it was at that
`Login`.
-/

namespace Moduless.Auth
open Go Interaction Machine
open PluginHost (User)

/-- The table has a user with the id and the role. -/
def UserTable.Holds (t : UserTable) (u : User) : Prop := ∃ r ∈ t.rows, r.id = u.id ∧ r.role = u.role

instance (t : UserTable) (u : User) : Decidable (t.Holds u) :=
  inferInstanceAs (Decidable (∃ r ∈ t.rows, _))

/-- The call asks for a change of the user's row. -/
def AuthCall.Administers (id : Int) : AuthCall → Prop
  | .setRole i _ | .deleteUser i => i = id
  | _ => False

inductive Effect (w : AuthWorld) : AuthCall → AuthReply → AuthWorld → Prop
  | issued {username password token : Str} {user : User} {now : Int} : w.users.Holds user →
      Effect w (.login username password) (.issued token user)
        ⟨w.users, w.sessions.set token ⟨user, now + ttl⟩, now⟩
  | notIssued {username password : Str} (e : LoginError) :
      Effect w (.login username password) (.loginFailed e) w
  | resolved {token : Str} {sess : Session} {now : Int} : w.sessions.get token = some sess →
      now ≤ sess.expiresAt →
      Effect w (.resolve token) (.resolved (some sess.user)) { w with clock := now }
  | unresolved {token : Str} : Effect w (.resolve token) (.resolved none) w
  | expired {token : Str} {now : Int} : Effect w (.resolve token) (.resolved none)
      ⟨w.users, w.sessions.delete token, now⟩
  | loggedOut {token : Str} :
      Effect w (.logout token) .loggedOut { w with sessions := w.sessions.delete token }
  | administered {call : AuthCall} {users : UserTable} (e : Option UserError) :
      (∀ u : User, ¬ call.Administers u.id → w.users.Holds u → users.Holds u) →
      Effect w call (.administered e) { w with users := users }

section Effects

variable {compareHash : Str → Str → Bool} {w w' : AuthWorld}

theorem holds_updateRole {t : UserTable} {id : Int} {role : Str} {u : User} (hne : u.id ≠ id)
    (h : t.Holds u) : (t.updateRole id role).Holds u := by
  obtain ⟨r, hr, hID, hRole⟩ := h
  exact ⟨r, UserTable.mem_updateRole hr (hID ▸ hne), hID, hRole⟩

theorem holds_delete {t : UserTable} {id : Int} {u : User} (hne : u.id ≠ id) (h : t.Holds u) :
    (t.delete id).Holds u := by
  obtain ⟨r, hr, hID, hRole⟩ := h
  exact ⟨r, UserTable.mem_delete hr (hID ▸ hne), hID, hRole⟩

theorem login_effect (username password : Str) :
    authMachine.Ensures w (login compareHash username password) fun out w' =>
      Effect w (.login username password) (.ofLogin out) w' := by
  refine ensures_auth fun found w₁ hFound => ?_
  cases hFound with
  | named hRow =>
    cases found with
    | none => exact ensures_ret.mpr (.notIssued _)
    | some row =>
      dsimp only
      split
      next =>
        refine ensures_bind.mpr (ensures_auth fun bytes w₁ hRand => ?_)
        cases hRand with
        | random =>
          cases bytes with
          | none => exact ensures_ret.mpr (ensures_ret.mpr (.notIssued _))
          | some b =>
            refine ensures_ret.mpr (ensures_auth fun now w₁ hTime => ?_)
            cases hTime with
            | time =>
              refine ensures_auth fun _ w₁ hPut => ?_
              cases hPut with
              | put => exact ensures_ret.mpr (.issued ⟨row, hRow row rfl, rfl, rfl⟩)
      next => exact ensures_ret.mpr (.notIssued _)

theorem resolve_effect (token : Str) :
    authMachine.Ensures w (resolve token) fun out w' =>
      Effect w (.resolve token) (.resolved out) w' := by
  rw [resolve]
  split
  next => exact ensures_ret.mpr .unresolved
  next =>
    refine ensures_auth fun found w₁ hLook => ?_
    cases hLook with
    | looked =>
      cases hSess : w.sessions.get token with
      | none => exact ensures_ret.mpr .unresolved
      | some sess =>
        refine ensures_auth fun (now : Int) w₁ hTime => ?_
        by_cases hLive : sess.expiresAt < now
        · rw [if_pos hLive]
          refine ensures_auth fun _ w₂ hDrop => ?_
          cases hTime with
          | time =>
            cases hDrop with
            | dropped => exact ensures_ret.mpr .expired
        · rw [if_neg hLive]
          cases hTime with
          | time => exact ensures_ret.mpr (.resolved hSess (not_lt.mp hLive))

theorem guard_reads (id : Int) :
    authMachine.Ensures w (ensureNotLastAdmin id) fun _ w' => w' = w := by
  refine ensures_auth fun found w₁ hFound => ?_
  cases hFound with
  | found =>
    cases found with
    | none => exact ensures_ret.mpr rfl
    | some row =>
      dsimp only
      split
      next => exact ensures_ret.mpr rfl
      next =>
        refine ensures_auth fun count w₁ hCount => ?_
        cases hCount with
        | counted =>
          cases count with
          | none => exact ensures_ret.mpr rfl
          | some n => exact ensures_ret.mpr rfl

theorem updateUserRole_effect (id : Int) (role : Str) :
    authMachine.Ensures w (updateUserRole id role) fun e w' =>
      Effect w (.setRole id role) (.administered e) w' := by
  refine ensures_auth fun ok w₁ hUpdate => ?_
  cases hUpdate with
  | unchanged => exact ensures_ret.mpr (.administered _ fun _ _ h => h)
  | updated => exact ensures_ret.mpr (.administered _ fun _ hne => holds_updateRole (Ne.symm hne))

theorem setRole_effect (id : Int) (role : Str) :
    authMachine.Ensures w (setRole id role) fun e w' =>
      Effect w (.setRole id role) (.administered e) w' := by
  rw [setRole]
  split
  next => exact ensures_ret.mpr (.administered _ fun _ _ h => h)
  next =>
    split
    next =>
      refine ensures_bind.mpr ((guard_reads id).mono fun refused w₁ hSame => ?_)
      subst hSame
      cases refused with
      | some e => exact ensures_ret.mpr (.administered _ fun _ _ h => h)
      | none => exact updateUserRole_effect id role
    next => exact updateUserRole_effect id role

theorem deleteUser_effect (id : Int) :
    authMachine.Ensures w (deleteUser id) fun e w' =>
      Effect w (.deleteUser id) (.administered e) w' := by
  refine ensures_bind.mpr ((guard_reads id).mono fun refused w₁ hSame => ?_)
  subst hSame
  cases refused with
  | some e => exact ensures_ret.mpr (.administered _ fun _ _ h => h)
  | none =>
    refine ensures_auth fun ok w₁ hDelete => ?_
    cases hDelete with
    | kept => exact ensures_ret.mpr (.administered _ fun _ _ h => h)
    | deleted => exact ensures_ret.mpr (.administered _ fun _ hne => holds_delete (Ne.symm hne))

theorem serve_effect (call : AuthCall) :
    authMachine.Ensures w (serve compareHash call) fun reply w' => Effect w call reply w' := by
  cases call with
  | login username password =>
    exact ensures_bind.mpr ((login_effect username password).mono fun _ _ => ensures_ret.mpr)
  | resolve token => exact ensures_bind.mpr ((resolve_effect token).mono fun _ _ => ensures_ret.mpr)
  | logout token =>
    refine ensures_bind.mpr (ensures_call.mpr fun _ w₁ hDrop => ?_)
    cases authStep_of_exec hDrop with
    | dropped => exact ensures_ret.mpr (ensures_ret.mpr .loggedOut)
  | setRole id role =>
    exact ensures_bind.mpr ((setRole_effect id role).mono fun _ _ => ensures_ret.mpr)
  | deleteUser id =>
    exact ensures_bind.mpr ((deleteUser_effect id).mono fun _ _ => ensures_ret.mpr)

end Effects

/-- A call that was served, with the world before and after it. -/
structure Served where
  call : AuthCall
  reply : AuthReply
  before : AuthWorld
  after : AuthWorld

/-- The call took the user with that role out of the table. -/
def Served.Revokes (x : Served) (user : User) : Prop :=
  x.call.Administers user.id ∧ x.before.users.Holds user ∧ ¬ x.after.users.Holds user

inductive Serves (compareHash : Str → Str → Bool) (w₀ : AuthWorld) :
    List Served → AuthWorld → Prop
  | nil : Serves compareHash w₀ [] w₀
  | snoc {steps : List Served} {w w' : AuthWorld} {call : AuthCall} {reply : AuthReply}
      {t : List (Event AuthHost)} : Serves compareHash w₀ steps w →
      authMachine.Runs w (serve compareHash call) t reply w' →
      Serves compareHash w₀ (steps ++ [⟨call, reply, w, w'⟩]) w'

/-- A session with the user was issued under the token, `between` is what happened since,
and the world is `w` now. -/
structure Issuance (w : AuthWorld) (token : Str) (user : User) (l : Served)
    (between : List Served) : Prop where
  login : ∃ username password, l.call = .login username password
  reply : l.reply = .issued token user
  held : l.before.users.Holds user
  still : (∀ x ∈ between, ¬ x.Revokes user) → w.users.Holds user

section Sequences

variable {compareHash : Str → Str → Bool} {w₀ w : AuthWorld} {steps before after : List Served}
  {s : Served} {token : Str}

theorem Serves.cut (h : Serves compareHash w₀ steps w) (hs : steps = before ++ s :: after) :
    Serves compareHash w₀ before s.before ∧ Effect s.before s.call s.reply s.after := by
  induction h generalizing after with
  | nil => simp at hs
  | @snoc steps w w' call reply t hServes hRuns ih =>
    rcases List.eq_nil_or_concat after with rfl | ⟨rest, x, rfl⟩
    · obtain ⟨rfl, hLast⟩ := List.append_inj' hs rfl
      cases hLast
      exact ⟨hServes, serve_effect call t reply w' hRuns⟩
    · rw [List.concat_eq_append, ← List.cons_append, ← List.append_assoc] at hs
      exact ih (List.append_inj' hs rfl).1

theorem Issuance.step {user : User} {l : Served} {between : List Served} {w' : AuthWorld}
    {call : AuthCall} {reply : AuthReply} (h : Issuance w token user l between)
    (hEffect : Effect w call reply w') :
    Issuance w' token user l (between ++ [⟨call, reply, w, w'⟩]) := by
  refine ⟨h.login, h.reply, h.held, fun hOthers => ?_⟩
  have hStill := h.still fun x hx => hOthers x (List.mem_append_left _ hx)
  by_contra hGone
  have hCall : ¬ call.Administers user.id := fun hCall =>
    hOthers ⟨call, reply, w, w'⟩ (by simp) ⟨hCall, hStill, hGone⟩
  refine hGone ?_
  cases hEffect with
  | administered _ hKeeps => exact hKeeps user hCall hStill
  | issued | notIssued | resolved | unresolved | expired | loggedOut => exact hStill

theorem Effect.session {w' : AuthWorld} {call : AuthCall} {reply : AuthReply} {sess : Session}
    (h : Effect w call reply w') (hSess : w'.sessions.get token = some sess) :
    w.sessions.get token = some sess ∨
      sess.expiresAt = w'.clock + ttl ∧
        Issuance w' token sess.user ⟨call, reply, w, w'⟩ [] := by
  cases h with
  | @issued username password issued user now hHolds =>
    rw [GoMap.get_set] at hSess
    split at hSess
    next hToken =>
      cases hSess
      subst hToken
      exact .inr ⟨rfl, ⟨username, password, rfl⟩, rfl, hHolds, fun _ => hHolds⟩
    next => exact .inl hSess
  | expired | loggedOut =>
    rw [GoMap.get_delete] at hSess
    split at hSess
    next => cases hSess
    next => exact .inl hSess
  | notIssued | resolved | unresolved | administered => exact .inl hSess

/-- Every session goes back to the call that issued it. -/
theorem Serves.issued (h : Serves compareHash w₀ steps w) (hFresh : w₀.sessions = [])
    {sess : Session} (hSess : w.sessions.get token = some sess) :
    ∃ earlier l between, steps = earlier ++ l :: between ∧
      sess.expiresAt = l.after.clock + ttl ∧ Issuance w token sess.user l between := by
  induction h with
  | nil => simp [hFresh] at hSess
  | @snoc steps w w' call reply t hServes hRuns ih =>
    have hEffect := serve_effect call t reply w' hRuns
    rcases hEffect.session hSess with hOld | ⟨hExpires, hNew⟩
    · obtain ⟨earlier, l, between, rfl, hExpires, hIssued⟩ := ih hOld
      exact ⟨earlier, l, between ++ [⟨call, reply, w, w'⟩], by simp, hExpires,
        hIssued.step hEffect⟩
    · exact ⟨steps, _, [], rfl, hExpires, hNew⟩

/-- Whenever `Resolve` gives a user for a token, the token was issued with that user by a
`Login` at most 24 hours earlier. The table had the user with that role then, and has it
now unless a `SetRole` or `DeleteUser` in between took it out. -/
theorem resolved_as_issued {user : User} (h : Serves compareHash w₀ steps w)
    (hFresh : w₀.sessions = []) (hs : steps = before ++ s :: after)
    (hCall : s.call = .resolve token) (hReply : s.reply = .resolved (some user)) :
    ∃ earlier l between, before = earlier ++ l :: between ∧
      (∃ username password, l.call = .login username password) ∧
      l.reply = .issued token user ∧ s.after.clock ≤ l.after.clock + ttl ∧
      l.before.users.Holds user ∧
      ((∀ x ∈ between, ¬ x.Revokes user) → s.after.users.Holds user) := by
  obtain ⟨hBefore, hEffect⟩ := h.cut hs
  rw [hCall, hReply] at hEffect
  generalize hAfter : s.after = w' at hEffect
  cases hEffect with
  | @resolved _ sess now hSess hLive =>
    obtain ⟨earlier, l, between, hSplit, hExpires, hIssued⟩ := hBefore.issued hFresh hSess
    exact ⟨earlier, l, between, hSplit, hIssued.login, hIssued.reply, hExpires ▸ hLive,
      hIssued.held, hIssued.still⟩

end Sequences

/-- Calls served one after another under given choices, after the given steps. -/
def serveAll (compareHash : Str → Str → Bool) :
    List (AuthCall × ((o : AuthOp) → o.Choice)) → List Served → AuthWorld →
      Option (List Served × AuthWorld)
  | [], steps, w => some (steps, w)
  | (call, choice) :: rest, steps, w =>
    match authMachine.replay choice w (serve compareHash call) with
    | none => none
    | some (_, reply, w') => serveAll compareHash rest (steps ++ [⟨call, reply, w, w'⟩]) w'

theorem Serves.all {compareHash : Str → Str → Bool}
    {calls : List (AuthCall × ((o : AuthOp) → o.Choice))} {w₀ w w' : AuthWorld}
    {steps steps' : List Served} (h : Serves compareHash w₀ steps w)
    (hAll : serveAll compareHash calls steps w = some (steps', w')) :
    Serves compareHash w₀ steps' w' := by
  induction calls generalizing steps w with
  | nil =>
    cases hAll
    exact h
  | cons c calls ih =>
    rw [serveAll] at hAll
    split at hAll
    next => cases hAll
    next t reply w₁ hReplay => exact ih (h.snoc (runs_of_replay hReplay)) hAll

theorem serves_get {compareHash : Str → Str → Bool}
    {calls : List (AuthCall × ((o : AuthOp) → o.Choice))} {w : AuthWorld}
    (h : (serveAll compareHash calls [] w).isSome = true) :
    Serves compareHash w ((serveAll compareHash calls [] w).get h).1
      ((serveAll compareHash calls [] w).get h).2 :=
  Serves.nil.all (Option.some_get h).symm

def bobAsAdmin : User := ⟨2, "bob".toList, adminRole⟩

/-- The token of a random source that gives zeros. -/
def zeroToken : Str := hexEncode (List.replicate 32 0)

/-- Bob logs in, a role is refused, another is the one they have, and the session is resolved
an hour later. -/
def visitedRun : List Served × AuthWorld :=
  (serveAll (fun _ _ => true)
    [(.login "bob".toList "secret".toList, authAt 0), (.setRole 2 [], authAt 1),
      (.setRole 2 adminRole, authAt 2), (.resolve zeroToken, authAt (3600 * 1000000000))] []
    ⟨twoAdmins, [], 0⟩).get rfl

theorem resolved_as_issued_bob : ∃ s ∈ visitedRun.1, s.reply = .resolved (some bobAsAdmin) ∧
    s.after.users.Holds bobAsAdmin := by
  have hServes : Serves (fun _ _ => true) ⟨twoAdmins, [], 0⟩ visitedRun.1 visitedRun.2 :=
    serves_get rfl
  have hLast : visitedRun.1 = visitedRun.1.take 3 ++ [visitedRun.1[3]] := rfl
  have hCall : visitedRun.1[3].call = .resolve zeroToken := rfl
  have hReply : visitedRun.1[3].reply = .resolved (some bobAsAdmin) := rfl
  have hKept : ∀ x ∈ visitedRun.1.take 3, x.after.users.Holds bobAsAdmin := by decide
  obtain ⟨earlier, l, between, hSplit, -, -, -, -, hStill⟩ :=
    resolved_as_issued hServes rfl hLast hCall hReply
  refine ⟨_, List.getElem_mem _, hReply, hStill fun x hx hRevokes => hRevokes.2.2 (hKept x ?_)⟩
  rw [hSplit]
  exact List.mem_append_right _ (.tail _ hx)

/-- Bob logs in, loses the role, and the session is resolved. -/
def demotedRun : List Served × AuthWorld :=
  (serveAll (fun _ _ => true)
    [(.login "bob".toList "secret".toList, authAt 0), (.setRole 2 "user".toList, authAt 1),
      (.resolve zeroToken, authAt 2)] [] ⟨twoAdmins, [], 0⟩).get rfl

theorem resolved_after_demotion :
    Serves (fun _ _ => true) ⟨twoAdmins, [], 0⟩ demotedRun.1 demotedRun.2 ∧
    ∃ s ∈ demotedRun.1, s.call = .resolve zeroToken ∧ s.reply = .resolved (some bobAsAdmin) ∧
      ¬ s.after.users.Holds bobAsAdmin :=
  ⟨serves_get rfl, _, List.mem_of_getElem? (i := 2) rfl, rfl, rfl, by decide⟩

end Moduless.Auth
