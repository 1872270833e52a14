import Moduless.Go.Json
import Moduless.PluginHost.Host
import Moduless.DB.Locking

/-!
The table of users and the store of sessions.

Each statement is a step of its own: nothing here runs in a transaction. A statement
may fail, and a write may take effect although its answer is an error. The comparison
of a password with its hash is a parameter. Times are in nanoseconds.
-/

namespace Moduless.Auth
open Go Interaction
open PluginHost (User)
open DB (Delivery)

/-- A row of `system_users`. -/
structure SystemUser where
  id : Int
  username : Str
  passwordHash : Str
  role : Str
  deriving DecidableEq

def adminRole : Str := "admin".toList

def SystemUser.isAdmin (r : SystemUser) : Bool := r.role = adminRole

/-- The row with another role if it is the one with the id. -/
def SystemUser.withRole (id : Int) (role : Str) (r : SystemUser) : SystemUser :=
  if r.id = id then { r with role := role } else r

/-- The id is the primary key, and names are unique. -/
structure UserTable where
  rows : List SystemUser
  ids : (rows.map SystemUser.id).Nodup
  usernames : (rows.map SystemUser.username).Nodup

namespace UserTable

def byUsername (t : UserTable) (username : Str) : Option SystemUser :=
  t.rows.find? (·.username = username)

def byID (t : UserTable) (id : Int) : Option SystemUser := t.rows.find? (·.id = id)

def countAdmins (t : UserTable) : Int := t.rows.countP SystemUser.isAdmin

/-- `UPDATE system_users SET role = $2 WHERE id = $1`. -/
def updateRole (t : UserTable) (id : Int) (role : Str) : UserTable where
  rows := t.rows.map (SystemUser.withRole id role)
  ids := by
    have hSame : SystemUser.id ∘ SystemUser.withRole id role = SystemUser.id := by
      funext r
      simp only [Function.comp, SystemUser.withRole]
      split <;> rfl
    rw [List.map_map, hSame]
    exact t.ids
  usernames := by
    have hSame : SystemUser.username ∘ SystemUser.withRole id role = SystemUser.username := by
      funext r
      simp only [Function.comp, SystemUser.withRole]
      split <;> rfl
    rw [List.map_map, hSame]
    exact t.usernames

/-- `DELETE FROM system_users WHERE id = $1`. -/
def delete (t : UserTable) (id : Int) : UserTable where
  rows := t.rows.filter (·.id ≠ id)
  ids := t.ids.sublist (List.filter_sublist.map _)
  usernames := t.usernames.sublist (List.filter_sublist.map _)

theorem eq_of_id {t : UserTable} {a b : SystemUser} (ha : a ∈ t.rows) (hb : b ∈ t.rows)
    (h : a.id = b.id) : a = b :=
  List.inj_on_of_nodup_map t.ids ha hb h

theorem mem_of_byID {t : UserTable} {id : Int} {r : SystemUser} (h : t.byID id = some r) :
    r ∈ t.rows ∧ r.id = id := by
  have hRow := List.find?_some h
  exact ⟨List.mem_of_find?_eq_some h, of_decide_eq_true hRow⟩

theorem mem_updateRole {t : UserTable} {id : Int} {role : Str} {r : SystemUser}
    (hr : r ∈ t.rows) (hne : r.id ≠ id) : r ∈ (t.updateRole id role).rows :=
  List.mem_map.mpr ⟨r, hr, if_neg hne⟩

theorem mem_delete {t : UserTable} {id : Int} {r : SystemUser}
    (hr : r ∈ t.rows) (hne : r.id ≠ id) : r ∈ (t.delete id).rows :=
  List.mem_filter.mpr ⟨hr, decide_eq_true hne⟩

end UserTable

structure Session where
  user : User
  expiresAt : Int
  deriving DecidableEq

structure AuthWorld where
  users : UserTable
  sessions : GoMap Str Session
  clock : Int

inductive AuthOp where
  | getUserByUsername (username : Str)
  | getUserByID (id : Int)
  | countAdmins
  | updateUserRole (id : Int) (role : Str)
  | deleteUser (id : Int)
  | randRead
  | timeNow
  | session (token : Str)
  | putSession (token : Str) (sess : Session)
  | dropSession (token : Str)
  deriving DecidableEq

/-- A statement that finds no row and one that fails are the same to the callers. -/
@[reducible] def AuthOp.Ans : AuthOp → Type
  | .getUserByUsername _ | .getUserByID _ => Option SystemUser
  | .countAdmins => Option Int
  | .updateUserRole _ _ | .deleteUser _ => Bool
  | .randRead => Option (Fin 32 → UInt8)
  | .timeNow => Int
  | .session _ => Option Session
  | .putSession _ _ | .dropSession _ => Unit

/-- Whether a statement that reads is answered, what becomes of one that writes, what the
random source gives and what time it is. -/
@[reducible] def AuthOp.Choice : AuthOp → Type
  | .getUserByUsername _ | .getUserByID _ | .countAdmins => Bool
  | .updateUserRole _ _ | .deleteUser _ => Delivery
  | .randRead => Option (Fin 32 → UInt8)
  | .timeNow => Int
  | .session _ | .putSession _ _ | .dropSession _ => Unit

def AuthHost : Interface := ⟨AuthOp, AuthOp.Ans⟩

namespace AuthWorld

def write (w : AuthWorld) (users : UserTable) : Delivery → Bool × AuthWorld
  | .answered => (true, { w with users := users })
  | .aborted => (false, w)
  | .lost => (false, { w with users := users })

def exec (w : AuthWorld) : (o : AuthOp) → o.Choice → Option (o.Ans × AuthWorld)
  | .getUserByUsername username, answered =>
    some (if answered then w.users.byUsername username else none, w)
  | .getUserByID id, answered => some (if answered then w.users.byID id else none, w)
  | .countAdmins, answered => some (if answered then some w.users.countAdmins else none, w)
  | .updateUserRole id role, fate => some (w.write (w.users.updateRole id role) fate)
  | .deleteUser id, fate => some (w.write (w.users.delete id) fate)
  | .randRead, bytes => some (bytes, w)
  | .timeNow, now => if now < w.clock then none else some (now, { w with clock := now })
  | .session token, _ => some (w.sessions.get token, w)
  | .putSession token sess, _ => some ((), { w with sessions := w.sessions.set token sess })
  | .dropSession token, _ => some ((), { w with sessions := w.sessions.delete token })

end AuthWorld

def authMachine : Machine AuthHost AuthWorld := ⟨AuthOp.Choice, AuthWorld.exec⟩

abbrev AuthM := Program AuthHost

def auth (o : AuthOp) : AuthM o.Ans := Program.perform (I := AuthHost) o

inductive LoginError where
  | invalidCredentials
  | rand
  deriving DecidableEq

inductive UserError where
  | roleRequired
  | userMissing
  | countAdmins
  | lastAdmin
  | statement
  deriving DecidableEq

/-- The lifetime `NewStore` gives a session: 24 hours. -/
def ttl : Int := 24 * 3600 * 1000000000

/-- `hex.EncodeToString`. -/
def hexEncode (bytes : List UInt8) : Str :=
  bytes.flatMap fun b => [Json.hexDigit (b.toNat / 16), Json.hexDigit (b.toNat % 16)]

def newToken : AuthM (Option Str) := do
  let bytes ← auth .randRead
  pure (bytes.map fun b => hexEncode (List.ofFn b))

/-- `Store.Login`; `compareHash` is bcrypt's comparison of a hash with a password. -/
def login (compareHash : Str → Str → Bool) (username password : Str) :
    AuthM (Except LoginError (Str × User)) := do
  let found ← auth (.getUserByUsername username)
  match found with
  | none => pure (.error .invalidCredentials)
  | some row =>
    if compareHash row.passwordHash password then do
      let token ← newToken
      match token with
      | none => pure (.error .rand)
      | some token => do
          let user : User := ⟨row.id, row.username, row.role⟩
          let now ← auth .timeNow
          auth (.putSession token ⟨user, now + ttl⟩)
          pure (.ok (token, user))
    else pure (.error .invalidCredentials)

def resolve (token : Str) : AuthM (Option User) :=
  if token = [] then pure none
  else do
    let found ← auth (.session token)
    match found with
    | none => pure none
    | some sess => do
        let now ← auth .timeNow
        if sess.expiresAt < now then do
          auth (.dropSession token)
          pure none
        else pure (some sess.user)

def logout (token : Str) : AuthM Unit := auth (.dropSession token)

/-- `nil` is `none`. -/
def ensureNotLastAdmin (id : Int) : AuthM (Option UserError) := do
  let found ← auth (.getUserByID id)
  match found with
  | none => pure (some .userMissing)
  | some row =>
    if row.role ≠ adminRole then pure none
    else do
      let count ← auth .countAdmins
      match count with
      | none => pure (some .countAdmins)
      | some n => pure (if n ≤ 1 then some .lastAdmin else none)

/-- What a statement that writes answers, as an error. -/
def ofStatement (ok : Bool) : Option UserError := if ok then none else some .statement

def updateUserRole (id : Int) (role : Str) : AuthM (Option UserError) := do
  let ok ← auth (.updateUserRole id role)
  pure (ofStatement ok)

def setRole (id : Int) (role : Str) : AuthM (Option UserError) :=
  if role = [] then pure (some .roleRequired)
  else if role ≠ adminRole then do
    let refused ← ensureNotLastAdmin id
    match refused with
    | some e => pure (some e)
    | none => updateUserRole id role
  else updateUserRole id role

def deleteUser (id : Int) : AuthM (Option UserError) := do
  let refused ← ensureNotLastAdmin id
  match refused with
  | some e => pure (some e)
  | none => do
      let ok ← auth (.deleteUser id)
      pure (ofStatement ok)

inductive AuthCall where
  | login (username password : Str)
  | resolve (token : Str)
  | logout (token : Str)
  | setRole (id : Int) (role : Str)
  | deleteUser (id : Int)
  deriving DecidableEq

inductive AuthReply where
  | issued (token : Str) (user : User)
  | loginFailed (e : LoginError)
  | resolved (user : Option User)
  | loggedOut
  | administered (e : Option UserError)
  deriving DecidableEq

def AuthReply.ofLogin : Except LoginError (Str × User) → AuthReply
  | .ok (token, user) => .issued token user
  | .error e => .loginFailed e

def serve (compareHash : Str → Str → Bool) : AuthCall → AuthM AuthReply
  | .login username password => AuthReply.ofLogin <$> login compareHash username password
  | .resolve token => AuthReply.resolved <$> resolve token
  | .logout token => (fun _ => .loggedOut) <$> logout token
  | .setRole id role => AuthReply.administered <$> setRole id role
  | .deleteUser id => AuthReply.administered <$> deleteUser id

def twoAdmins : UserTable where
  rows := [⟨1, "alice".toList, [], adminRole⟩, ⟨2, "bob".toList, [], adminRole⟩]
  ids := by decide
  usernames := by decide

/-- Choices under which every statement is answered, at a given time. -/
def authAt (now : Int) : (o : AuthOp) → o.Choice
  | .getUserByUsername _ | .getUserByID _ | .countAdmins => true
  | .updateUserRole _ _ | .deleteUser _ => .answered
  | .randRead => some fun _ => 0
  | .timeNow => now
  | .session _ | .putSession _ _ | .dropSession _ => ()

section Steps

variable {w w' : AuthWorld}

inductive AuthStep (w : AuthWorld) : Event AuthHost → AuthWorld → Prop
  | named {username : Str} {row : Option SystemUser} : (∀ r, row = some r → r ∈ w.users.rows) →
      AuthStep w ⟨.getUserByUsername username, row⟩ w
  | found {id : Int} {row : Option SystemUser} :
      (∀ r, row = some r → r ∈ w.users.rows ∧ r.id = id) → AuthStep w ⟨.getUserByID id, row⟩ w
  | counted {n : Option Int} : (∀ m, n = some m → m = w.users.countAdmins) →
      AuthStep w ⟨.countAdmins, n⟩ w
  | unchanged {id : Int} {role : Str} : AuthStep w ⟨.updateUserRole id role, false⟩ w
  | updated {id : Int} {role : Str} (ok : Bool) : AuthStep w ⟨.updateUserRole id role, ok⟩
      { w with users := w.users.updateRole id role }
  | kept {id : Int} : AuthStep w ⟨.deleteUser id, false⟩ w
  | deleted {id : Int} (ok : Bool) : AuthStep w ⟨.deleteUser id, ok⟩
      { w with users := w.users.delete id }
  | random (bytes : Option (Fin 32 → UInt8)) : AuthStep w ⟨.randRead, bytes⟩ w
  | time {now : Int} : w.clock ≤ now → AuthStep w ⟨.timeNow, now⟩ { w with clock := now }
  | looked (token : Str) : AuthStep w ⟨.session token, w.sessions.get token⟩ w
  | put (token : Str) (sess : Session) : AuthStep w ⟨.putSession token sess, ()⟩
      { w with sessions := w.sessions.set token sess }
  | dropped (token : Str) : AuthStep w ⟨.dropSession token, ()⟩
      { w with sessions := w.sessions.delete token }

theorem authStep_of_exec {e : Event AuthHost} (h : authMachine.Exec w e w') : AuthStep w e w' := by
  obtain ⟨o, r⟩ := e
  obtain ⟨choice, hExec⟩ := h
  have hExec : w.exec o choice = some (r, w') := hExec
  cases o with
  | getUserByUsername username =>
    cases choice with
    | false =>
      cases hExec
      exact .named (by simp)
    | true =>
      cases hExec
      exact .named fun _ hRow => List.mem_of_find?_eq_some hRow
  | getUserByID id =>
    cases choice with
    | false =>
      cases hExec
      exact .found (by simp)
    | true =>
      cases hExec
      exact .found fun _ hRow => UserTable.mem_of_byID hRow
  | countAdmins =>
    cases choice with
    | false =>
      cases hExec
      exact .counted (by simp)
    | true =>
      cases hExec
      exact .counted fun _ hCount => (Option.some.inj hCount).symm
  | updateUserRole id role =>
    cases choice with
    | answered =>
      cases hExec
      exact .updated true
    | aborted =>
      cases hExec
      exact .unchanged
    | lost =>
      cases hExec
      exact .updated false
  | deleteUser id =>
    cases choice with
    | answered =>
      cases hExec
      exact .deleted true
    | aborted =>
      cases hExec
      exact .kept
    | lost =>
      cases hExec
      exact .deleted false
  | randRead =>
    cases hExec
    exact .random _
  | timeNow =>
    simp only [AuthWorld.exec] at hExec
    split at hExec
    next => cases hExec
    next hClock =>
      cases hExec
      exact .time (not_lt.mp hClock)
  | session token =>
    cases hExec
    exact .looked token
  | putSession token sess =>
    cases hExec
    exact .put token sess
  | dropSession token =>
    cases hExec
    exact .dropped token

/-- The rule for a program that starts with an operation. -/
theorem ensures_auth {α : Type} {o : AuthOp} {f : o.Ans → AuthM α} {Q : α → AuthWorld → Prop}
    (h : ∀ r w', AuthStep w ⟨o, r⟩ w' → authMachine.Ensures w' (f r) Q) :
    authMachine.Ensures w (auth o >>= f) Q :=
  Machine.ensures_call.mpr fun r w' hExec => h r w' (authStep_of_exec hExec)

end Steps
end Moduless.Auth
