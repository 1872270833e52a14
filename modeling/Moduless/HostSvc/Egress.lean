import Moduless.HostSvc.BlockedIP
import Moduless.Interaction.Program

/-!
How Core opens a connection for a plugin.

`guardedDial` is a program over the three calls it makes into Go's `net` package. What the
resolver returns and which addresses can be connected to are left open. An address is
dialled in its text form; the text of a mapped address is that of the IPv4 address.
-/

namespace Moduless.Egress
open Go Interaction Program

abbrev Conn := Nat

inductive DialOp where
  | splitHostPort (addr : Str)
  | lookupIPAddr (host : Str)
  | dialContext (network : Str) (ip : IP) (port : Str)

@[reducible] def DialOp.Ans : DialOp → Type
  | .splitHostPort _ => Except Str (Str × Str)
  | .lookupIPAddr _ => Except Str (List IP)
  | .dialContext _ _ _ => Except Str Conn

def Network : Interface := ⟨DialOp, DialOp.Ans⟩

/-- What `guardedDial` returns: an error of a call, or `ErrEgressNotAllowed` with the address
it refused and the reason, or with the host that has no usable address. -/
inductive DialError where
  | call (text : Str)
  | refusing (ip : IP) (why : Str)
  | noUsableAddress (host : Str)
  deriving DecidableEq

def onNetwork (o : DialOp) : Program Network o.Ans := perform (I := Network) o

/-- The loop over the resolved addresses, with the last error. -/
def dialFirst (network host port : Str) (lastErr : Option DialError) :
    List IP → Program Network (Except DialError Conn)
  | [] => pure (.error (lastErr.getD (.noUsableAddress host)))
  | ip :: rest =>
    if (blockedIP ip).1 then
      dialFirst network host port (some (.refusing ip (blockedIP ip).2)) rest
    else do
      match ← onNetwork (.dialContext network ip port) with
      | .ok conn => pure (.ok conn)
      | .error e => dialFirst network host port (some (.call e)) rest

def guardedDial (network addr : Str) : Program Network (Except DialError Conn) := do
  match ← onNetwork (.splitHostPort addr) with
  | .error e => pure (.error (.call e))
  | .ok (host, port) =>
    match ← onNetwork (.lookupIPAddr host) with
    | .error e => pure (.error (.call e))
    | .ok ips => dialFirst network host port none ips

def Opens (t : List (Event Network)) (ip : IP) : Prop :=
  ∃ network port conn, (⟨.dialContext network ip port, .ok conn⟩ : Event Network) ∈ t

def Resolves (t : List (Event Network)) (ips : List IP) : Prop :=
  ∃ host, (⟨.lookupIPAddr host, .ok ips⟩ : Event Network) ∈ t

/-- The address of every call is one of `ips`, and is not blocked. -/
def Unblocked (ips : List IP) : DialOp → Prop
  | .dialContext _ ip _ => ip ∈ ips ∧ (blockedIP ip).1 = false
  | .splitHostPort _ | .lookupIPAddr _ => False

section Dialling

variable {network host port addr : Str} {ips : List IP} {lastErr : Option DialError}
  {t : List (Event Network)} {r : Except DialError Conn}

theorem dialFirst_unblocked (all : List IP) (hAll : ∀ ip ∈ ips, ip ∈ all) :
    (dialFirst network host port lastErr ips).Uses (Unblocked all) := by
  induction ips generalizing lastErr with
  | nil => trivial
  | cons ip rest ih =>
    have hRest : ∀ ip' ∈ rest, ip' ∈ all := fun ip' h => hAll ip' (List.mem_cons_of_mem _ h)
    rw [dialFirst]
    by_cases hBlocked : (blockedIP ip).1 = true
    · rw [if_pos hBlocked]
      exact ih hRest
    · rw [if_neg hBlocked]
      refine ⟨⟨hAll ip List.mem_cons_self, Bool.eq_false_iff.mpr hBlocked⟩, fun answer => ?_⟩
      cases answer with
      | ok conn => trivial
      | error e => exact ih hRest

theorem dialFirst_opens (network host port : Str) (lastErr : Option DialError) {ip : IP}
    (hMem : ip ∈ ips) (hOpen : (blockedIP ip).1 = false) (conn : Conn) :
    ∃ t, (dialFirst network host port lastErr ips).Finishes t (.ok conn) ∧ Opens t ip := by
  induction ips generalizing lastErr with
  | nil => cases hMem
  | cons first rest ih =>
    rw [dialFirst]
    by_cases hBlocked : (blockedIP first).1 = true
    · rw [if_pos hBlocked]
      apply ih (some (.refusing first (blockedIP first).2))
      cases List.mem_cons.mp hMem with
      | inl hFirst =>
        rw [hFirst, hBlocked] at hOpen
        cases hOpen
      | inr hRest => exact hRest
    · rw [if_neg hBlocked]
      cases List.mem_cons.mp hMem with
      | inl hFirst =>
        rw [hFirst]
        refine ⟨[⟨.dialContext network first port, .ok conn⟩], .step (.stay _), ?_⟩
        exact ⟨network, port, conn, List.mem_cons_self⟩
      | inr hRest =>
        obtain ⟨t, hRun, network', port', conn', hOpened⟩ := ih (some (.call [])) hRest
        refine ⟨⟨.dialContext network first port, .error []⟩ :: t, .step hRun, ?_⟩
        exact ⟨network', port', conn', List.mem_cons_of_mem _ hOpened⟩

theorem dialFirst_events (h : (dialFirst network host port lastErr ips).Finishes t r) :
    ∀ e ∈ t, Unblocked ips e.op := (dialFirst_unblocked ips fun _ hIp => hIp).hist h

theorem mem_later {e first : Event Network} (h : e ∈ first :: t) (hOp : e.op ≠ first.op) : e ∈ t :=
  (List.mem_cons.mp h).resolve_left fun hEq => hOp (congrArg Event.op hEq)

/-- A run that resolved the name connects to addresses it was resolved to and that are not
blocked. -/
theorem guardedDial_resolved (h : (guardedDial network addr).Finishes t r)
    (hResolved : Resolves t ips) :
    ∀ ip, Opens t ip → ip ∈ ips ∧ (blockedIP ip).1 = false := by
  obtain ⟨host', hEvent⟩ := hResolved
  obtain ⟨answer, u, rfl, hRest⟩ := finishes_call.mp h
  cases answer with
  | error e =>
    obtain ⟨rfl, -⟩ := finishes_ret.mp hRest
    cases List.mem_singleton.mp hEvent
  | ok parts =>
    obtain ⟨answer, v, rfl, hLoop⟩ := finishes_call.mp hRest
    have hEvent := List.mem_cons.mp (mem_later hEvent nofun)
    cases answer with
    | error e =>
      obtain ⟨rfl, -⟩ := finishes_ret.mp hLoop
      cases hEvent with
      | inl hEq => cases hEq
      | inr hLater => cases hLater
    | ok found =>
      have hEvents := dialFirst_events hLoop
      cases hEvent with
      | inr hLater => exact (hEvents _ hLater).elim
      | inl hEq =>
        cases hEq
        intro ip hOpens
        obtain ⟨network', port', conn, hOpened⟩ := hOpens
        exact hEvents _ (mem_later (mem_later hOpened nofun) nofun)

theorem guardedDial_opens {ip : IP} (hMem : ip ∈ ips) (hOpen : (blockedIP ip).1 = false)
    (network addr host port : Str) (conn : Conn) :
    ∃ t, (guardedDial network addr).Finishes t (.ok conn) ∧ Resolves t ips ∧ Opens t ip := by
  obtain ⟨t, hRun, network', port', conn', hOpened⟩ :=
    dialFirst_opens network host port none hMem hOpen conn
  refine ⟨⟨.splitHostPort addr, .ok (host, port)⟩ :: ⟨.lookupIPAddr host, .ok ips⟩ :: t,
    .step (.step hRun), ⟨host, by simp⟩, network', port', conn', by simp [hOpened]⟩

end Dialling

/-- An address that is not routable is refused, and no connection is opened to one of those
a name resolves to, just when it is not among the missed ones. -/
theorem egress_public_iff (more : List Embedding) :
    (∀ ip, (NotRoutable more ip → (blockedIP ip).1 = true) ↔ ¬ Missed more ip) ∧
      ∀ ips, (∀ network addr t r, (guardedDial network addr).Finishes t r → Resolves t ips →
        ∀ ip, Opens t ip → ¬ NotRoutable more ip) ↔ ∀ ip ∈ ips, ¬ Missed more ip := by
  refine ⟨fun ip => blocked_of_notRoutable_iff, fun ips => ?_⟩
  constructor
  · intro hPublic ip hMem hMissed
    have hBoth := missed_iff.mp hMissed
    have hOpen : (blockedIP ip).1 = false := by
      rw [Bool.eq_false_iff, Ne, blockedIP_iff]
      exact hBoth.2
    obtain ⟨t, hRun, hResolved, hOpens⟩ := guardedDial_opens hMem hOpen [] [] [] [] 0
    exact hPublic _ _ t _ hRun hResolved ip hOpens hBoth.1
  · intro hNone network addr t r hRun hResolved ip hOpens hNot
    have hDialled := guardedDial_resolved hRun hResolved ip hOpens
    have hBlocked := blocked_of_notRoutable_iff.mpr (hNone ip hDialled.1) hNot
    rw [hDialled.2] at hBlocked
    cases hBlocked

/-- Of reserved addresses, a mapped one among them, and of a translated loopback address
none is refused, while the loopback address before it is skipped. -/
theorem egress_reaches_reserved :
    List.Forall (fun ip => NotRoutable [] ip ∧ blockedIP ip = (false, []) ∧
        ∃ t conn, (guardedDial "tcp".toList "metrics.example:443".toList).Finishes t (.ok conn) ∧
          Resolves t [.v4 ![127, 0, 0, 1], ip] ∧ Opens t ip)
      [IP.v4 ![0, 1, 2, 3], .v4 ![100, 64, 0, 1], .v4 ![240, 0, 0, 1],
        .v6 ![0, 0, 0, 0, 0, 0, 0, 0, 0, 0, 0xff, 0xff, 100, 64, 0, 1],
        .v6 ![0, 0x64, 0xff, 0x9b, 0, 0, 0, 0, 0, 0, 0, 0, 127, 0, 0, 1]] := by
  rw [List.forall_iff_forall_mem]
  intro ip hMem
  have hNot : NotRoutable [] ip := by
    revert ip
    decide +kernel
  have hOpen : blockedIP ip = (false, []) := by
    revert ip
    decide +kernel
  have hResolved : ip ∈ [IP.v4 ![127, 0, 0, 1], ip] := by simp
  have hRun := guardedDial_opens hResolved
    (congrArg Prod.fst hOpen) "tcp".toList "metrics.example:443".toList
    "metrics.example".toList "443".toList 1
  obtain ⟨t, hRun, hResolved, hOpens⟩ := hRun
  exact ⟨hNot, hOpen, t, 1, hRun, hResolved, hOpens⟩

end Moduless.Egress
