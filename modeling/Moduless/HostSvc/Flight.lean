import Moduless.HostSvc.Consumer
import Moduless.Interaction.Accounts

/-!
The count of messages in flight. A thread's account says whether it stands between
the two steps of a delivery and whether it holds a call for a delivery. The count is
what is unanswered, less the deliveries that are not counted yet, and one more for
every message that left when the count was zero.
-/

namespace Moduless.HostSvc
open Go DB Interaction Discipline
open Rpc (Server permQueue)

structure FlightAccount where
  /-- On the wire and not counted. -/
  entering : Bool
  /-- A call for a delivery that has not left. -/
  answering : Bool
  deriving DecidableEq

namespace FlightAccount

def idle : FlightAccount := ⟨false, false⟩

def next (g : FlightAccount) : Event ServerHost → FlightAccount
  | ⟨.send _, false⟩ => { g with entering := true }
  | ⟨.enteredFlight, _⟩ => { g with entering := false }
  | ⟨.request _, _⟩ => { g with answering := true }
  | ⟨.leftFlight, _⟩ | ⟨.giveBack _, _⟩ => { g with answering := false }
  | _ => g

end FlightAccount

def flightDiscipline : Discipline ServerHost FlightAccount where
  next := FlightAccount.next
  permits g
    | .send _ => g.entering = false
    | .enteredFlight => g.entering = true
    | .request _ => g.answering = false
    | .leftFlight | .giveBack _ => g.answering = true
    | .queue _ | .inflight | .now | .pause => True
  assumes _ _ := True

/-- The program leaves an idle account idle. -/
abbrev KeepsIdle {α : Type} (p : ServerM α) : Prop :=
  flightDiscipline.Obeys (fun _ g => g = .idle) p .idle

theorem serve_obeys {G β : Type} {D : Discipline ServerHost G} {Q : β → G → Prop} {o : ServerOp}
    {f : o.Ans → ServerM β} {g : G} (hPermit : D.permits g o)
    (hf : ∀ r, D.assumes g ⟨o, r⟩ → D.Obeys Q (f r) (D.next g ⟨o, r⟩)) :
    D.Obeys Q (serve o >>= f) g := ⟨hPermit, hf⟩

theorem keepsIdle_awaitRoomLoop (prefetch deadline : Int) (n : Nat) :
    KeepsIdle (awaitRoomLoop prefetch deadline n) := by
  induction n with
  | zero => exact ⟨trivial, fun e => nomatch e⟩
  | succ n ih =>
    refine serve_obeys trivial fun (count : Int) _ => ?_
    refine obeys_ite.mpr ⟨fun _ => rfl, fun _ => serve_obeys trivial fun (now : Int) _ => ?_⟩
    refine obeys_ite.mpr ⟨fun _ => rfl, fun _ => serve_obeys trivial fun (gone : Bool) _ => ?_⟩
    exact obeys_ite.mpr ⟨fun _ => rfl, fun _ => ih⟩

theorem keepsIdle_deliver (m : Message) : KeepsIdle (deliver m) := by
  refine serve_obeys rfl fun failed _ => ?_
  cases failed with
  | true => exact rfl
  | false => exact serve_obeys rfl fun _ _ => rfl

theorem keepsIdle_consumeHandler (prefetch visibility : Int) (o : QueueOp) :
    KeepsIdle (consumeHandler prefetch visibility o) := by
  cases o with
  | awaitRoom =>
    exact serve_obeys trivial fun _ _ => serve_obeys trivial fun n _ =>
      keepsIdle_awaitRoomLoop _ _ n
  | deliver m => exact keepsIdle_deliver m
  | stmt | ctxErr | wait | bound | diverge => exact ⟨trivial, fun _ _ => rfl⟩

theorem keepsIdle_handle {α : Type} (prefetch visibility : Int) (p : QueueM α) :
    KeepsIdle (p.handle (consumeHandler prefetch visibility)) := by
  refine obeys_handle (fun o g hg => ?_) p rfl
  rw [hg]
  exact keepsIdle_consumeHandler prefetch visibility o

theorem keepsIdle_serveConsume (s : Server) (req : ConsumeRequest) :
    KeepsIdle (serveConsume s req) := by
  unfold serveConsume
  split
  next => exact rfl
  next =>
    refine obeys_bind (keepsIdle_handle _ _ _) fun failed g hg => ?_
    cases failed <;> exact hg

section Answers

variable (s : Server) (text : QueueError → Str) {what : String} {call : ServerM (Except Str Unit)}

/-- A call that succeeds has left the flight, one that fails has not. -/
theorem obeys_settle
    (h : flightDiscipline.Obeys (fun _ g => g = ⟨false, true⟩) call ⟨false, true⟩) :
    flightDiscipline.Obeys (fun r g => g = ⟨false, !r.isOk⟩)
      (s.settle (tableQueue text) what call) ⟨false, true⟩ := by
  unfold Server.settle
  split
  next => exact rfl
  next =>
    refine obeys_bind h fun result g hg => ?_
    subst hg
    cases result with
    | error e => exact rfl
    | ok r => exact serve_obeys rfl fun _ _ => rfl

theorem keepsIdle_answering (m : Message)
    (h : flightDiscipline.Obeys (fun _ g => g = ⟨false, true⟩) call ⟨false, true⟩) :
    KeepsIdle (answering m (s.settle (tableQueue text) what call)) := by
  refine serve_obeys rfl fun _ _ => obeys_bind (obeys_settle s text h) fun result g hg => ?_
  cases result with
  | ok u => exact hg
  | error e =>
    subst hg
    exact serve_obeys rfl fun _ _ => rfl

theorem keepsIdle_body (c : ServerCall) : KeepsIdle (c.body s text) := by
  cases c with
  | consume req => exact keepsIdle_serveConsume s req
  | ack m | nack m _ _ => exact keepsIdle_answering s text m ⟨trivial, fun _ _ => rfl⟩
  | other stmt => exact ⟨trivial, fun _ _ => rfl⟩

end Answers

def flightAccounts (p : ServerPool) : List FlightAccount :=
  p.accounts flightDiscipline fun _ => .idle

/-- How the count relates to what is unanswered. -/
def Balanced (w : ServerWorld) (gs : List FlightAccount) : Prop :=
  w.inflight + gs.countP (·.entering) = w.unanswered.length + gs.countP (·.answering) + w.lost

theorem countP_cons_toNat {α : Type} (p : α → Bool) (a : α) (l : List α) :
    (a :: l).countP p = l.countP p + (p a).toNat := by
  rw [List.countP_cons]
  cases p a <;> rfl

theorem balanced_kept :
    flightDiscipline.Kept (C := ServerCall) serverMachine (fun _ => .idle) Balanced where
  perm := by
    intro w gs gs' hPerm h
    rwa [Balanced, ← hPerm.countP_eq, ← hPerm.countP_eq]
  fresh := by
    intro w gs c h
    simpa [Balanced, FlightAccount.idle] using h
  step := by
    rintro w ⟨entering, answering⟩ gs ⟨o, r⟩ w' h hPermit - ⟨choice, hExec⟩
    simp only [Balanced, countP_cons_toNat] at h ⊢
    cases o with
    | queue o =>
      obtain ⟨⟨r', q⟩, -, hPair⟩ := Option.map_eq_some_iff.mp hExec
      cases hPair
      exact h
    | inflight | now | pause =>
      cases hExec
      exact h
    | send m =>
      obtain rfl : entering = false := hPermit
      cases hExec
      cases r with
      | true => exact h
      | false =>
        simp only [flightDiscipline, FlightAccount.next, List.length_cons, Bool.toNat_true,
          Bool.toNat_false, Bool.false_eq_true, if_false] at h ⊢
        omega
    | enteredFlight =>
      obtain rfl : entering = true := hPermit
      cases hExec
      simp only [flightDiscipline, FlightAccount.next, ServerWorld.enteredFlight,
        Bool.toNat_true, Bool.toNat_false] at h ⊢
      omega
    | leftFlight =>
      obtain rfl : answering = true := hPermit
      cases hExec
      simp only [flightDiscipline, FlightAccount.next, ServerWorld.leftFlight,
        Bool.toNat_true, Bool.toNat_false] at h ⊢
      split <;> simp only <;> omega
    | request m =>
      obtain rfl : answering = false := hPermit
      simp only [serverMachine, ServerWorld.exec] at hExec
      split_ifs at hExec with hMem
      cases hExec
      have hLength := List.length_erase_add_one hMem
      simp only [flightDiscipline, FlightAccount.next, Bool.toNat_true, Bool.toNat_false] at h ⊢
      omega
    | giveBack m =>
      obtain rfl : answering = true := hPermit
      cases hExec
      simp only [flightDiscipline, FlightAccount.next, List.length_cons, Bool.toNat_true,
        Bool.toNat_false] at h ⊢
      omega

section Runs

variable {s : Server} {text : QueueError → Str} {queue : QueueWorld}
  {start : ServerPool → ServerCall → Prop}
  {cond : ServerPool → ServerThread → Event ServerHost → Prop} {q : ServerPool}

theorem balanced_of_reach (h : (serverSystem s text).Reach start cond (newServer queue) q) :
    Balanced q.state (flightAccounts q) :=
  (h.accounts balanced_kept (keepsIdle_body s text) (fun _ _ _ _ _ _ _ _ => trivial) rfl rfl).1

/-- No delivery is between its two steps, and every delivery has been answered. -/
def Settled (p : ServerPool) : Prop :=
  (∀ g ∈ flightAccounts p, g = .idle) ∧ p.state.unanswered = []

/-- Once everything is answered, the count is the number of messages that left when it
was zero. -/
theorem inflight_eq_lost (h : (serverSystem s text).Reach start cond (newServer queue) q)
    (hSettled : Settled q) : q.state.inflight = q.state.lost := by
  have hBalance := balanced_of_reach h
  have hEntering : (flightAccounts q).countP (·.entering) = 0 :=
    List.countP_eq_zero.mpr fun g hg => by rw [hSettled.1 g hg]; decide
  have hAnswering : (flightAccounts q).countP (·.answering) = 0 :=
    List.countP_eq_zero.mpr fun g hg => by rw [hSettled.1 g hg]; decide
  rw [Balanced, hEntering, hAnswering, hSettled.2] at hBalance
  simpa using hBalance

/-- A message leaves only while some delivery is counted and unanswered: fewer
deliveries are between their two steps than are unanswered. -/
def Counted (p : ServerPool) (_ : ServerThread) (e : Event ServerHost) : Prop :=
  e.op = .leftFlight → (flightAccounts p).countP (·.entering) <
    p.state.unanswered.length + (flightAccounts p).countP (·.answering)

theorem lost_of_exec {w w' : ServerWorld} {e : Event ServerHost} (h : serverMachine.Exec w e w') :
    w'.lost = w.lost ∨ e.op = .leftFlight ∧ ¬ w.inflight > 0 := by
  obtain ⟨o, r⟩ := e
  obtain ⟨choice, hExec⟩ := h
  cases o with
  | queue o =>
    obtain ⟨_, -, hPair⟩ := Option.map_eq_some_iff.mp hExec
    cases hPair
    exact .inl rfl
  | send m =>
    cases hExec
    cases r <;> exact .inl rfl
  | leftFlight =>
    cases hExec
    rw [ServerWorld.leftFlight]
    split
    next => exact .inl rfl
    next hZero => exact .inr ⟨rfl, hZero⟩
  | request m =>
    simp only [serverMachine, ServerWorld.exec] at hExec
    split_ifs at hExec
    cases hExec
    exact .inl rfl
  | enteredFlight | inflight | now | pause | giveBack =>
    cases hExec
    exact .inl rfl

theorem lost_eq_zero (h : (serverSystem s text).Reach start Counted (newServer queue) q) :
    q.state.lost = 0 := by
  induction h with
  | refl => rfl
  | tail hReach hStep ih =>
    cases hStep with
    | begin c hc => exact ih
    | run before after c t o k r w hThread hExec hCond =>
      rcases lost_of_exec hExec with hSame | ⟨hLeft, hZero⟩
      · exact hSame.trans ih
      · have hBalance := balanced_of_reach hReach
        have hCounted := hCond hLeft
        rw [Balanced, ih] at hBalance
        omega

/-- In every run, whatever the database and the stream do: if messages leave only while
a delivery is counted and unanswered, then the count is zero whenever no delivery is
between its two steps and all have been answered. -/
theorem inflight_zero_of_counted
    (h : (serverSystem s text).Reach (fun _ _ => True) Counted (newServer queue) q)
    (hSettled : Settled q) : q.state.inflight = 0 := by
  rw [inflight_eq_lost h hSettled, lost_eq_zero h]
  rfl

end Runs

def isCounted (p : ServerPool) (_ : ServerThread) (e : Event ServerHost) : Bool :=
  match e.op with
  | .leftFlight => (flightAccounts p).countP (·.entering) <
      p.state.unanswered.length + (flightAccounts p).countP (·.answering)
  | _ => true

theorem counted_of_isCounted {p : ServerPool} {th : ServerThread} {e : Event ServerHost}
    (h : isCounted p th e = true) : Counted p th e := by
  intro hLeft
  rw [isCounted, hLeft] at h
  exact of_decide_eq_true h

def mailServer : Server := ⟨"mail".toList, [permQueue], false, true, false, false⟩

def mailSystem : System ServerHost ServerWorld ServerCall (Except RpcError Unit) :=
  serverSystem mailServer fun _ => "closed pool".toList

/-- The one delivery of the runs below. -/
def firstDelivery : Message := ⟨1, "out".toList, [], 1, 1, [], 4⟩

/-- Choices for a step at which nothing fails. -/
def calmServer : (o : ServerOp) → o.Choice
  | .queue o => calmAt 0 o
  | .send _ | .pause => false
  | .now => (0 : Int)
  | .enteredFlight | .leftFlight | .inflight | .request _ | .giveBack _ => ()

/-- A message is enqueued, and a consumer runs until it has been sent. -/
def sentMoves : List (Move mailSystem) :=
  [.begin (.other (.enqueue "mail".toList "out".toList [] ⟨0, [], 0, 1, []⟩)), .run 0 1 calmServer,
    .begin (.consume ⟨"out".toList, 1, 10⟩), .run 1 7 calmServer]

/-- The plugin answers after the delivery has been counted. -/
def answeredPool : ServerPool :=
  (mailSystem.play (fun _ _ => true) isCounted
    (sentMoves ++ [.run 1 1 calmServer, .begin (.ack firstDelivery), .run 2 3 calmServer])
    (newServer ⟨.empty, 0, []⟩)).get rfl

theorem inflight_zero_answered : answeredPool.state.inflight = 0 := by
  have hReach : mailSystem.Reach (fun _ _ => True) Counted
      (newServer ⟨.empty, 0, []⟩) answeredPool :=
    System.reach_get_play (fun _ _ _ => trivial) (fun _ _ _ h => counted_of_isCounted h) rfl
  refine inflight_zero_of_counted hReach ⟨?_, rfl⟩
  have hAccounts : flightAccounts answeredPool = [.idle, .idle, .idle] := rfl
  rw [hAccounts]
  decide

/-- The plugin answers between the two steps of the delivery. -/
def driftedPool : ServerPool :=
  (mailSystem.play (fun _ _ => true) (fun _ _ _ => true)
    (sentMoves ++ [.begin (.ack firstDelivery), .run 2 3 calmServer, .run 1 1 calmServer])
    (newServer ⟨.empty, 0, []⟩)).get rfl

theorem inflight_drifts : mailSystem.Reach (fun _ _ => True) (fun _ _ _ => True)
      (newServer ⟨.empty, 0, []⟩) driftedPool ∧
    Settled driftedPool ∧ driftedPool.state.inflight = 1 := by
  refine ⟨System.reach_get_play (fun _ _ _ => trivial) (fun _ _ _ _ => trivial) rfl, ⟨?_, rfl⟩, rfl⟩
  have hAccounts : flightAccounts driftedPool = [.idle, .idle, .idle] := rfl
  rw [hAccounts]
  decide

end Moduless.HostSvc
