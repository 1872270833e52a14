import Moduless.PluginHost.Lifecycle

/-!
The scheduler of the jobs that plugins declare, and that a job is run at most once in
each minute.

`Tick` is a program over the operations of the host and one more, the start of the
goroutine that calls `RunJob`. The history of a sequence of ticks says which times were
read and what was run; whatever the registry and the package table answer, no run can
stand in it twice. The calendar that gives a time its minute, hour and day is a parameter.
-/

namespace Moduless.PluginHost
open Go Pipeline Interaction Discipline

def minute : Duration := 60 * second

def hour : Duration := 60 * minute

/-- `Truncate(time.Minute)`. -/
def truncate (t : Int) : Int := t - t % minute

/-- The goroutine that `run` starts: it calls `RunJob` once and then frees the
reservation. -/
structure JobRun where
  pluginKey : Str
  inst : Instance
  lease : Lease
  jobName : Str
  scheduled : Int

inductive CronOp where
  | host (o : Op)
  | goRunJob (r : JobRun)

@[reducible] def CronOp.Ans : CronOp → Type
  | .host o => o.Ans
  | .goRunJob _ => Unit

def CronHost : Interface := ⟨CronOp, CronOp.Ans⟩

abbrev CronM := Program CronHost

def onHost {α : Type} (p : HostM α) : CronM α :=
  p.handle fun o => Program.perform (I := CronHost) (.host o)

def jobID (pluginKey jobName : Str) : Str := pluginKey ++ '\x00' :: jobName

/-- The minutes reserved last once this one is, or `none` if it already was. -/
def claim (lastRun : GoMap Str Int) (pluginKey jobName : Str) (now : Int) :
    Option (GoMap Str Int) :=
  if lastRun.get (jobID pluginKey jobName) = some (truncate now) then none
  else
    some ((lastRun.set (jobID pluginKey jobName) (truncate now)).filter fun e =>
      truncate now - e.2 ≤ hour)

def runJob (snap : Snapshot) (pluginKey jobName : Str) (scheduled : Int) : CronM Unit := do
  let inst ← onHost (snap.pick pluginKey)
  match inst with
  | none => pure ()
  | some inst =>
    let lease ← onHost inst.beginRequest
    match lease with
    | none => pure ()
    | some lease =>
      Program.perform (I := CronHost) (.goRunJob ⟨pluginKey, inst, lease, jobName, scheduled⟩)

section Ticks

variable (civil : Int → Cron.Civil)

def tickJobs (now : Int) (snap : Snapshot) (key : Str) :
    List JobDecl → GoMap Str Int → CronM (GoMap Str Int)
  | [], lastRun => pure lastRun
  | job :: rest, lastRun =>
    match Cron.readSchedule job.cron with
    | .error _ => tickJobs now snap key rest lastRun
    | .ok schedule =>
      if !schedule.matches (civil now) then tickJobs now snap key rest lastRun
      else
        match claim lastRun key job.name now with
        | none => tickJobs now snap key rest lastRun
        | some lastRun => do
            runJob snap key job.name (truncate now)
            tickJobs now snap key rest lastRun

def tickKeys (now : Int) (snap : Snapshot) : List Str → GoMap Str Int → CronM (GoMap Str Int)
  | [], lastRun => pure lastRun
  | key :: rest, lastRun => do
      let pkg ← onHost (op (.manager (.package key)))
      match pkg with
      | none => tickKeys now snap rest lastRun
      | some pkg =>
        let lastRun ← tickJobs civil now snap key pkg.manifest.jobs lastRun
        tickKeys now snap rest lastRun

/-- `Snapshot.Keys`. -/
def Snapshot.keys (snap : Snapshot) : List Str := snap.plugins.keys.insertionSort (· ≤ ·)

def tick (lastRun : GoMap Str Int) : CronM (GoMap Str Int) := do
  let now ← onHost (ask .now)
  let snap ← onHost (op .current)
  tickKeys civil now snap snap.keys lastRun

def ticks : Nat → GoMap Str Int → CronM (GoMap Str Int)
  | 0, lastRun => pure lastRun
  | n + 1, lastRun => do
      let lastRun ← tick civil lastRun
      ticks n lastRun

end Ticks

section History

def timeOf : Event CronHost → Option Int
  | ⟨.host (.ask .now), t⟩ => some t
  | _ => none

def runOf : Event CronHost → Option JobRun
  | ⟨.goRunJob r, _⟩ => some r
  | _ => none

/-- The package that an event got from the package table, with its key. -/
def packageOf : Event CronHost → Option (Str × Package)
  | ⟨.host (.manager (.package key)), some pkg⟩ => some (key, pkg)
  | _ => none

/-- The times read, the package read last and the jobs run, the last ones first. -/
structure TickAccount where
  times : List Int
  package : Option (Str × Package)
  runs : List JobRun

def TickAccount.next (g : TickAccount) (e : Event CronHost) : TickAccount where
  times := (timeOf e).toList ++ g.times
  package := (packageOf e).or g.package
  runs := (runOf e).toList ++ g.runs

/-- The clock did not go back. -/
def TickAccount.Ordered (g : TickAccount) : Prop := g.times.Pairwise (· ≥ ·)

/-- Two runs of one job in one minute. -/
def JobRun.Same (r s : JobRun) : Prop :=
  r.pluginKey = s.pluginKey ∧ r.jobName = s.jobName ∧ r.scheduled = s.scheduled

/-- The run is for the minute of the time read last, and the package read last has a job of
that name whose schedule matches then. -/
def Due (civil : Int → Cron.Civil) (g : TickAccount) (r : JobRun) : Prop :=
  ∃ now pkg job schedule, g.times.head? = some now ∧ g.package = some (r.pluginKey, pkg) ∧
    job ∈ pkg.manifest.jobs ∧ job.name = r.jobName ∧
    Cron.readSchedule job.cron = .ok schedule ∧ schedule.matches (civil now) = true ∧
    r.scheduled = truncate now

/-- A job is only run when it is due, and only once in a minute. -/
def ticking (civil : Int → Cron.Civil) : Discipline CronHost TickAccount where
  next := TickAccount.next
  permits g
    | .host _ => True
    | .goRunJob r => Due civil g r ∧ (g.Ordered → ∀ s ∈ g.runs, ¬ r.Same s)
  assumes _ _ := True

def noTicks : TickAccount := ⟨[], none, []⟩

end History

section Claims

variable {lastRun last' : GoMap Str Int} {key name : Str} {now : Int}

theorem truncate_mono {t u : Int} (h : t ≤ u) : truncate t ≤ truncate u := by
  simp only [truncate, minute, second, millisecond]
  omega

theorem claim_keeps (h : claim lastRun key name now = some last') {id : Str}
    (hGet : (lastRun.set (jobID key name) (truncate now)).get id = some (truncate now)) :
    last'.get id = some (truncate now) := by
  rw [claim] at h
  split at h
  next => cases h
  next =>
    cases h
    refine GoMap.get_filter hGet (decide_eq_true ?_)
    rw [sub_self]
    decide

theorem claim_records (h : claim lastRun key name now = some last') :
    last'.get (jobID key name) = some (truncate now) :=
  claim_keeps h (GoMap.get_set_self _ _ _)

theorem claim_fresh (h : claim lastRun key name now = some last') :
    lastRun.get (jobID key name) ≠ some (truncate now) := by
  intro hGet
  rw [claim, if_pos hGet] at h
  cases h

end Claims

section Ticking

variable {civil : Int → Cron.Civil} {g : TickAccount} {lastRun : GoMap Str Int} {now : Int}

/-- The runs of the current minute are on record, and there are none of a later one. -/
def Recorded (lastRun : GoMap Str Int) (g : TickAccount) : Prop :=
  ∀ r ∈ g.runs, ∃ now, g.times.head? = some now ∧ r.scheduled ≤ truncate now ∧
    (r.scheduled = truncate now → lastRun.get (jobID r.pluginKey r.jobName) = some r.scheduled)

/-- Operations that neither read the clock nor look a package up. -/
def Op.Unseen : Op → Prop
  | .ask _ | .manager _ => False
  | _ => True

theorem next_unseen {o : Op} (h : o.Unseen) (r : o.Ans) : g.next ⟨.host o, r⟩ = g := by
  cases o with
  | ask q => cases h
  | manager o => cases h
  | _ => rfl

theorem ticking_unseen {α : Type} {p : HostM α} (hp : p.Uses Op.Unseen) :
    Obeys (ticking civil) (fun _ g' => g' = g) (onHost p) g := by
  induction p with
  | ret a => rfl
  | call o k ih =>
    refine ⟨trivial, fun r _ => ?_⟩
    rw [show (ticking civil).next g ⟨.host o, r⟩ = g from next_unseen hp.1 r]
    exact ih r (hp.2 r)

theorem ticking_op {β : Type} {Q : β → TickAccount → Prop} {o : Op} {f : o.Ans → CronM β}
    (hf : ∀ r : o.Ans, Obeys (ticking civil) Q (f r) (g.next ⟨.host o, r⟩)) :
    Obeys (ticking civil) Q (onHost (op o) >>= f) g := ⟨trivial, fun r _ => hf r⟩

theorem Recorded.later (h : Recorded lastRun g)
    (hOrder : (g.next ⟨.host (.ask .now), now⟩).Ordered) :
    Recorded lastRun (g.next ⟨.host (.ask .now), now⟩) := by
  intro r hr
  obtain ⟨before, hHead, hLe, hSame⟩ := h r hr
  have hBefore : before ≤ now :=
    (List.pairwise_cons.mp hOrder).1 before (List.mem_of_mem_head? hHead)
  have hMono := truncate_mono hBefore
  refine ⟨now, rfl, hLe.trans hMono, fun hNow => hSame ?_⟩
  omega

theorem ticking_runJob (snap : Snapshot) {key : Str} {pkg : Package} {job : JobDecl}
    {schedule : Cron.Schedule} {lastRun last' : GoMap Str Int} (hNow : g.times.head? = some now)
    (hPkg : g.package = some (key, pkg)) (hJob : job ∈ pkg.manifest.jobs)
    (hParsed : Cron.readSchedule job.cron = .ok schedule)
    (hMatch : schedule.matches (civil now) = true)
    (hClaim : claim lastRun key job.name now = some last')
    (hRecorded : g.Ordered → Recorded lastRun g) :
    Obeys (ticking civil) (fun _ g' => g'.times = g.times ∧ g'.package = g.package ∧
      (g'.Ordered → Recorded last' g')) (runJob snap key job.name (truncate now)) g := by
  have hOld : g.Ordered → Recorded last' g := by
    intro hOrder r hr
    obtain ⟨now', hNow', hLe, hSame⟩ := hRecorded hOrder r hr
    cases hNow.symm.trans hNow'
    refine ⟨now, hNow, hLe, fun hEq => ?_⟩
    rw [hEq]
    refine claim_keeps hClaim ?_
    rw [GoMap.get_set]
    split
    next => rfl
    next => rw [hSame hEq, hEq]
  refine obeys_bind (ticking_unseen (uses_pick (fun _ => trivial) (fun _ _ => trivial)
    (fun _ _ => trivial) snap key)) ?_
  rintro inst _ rfl
  cases inst with
  | none => exact ⟨rfl, rfl, hOld⟩
  | some inst =>
    refine obeys_bind (ticking_unseen (uses_beginRequest (fun _ => trivial) (fun _ _ => trivial)
      (fun _ => trivial) inst)) ?_
    rintro lease _ rfl
    cases lease with
    | none => exact ⟨rfl, rfl, hOld⟩
    | some lease =>
      refine ⟨⟨⟨now, pkg, job, schedule, hNow, hPkg, hJob, rfl, hParsed, hMatch, rfl⟩, ?_⟩,
        fun _ _ => ⟨rfl, rfl, ?_⟩⟩
      · rintro hOrder s hs ⟨hKey, hName, hScheduled⟩
        obtain ⟨now', hNow', -, hSame⟩ := hRecorded hOrder s hs
        cases hNow.symm.trans hNow'
        have hGet := hSame hScheduled.symm
        rw [← hKey, ← hName, ← hScheduled] at hGet
        exact claim_fresh hClaim hGet
      · intro hOrder r hr
        rcases List.mem_cons.mp hr with rfl | hr
        · exact ⟨now, hNow, le_rfl, fun _ => claim_records hClaim⟩
        · exact hOld hOrder r hr

theorem ticking_tickJobs (snap : Snapshot) {key : Str} (pkg : Package) {jobs : List JobDecl}
    (hNow : g.times.head? = some now) (hPkg : g.package = some (key, pkg))
    (hJobs : ∀ job ∈ jobs, job ∈ pkg.manifest.jobs) (hRecorded : g.Ordered → Recorded lastRun g) :
    Obeys (ticking civil) (fun last' g' => g'.times = g.times ∧ (g'.Ordered → Recorded last' g'))
      (tickJobs civil now snap key jobs lastRun) g := by
  induction jobs generalizing g lastRun with
  | nil => exact ⟨rfl, hRecorded⟩
  | cons job jobs ih =>
    obtain ⟨hJob, hRest⟩ := List.forall_mem_cons.mp hJobs
    have hSkip := ih hNow hPkg hRest hRecorded
    rw [tickJobs]
    cases hParsed : Cron.readSchedule job.cron with
    | error e => exact hSkip
    | ok schedule =>
      refine obeys_ite.mpr ⟨fun _ => hSkip, fun hMatch => ?_⟩
      have hMatch : schedule.matches (civil now) = true := by simpa using hMatch
      cases hClaim : claim lastRun key job.name now with
      | none => exact hSkip
      | some last' =>
        refine obeys_bind (ticking_runJob snap hNow hPkg hJob hParsed hMatch hClaim
          hRecorded) ?_
        rintro _ g' ⟨hTimes, hPkg', hRecorded'⟩
        refine obeys_mono (ih (hTimes ▸ hNow) (hPkg' ▸ hPkg) hRest hRecorded') ?_
        rintro last'' g'' ⟨hTimes', hRecorded''⟩
        exact ⟨hTimes'.trans hTimes, hRecorded''⟩

theorem ticking_tickKeys (snap : Snapshot) {keys : List Str} (hNow : g.times.head? = some now)
    (hRecorded : g.Ordered → Recorded lastRun g) :
    Obeys (ticking civil) (fun last' g' => g'.Ordered → Recorded last' g')
      (tickKeys civil now snap keys lastRun) g := by
  induction keys generalizing g lastRun with
  | nil => exact hRecorded
  | cons key keys ih =>
    refine ticking_op fun (pkg : Option Package) => ?_
    cases pkg with
    | none => exact ih hNow hRecorded
    | some pkg =>
      refine obeys_bind (ticking_tickJobs snap pkg hNow rfl (fun _ h => h) hRecorded) ?_
      rintro last' g' ⟨hTimes, hRecorded'⟩
      exact ih (hTimes ▸ hNow) hRecorded'

theorem ticking_tick (hRecorded : g.Ordered → Recorded lastRun g) :
    Obeys (ticking civil) (fun last' g' => g'.Ordered → Recorded last' g')
      (tick civil lastRun) g := by
  refine ticking_op (o := .ask .now) fun now => ticking_op fun (snap : Snapshot) => ?_
  refine ticking_tickKeys snap rfl fun hOrder => ?_
  exact (hRecorded (List.pairwise_cons.mp hOrder).2).later hOrder

theorem ticking_ticks (n : Nat) (hRecorded : g.Ordered → Recorded lastRun g) :
    Obeys (ticking civil) (fun last' g' => g'.Ordered → Recorded last' g')
      (ticks civil n lastRun) g := by
  induction n generalizing g lastRun with
  | zero => exact hRecorded
  | succ n ih => exact obeys_bind (ticking_tick hRecorded) fun _ _ h => ih h

end Ticking

section Histories

variable {civil : Int → Cron.Civil} {g : TickAccount}

theorem account_times (t : List (Event CronHost)) :
    ((ticking civil).account g t).times = (t.filterMap timeOf).reverse ++ g.times := by
  induction t generalizing g with
  | nil => rfl
  | cons e t ih =>
    refine (ih (g := g.next e)).trans ?_
    cases h : timeOf e <;> simp [h, TickAccount.next]

theorem account_runs (t : List (Event CronHost)) :
    ((ticking civil).account g t).runs = (t.filterMap runOf).reverse ++ g.runs := by
  induction t generalizing g with
  | nil => rfl
  | cons e t ih =>
    refine (ih (g := g.next e)).trans ?_
    cases h : runOf e <;> simp [h, TickAccount.next]

theorem account_ordered {t : List (Event CronHost)}
    (h : (t.filterMap timeOf).Pairwise (· ≤ ·)) :
    ((ticking civil).account noTicks t).Ordered := by
  rw [TickAccount.Ordered, account_times, noTicks, List.append_nil, List.pairwise_reverse]
  exact h

theorem ticks_permitted {n : Nat} {t u v : List (Event CronHost)} {q : CronM (GoMap Str Int)}
    {r : JobRun} (h : (ticks civil n []).Leads t q) (ht : t = u ++ ⟨.goRunJob r, ()⟩ :: v) :
    Due civil ((ticking civil).account noTicks u) r ∧
      (((ticking civil).account noTicks u).Ordered → ∀ s ∈ u.filterMap runOf, ¬ r.Same s) := by
  have hObeys : Obeys (ticking civil) _ (ticks civil n []) noTicks :=
    ticking_ticks n fun _ r hr => by cases hr
  obtain ⟨hDue, hOnce⟩ := hObeys.permitted h (fun _ _ => trivial) ht
  refine ⟨hDue, fun hOrder s hs => hOnce hOrder s ?_⟩
  rw [account_runs, List.mem_append, List.mem_reverse]
  exact .inl hs

/-- The runs of a history before which each run is new are all different. -/
theorem runs_pairwise {t : List (Event CronHost)}
    (h : ∀ u r v, t = u ++ ⟨.goRunJob r, ()⟩ :: v → ∀ s ∈ u.filterMap runOf, ¬ r.Same s) :
    (t.filterMap runOf).Pairwise fun s r => ¬ r.Same s := by
  induction t using List.reverseRecOn with
  | nil => exact .nil
  | append_singleton t e ih =>
    have hFront := ih fun u r v ht => h u r (v ++ [e]) (by simp [ht])
    rw [List.filterMap_append, List.pairwise_append]
    refine ⟨hFront, List.pairwise_filterMap.mpr (List.pairwise_singleton _ _), ?_⟩
    intro s hs r hr
    obtain ⟨o, a⟩ := e
    cases o with
    | host o =>
      rw [List.mem_filterMap] at hr
      obtain ⟨e, he, hr⟩ := hr
      rw [List.mem_singleton.mp he] at hr
      cases hr
    | goRunJob r' =>
      have hEq : r = r' := by simpa [runOf] using hr
      rw [hEq]
      exact h t r' [] rfl s hs

end Histories

/-- A job is run at most once in a minute, and only in a minute in which its schedule
matches. -/
theorem job_once_per_minute {civil : Int → Cron.Civil} {n : Nat} {t : List (Event CronHost)}
    {q : CronM (GoMap Str Int)} (h : (ticks civil n []).Leads t q)
    (hClock : (t.filterMap timeOf).Pairwise (· ≤ ·)) :
    ((t.filterMap runOf).Pairwise fun s r => ¬ r.Same s) ∧
      ∀ u r v, t = u ++ ⟨.goRunJob r, ()⟩ :: v →
        Due civil ((ticking civil).account noTicks u) r := by
  refine ⟨runs_pairwise fun u r v ht => (ticks_permitted h ht).2 (account_ordered ?_),
    fun u r v ht => (ticks_permitted h ht).1⟩
  rw [ht, List.filterMap_append] at hClock
  exact (List.pairwise_append.mp hClock).1

/-- A plugin with a job for every minute. -/
def digestManifest : Manifest :=
  { key := "digest".toList
    version := "1.0.0".toList
    weight := 0
    entrypoint := "digest".toList
    replicas := 1
    permissions := [permCron]
    filters := []
    config := []
    jobs := [⟨"send".toList, "* * * * *".toList⟩] }

def digestPackage : Package where
  dir := "plugins/digest".toList
  manifest := digestManifest
  binaryPath := "plugins/digest/digest".toList
  checksum := "sum".toList
  filters := []
  valid := by decide +kernel
  compiled := rfl

def digestInstance : Instance := ⟨0, "digest".toList, "digest-0".toList, "1.0.0".toList, 0⟩

def digestSnapshot : Snapshot :=
  ⟨[("digest".toList, ⟨1, "digest".toList, [digestInstance]⟩)], emptyChain, 1⟩

def newYear : Cron.Civil :=
  ⟨0, 0, 1, 1, 4, by decide, by decide, by decide, by decide, by decide, by decide, by decide⟩

def digestRun : JobRun := ⟨"digest".toList, digestInstance, ⟨digestInstance, 0⟩, "send".toList, 0⟩

/-- Two ticks in one minute: the first one runs the job. -/
def digestHistory : List (Event CronHost) :=
  [⟨.host (.ask .now), (0 : Int)⟩,
    ⟨.host .current, digestSnapshot⟩,
    ⟨.host (.manager (.package "digest".toList)), some digestPackage⟩,
    ⟨.host (.loadState digestInstance), State.ready⟩,
    ⟨.host (.picked "digest".toList digestInstance), ()⟩,
    ⟨.host (.loadState digestInstance), State.ready⟩,
    ⟨.host (.addInflight digestInstance 1), (1 : Int)⟩,
    ⟨.host (.loadState digestInstance), State.ready⟩,
    ⟨.host (.newDone digestInstance), (⟨digestInstance, 0⟩ : Lease)⟩,
    ⟨.goRunJob digestRun, ()⟩,
    ⟨.host (.ask .now), (20000000000 : Int)⟩,
    ⟨.host .current, digestSnapshot⟩,
    ⟨.host (.manager (.package "digest".toList)), some digestPackage⟩]

def everyMinute : Cron.Schedule :=
  ⟨0x0fffffffffffffff, 0xffffff, 0xfffffffe, 0x1ffe, 0x7f, false, false⟩

theorem tickJobs_digest (now : Int) (lastRun : GoMap Str Int) :
    tickJobs (fun _ => newYear) now digestSnapshot "digest".toList digestManifest.jobs lastRun =
      match claim lastRun "digest".toList "send".toList now with
      | none => pure lastRun
      | some lastRun =>
        runJob digestSnapshot "digest".toList "send".toList (truncate now) >>= fun _ =>
          pure lastRun := by
  have hParsed : Cron.readSchedule "* * * * *".toList = .ok everyMinute := by decide +kernel
  have hMatch : everyMinute.matches newYear = true := by decide +kernel
  simp only [digestManifest, tickJobs, hParsed, hMatch]
  rfl

theorem digestHistory_leads :
    (ticks (fun _ => newYear) 2 []).Leads digestHistory
      (.ret [(jobID "digest".toList "send".toList, 0)]) := by
  refine .step (.step (.step ?_))
  change ((tickJobs (fun _ => newYear) 0 digestSnapshot "digest".toList digestManifest.jobs [] >>=
    _) >>= _).Leads _ _
  rw [tickJobs_digest]
  refine .step (.step (.step (.step (.step (.step (.step (.step (.step (.step ?_)))))))))
  change ((tickJobs (fun _ => newYear) 20000000000 digestSnapshot "digest".toList
    digestManifest.jobs [(jobID "digest".toList "send".toList, 0)] >>= _) >>= _).Leads _ _
  rw [tickJobs_digest]
  exact .stay _

/-- Two ticks in one minute, with one run of the job between them. -/
theorem job_once_per_minute_digest :
    digestHistory.filterMap runOf = [digestRun] ∧
      ((digestHistory.filterMap runOf).Pairwise fun s r => ¬ r.Same s) := by
  have hTimes : digestHistory.filterMap timeOf = [0, 20000000000] := rfl
  exact ⟨rfl, (job_once_per_minute digestHistory_leads (by rw [hTimes]; decide)).1⟩

end Moduless.PluginHost
