import Moduless.PluginHost.Scheduler

/-!
Which occurrences of a job are run.

`tickOver` is the tick with the choice of an instance and its admission as one operation,
and the program of the scheduler is this one with the operation spelled out. What a tick
meets is then given by the answers to its few operations; an answer for a job that the
tick does not come to run says what it would have met.
-/

namespace Moduless.PluginHost
open Go Pipeline Interaction

inductive TickOp where
  | now
  | current
  | package (key : Str)
  | run (snap : Snapshot) (pluginKey jobName : Str) (scheduled : Int)

/-- `run` answers with the instance that was picked and the admission it gave. -/
@[reducible] def TickOp.Ans : TickOp → Type
  | .now => Int
  | .current => Snapshot
  | .package _ => Option Package
  | .run _ _ _ _ => Option (Instance × Lease)

def TickHost : Interface := ⟨TickOp, TickOp.Ans⟩

def TickOp.perform (o : TickOp) : Program TickHost o.Ans := Program.perform (I := TickHost) o

/-- The operations of a tick in terms of those of the host. -/
def TickOp.onCron : (o : TickOp) → CronM o.Ans
  | .now => onHost (ask .now)
  | .current => onHost (op .current)
  | .package key => onHost (op (.manager (.package key)))
  | .run snap pluginKey jobName scheduled => do
      let inst ← onHost (snap.pick pluginKey)
      match inst with
      | none => pure none
      | some inst =>
        let lease ← onHost inst.beginRequest
        match lease with
        | none => pure none
        | some lease => do
            Program.perform (I := CronHost)
              (.goRunJob ⟨pluginKey, inst, lease, jobName, scheduled⟩)
            pure (some (inst, lease))

section Ticks

variable (civil : Int → Cron.Civil)

/-- The job's schedule can be read and matches. -/
def JobDecl.due (now : Int) (job : JobDecl) : Bool :=
  match Cron.readSchedule job.cron with
  | .error _ => false
  | .ok schedule => schedule.matches (civil now)

def jobsOver (now : Int) (snap : Snapshot) (key : Str) :
    List JobDecl → GoMap Str Int → Program TickHost (GoMap Str Int)
  | [], lastRun => pure lastRun
  | job :: rest, lastRun =>
    if JobDecl.due civil now job then
      match claim lastRun key job.name now with
      | none => jobsOver now snap key rest lastRun
      | some lastRun => do
          let _ ← (TickOp.run snap key job.name (truncate now)).perform
          jobsOver now snap key rest lastRun
    else jobsOver now snap key rest lastRun

def keysOver (now : Int) (snap : Snapshot) :
    List Str → GoMap Str Int → Program TickHost (GoMap Str Int)
  | [], lastRun => pure lastRun
  | key :: rest, lastRun => do
      let pkg ← (TickOp.package key).perform
      match pkg with
      | none => keysOver now snap rest lastRun
      | some pkg =>
        let lastRun ← jobsOver civil now snap key pkg.manifest.jobs lastRun
        keysOver now snap rest lastRun

def tickOver (lastRun : GoMap Str Int) : Program TickHost (GoMap Str Int) := do
  let now ← TickOp.now.perform
  let snap ← TickOp.current.perform
  keysOver civil now snap snap.keys lastRun

end Ticks

section Handled

variable {civil : Int → Cron.Civil}

theorem runJob_onCron (snap : Snapshot) (key name : Str) (scheduled : Int) :
    runJob snap key name scheduled =
      (TickOp.run snap key name scheduled).onCron >>= fun _ => pure () := by
  simp only [runJob, TickOp.onCron, Program.bind_assoc]
  congr 1
  funext inst
  cases inst with
  | none => rfl
  | some inst =>
    dsimp only
    rw [Program.bind_assoc]
    congr 1
    funext lease
    cases lease with
    | none => rfl
    | some lease => rfl

theorem tickJobs_eq_handle (now : Int) (snap : Snapshot) (key : Str) (jobs : List JobDecl)
    (lastRun : GoMap Str Int) :
    tickJobs civil now snap key jobs lastRun =
      (jobsOver civil now snap key jobs lastRun).handle TickOp.onCron := by
  induction jobs generalizing lastRun with
  | nil => rfl
  | cons job rest ih =>
    rw [tickJobs, jobsOver, JobDecl.due]
    cases Cron.readSchedule job.cron with
    | error e => exact ih lastRun
    | ok schedule =>
      dsimp only
      by_cases hMatch : schedule.matches (civil now) = true
      · rw [if_neg (by simp [hMatch]), if_pos hMatch]
        cases claim lastRun key job.name now with
        | none => exact ih lastRun
        | some last' =>
          dsimp only
          rw [runJob_onCron, Program.bind_assoc, ih]
          rfl
      · rw [if_pos (by simp [hMatch]), if_neg hMatch]
        exact ih lastRun

theorem tickKeys_eq_handle (now : Int) (snap : Snapshot) (keys : List Str)
    (lastRun : GoMap Str Int) :
    tickKeys civil now snap keys lastRun =
      (keysOver civil now snap keys lastRun).handle TickOp.onCron := by
  induction keys generalizing lastRun with
  | nil => rfl
  | cons key rest ih =>
    refine congrArg (Program.call (I := CronHost) (.host (.manager (.package key)))) ?_
    funext pkg
    cases pkg with
    | none => exact ih lastRun
    | some pkg =>
      change tickJobs civil now snap key pkg.manifest.jobs lastRun >>=
          tickKeys civil now snap rest =
        (jobsOver civil now snap key pkg.manifest.jobs lastRun >>=
          keysOver civil now snap rest).handle TickOp.onCron
      refine Eq.trans ?_ (Program.handle_bind _ _ _).symm
      rw [tickJobs_eq_handle, funext ih]

/-- The scheduler's tick is `tickOver` on the host. -/
theorem tick_eq_handle (lastRun : GoMap Str Int) :
    tick civil lastRun = (tickOver civil lastRun).handle TickOp.onCron := by
  refine congrArg (Program.call (I := CronHost) (.host (.ask .now))) ?_
  funext now
  refine congrArg (Program.call (I := CronHost) (.host .current)) ?_
  funext snap
  exact tickKeys_eq_handle now snap _ lastRun

end Handled

/-- What a tick meets. `attempt` is what picking an instance for a job and asking it for an
admission gives, or would give, when the tick comes to the job. -/
structure TickEnv where
  now : Int
  snap : Snapshot
  package : Str → Option Package
  attempt : Str → Str → Option (Instance × Lease)

def TickEnv.answers (e : TickEnv) : (o : TickOp) → o.Ans
  | .now => e.now
  | .current => e.snap
  | .package key => e.package key
  | .run _ pluginKey jobName _ => e.attempt pluginKey jobName

def runOver : Event TickHost → Option JobRun
  | ⟨.run _ pluginKey jobName scheduled, some (inst, lease)⟩ =>
    some ⟨pluginKey, inst, lease, jobName, scheduled⟩
  | _ => none

/-- The runs that a program starts, and what it returns. -/
def TickEnv.results {α : Type} (e : TickEnv) (p : Program TickHost α) : List JobRun × α :=
  ((p.answered e.answers).1.filterMap runOver, (p.answered e.answers).2)

/-- A due job of a registered plugin that a tick comes to. -/
structure Visit where
  now : Int
  key : Str
  name : Str
  outcome : Option (Instance × Lease)

def Visit.id (v : Visit) : Str := jobID v.key v.name

def Visit.run (v : Visit) : Option JobRun :=
  v.outcome.map fun o => ⟨v.key, o.1, o.2, v.name, truncate v.now⟩

section Visits

variable (civil : Int → Cron.Civil)

def TickEnv.jobVisits (e : TickEnv) (key : Str) (jobs : List JobDecl) : List Visit :=
  (jobs.filter (JobDecl.due civil e.now)).map fun job =>
    ⟨e.now, key, job.name, e.attempt key job.name⟩

def TickEnv.keyVisits (e : TickEnv) (key : Str) : List Visit :=
  match e.package key with
  | none => []
  | some pkg => e.jobVisits civil key pkg.manifest.jobs

def TickEnv.visits (e : TickEnv) : List Visit := e.snap.keys.flatMap (e.keyVisits civil)

/-- The runs that one tick after another starts, and the minutes reserved in the end. -/
def ticksOver : List TickEnv → GoMap Str Int → List JobRun × GoMap Str Int
  | [], lastRun => ([], lastRun)
  | e :: rest, lastRun =>
    let out := e.results (tickOver civil lastRun)
    let later := ticksOver rest out.2
    (out.1 ++ later.1, later.2)

end Visits

/-- The visits one after the other: only one that can reserve its minute may run. -/
def attend : List Visit → GoMap Str Int → List JobRun × GoMap Str Int
  | [], lastRun => ([], lastRun)
  | v :: rest, lastRun =>
    match claim lastRun v.key v.name v.now with
    | none => attend rest lastRun
    | some lastRun => (v.run.toList ++ (attend rest lastRun).1, (attend rest lastRun).2)

section Attend

variable {civil : Int → Cron.Civil} {e : TickEnv} {lastRun last' : GoMap Str Int}

theorem attend_append (vs ws : List Visit) (lastRun : GoMap Str Int) :
    attend (vs ++ ws) lastRun = ((attend vs lastRun).1 ++ (attend ws (attend vs lastRun).2).1,
      (attend ws (attend vs lastRun).2).2) := by
  induction vs generalizing lastRun with
  | nil => rfl
  | cons v vs ih =>
    rw [List.cons_append, attend, attend]
    cases claim lastRun v.key v.name v.now with
    | none => exact ih lastRun
    | some last' =>
      dsimp only
      rw [ih last', List.append_assoc]

theorem results_op {α : Type} (o : TickOp) (f : o.Ans → Program TickHost α) :
    e.results (o.perform >>= f) = ((runOver ⟨o, e.answers o⟩).toList ++
      (e.results (f (e.answers o))).1, (e.results (f (e.answers o))).2) := by
  refine Prod.ext ?_ rfl
  change (⟨o, e.answers o⟩ :: _ : List (Event TickHost)).filterMap runOver = _
  rw [List.filterMap_cons]
  cases runOver ⟨o, e.answers o⟩ <;> rfl

theorem results_bind {α β : Type} (p : Program TickHost α) (f : α → Program TickHost β) :
    e.results (p >>= f) = ((e.results p).1 ++ (e.results (f (e.results p).2)).1,
      (e.results (f (e.results p).2)).2) := by
  have hBind := Program.answered_bind e.answers p f
  simp only [TickEnv.results, hBind, List.filterMap_append]

theorem results_jobsOver (snap : Snapshot) (key : Str) (jobs : List JobDecl)
    (lastRun : GoMap Str Int) :
    e.results (jobsOver civil e.now snap key jobs lastRun) =
      attend (e.jobVisits civil key jobs) lastRun := by
  induction jobs generalizing lastRun with
  | nil => rfl
  | cons job rest ih =>
    rw [jobsOver, TickEnv.jobVisits]
    by_cases hDue : JobDecl.due civil e.now job = true
    · rw [if_pos hDue, List.filter_cons_of_pos hDue, List.map_cons, attend]
      dsimp only
      cases claim lastRun key job.name e.now with
      | none => exact ih lastRun
      | some last' =>
        dsimp only
        rw [results_op, ih last']
        refine Prod.ext (congrArg (· ++ _) ?_) rfl
        rw [Visit.run]
        change (runOver ⟨.run snap key job.name _, e.attempt key job.name⟩).toList = _
        cases e.attempt key job.name <;> rfl
    · rw [if_neg hDue, List.filter_cons_of_neg hDue]
      exact ih lastRun

theorem results_keysOver (snap : Snapshot) (keys : List Str) (lastRun : GoMap Str Int) :
    e.results (keysOver civil e.now snap keys lastRun) =
      attend (keys.flatMap (e.keyVisits civil)) lastRun := by
  induction keys generalizing lastRun with
  | nil => rfl
  | cons key rest ih =>
    rw [List.flatMap_cons, attend_append, TickEnv.keyVisits, keysOver, results_op]
    have hPackage : e.answers (.package key) = e.package key := rfl
    rw [hPackage]
    cases e.package key with
    | none =>
      rw [← ih]
      rfl
    | some pkg =>
      dsimp only
      rw [results_bind, results_jobsOver, ← ih]
      rfl

theorem ticksOver_eq_attend (envs : List TickEnv) (lastRun : GoMap Str Int) :
    ticksOver civil envs lastRun = attend (envs.flatMap (TickEnv.visits civil)) lastRun := by
  induction envs generalizing lastRun with
  | nil => rfl
  | cons e rest ih =>
    have hTick : e.results (tickOver civil lastRun) = attend (e.visits civil) lastRun :=
      results_keysOver e.snap e.snap.keys lastRun
    rw [List.flatMap_cons, attend_append, ← hTick, ← ih]
    rfl

end Attend

section Claimed

variable {lastRun last' : GoMap Str Int} {key name : Str} {now : Int}

theorem claim_eq_none (h : claim lastRun key name now = none) :
    lastRun.get (jobID key name) = some (truncate now) := by
  by_contra hFresh
  rw [claim, if_neg hFresh] at h
  cases h

theorem claim_nodup (hMap : lastRun.keys.Nodup) (h : claim lastRun key name now = some last') :
    last'.keys.Nodup := by
  rw [claim] at h
  split at h
  next => cases h
  next =>
    cases h
    exact GoMap.nodup_filter (GoMap.nodup_set hMap _ _) _

theorem claim_reserves (hMap : lastRun.keys.Nodup) (h : claim lastRun key name now = some last')
    (id : Str) : last'.get id = some (truncate now) ↔
      id = jobID key name ∨ lastRun.get id = some (truncate now) := by
  have hSet : (lastRun.set (jobID key name) (truncate now)).get id = some (truncate now) ↔
      id = jobID key name ∨ lastRun.get id = some (truncate now) := by
    rw [GoMap.get_set]
    split
    next hId => exact iff_of_true rfl (.inl hId)
    next hId => exact ⟨.inr, fun h => h.resolve_left hId⟩
  rw [← hSet]
  refine ⟨fun hGet => ?_, claim_keeps h⟩
  rw [claim] at h
  split at h
  next => cases h
  next =>
    cases h
    exact (GoMap.get_of_filter (GoMap.nodup_set hMap _ _) hGet).1

theorem Visit.run_eq_some {v : Visit} {r : JobRun} (h : v.run = some r) :
    r.pluginKey = v.key ∧ r.jobName = v.name ∧ r.scheduled = truncate v.now ∧
      v.outcome.isSome = true := by
  obtain ⟨o, hOutcome, rfl⟩ := Option.map_eq_some_iff.mp h
  exact ⟨rfl, rfl, rfl, by rw [hOutcome]; rfl⟩

theorem mem_attend {minute : Int} {vs : List Visit} {r : JobRun} (hMap : lastRun.keys.Nodup)
    (hMinute : ∀ v ∈ vs, truncate v.now = minute) :
    r ∈ (attend vs lastRun).1 ↔
      lastRun.get (jobID r.pluginKey r.jobName) ≠ some minute ∧
        ∃ v, vs.find? (fun v => v.id = jobID r.pluginKey r.jobName) = some v ∧
          v.run = some r := by
  induction vs generalizing lastRun with
  | nil => simp [attend]
  | cons v vs ih =>
    obtain ⟨hv, hRest⟩ := List.forall_mem_cons.mp hMinute
    rw [attend]
    cases hClaim : claim lastRun v.key v.name v.now with
    | none =>
      have hTaken := claim_eq_none hClaim
      rw [hv] at hTaken
      refine (ih hMap hRest).trans (and_congr_right fun hFree => ?_)
      have hOther : v.id ≠ jobID r.pluginKey r.jobName := fun hId => hFree (hId ▸ hTaken)
      rw [List.find?_cons_of_neg (by simpa using hOther)]
    | some last' =>
      have hReserves := claim_reserves hMap hClaim (jobID r.pluginKey r.jobName)
      have hFresh := claim_fresh hClaim
      rw [hv] at hReserves hFresh
      rw [List.mem_append, Option.mem_toList, ih (claim_nodup hMap hClaim) hRest, ne_eq,
        hReserves]
      by_cases hId : v.id = jobID r.pluginKey r.jobName
      · rw [List.find?_cons_of_pos (by simpa using hId)]
        have hSame : jobID r.pluginKey r.jobName = jobID v.key v.name := hId.symm
        rw [hSame]
        simp [hFresh]
      · rw [List.find?_cons_of_neg (by simpa using hId)]
        have hNot : v.run ≠ some r := by
          intro hRun
          obtain ⟨hKey, hName, -⟩ := v.run_eq_some hRun
          exact hId (by rw [hKey, hName]; rfl)
        have hNe : ¬ jobID r.pluginKey r.jobName = jobID v.key v.name := fun h => hId h.symm
        simp [hNot, hNe]

theorem TickEnv.now_of_mem {civil : Int → Cron.Civil} {e : TickEnv} {v : Visit}
    (h : v ∈ e.visits civil) : v.now = e.now := by
  obtain ⟨key, -, hv⟩ := List.mem_flatMap.mp h
  rw [TickEnv.keyVisits] at hv
  split at hv
  next => cases hv
  next =>
    obtain ⟨job, -, rfl⟩ := List.mem_map.mp hv
    rfl

/-- A job is run in a minute if the first visit under its id is its own and can run it. -/
theorem exists_run_iff (civil : Int → Cron.Civil) {minute : Int} {envs : List TickEnv}
    (hMap : lastRun.keys.Nodup) (hMinute : ∀ e ∈ envs, truncate e.now = minute)
    (hNew : ∀ id, lastRun.get id ≠ some minute) (key name : Str) :
    (∃ r ∈ (ticksOver civil envs lastRun).1,
        r.pluginKey = key ∧ r.jobName = name ∧ r.scheduled = minute) ↔
      ∃ f, (envs.flatMap (TickEnv.visits civil)).find? (fun f => f.id = jobID key name) = some f ∧
        f.key = key ∧ f.name = name ∧ f.outcome.isSome := by
  have hVisits : ∀ v ∈ envs.flatMap (TickEnv.visits civil), truncate v.now = minute := by
    intro v hv
    obtain ⟨e, he, hv⟩ := List.mem_flatMap.mp hv
    rw [TickEnv.now_of_mem hv]
    exact hMinute e he
  rw [ticksOver_eq_attend]
  constructor
  · rintro ⟨r, hr, rfl, rfl, -⟩
    obtain ⟨-, f, hFirst, hRun⟩ := (mem_attend hMap hVisits).mp hr
    obtain ⟨hKey, hName, -, hSome⟩ := f.run_eq_some hRun
    exact ⟨f, hFirst, hKey.symm, hName.symm, hSome⟩
  · rintro ⟨f, hFirst, rfl, rfl, hSome⟩
    obtain ⟨o, ho⟩ := Option.isSome_iff_exists.mp hSome
    have hRun : f.run = some ⟨f.key, o.1, o.2, f.name, truncate f.now⟩ := by
      rw [Visit.run, ho]
      rfl
    have hMem := List.mem_of_find?_eq_some hFirst
    exact ⟨_, (mem_attend hMap hVisits).mpr ⟨hNew _, f, hFirst, hRun⟩, rfl, rfl, hVisits f hMem⟩

end Claimed

/-- Every tick that finds a due job's plugin with an instance that takes requests leaves
the job run for the minute, exactly if the first tick of the minute that comes to the job
finds such an instance, for each job for which one does. -/
theorem occurrence_kept_iff {civil : Int → Cron.Civil} {minute : Int} {envs : List TickEnv}
    {lastRun : GoMap Str Int} (hMap : lastRun.keys.Nodup)
    (hMinute : ∀ e ∈ envs, truncate e.now = minute)
    (hNew : ∀ id, lastRun.get id ≠ some minute) :
    (∀ before e after, envs = before ++ e :: after → ∀ v ∈ e.visits civil, v.outcome.isSome →
        ∃ r ∈ (ticksOver civil (before ++ [e]) lastRun).1,
          r.pluginKey = v.key ∧ r.jobName = v.name ∧ r.scheduled = minute) ↔
      ∀ v ∈ envs.flatMap (TickEnv.visits civil), v.outcome.isSome →
        ∃ f, (envs.flatMap (TickEnv.visits civil)).find? (fun f => f.id = v.id) = some f ∧
          f.key = v.key ∧ f.name = v.name ∧ f.outcome.isSome := by
  have hUpTo : ∀ before e after, envs = before ++ e :: after →
      ∀ e' ∈ before ++ [e], truncate e'.now = minute := by
    rintro before e after rfl e' he'
    exact hMinute e' (by simp at he' ⊢; tauto)
  have hRuns : ∀ before e after, envs = before ++ e :: after → ∀ v : Visit, _ ↔ _ :=
    fun before e after hEnvs v =>
      exists_run_iff civil hMap (hUpTo before e after hEnvs) hNew v.key v.name
  have hSplit : ∀ before e after, envs = before ++ e :: after →
      envs.flatMap (TickEnv.visits civil) = (before ++ [e]).flatMap (TickEnv.visits civil) ++
        after.flatMap (TickEnv.visits civil) := by
    rintro before e after rfl
    simp
  constructor
  · intro hKept v hv hSome
    obtain ⟨e, he, hVisit⟩ := List.mem_flatMap.mp hv
    obtain ⟨before, after, hEnvs⟩ := List.append_of_mem he
    obtain ⟨f, hFirst, hSame⟩ :=
      (hRuns before e after hEnvs v).mp (hKept before e after hEnvs v hVisit hSome)
    refine ⟨f, ?_, hSame⟩
    rw [hSplit before e after hEnvs, List.find?_append]
    exact Option.or_eq_some_iff.mpr (.inl hFirst)
  · intro hFirstUsable before e after hEnvs v hVisit hSome
    have hv : v ∈ (before ++ [e]).flatMap (TickEnv.visits civil) :=
      List.mem_flatMap.mpr ⟨e, by simp, hVisit⟩
    have hAll := hSplit before e after hEnvs
    have hvAll : v ∈ envs.flatMap (TickEnv.visits civil) := by
      rw [hAll]
      exact List.mem_append_left _ hv
    obtain ⟨f, hFirst, hSame⟩ := hFirstUsable v hvAll hSome
    refine (hRuns before e after hEnvs v).mpr ⟨f, ?_, hSame⟩
    rw [hAll, List.find?_append] at hFirst
    -- The visit itself is among those up to the end of the tick.
    rcases Option.or_eq_some_iff.mp hFirst with hFound | ⟨hNone, -⟩
    · exact hFound
    · exact absurd (List.find?_eq_none.mp hNone v hv) (by simp)

section Digest

/-- A tick that meets the plugin with the job, at the time and with the outcome given. -/
def digestEnv (now : Int) (outcome : Option (Instance × Lease)) : TickEnv where
  now := now
  snap := digestSnapshot
  package := fun key => if key = "digest".toList then some digestPackage else none
  attempt := fun _ _ => outcome

theorem digest_visits (now : Int) (outcome : Option (Instance × Lease)) :
    (digestEnv now outcome).visits (fun _ => newYear) =
      [⟨now, "digest".toList, "send".toList, outcome⟩] := by
  have hDue : JobDecl.due (fun _ => newYear) now ⟨"send".toList, "* * * * *".toList⟩ = true := by
    have hParsed : Cron.readSchedule "* * * * *".toList = .ok everyMinute := by decide +kernel
    have hMatch : everyMinute.matches newYear = true := by decide +kernel
    rw [JobDecl.due, hParsed]
    exact hMatch
  change ((digestEnv now outcome).jobVisits (fun _ => newYear) "digest".toList
    [⟨"send".toList, "* * * * *".toList⟩]) ++ [] = _
  rw [TickEnv.jobVisits, List.append_nil]
  change List.map _ (List.filter (JobDecl.due (fun _ => newYear) now) _) = _
  rw [List.filter_cons_of_pos hDue]
  rfl

def digestOutcome : Option (Instance × Lease) := some (digestInstance, ⟨digestInstance, 0⟩)

/-- Two ticks of a minute that both find the instance ready. -/
theorem occurrence_kept_digest :
    ∃ r ∈ (ticksOver (fun _ => newYear)
        [digestEnv 0 digestOutcome, digestEnv 20000000000 digestOutcome] []).1,
      r.pluginKey = "digest".toList ∧ r.jobName = "send".toList ∧ r.scheduled = 0 := by
  have hKept := (@occurrence_kept_iff (fun _ => newYear) 0
    [digestEnv 0 digestOutcome, digestEnv 20000000000 digestOutcome] []
    List.nodup_nil (by decide) (by simp)).mpr ?_
  · refine hKept [digestEnv 0 digestOutcome] _ [] rfl
      ⟨20000000000, "digest".toList, "send".toList, digestOutcome⟩ ?_ rfl
    rw [digest_visits]
    exact List.mem_singleton_self _
  · simp only [List.flatMap_cons, List.flatMap_nil, digest_visits]
    simp [Visit.id, digestOutcome]

/-- The first tick finds no instance, the second one does, and the job is not run. -/
theorem occurrence_lost :
    (∀ e ∈ [digestEnv 0 none, digestEnv 20000000000 digestOutcome], truncate e.now = 0) ∧
      ⟨20000000000, "digest".toList, "send".toList, digestOutcome⟩ ∈
        (digestEnv 20000000000 digestOutcome).visits (fun _ => newYear) ∧
      digestOutcome.isSome ∧
      (ticksOver (fun _ => newYear) [digestEnv 0 none, digestEnv 20000000000 digestOutcome] []).1 =
        [] := by
  refine ⟨by decide, ?_, rfl, ?_⟩
  · rw [digest_visits]
    exact List.mem_singleton_self _
  · rw [ticksOver_eq_attend, List.flatMap_cons, List.flatMap_cons, List.flatMap_nil, digest_visits,
      digest_visits]
    decide

end Digest
end Moduless.PluginHost
