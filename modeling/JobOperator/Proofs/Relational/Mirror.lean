import JobOperator.Proofs.Relational.Server
import JobOperator.Proofs.Store.Twin

/-!
# A database mirrors a store

* `Relational.Server.Mirrors`: the tables keep what is in a store in memory.
* `Relational.CallFits`: a call that asks for nothing that columns cannot hold.
* `Relational.Server.Mirrors.inStep`: **tables that mirror a store answer as the store does**, and
  mirror it afterwards; one lemma for each call.

A database knows the time of a worker's creation to the microsecond only. So the clock of the store
that it mirrors has to read what a column keeps.
-/

namespace JobOperator.Relational

/-- What is left of a time in a column. -/
def atRest (t : Instant) : Instant := (Stamp.ofInstant t).toInstant

theorem ofInstant_atRest (t : Instant) : Stamp.ofInstant (atRest t) = .ofInstant t :=
  Stamp.ofInstant_toInstant _

/-- A call asks for nothing that columns cannot hold. `clock` is the time at which a new worker
counts as created. -/
def CallFits (clock : Instant) : StoreCall → Prop
  | .createJob job =>
    NameFits job.name ∧ Held job.createdAt ∧ JobTextual job.spec ∧ StatusFits job.status
  | .updateStatus job =>
    NameFits job.name ∧ StatusFits job.status ∧ job.resourceVersion.toNat ≤ greatest64
  | .getJob name | .deleteJob name | .getWorker name | .updateWorkerPhase name _
  | .deleteWorker name => NameFits name
  | .listJobs => True
  | .createWorker launch => NameFits launch.name ∧ NameFits launch.owner.name ∧
    WorkerTextual launch.spec ∧ (Stamp.ofInstant clock).InRange
  | .listWorkers owner => ∀ name, owner = some name → NameFits name

/-- A worker has the uid of a job if it names it. -/
def Attributed (m : MemoryStore) : Prop :=
  ∀ name job, m.jobs.get? name = some job → ∀ n worker, m.workers.get? n = some worker →
    (worker.owner.uid = job.uid ↔ worker.owner.name = name)

namespace Server

/-- The tables keep what is in the store. -/
structure Mirrors (d : Server) (m : MemoryStore) : Prop where
  jobs : Keeps JobRow.name JobRow.ofJob JobHeld d.jobs m.jobs
  workers : Keeps WorkerRow.name WorkerRow.ofWorker (fun w => Held w.createdAt) d.workers m.workers

/-- What a database answers to a store call, and its tables afterwards. -/
def respond (clock : Instant) (call : StoreCall) (d : Server) : call.Answer × Server :=
  (Relational.answer clock call).perform answer d

/-- A database answers as a store does, and its tables go on to mirror it. -/
def InStep (clock : Instant) (call : StoreCall) (d : Server) (m : MemoryStore) : Prop :=
  call.Agree (m.answer (atRest clock) call).1 (respond clock call d).1 ∧
    (respond clock call d).2.Mirrors (m.answer (atRest clock) call).2

variable {d d' : Server} {m m' : MemoryStore} {clock : Instant} {call : StoreCall} {name : String}

/-- A call that both answer the same. -/
theorem InStep.of_eq (reply : call.Answer) (m' : MemoryStore) (d' : Server)
    (hm : m.answer (atRest clock) call = (reply, m')) (hd : respond clock call d = (reply, d'))
    (h : d'.Mirrors m') : InStep clock call d m := by
  rw [InStep, hm, hd]
  exact ⟨.refl call reply, h⟩

/-- A statement that binds a name. -/
theorem sendable_name {s : Statement} (h : NameFits name) (hs : s.parameters = [.text name]) :
    Sendable s := by
  intro p hp
  rw [hs, List.mem_singleton] at hp
  rw [hp]
  exact sendable_text h.textual

namespace Mirrors

/-! ## Jobs -/

theorem createJob (h : d.Mirrors m) {job : Job} (fits : CallFits clock (.createJob job)) :
    InStep clock (.createJob job) d m := by
  obtain ⟨hname, hcreated, hspec, hstatus⟩ := fits
  let stored : Job := { job with resourceVersion := 1 }
  let s : Statement := .insertJob job.name job.uid (.ofInstant job.createdAt) job.spec.toJson
    (.ofStatus job.status)
  have hsendable : Sendable s := by
    simp only [Sendable, s, Statement.parameters, List.forall_mem_cons]
    exact ⟨sendable_text hname.textual, rfl, sendable_stamp hcreated,
      sendable_document hspec.storable, hstatus.sendable⟩
  have hrow := JobRow.fit_ofJob hname hstatus
  have hany : d.jobs.any (·.name = (JobRow.ofJob stored).name) = m.jobs.contains job.name :=
    h.jobs.any job.name
  cases hfree : m.jobs.contains job.name with
  | true =>
    have hexecute : execute s d = _ := insertJob_taken hrow (hany.trans hfree)
    refine .of_eq (.error (.alreadyExists .job job.name)) m d ?_
      (perform_about_refused (answer_of_refused hsendable hexecute)) h
    rw [MemoryStore.answer, MemoryStore.createJob, if_pos hfree]
  | false =>
    have hone : (1 : UInt64).toNat ≤ greatest64 := by decide
    have hheld : JobHeld stored := ⟨hone, hcreated, hstatus.toStatusHeld⟩
    have habsent : m.jobs.get? job.name = none :=
      MemoryStore.get?_eq_none_of_not_contains (by rw [hfree]; exact Bool.false_ne_true)
    have hexecute : execute s d = _ := insertJob_free hrow (hany.trans hfree)
    have hrespond : respond clock (.createJob job) d =
        (.ok stored, { d with jobs := d.jobs ++ [.ofJob stored] }) := by
      refine (perform_about (answer_of_execute hsendable hexecute)).trans ?_
      rw [firstJob, JobRow.toJob_ofJob hheld]
    refine .of_eq (.ok stored) { m with jobs := m.jobs.insert job.name stored } _ ?_ hrespond
      ⟨h.jobs.append (a := stored) habsent rfl hheld, h.workers⟩
    rw [MemoryStore.answer, MemoryStore.createJob, hfree]
    rfl

theorem getJob (h : d.Mirrors m) (fits : CallFits clock (.getJob name)) :
    InStep clock (.getJob name) d m := by
  have hrespond : respond clock (.getJob name) d =
      (firstJob name (d.jobs.filter (·.name = name)), d) :=
    perform_about (answer_of_execute (sendable_name fits rfl) rfl)
  refine .of_eq (m.getJob name) m d rfl (hrespond.trans ?_) h
  rw [MemoryStore.getJob]
  cases found : m.jobs.get? name with
  | none => rw [h.jobs.filter_absent found, firstJob]
  | some job =>
    rw [h.jobs.filter_found found, firstJob, JobRow.toJob_ofJob (h.jobs.held name job found)]

/-- The rows of jobs are read back as the jobs. -/
theorem allJobs_map {jobs : List Job} (h : ∀ job ∈ jobs, JobHeld job) :
    allJobs (jobs.map .ofJob) = .ok jobs := by
  rw [allJobs, forM_map_eq_ok fun job => ⟨job.spec, JobRow.readSpec_ofJob job⟩]
  exact mapM_map_eq_ok fun job hjob => JobRow.toJob_ofJob (h job hjob)

theorem listJobs (h : d.Mirrors m) : InStep clock .listJobs d m := by
  have hsorted := List.mergeSort_perm d.jobs (·.createdAt.micros ≤ ·.createdAt.micros)
  obtain ⟨jobs, hperm, hrows, hheld⟩ :=
    h.jobs.exists_values (hsorted.trans h.jobs.perm) fun _ hjob => hjob
  have hexecute : execute .selectJobs d = .ok (jobs.map JobRow.ofJob, d) := by
    rw [hrows]
    rfl
  have hrespond : respond clock .listJobs d = (allJobs (jobs.map JobRow.ofJob), d) :=
    perform_overall (answer_of_execute (List.forall_mem_nil _) hexecute)
  rw [allJobs_map hheld] at hrespond
  rw [InStep, hrespond]
  exact ⟨hperm, h⟩

/-- What a write of a status is meant for: the job, if nobody has written it since. -/
theorem filter_meant (h : d.Mirrors m) {job stored : Job}
    (found : m.jobs.get? job.name = some stored) (fits : job.resourceVersion.toNat ≤ greatest64) :
    d.jobs.filter (·.meant job.name job.uid (signed64 job.resourceVersion)) =
      if stored.resourceVersion = job.resourceVersion ∧ stored.uid = job.uid then [.ofJob stored]
      else [] := by
  have hversion : signed64 stored.resourceVersion = signed64 job.resourceVersion ↔
      stored.resourceVersion = job.resourceVersion :=
    signed64_inj (h.jobs.held _ _ found).version fits
  refine (h.jobs.filter_found_and found _).trans ?_
  show (if (stored.uid = job.uid && signed64 stored.resourceVersion = _) = true then _ else _) = _
  simp only [Bool.and_eq_true, decide_eq_true_eq, hversion, and_comm]

/-- The jobs for which a write is not meant, if it is meant for one. -/
theorem filter_not_meant (h : d.Mirrors m) {job stored : Job}
    (found : m.jobs.get? job.name = some stored)
    (version : stored.resourceVersion = job.resourceVersion) (uid : stored.uid = job.uid) :
    d.jobs.filter (! ·.meant job.name job.uid (signed64 job.resourceVersion)) =
      d.jobs.filter (·.name ≠ job.name) := by
  refine List.filter_congr fun row hrow => ?_
  obtain ⟨n, other, hother, rfl⟩ := h.jobs.mem_iff.mp hrow
  have hkeyed : other.name = n := h.jobs.keyed n other hother
  show (! ((other.uid = job.uid && signed64 other.resourceVersion = _) && other.name = job.name)) =
    decide (other.name ≠ job.name)
  by_cases hn : n = job.name
  · subst hn
    obtain rfl := Option.some.inj (found.symm.trans hother)
    simp [version, uid, hkeyed]
  · simp [hkeyed, hn]

/-- The statement that writes the status of a job. -/
abbrev writeOf (job : Job) : Statement :=
  .updateStatus (.ofStatus job.status) job.name job.uid (signed64 job.resourceVersion)

theorem sendable_writeOf {job : Job} (hname : NameFits job.name) (hstatus : StatusFits job.status) :
    Sendable (writeOf job) := by
  intro p hp
  rcases List.mem_append.mp hp with hp | hp
  · exact hstatus.sendable p hp
  · simp only [List.mem_cons, List.not_mem_nil, or_false] at hp
    obtain rfl | rfl | rfl := hp
    · exact sendable_text hname.textual
    · rfl
    · rfl

/-- A write that hits a row answers with the row after it. -/
theorem respond_updateStatus_hit {job : Job} {row : JobRow}
    (h : answer (writeOf job) d = (.ok [row], d')) :
    respond clock (.updateStatus job) d = (row.toJob, d') := by
  rw [respond, Relational.answer, Relational.updateStatus, Script.perform_bind, perform_execute, h]
  rfl

/-- Who hits no row looks whether there is one. -/
theorem respond_updateStatus_missed {job : Job} (h : answer (writeOf job) d = (.ok [], d))
    (fits : NameFits job.name) : respond clock (.updateStatus job) d =
      (.error (if d.jobs.any (·.name = job.name) then .conflict job.name job.resourceVersion
        else .notFound .job job.name), d) := by
  rw [respond, Relational.answer, Relational.updateStatus, Script.perform_bind, perform_execute, h]
  exact perform_about (answer_of_execute (sendable_name fits rfl) rfl)

theorem updateStatus (h : d.Mirrors m) {job : Job} (fits : CallFits clock (.updateStatus job))
    (next : ∀ written, (m.updateStatus job).1 = .ok written →
      written.resourceVersion.toNat ≤ greatest64) : InStep clock (.updateStatus job) d m := by
  obtain ⟨hname, hstatus, hversion⟩ := fits
  have hsendable := sendable_writeOf hname hstatus
  have hmissed : d.jobs.filter (·.meant job.name job.uid (signed64 job.resourceVersion)) = [] →
      respond clock (.updateStatus job) d =
        (.error (if m.jobs.contains job.name then .conflict job.name job.resourceVersion
          else .notFound .job job.name), d) := by
    intro hnone
    rw [← h.jobs.any job.name]
    exact respond_updateStatus_missed (answer_of_execute hsendable (writeStatus_missed hnone)) hname
  cases found : m.jobs.get? job.name with
  | none =>
    have hrespond := hmissed (h.jobs.filter_absent_and found _)
    rw [Table.contains, found] at hrespond
    refine .of_eq (.error (.notFound .job job.name)) m d ?_ hrespond h
    rw [MemoryStore.answer, MemoryStore.updateStatus, found]
  | some stored =>
    have hmeant := h.filter_meant found hversion
    by_cases hcas : stored.resourceVersion = job.resourceVersion ∧ stored.uid = job.uid
    · let written : Job := { stored with
        status := job.status, resourceVersion := stored.resourceVersion + 1 }
      have hnext := next written (MemoryStore.updateStatus_current found hcas.1 hcas.2)
      have hbefore := h.jobs.held _ _ found
      have hheld : JobHeld written := ⟨hnext, hbefore.createdAt, hstatus.toStatusHeld⟩
      have hexecute := writeStatus_hit (hmeant.trans (if_pos hcas))
        (JobRow.written_ofJob hstatus hbefore.version hnext)
      rw [h.filter_not_meant found hcas.1 hcas.2] at hexecute
      have hrespond : respond clock (.updateStatus job) d = (.ok written, { d with
          jobs := d.jobs.filter (·.name ≠ job.name) ++ [.ofJob written] }) := by
        rw [respond_updateStatus_hit (answer_of_execute hsendable hexecute),
          JobRow.toJob_ofJob hheld]
      refine .of_eq (.ok written) { m with jobs := m.jobs.insert job.name written } _ ?_ hrespond
        ⟨h.jobs.insert (a := written) (h.jobs.keyed _ stored found) hheld, h.workers⟩
      rw [MemoryStore.answer, MemoryStore.updateStatus, found]
      dsimp only
      rw [if_pos hcas]
    · have hrespond := hmissed (hmeant.trans (if_neg hcas))
      rw [Table.contains, found] at hrespond
      refine .of_eq (.error (.conflict job.name job.resourceVersion)) m d ?_ hrespond h
      rw [MemoryStore.answer, MemoryStore.updateStatus, found]
      dsimp only
      rw [if_neg hcas]

theorem deleteJob (h : d.Mirrors m) (attributed : Attributed m)
    (fits : CallFits clock (.deleteJob name)) : InStep clock (.deleteJob name) d m := by
  let gone := d.jobs.filter (·.name = name)
  have hrespond : respond clock (.deleteJob name) d = (deleted .job name gone.length,
      { jobs := d.jobs.filter (·.name ≠ name)
        workers := d.workers.filter fun row => ! gone.any (·.name = row.ownerName) }) :=
    perform_about (answer_of_execute (sendable_name fits rfl) rfl)
  have hjobs := h.jobs.erase name
  cases found : m.jobs.get? name with
  | none =>
    have hgone : gone = [] := h.jobs.filter_absent found
    rw [Table.erase_of_absent found] at hjobs
    have hall : d.workers.filter (fun row =>
        ! ([] : List JobRow).any (·.name = row.ownerName)) = d.workers :=
      List.filter_eq_self.mpr fun _ _ => rfl
    rw [hgone, hall] at hrespond
    refine .of_eq (.error (.notFound .job name)) m _ ?_ hrespond ⟨hjobs, h.workers⟩
    rw [MemoryStore.answer, MemoryStore.deleteJob, found]
  | some job =>
    have hgone : gone = [.ofJob job] := h.jobs.filter_found found
    have hnamed : job.name = name := h.jobs.keyed name job found
    have hworkers : Keeps WorkerRow.name WorkerRow.ofWorker (fun w => Held w.createdAt)
        (d.workers.filter fun row => ! [JobRow.ofJob job].any (·.name = row.ownerName))
        (m.workers.filter fun _ w => w.owner.uid ≠ job.uid) := by
      refine h.workers.filter fun n worker hworker => ?_
      -- the rows refer to jobs by name, and a worker in memory goes by uid
      have howner := attributed name job found n worker hworker
      show decide (worker.owner.uid ≠ job.uid) = ! (decide (job.name = worker.owner.name) || false)
      rw [hnamed]
      simp [howner, eq_comm]
    rw [hgone] at hrespond
    refine .of_eq (.ok ()) ⟨m.jobs.erase name, m.workers.filter fun _ w => w.owner.uid ≠ job.uid⟩ _
      ?_ hrespond ⟨hjobs, hworkers⟩
    rw [MemoryStore.answer, MemoryStore.deleteJob, found]

/-! ## Workers -/

/-- The owner of a worker is there: one row has its name and its uid. -/
theorem filter_owner_alive (h : d.Mirrors m) {owner : Owner}
    (alive : (m.jobs.get? owner.name).any (·.uid = owner.uid) = true) :
    ∃ job, m.jobs.get? owner.name = some job ∧ job.uid = owner.uid ∧
      d.jobs.filter (fun row => row.uid = owner.uid && row.name = owner.name) = [.ofJob job] := by
  obtain ⟨job, found, huid⟩ := (Option.any_eq_true _ _).mp alive
  exact ⟨job, found, of_decide_eq_true huid,
    (h.jobs.filter_found_and found _).trans (if_pos huid)⟩

/-- The owner of a worker is not there: no row has its name and its uid. -/
theorem filter_owner_gone (h : d.Mirrors m) {owner : Owner}
    (gone : (m.jobs.get? owner.name).any (·.uid = owner.uid) = false) :
    d.jobs.filter (fun row => row.uid = owner.uid && row.name = owner.name) = [] := by
  cases found : m.jobs.get? owner.name with
  | none => exact h.jobs.filter_absent_and found _
  | some job =>
    rw [found] at gone
    exact (h.jobs.filter_found_and found _).trans (if_neg (Bool.eq_false_iff.mp gone))

theorem createWorker (h : d.Mirrors m) {launch : Worker.Launch}
    (fits : CallFits clock (.createWorker launch)) :
    InStep clock (.createWorker launch) d m := by
  obtain ⟨hname, howner, hspec, hclock⟩ := fits
  let worker := launch.toWorker (atRest clock)
  let s : Statement := .insertWorker launch.name launch.spec.toJson Worker.Phase.pending.word
    (.ofInstant clock) launch.owner.name launch.owner.uid
  have hsendable : Sendable s := by
    simp only [Sendable, s, Statement.parameters, List.forall_mem_cons]
    exact ⟨sendable_text hname.textual, sendable_document hspec.storable, by decide,
      if_pos hclock, sendable_text howner.textual, rfl, List.forall_mem_nil _⟩
  have hexecute : execute s d = d.insertWorkers ((d.jobs.filter fun row =>
      row.uid = launch.owner.uid && row.name = launch.owner.name).map fun owner =>
        ⟨launch.name, owner.name, owner.uid, launch.spec.toJson, Worker.Phase.pending.word,
          .ofInstant clock⟩) := rfl
  cases halive : (m.jobs.get? launch.owner.name).any (·.uid = launch.owner.uid) with
  | false =>
    rw [h.filter_owner_gone halive] at hexecute
    refine .of_eq (.error (.notFound .job launch.owner.name)) m d ?_
      (perform_about (answer_of_execute hsendable hexecute)) h
    rw [MemoryStore.answer, MemoryStore.createWorker, halive]
    rfl
  | true =>
    obtain ⟨owner, found, hownerUid, hfilter⟩ := h.filter_owner_alive halive
    have hownerName : owner.name = launch.owner.name := h.jobs.keyed _ _ found
    have hheld : Held worker.createdAt := ⟨_, hclock, rfl⟩
    have hrow : (WorkerRow.mk launch.name owner.name owner.uid launch.spec.toJson
        Worker.Phase.pending.word (.ofInstant clock)).fit = .ok (.ofWorker worker) := by
      rw [hownerName, hownerUid, ← ofInstant_atRest clock]
      exact WorkerRow.fit_ofWorker worker hname howner
    have hany : d.workers.any (·.name = (WorkerRow.ofWorker worker).name) =
        m.workers.contains launch.name := h.workers.any launch.name
    rw [hfilter] at hexecute
    cases hfree : m.workers.contains launch.name with
    | true =>
      have hexecute := hexecute.trans (insertWorkers_taken hrow (hany.trans hfree))
      refine .of_eq (.error (.alreadyExists .worker launch.name)) m d ?_
        (perform_about_refused (answer_of_refused hsendable hexecute)) h
      rw [MemoryStore.answer, MemoryStore.createWorker, halive, hfree]
      rfl
    | false =>
      have howned : d.jobs.any (·.name = (WorkerRow.ofWorker worker).ownerName) = true := by
        refine (h.jobs.any launch.owner.name).trans ?_
        rw [Table.contains, found]
        rfl
      have habsent : m.workers.get? launch.name = none :=
        MemoryStore.get?_eq_none_of_not_contains (by rw [hfree]; exact Bool.false_ne_true)
      have hexecute := hexecute.trans (insertWorkers_free hrow (hany.trans hfree) howned)
      have hrespond : respond clock (.createWorker launch) d =
          (.ok worker, { d with workers := d.workers ++ [.ofWorker worker] }) := by
        refine (perform_about (answer_of_execute hsendable hexecute)).trans ?_
        exact congrArg (·, _) (WorkerRow.toWorker_ofWorker hheld)
      refine .of_eq (.ok worker) { m with workers := m.workers.insert launch.name worker } _ ?_
        hrespond ⟨h.jobs, h.workers.append (a := worker) habsent rfl hheld⟩
      rw [MemoryStore.answer, MemoryStore.createWorker, halive, hfree]
      rfl

theorem getWorker (h : d.Mirrors m) (fits : CallFits clock (.getWorker name)) :
    InStep clock (.getWorker name) d m := by
  have hrespond : respond clock (.getWorker name) d =
      (firstWorker name (d.workers.filter (·.name = name)), d) :=
    perform_about (answer_of_execute (sendable_name fits rfl) rfl)
  refine .of_eq (m.getWorker name) m d rfl (hrespond.trans ?_) h
  rw [MemoryStore.getWorker]
  cases found : m.workers.get? name with
  | none => rw [h.workers.filter_absent found, firstWorker]
  | some worker =>
    rw [h.workers.filter_found found, firstWorker,
      WorkerRow.toWorker_ofWorker (h.workers.held name worker found)]

/-- The rows of workers are read back as the workers. -/
theorem allWorkers_map {workers : List Worker} (h : ∀ worker ∈ workers, Held worker.createdAt) :
    allWorkers (workers.map .ofWorker) = .ok workers := by
  rw [allWorkers, forM_map_eq_ok fun worker => ⟨worker.spec, WorkerRow.readSpec_ofWorker worker⟩]
  exact mapM_map_eq_ok fun worker hworker => WorkerRow.toWorker_ofWorker (h worker hworker)

theorem listWorkers (h : d.Mirrors m) {owner : Option String}
    (fits : CallFits clock (.listWorkers owner)) : InStep clock (.listWorkers owner) d m := by
  let asked : Worker → Bool := fun w => owner.all fun name => w.owner.name = name
  let chosen := d.workers.filter fun row => owner.all (row.ownerName = ·)
  have hchosen : chosen.Perm ((m.workers.values.filter asked).map WorkerRow.ofWorker) := by
    have hperm := h.workers.perm.filter fun row => owner.all (row.ownerName = ·)
    rwa [List.filter_map] at hperm
  have hsorted := List.mergeSort_perm chosen (·.createdAt.micros ≤ ·.createdAt.micros)
  obtain ⟨workers, hperm, hrows, hheld⟩ := h.workers.exists_values (hsorted.trans hchosen)
    fun _ hworker => (List.mem_filter.mp hworker).1
  have hexecute : execute (.selectWorkers owner) d = .ok (workers.map WorkerRow.ofWorker, d) := by
    rw [hrows]
    rfl
  have hsendable : Sendable (.selectWorkers owner) := by
    intro p hp
    rw [List.mem_singleton.mp hp]
    exact sendable_text? fun name hname => (fits name hname).textual
  have hrespond : respond clock (.listWorkers owner) d =
      (allWorkers (workers.map WorkerRow.ofWorker), d) :=
    perform_overall (answer_of_execute hsendable hexecute)
  rw [allWorkers_map hheld] at hrespond
  rw [InStep, hrespond]
  exact ⟨hperm.map Worker.undated, h⟩

theorem updateWorkerPhase (h : d.Mirrors m) {phase : Worker.Phase}
    (fits : CallFits clock (.updateWorkerPhase name phase)) :
    InStep clock (.updateWorkerPhase name phase) d m := by
  have hsendable : Sendable (.updateWorkerPhase phase.word name) := by
    have hword : textual phase.word := by cases phase <;> decide
    simp only [Sendable, Statement.parameters, List.forall_mem_cons]
    exact ⟨sendable_text hword, sendable_text fits.textual, List.forall_mem_nil _⟩
  cases found : m.workers.get? name with
  | none =>
    have hexecute : d.writePhase phase.word name = .ok ([], d) :=
      writePhase_absent (h.workers.filter_absent found)
    refine .of_eq (.error (.notFound .worker name)) m d ?_
      (perform_about (answer_of_execute hsendable hexecute)) h
    rw [MemoryStore.answer, MemoryStore.updateWorkerPhase, found]
  | some worker =>
    let written : Worker := { worker with phase }
    have hheld : Held written.createdAt := h.workers.held name worker found
    have hexecute := writePhase_found (h.workers.filter_found found)
      (WorkerRow.written_ofWorker worker phase)
    have hrespond : respond clock (.updateWorkerPhase name phase) d = (.ok written, { d with
        workers := d.workers.filter (·.name ≠ name) ++ [.ofWorker written] }) := by
      refine (perform_about (answer_of_execute hsendable hexecute)).trans ?_
      rw [firstWorker, WorkerRow.toWorker_ofWorker hheld]
    refine .of_eq (.ok written) { m with workers := m.workers.insert name written } _ ?_ hrespond
      ⟨h.jobs, h.workers.insert (a := written) (h.workers.keyed _ worker found) hheld⟩
    rw [MemoryStore.answer, MemoryStore.updateWorkerPhase, found]

theorem deleteWorker (h : d.Mirrors m) (fits : CallFits clock (.deleteWorker name)) :
    InStep clock (.deleteWorker name) d m := by
  have hrespond : respond clock (.deleteWorker name) d =
      (deleted .worker name (d.workers.filter (·.name = name)).length,
        { d with workers := d.workers.filter (·.name ≠ name) }) :=
    perform_about (answer_of_execute (sendable_name fits rfl) rfl)
  have hworkers := h.workers.erase name
  cases found : m.workers.get? name with
  | none =>
    rw [h.workers.filter_absent found] at hrespond
    rw [Table.erase_of_absent found] at hworkers
    refine .of_eq (.error (.notFound .worker name)) m _ ?_ hrespond ⟨h.jobs, hworkers⟩
    rw [MemoryStore.answer, MemoryStore.deleteWorker, Table.contains, found]
    rfl
  | some worker =>
    rw [h.workers.filter_found found] at hrespond
    refine .of_eq (.ok ()) { m with workers := m.workers.erase name } _ ?_ hrespond
      ⟨h.jobs, hworkers⟩
    rw [MemoryStore.answer, MemoryStore.deleteWorker, Table.contains, found]
    rfl

/-- **A database answers as the store does that it mirrors**, whatever is called, and mirrors it
afterwards. -/
theorem inStep (h : d.Mirrors m) (attributed : Attributed m) (fits : CallFits clock call)
    (next : ∀ job written, call = .updateStatus job → (m.updateStatus job).1 = .ok written →
      written.resourceVersion.toNat ≤ greatest64) : InStep clock call d m := by
  cases call with
  | createJob job => exact h.createJob fits
  | getJob name => exact h.getJob fits
  | listJobs => exact h.listJobs
  | updateStatus job => exact h.updateStatus fits fun written => next job written rfl
  | deleteJob name => exact h.deleteJob attributed fits
  | createWorker launch => exact h.createWorker fits
  | getWorker name => exact h.getWorker fits
  | listWorkers owner => exact h.listWorkers fits
  | updateWorkerPhase name phase => exact h.updateWorkerPhase fits
  | deleteWorker name => exact h.deleteWorker fits

end Mirrors

end Server

end JobOperator.Relational
