import JobOperator.Api.Routes
import JobOperator.Proofs.Json.Fields
import JobOperator.Proofs.Store.Change
import JobOperator.Proofs.Visit.Account

/-!
# A submission is all or nothing

* `Api.Nameable`: the names that a job may have; `Api.validateName_eq_ok_iff`: the checks let
  pass these and no others.
* `Api.Asks`: a request asks for a job.
* `Api.Outcome`: what comes of a request to submit a job.
* `Api.handle_submission`: **a request that asks for a job whose name is free is granted**: there is
  one job more, and the controller is told its name. Any other is refused for the first thing that
  is wrong with it, and nothing has happened.
-/

namespace JobOperator.Api

/-! ## What is asked for -/

/-- The names that a job may have: 1 to 48 lower-case letters, digits and hyphens, with no hyphen at
either end. -/
structure Nameable (name : String) : Prop where
  nonempty : 1 ≤ name.length
  short : name.length ≤ 48
  chars : ∀ c ∈ name.toList, ('a' ≤ c ∧ c ≤ 'z') ∨ ('0' ≤ c ∧ c ≤ '9') ∨ c = '-'
  start : name.toList.head? ≠ some '-'
  finish : name.toList.getLast? ≠ some '-'

/-- A submission that can be granted: the name is one that a job may have, and the image is not
blank. -/
structure Proper (s : Job.Submission) : Prop where
  name : Nameable s.name
  image : ∃ c ∈ s.spec.workerImage.toList, Text.isBlank c = false

/-- The body of a request is said to be JSON. -/
def Typed (request : Request) : Prop :=
  ∃ type, request.contentType = some type ∧ MediaType.isJson type = true

/-- What the body of a request says. -/
def said (request : Request) : Json.Reading Job.Submission :=
  Json.decode Job.Submission.ofJson request.body

/-- A request asks for a job. -/
structure Asks (request : Request) (s : Job.Submission) : Prop where
  typed : Typed request
  said : said request = .ok s
  proper : Proper s

theorem nameChar_iff {c : Char} : nameChar c = true ↔
    ('a' ≤ c ∧ c ≤ 'z') ∨ ('0' ≤ c ∧ c ≤ '9') ∨ c = '-' := by
  simp [nameChar, or_assoc]

/-- A character that a name may have is a single byte. -/
theorem utf8Size_of_nameChar {c : Char} (h : nameChar c = true) : c.utf8Size = 1 := by
  rw [Char.utf8Size_eq_one_iff]
  rcases nameChar_iff.mp h with ⟨-, hle⟩ | ⟨-, hle⟩ | rfl
  · exact UInt32.le_trans hle (by decide)
  · exact UInt32.le_trans hle (by decide)
  · decide

/-- The bytes of a name that passes are counted as its characters are. -/
theorem utf8ByteSize_of_nameChar {name : String} (h : ∀ c ∈ name.toList, nameChar c = true) :
    name.utf8ByteSize = name.length := by
  have hsize : ∀ cs : List Char, (∀ c ∈ cs, nameChar c = true) →
      (String.ofList cs).utf8ByteSize = cs.length := by
    intro cs hcs
    induction cs with
    | nil => rfl
    | cons c cs ih =>
      obtain ⟨hc, hrest⟩ := List.forall_mem_cons.mp hcs
      rw [String.ofList_cons, String.utf8ByteSize_append, String.utf8ByteSize_singleton,
        utf8Size_of_nameChar hc, ih hrest, List.length_cons]
      omega
  rw [← String.length_toList, ← hsize name.toList h, String.ofList_toList]

/-- **The checks let pass the names that a job may have, and no others.** -/
theorem validateName_eq_ok_iff {name : String} : validateName name = .ok () ↔ Nameable name := by
  constructor
  · intro h
    simp only [validateName] at h
    split at h
    · cases h
    · next hne =>
      split at h
      · cases h
      · next hshort =>
        split at h
        · next hgrammar =>
          simp only [Bool.and_eq_true, List.all_eq_true, decide_eq_true_eq] at hgrammar
          obtain ⟨⟨hchars, hstart⟩, hfinish⟩ := hgrammar
          rw [utf8ByteSize_of_nameChar hchars] at hshort
          refine ⟨?_, Nat.not_lt.mp hshort, fun c hc => nameChar_iff.mp (hchars c hc), hstart,
            hfinish⟩
          rw [← String.length_toList]
          exact List.length_pos_iff.mpr fun hnil => hne (by rw [hnil]; rfl)
        · cases h
  · rintro ⟨hnonempty, hshort, hchars, hstart, hfinish⟩
    have hchars' : ∀ c ∈ name.toList, nameChar c = true :=
      fun c hc => nameChar_iff.mpr (hchars c hc)
    have hne : name.toList.isEmpty = false := by
      rw [← String.length_toList] at hnonempty
      exact List.isEmpty_eq_false_iff.mpr (List.length_pos_iff.mp hnonempty)
    have hlength : ¬ longestName < name.utf8ByteSize := by
      rw [utf8ByteSize_of_nameChar hchars']
      exact Nat.not_lt.mpr hshort
    simp [validateName, hne, hlength, List.all_eq_true.mpr hchars', hstart, hfinish]

theorem validate_eq_ok_iff {s : Job.Submission} : validate s = .ok () ↔ Proper s := by
  have himage : Text.allBlank s.spec.workerImage = false ↔
      ∃ c ∈ s.spec.workerImage.toList, Text.isBlank c = false := by
    simp [Text.allBlank]
  rw [validate]
  constructor
  · intro h
    cases hname : validateName s.name with
    | error invalid => rw [hname] at h; cases h
    | ok =>
      cases hblank : Text.allBlank s.spec.workerImage with
      | true => rw [hname, hblank] at h; cases h
      | false => exact ⟨validateName_eq_ok_iff.mp hname, himage.mp hblank⟩
  · rintro ⟨hname, hnotBlank⟩
    rw [validateName_eq_ok_iff.mpr hname, himage.mpr hnotBlank]
    rfl

/-! ## What comes of it -/

/-- The job that a submission brings about. -/
def born (s : Job.Submission) (birth : Birth) : Job where
  name := s.name
  uid := birth.uid
  resourceVersion := 1
  createdAt := birth.createdAt
  spec := s.spec
  status := { phase := .unstarted }

/-- What comes of a request to submit a job: what it is answered, and the store after it. -/
structure Outcome (request : Request) (birth : Birth) (m : MemoryStore)
    (outcome : Account Response) : Prop where
  /-- a request is granted if it asks for a job whose name is free -/
  granted_iff : outcome.result.status = 201 ↔
    ∃ s, Asks request s ∧ m.jobs.get? s.name = none
  /-- then there is this job more, and the controller is told its name -/
  granted : ∀ s, Asks request s → m.jobs.get? s.name = none →
    outcome.result = ⟨201, some (born s birth).toJson, some s.name⟩ ∧
    outcome.calls = [.createJob (s.toJob birth.uid birth.createdAt)] ∧
    outcome.store.workers = m.workers ∧
    ∀ n, outcome.store.jobs.get? n = if n = s.name then some (born s birth) else m.jobs.get? n
  /-- it has the name and is to run what the body says -/
  read : ∀ s members, Asks request s → (Json.ofBytes request.body).root = .object members →
    Job.Submission.schema.Says members (s.name, s.spec, ())
  /-- and where the body says nothing of that, the default -/
  filled : ∀ s members asked, Asks request s →
    (Json.ofBytes request.body).root = .object members → (some "spec", .object asked) ∈ members →
    Job.Spec.schema.Says asked s.spec.values
  /-- texts and numbers are taken as they stand there -/
  spelled : ∀ s members asked, Asks request s →
    (Json.ofBytes request.body).root = .object members → (some "spec", .object asked) ∈ members →
    s.spec.Spelled asked
  /-- whoever is refused has changed nothing, and nobody is told -/
  refused : outcome.result.status ≠ 201 → outcome.store = m ∧ outcome.result.notified = none
  untyped : ¬ Typed request → outcome.result.status = 415
  malformed : Typed request → said request = .error .malformed → outcome.result.status = 400
  unfit : Typed request → said request = .error .unfit → outcome.result.status = 422
  improper : ∀ s, Typed request → said request = .ok s → ¬ Proper s → outcome.result.status = 400
  taken : ∀ s, Asks request s → m.jobs.get? s.name ≠ none → outcome.result.status = 409

variable {request : Request} {birth : Birth} {clock : Instant} {m : MemoryStore}
  {s : Job.Submission}

theorem any_isJson_iff : request.contentType.any MediaType.isJson = true ↔ Typed request :=
  Option.any_eq_true _ _

theorem readSubmission_of_untyped (untyped : ¬ Typed request) :
    readSubmission request = .error 415 := by
  rw [readSubmission, Bool.eq_false_iff.mpr fun h => untyped (any_isJson_iff.mp h)]
  rfl

/-- The status by which a body is refused that cannot be read. -/
def statusOf : Json.Fault → Nat
  | .malformed => 400
  | .unfit => 422

/-- A body that is said to be JSON and is not too long is read. -/
theorem readSubmission_of_typed (typed : Typed request)
    (size : request.body.length ≤ longestBody) :
    readSubmission request = (said request).mapError statusOf := by
  rw [readSubmission, any_isJson_iff.mpr typed, if_neg (Nat.not_lt.mpr size)]
  show _ = (Json.decode Job.Submission.ofJson request.body).mapError statusOf
  rw [Bool.not_true, if_neg Bool.false_ne_true]
  split
  · next hsaid => rw [hsaid]; rfl
  · next hsaid => rw [hsaid]; rfl
  · next hsaid => rw [hsaid]; rfl

theorem readSubmission_of_asks (asks : Asks request s)
    (size : request.body.length ≤ longestBody) : readSubmission request = .ok s := by
  rw [readSubmission_of_typed asks.typed size, asks.said]
  rfl

/-- The account of a request that is refused at once. -/
theorem submit_of_unread {status : Nat} (h : readSubmission request = .error status) :
    (submit request birth).account clock m = ⟨.bare status, m, []⟩ := by
  rw [submit, h]
  rfl

theorem submit_of_improper (h : readSubmission request = .ok s) (improper : ¬ Proper s) :
    ∃ invalid : InvalidSubmission,
      (submit request birth).account clock m = ⟨.error 400 invalid.message, m, []⟩ := by
  cases hvalidate : validate s with
  | ok => exact absurd (validate_eq_ok_iff.mp hvalidate) improper
  | error invalid =>
    refine ⟨invalid, ?_⟩
    rw [submit, h]
    dsimp only
    rw [hvalidate]
    rfl

theorem submit_of_taken (h : readSubmission request = .ok s) (proper : Proper s)
    (taken : m.jobs.get? s.name ≠ none) :
    (submit request birth).account clock m =
      ⟨.error 409 ("Job " ++ s.name ++ " already exists"), m,
        [.createJob (s.toJob birth.uid birth.createdAt)]⟩ := by
  have hcontains : m.jobs.contains s.name = true := Option.isSome_iff_ne_none.mpr taken
  have hreply : m.answer clock (.createJob (s.toJob birth.uid birth.createdAt)) =
      (.error (.alreadyExists .job s.name), m) := if_pos hcontains
  rw [submit, h]
  dsimp only
  rw [validate_eq_ok_iff.mpr proper]
  exact Script.account_call hreply rfl

theorem submit_of_free (h : readSubmission request = .ok s) (proper : Proper s)
    (free : m.jobs.get? s.name = none) :
    (submit request birth).account clock m =
      ⟨⟨201, some (born s birth).toJson, some s.name⟩,
        { m with jobs := m.jobs.insert s.name (born s birth) },
        [.createJob (s.toJob birth.uid birth.createdAt)]⟩ := by
  have hcontains : ¬ m.jobs.contains s.name = true := by
    rw [Table.contains, free]
    exact Bool.false_ne_true
  have hreply : m.answer clock (.createJob (s.toJob birth.uid birth.createdAt)) =
      (.ok (born s birth), { m with jobs := m.jobs.insert s.name (born s birth) }) :=
    if_neg hcontains
  rw [submit, h]
  dsimp only
  rw [validate_eq_ok_iff.mpr proper]
  exact Script.account_call hreply rfl

theorem ofJson_of_said (h : said request = .ok s) :
    Job.Submission.ofJson (Json.ofBytes request.body).root = .ok s := by
  rw [said, Json.decode] at h
  split at h
  · next read hread =>
    split at h
    · cases h
    · rw [hread, Except.ok.inj h]
  · cases h

/-- The body says which name the job gets, and what it is to run. -/
theorem says_of_said {members : List (Option String × Json)} (h : said request = .ok s)
    (root : (Json.ofBytes request.body).root = .object members) :
    Job.Submission.schema.Says members (s.name, s.spec, ()) := by
  have hread := ofJson_of_said h
  rw [root] at hread
  exact Job.Submission.says_of_ofJson hread

/-- What it says of what the job is to run is read as such. -/
theorem spec_of_said {members asked : List (Option String × Json)} (h : said request = .ok s)
    (root : (Json.ofBytes request.body).root = .object members)
    (spec : (some "spec", .object asked) ∈ members) :
    Job.Spec.ofJson (.object asked) = .ok s.spec := by
  obtain ⟨-, -, hspec, -⟩ := says_of_said h root
  exact hspec _ spec

/-- A request asks for a job whose name is free, or nothing has happened. -/
theorem submit_cases (birth : Birth) (clock : Instant) (m : MemoryStore)
    (size : request.body.length ≤ longestBody) :
    (∃ s, Asks request s ∧ m.jobs.get? s.name = none) ∨
      ∃ status body calls,
        (submit request birth).account clock m = ⟨⟨status, body, none⟩, m, calls⟩ ∧ status ≠ 201 := by
  by_cases htyped : Typed request
  · have hread := readSubmission_of_typed htyped size
    cases hsaid : said request with
    | error fault =>
      rw [hsaid] at hread
      refine .inr ⟨_, _, _, submit_of_unread hread, ?_⟩
      cases fault <;> decide
    | ok s =>
      rw [hsaid] at hread
      by_cases hproper : Proper s
      · by_cases hfree : m.jobs.get? s.name = none
        · exact .inl ⟨s, ⟨htyped, hsaid, hproper⟩, hfree⟩
        · exact .inr ⟨_, _, _, submit_of_taken hread hproper hfree, by decide⟩
      · obtain ⟨invalid, hrefused⟩ := submit_of_improper hread hproper
        exact .inr ⟨_, _, _, hrefused, by decide⟩
  · exact .inr ⟨_, _, _, submit_of_unread (readSubmission_of_untyped htyped), by decide⟩

theorem submit_outcome (birth : Birth) (clock : Instant) (m : MemoryStore)
    (size : request.body.length ≤ longestBody) :
    Outcome request birth m ((submit request birth).account clock m) where
  granted_iff := by
    constructor
    · intro hstatus
      obtain hasks | ⟨status, body, calls, haccount, hrefused⟩ := submit_cases birth clock m size
      · exact hasks
      · rw [haccount] at hstatus
        exact absurd hstatus hrefused
    · rintro ⟨s, asks, free⟩
      rw [submit_of_free (readSubmission_of_asks asks size) asks.proper free]
  granted := by
    intro s asks free
    rw [submit_of_free (readSubmission_of_asks asks size) asks.proper free]
    refine ⟨rfl, rfl, rfl, fun n => ?_⟩
    dsimp only
    rw [Table.get?_insert]
    simp only [eq_comm]
  read := fun s members asks root => says_of_said asks.said root
  filled := fun s members asked asks root spec =>
    Job.Spec.says_of_ofJson (spec_of_said asks.said root spec)
  spelled := fun s members asked asks root spec =>
    Job.Spec.spelled_of_ofJson (spec_of_said asks.said root spec)
  refused := by
    intro hstatus
    obtain ⟨s, asks, free⟩ | ⟨status, body, calls, haccount, -⟩ := submit_cases birth clock m size
    · rw [submit_of_free (readSubmission_of_asks asks size) asks.proper free] at hstatus
      exact absurd rfl hstatus
    · rw [haccount]
      exact ⟨rfl, rfl⟩
  untyped := by
    intro untyped
    rw [submit_of_unread (readSubmission_of_untyped untyped), Response.bare]
  malformed := by
    intro typed malformed
    have hread := readSubmission_of_typed typed size
    rw [malformed] at hread
    rw [submit_of_unread hread]
    rfl
  unfit := by
    intro typed unfit
    have hread := readSubmission_of_typed typed size
    rw [unfit] at hread
    rw [submit_of_unread hread]
    rfl
  improper := by
    intro s typed hsaid improper
    have hread := readSubmission_of_typed typed size
    rw [hsaid] at hread
    obtain ⟨invalid, haccount⟩ := submit_of_improper hread improper
    rw [haccount, Response.error]
  taken := by
    intro s asks taken
    rw [submit_of_taken (readSubmission_of_asks asks size) asks.proper taken, Response.error]

/-- **A submission is all or nothing.** A request that asks for a job whose name is free brings
about this job. Any other is refused for the first thing that is wrong with it, and nothing has
happened. -/
theorem handle_submission (request : Request) (birth : Birth) (clock : Instant) (m : MemoryStore)
    (post : request.method = "POST") (jobs : Route.ofPath? request.path = some .jobs)
    (size : request.body.length ≤ longestBody) :
    Outcome request birth m ((handle request birth).account clock m) := by
  have hhandle : handle request birth = submit request birth := by
    rw [handle, jobs, post]
    rfl
  rw [hhandle]
  exact submit_outcome birth clock m size

/-- A request for a job that leaves all but two members of its spec to the defaults. -/
def bellRequest : Request where
  method := "POST"
  path := "/api/jobs"
  contentType := some "application/json"
  body := Utf8.encode
    "\x7b\"name\":\"bell\",\"spec\":\x7b\"workerImage\":\"aer:0.15\",\"circuits\":\"[]\"\x7d\x7d"

/-- What it asks for. -/
def bellSubmission : Job.Submission where
  name := "bell"
  spec := { workerImage := "aer:0.15", circuits := "[]" }

theorem asks_bellRequest : Asks bellRequest bellSubmission where
  typed := ⟨"application/json", rfl, by decide +kernel⟩
  said := by
    have hread : (said bellRequest).toOption = some bellSubmission := by decide +kernel
    cases hsaid : said bellRequest with
    | error fault => rw [hsaid] at hread; cases hread
    | ok s => rw [hsaid] at hread; rw [Option.some.inj hread]
  proper := by
    have hchars : "bell".toList.all nameChar = true := by decide +kernel
    exact ⟨⟨by decide, by decide, fun c hc => nameChar_iff.mp (List.all_eq_true.mp hchars c hc),
      by decide, by decide⟩, 'a', by decide, by decide⟩

/-- The job is there, with the defaults, and the controller is told of it. -/
theorem handle_submission_bell :
    bellRequest.method = "POST" ∧ Route.ofPath? bellRequest.path = some .jobs ∧
    bellRequest.body.length ≤ longestBody ∧
    ((handle bellRequest ⟨.ofNat 1, .ofSecond 0⟩).account (.ofSecond 0) {}).result =
      ⟨201, some (born bellSubmission ⟨.ofNat 1, .ofSecond 0⟩).toJson, some "bell"⟩ ∧
    ((handle bellRequest ⟨.ofNat 1, .ofSecond 0⟩).account (.ofSecond 0) {}).store.jobs.get? "bell" =
      some (born bellSubmission ⟨.ofNat 1, .ofSecond 0⟩) := by
  have hjobs : Route.ofPath? bellRequest.path = some .jobs := by decide +kernel
  have hsize : bellRequest.body.length ≤ longestBody := by decide +kernel
  obtain ⟨hresult, -, -, hstored⟩ :=
    (handle_submission bellRequest ⟨.ofNat 1, .ofSecond 0⟩ (.ofSecond 0) {} rfl hjobs hsize).granted
      bellSubmission asks_bellRequest rfl
  exact ⟨rfl, hjobs, hsize, hresult, (hstored "bell").trans (if_pos rfl)⟩

end JobOperator.Api
