import JobOperator.Api.Submission
import JobOperator.Text.Percent
import JobOperator.Text.Pieces

/-!
# The operator's interface

* `Api.Route`: the resources that there are; `Api.Route.ofPath?` finds the one that a
  path names.
* `Api.handle`: the script that answers a request.
-/

namespace JobOperator.Api

open StoreScript

/-- A resource. -/
inductive Route where
  | health
  | jobs
  /-- a job by its name, still percent-encoded -/
  | job (segment : String)
  deriving DecidableEq, Repr

/-- A path without its query. -/
def pathOnly (path : String) : String :=
  String.ofList (path.toList.takeWhile fun c => c ≠ '?' && c ≠ '#')

/-- The resource that a path names. -/
def Route.ofPath? (path : String) : Option Route :=
  match Text.split '/' (pathOnly path) with
  | ["", "health"] => some .health
  | ["", "api", "jobs"] => some .jobs
  | ["", "api", "jobs", segment] => if segment = "" then none else some (.job segment)
  | _ => none

/-- Tells whether the store can be reached (`health_check`). -/
def health : StoreScript Response := do
  match ← listJobs with
  | .ok jobs =>
    return {
      status := 200
      body := some (.record [("status", .str "ok"), ("jobs", .nat jobs.length)]) }
  | .error _ => return { status := 503, body := some (.record [("status", .str "unavailable")]) }

/-- Tells all jobs (`list_jobs`). -/
def tellJobs : StoreScript Response := do
  match ← listJobs with
  | .ok jobs => return { status := 200, body := some (.array (jobs.map Job.toJson)) }
  | .error e => return refused e

/-- Does something with the job that a path segment names; a segment that is no text
names none. -/
def named (segment : String) (act : String → StoreScript Response) : StoreScript Response :=
  match Percent.decode? segment with
  | some name => act name
  | none => return .bare 400

/-- Tells a job (`get_job`). -/
def tellJob (name : String) : StoreScript Response := do
  match ← getJob name with
  | .ok job => return { status := 200, body := some job.toJson }
  | .error e => return refused e

/-- Deletes a job (`delete_job`). -/
def removeJob (name : String) : StoreScript Response := do
  match ← deleteJob name with
  | .ok _ => return .bare 204
  | .error e => return refused e

/-- Answers a request for what a `GET` tells of a resource. -/
def tell : Route → StoreScript Response
  | .health => health
  | .jobs => tellJobs
  | .job segment => named segment tellJob

/-- Answers a request. A `HEAD` is answered like a `GET`, without the body. `birth` is the identity
that a job gets if one is submitted. The routes are those of `create_router`. -/
def handle (request : Request) (birth : Birth) : StoreScript Response :=
  match Route.ofPath? request.path with
  | none => return .bare 404
  | some route =>
    match request.method, route with
    | "GET", route => tell route
    | "HEAD", route => return { ← tell route with body := none }
    | "POST", .jobs => submit request birth
    | "DELETE", .job segment => named segment removeJob
    | _, _ => return .bare 405

end JobOperator.Api
