import JobOperator.Api.Message
import JobOperator.Job.Codec
import JobOperator.Json.Reader
import JobOperator.Store.Call
import JobOperator.Text.Blank
import JobOperator.Text.MediaType

/-!
# Submitting jobs

A submission is checked from the outside in: the media type of the body, its size,
its JSON, the name, the image, and at last the store, which knows whether the name is
free. Only then is the job there, and only then is the controller told.

* `Api.SubmitError`: why a submission is turned down, with its wording.
* `Api.validate`: the checks on what was asked for.
* `Api.submit`: the script of a submission.
-/

namespace JobOperator.Api

open StoreScript

/-- The greatest length of a name in bytes. It leaves room for what the names of workers add to it.
This is `MAX_NAME_LEN`. -/
def longestName : Nat := 48

/-- The greatest length of a body in bytes. -/
def longestBody : Nat := 2097152

/-- Why what was asked for is no job. This is part of `JobError`. -/
inductive InvalidSubmission where
  | emptyName
  | longName
  | badName (name : String)
  | blankImage
  deriving DecidableEq, Repr

/-- The wording of a refusal. -/
def InvalidSubmission.message : InvalidSubmission → String
  | emptyName => "Job name must not be empty"
  | longName => "Job name must be at most " ++ toString longestName ++ " characters"
  | badName name =>
    "Invalid job name '" ++ name ++ "': use lowercase letters, digits and inner '-'"
  | blankImage => "spec.workerImage must not be empty"

/-- A character that a name may have. -/
def nameChar (c : Char) : Bool :=
  ('a' ≤ c && c ≤ 'z') || ('0' ≤ c && c ≤ '9') || c = '-'

/-- Checks a name. Names of jobs become parts of the names of workers and containers. This is
`validate_name`. -/
def validateName (name : String) : Except InvalidSubmission Unit :=
  let cs := name.toList
  if cs.isEmpty then .error .emptyName
  else if longestName < name.utf8ByteSize then .error .longName
  else if cs.all nameChar && cs.head? ≠ some '-' && cs.getLast? ≠ some '-' then .ok ()
  else .error (.badName name)

/-- Checks what was asked for (the checks of `submit_job`). -/
def validate (s : Job.Submission) : Except InvalidSubmission Unit := do
  validateName s.name
  if Text.allBlank s.spec.workerImage then throw .blankImage

/-- The response to a request that the store refused. Only the name of the record is told, as that
of a job. This is `ApiError` of a `StoreError`. -/
def refused : StoreError → Response
  | .notFound _ name => .error 404 ("Job " ++ name ++ " not found")
  | .alreadyExists _ name => .error 409 ("Job " ++ name ++ " already exists")
  | .conflict _ _ => .error 500 "Internal server error"
  | .transient _ => .error 503 "Internal server error"

/-- The identity of a job that is submitted: its uid, and the time. -/
structure Birth where
  uid : Uid
  createdAt : Instant
  deriving DecidableEq, Repr, Inhabited

/-- Reads the body of a submission, or says with which status it is turned down. -/
def readSubmission (request : Request) : Except Nat Job.Submission :=
  if !(request.contentType.any MediaType.isJson) then .error 415
  else if longestBody < request.body.length then .error 413
  else match Json.decode Job.Submission.ofJson request.body with
    | .ok s => .ok s
    | .error .malformed => .error 400
    | .error .unfit => .error 422

/-- Submits a job (`submit_job`). -/
def submit (request : Request) (birth : Birth) : StoreScript Response := do
  match readSubmission request with
  | .error status => return .bare status
  | .ok s =>
    match validate s with
    | .error invalid => return .error 400 invalid.message
    | .ok _ =>
      match ← createJob (s.toJob birth.uid birth.createdAt) with
      | .error e => return refused e
      | .ok job => return ⟨201, some job.toJson, some job.name⟩

end JobOperator.Api
