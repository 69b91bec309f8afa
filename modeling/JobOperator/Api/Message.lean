import JobOperator.Json.Basic

/-!
# Requests and responses

* `Api.Request`: what a client asks for.
* `Api.Response`: what it is answered, and whom the controller is to look at
  because of it.
-/

namespace JobOperator.Api

/-- What a client asks for. -/
structure Request where
  method : String
  /-- the path, with the query behind it -/
  path : String
  /-- the media type of the body, if the request names one -/
  contentType : Option String
  body : List UInt8
  deriving DecidableEq, Repr

/-- What a client is answered. -/
structure Response where
  status : Nat
  /-- the body, if it is JSON -/
  body : Option Json := none
  /-- the job that the controller is to look at -/
  notified : Option String := none
  deriving Inhabited

namespace Response

/-- A response without a JSON body. -/
def bare (status : Nat) : Response where
  status := status

/-- A response that says what went wrong. -/
def error (status : Nat) (message : String) : Response where
  status := status
  body := some (.record [("error", .str message)])

end Response

end JobOperator.Api
