/-!
# What a store may answer instead

* `ObjectKind`: the two kinds of records.
* `StoreError`: the causes for which a store refuses a call, with the wording of
  each in `StoreError.message`.
-/

namespace JobOperator

/-- A kind of records. -/
inductive ObjectKind where
  | job
  | worker
  deriving DecidableEq, Repr

/-- The word for a kind of records. -/
def ObjectKind.word : ObjectKind → String
  | job => "job"
  | worker => "worker"

/-- Why a store refuses a call. -/
inductive StoreError where
  /-- there is no such record, or no longer -/
  | notFound (kind : ObjectKind) (name : String)
  /-- the name of a new record is taken -/
  | alreadyExists (kind : ObjectKind) (name : String)
  /-- the record was written since it was read at a version -/
  | conflict (name : String) (readVersion : UInt64)
  /-- the store could not do its work; another time it may -/
  | transient (reason : String)
  deriving DecidableEq, Repr

namespace StoreError

/-- The wording of an error. -/
def message : StoreError → String
  | notFound kind name => kind.word ++ " " ++ name ++ " not found"
  | alreadyExists kind name => kind.word ++ " " ++ name ++ " already exists"
  | conflict name version =>
    "job " ++ name ++ " was modified concurrently (read at version "
      ++ toString version.toNat ++ ")"
  | transient reason => "store unavailable: " ++ reason

/-- There is no such record. -/
def isNotFound : StoreError → Bool
  | notFound .. => true
  | _ => false

/-- The name is taken. -/
def isAlreadyExists : StoreError → Bool
  | alreadyExists .. => true
  | _ => false

/-- Another writer came first. -/
def isConflict : StoreError → Bool
  | conflict .. => true
  | _ => false

/-- The store could not do its work. -/
def isTransient : StoreError → Bool
  | transient _ => true
  | _ => false

end StoreError

end JobOperator
