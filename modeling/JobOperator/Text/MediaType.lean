/-!
# Media types

The part of a request's head that says what its body is: a type and a subtype, and
parameters that are names with a token or a quoted text each.

* `MediaType.parse?`: type and subtype of a well-formed media type.
* `MediaType.isJson`: a media type of JSON: a subtype of `application` that is
  `json`, its suffix apart, or whose suffix is `json`.
-/

namespace JobOperator.MediaType

/-- A character that a token may have. -/
def isToken (c : Char) : Bool :=
  c.isAlphanum || "!#$%&'*+-.^_\x60|~".toList.contains c

/-- A character that may stand in quotes, or behind a backslash in quotes. -/
def isQuotable (c : Char) : Bool := 31 < c.toNat && c.toNat ≠ 127

/-- What follows a quoted text, from behind its opening quote. A quoted text is not
empty: a quote right behind the opening one belongs to the text. -/
def afterQuoted? (empty : Bool) : List Char → Option (List Char)
  | [] => none
  | '\\' :: c :: rest => if isQuotable c then afterQuoted? false rest else none
  | '"' :: rest => if empty then afterQuoted? false rest else some rest
  | c :: rest => if isQuotable c && c ≠ '\\' then afterQuoted? false rest else none

/-- What follows a parameter's value, the semicolon behind it included. -/
def afterValue? (cs : List Char) : Option (List Char) :=
  match cs with
  | '"' :: rest => do
    match (← afterQuoted? true rest).dropWhile (· = ' ') with
    | [] => some []
    | ';' :: rest => some rest
    | _ => none
  | cs =>
    match cs.dropWhile isToken with
    | [] => some []
    | ';' :: rest => if cs.head? = some ';' then none else some rest
    | _ => none

/-- Every parameter is a name, an equals sign and a value. `fuel` bounds their
number. -/
def parameters : Nat → List Char → Bool
  | 0, _ => true
  | fuel + 1, cs =>
    match cs.dropWhile (· = ' ') with
    | [] => true
    | c :: rest =>
      let cs := c :: rest
      match cs.dropWhile isToken with
      | '=' :: value =>
        isToken c && match afterValue? value with
          | some rest => parameters fuel rest
          | none => false
      | _ => false

/-- The type and the subtype of a media type whose parameters are well formed. The list
of parameters may be empty. -/
def parse? (s : String) : Option (String × String) :=
  let cs := s.toList
  match cs.dropWhile isToken with
  | '/' :: rest =>
    let type := cs.takeWhile isToken
    let subtype := rest.takeWhile isToken
    let lower (cs : List Char) := String.ofList (cs.map Char.toLower)
    if type.isEmpty || subtype.isEmpty then none
    else match rest.dropWhile isToken with
      | [] => some (lower type, lower subtype)
      | c :: params =>
        if (c = ';' || c = ' ') && parameters params.length params then
          some (lower type, lower subtype)
        else none
  | _ => none

/-- A subtype cut at its last plus sign, unless that begins it: the part in front,
and the suffix. -/
def splitSuffix (subtype : String) : String × Option String :=
  let cs := subtype.toList
  let behind := cs.reverse.takeWhile (· ≠ '+')
  if behind.length + 1 < cs.length then
    (String.ofList (cs.take (cs.length - behind.length - 1)), some (String.ofList behind.reverse))
  else (subtype, none)

/-- The media type is one of JSON. A head that is not printable ASCII is no media
type. -/
def isJson (s : String) : Bool :=
  s.toList.all (fun c => 32 ≤ c.toNat && c.toNat < 127) &&
    match parse? s with
    | some (type, subtype) =>
      let (base, suffix) := splitSuffix subtype
      type = "application" && (base = "json" || suffix = some "json")
    | none => false

example : isJson "Application/JSON; charset=utf-8" = true ∧ isJson "application/a+json" = true := by
  decide +kernel
example : isJson "text/json" = false ∧ isJson "application/json; charset" = false := by
  decide +kernel

end JobOperator.MediaType
