import WiseacctSso.JsonEquality
import WiseacctSso.JsonStrings

/-!
# Matching a response with its contract

An expectation is JSON in which some objects are directives. Matching a value with it gives the
form in which the responses of the two servers are compared, and binds the captured values. The
path of a position, which only messages use, is left out.
-/
namespace WiseacctSso.ContractMatching
open Json

/-! ## The code -/

abbrev Captures : Type := PyStr → Option (Value PyStr)

/-- None is an exception. -/
abbrev Matcher : Type := Value PyStr → Captures → Option (Value PyStr × Captures)

structure UrlParts where
  scheme : PyStr
  netloc : PyStr
  path : PyStr
  params : PyStr
  query : PyStr
  fragment : PyStr

/-- What of Python the other predicates rest on. -/
structure Library where
  isUuid : Value PyStr → Bool
  isIsoTimestamp : PyStr → Bool
  urlparse : PyStr → Option UrlParts
  parseQs : PyStr → Option (List (PyStr × List PyStr))
  base64urlJson : PyStr → Option (Value PyStr)

def urlKey : PyStr := ofString "$url"

def equalsCaptureKey : PyStr := ofString "$equalsCapture"

def captureKey : PyStr := ofString "$capture"

def predicateKey : PyStr := ofString "$predicate"

def allowExtraKey : PyStr := ofString "$allowExtra"

def truthy : Value PyStr → Bool
  | .null => false
  | .bool b => b
  | .int z => z ≠ 0
  | .float f => f ≠ .finite 0
  | .str s => s ≠ []
  | .list items => !items.isEmpty
  | .dict entries => !entries.isEmpty

/-- `<capture:name>`. -/
def captureMark (name : PyStr) : Value PyStr :=
  .str (ofString "<capture:" ++ name ++ ofString ">")

section code

variable (lib : Library)

def matchScalar (expected : Value PyStr) : Matcher := fun value captures =>
  if pyEqual value expected && value.kind = expected.kind then some (value, captures) else none

def runItems : List Matcher → List (Value PyStr) → Captures →
    Option (List (Value PyStr) × Captures)
  | m :: ms, v :: vs, captures =>
    (m v captures).bind fun (n, captures) =>
      (runItems ms vs captures).map fun (ns, captures) => (n :: ns, captures)
  | _, _, captures => some ([], captures)

def matchArray (items : List Matcher) : Matcher := fun value captures =>
  match value with
  | .list values =>
    if values.length = items.length then
      (runItems items values captures).map fun (ns, captures) => (.list ns, captures)
    else none
  | _ => none

def runMembers : List (PyStr × Matcher) → Dict PyStr → Captures → Option (Dict PyStr × Captures)
  | [], _, captures => some ([], captures)
  | (key, m) :: ms, d, captures =>
    (d.lookup key).bind fun v => (m v captures).bind fun (n, captures) =>
      (runMembers ms d captures).map fun (ns, captures) => ((key, n) :: ns, captures)

/-- An object that is no directive. -/
def matchObject (spec : Dict PyStr) (members : List (PyStr × Matcher)) : Matcher :=
  fun value captures =>
    match value with
    | .dict d =>
      let expected := members.filter (·.1 ≠ allowExtraKey)
      let missing := expected.any fun m => (d.lookup m.1).isNone
      let allowExtra := truthy ((spec.lookup allowExtraKey).getD (.bool false))
      let extra := d.any fun e => e.1 ∉ expected.map Prod.fst
      if missing || (!allowExtra && extra) then none
      else
        (runMembers (sortByKey expected) d captures).map fun (ns, captures) => (.dict ns, captures)
    | _ => none

def jwtPredicate (members : List (PyStr × Matcher)) : Matcher := fun value captures =>
  match value with
  | .str token =>
    match token.splitOn (codePoint 46) with
    | [headerSegment, claimsSegment, _] => do
      let header ← lib.base64urlJson headerSegment
      let claims ← lib.base64urlJson claimsSegment
      let (headerForm, captures) ← match members.lookup (ofString "header") with
        | some m => (m header captures).map fun (n, c) => ([(ofString "header", n)], c)
        | none => some ([], captures)
      let (claimsForm, captures) ← match members.lookup (ofString "claims") with
        | some m => (m claims captures).map fun (n, c) => ([(ofString "claims", n)], c)
        | none => some ([], captures)
      pure (.dict ((ofString "token", value) :: headerForm ++ claimsForm), captures)
    | _ => none
  | _ => none

def isTimestamp : Value PyStr → Bool
  | .int _ | .float _ => true
  | .str s => lib.isIsoTimestamp s
  | _ => false

def isAbsoluteUrl : Value PyStr → Bool
  | .str s => (lib.urlparse s).any fun parts =>
      parts.scheme ∈ [ofString "http", ofString "https"] && parts.netloc ≠ []
  | _ => false

/-- `_predicate`, with the matchers of the members of its specification. -/
def predicate (spec : Dict PyStr) (members : List (PyStr × Matcher)) : Matcher :=
  fun value captures =>
    let valid (b : Bool) := if b then some (value, captures) else none
    match spec.lookup predicateKey with
    | some (.str name) =>
      if name = ofString "any" then some (value, captures)
      else if name = ofString "nonempty-string" then valid (value.kind = .str && truthy value)
      else if name = ofString "uuid" then valid (lib.isUuid value)
      else if name = ofString "timestamp" then valid (isTimestamp lib value)
      else if name = ofString "url" then valid (isAbsoluteUrl lib value)
      else if name = ofString "jwt" then jwtPredicate lib members value captures
      else none
    | _ => none

def matchUrl (base : PyStr) (query : Matcher) : Matcher := fun value captures =>
  match value with
  | .str url => do
    let actual ← lib.urlparse url
    let expected ← lib.urlparse base
    if actual.scheme = expected.scheme ∧ actual.netloc = expected.netloc ∧
        actual.path = expected.path ∧ actual.params = expected.params ∧
        actual.fragment = expected.fragment then
      let actualQuery ← lib.parseQs actual.query
      let flattened := actualQuery.map fun (key, values) =>
        (key, match values with
          | [v] => Value.str v
          | _ => .list (values.map .str))
      (query (.dict flattened) captures).map fun (n, captures) =>
        (.dict [(ofString "base", .str base), (ofString "query", n)], captures)
    else none
  | _ => none

/-- The names of captures are strings. -/
def nameOf : Value PyStr → Option PyStr
  | .str name => some name
  | _ => none

def equalsCapture (name : PyStr) : Matcher := fun value captures =>
  (captures name).bind fun bound =>
    if pyEqual value bound then some (captureMark name, captures) else none

def capture (name : PyStr) (validation : Matcher) : Matcher := fun value captures =>
  (validation value captures).bind fun (_, captures) =>
    if (captures name).all fun bound => pyEqual bound value then
      some (captureMark name, Function.update captures name (some value))
    else none

/-- The order in which `match` looks for directives. `url` matches the value of `$url`. -/
def matchDict (spec : Dict PyStr) (members : List (PyStr × Matcher)) (url : Option Matcher) :
    Matcher :=
  if (spec.lookup urlKey).isSome then url.getD fun _ _ => none
  else
    match spec.lookup equalsCaptureKey with
    | some name => (nameOf name).elim (fun _ _ => none) equalsCapture
    | none =>
      match spec.lookup captureKey with
      | some name =>
        let validation := members.filter (·.1 ≠ captureKey)
        (nameOf name).elim (fun _ _ => none) fun name => capture name
          (if validation = [] then fun value captures => some (value, captures)
          else if (spec.lookup predicateKey).isSome then predicate lib spec validation
          else matchObject spec validation)
      | none =>
        if (spec.lookup predicateKey).isSome then predicate lib spec members
        else matchObject spec members

mutual

/-- `match`. -/
def matcher : Value PyStr → Matcher
  | .dict spec => matchDict lib spec (memberMatchers spec) ((urlMatchers spec).lookup urlKey)
  | .list items => matchArray (itemMatchers items)
  | expected => matchScalar expected

def itemMatchers : List (Value PyStr) → List Matcher
  | [] => []
  | v :: rest => matcher v :: itemMatchers rest

def memberMatchers : Dict PyStr → List (PyStr × Matcher)
  | [] => []
  | (key, v) :: rest => (key, matcher v) :: memberMatchers rest

/-- The matcher of a value of `$url`. -/
def urlMatcher : Value PyStr → Matcher
  | .dict spec =>
    match spec.lookup (ofString "base") with
    | some (.str base) =>
      matchUrl lib base (((memberMatchers spec).lookup (ofString "query")).getD (matchObject [] []))
    | _ => fun _ _ => none
  | _ => fun _ _ => none

def urlMatchers : Dict PyStr → List (PyStr × Matcher)
  | [] => []
  | (key, v) :: rest => (key, urlMatcher v) :: urlMatchers rest

end

/-! ## The comparison of two responses -/

structure HttpResult where
  status : ℤ
  headers : Dict PyStr
  body : Value PyStr

/-- The `expect` of a step. -/
structure ResponseContract where
  status : ℤ
  headers : Option (Dict PyStr)
  json : Option (Value PyStr)
  body : Option (Value PyStr)

/-- A part of a normalized response under its name. -/
def normalizePart (name : String) (expected : Value PyStr) (value : Value PyStr)
    (captures : Captures) : Option (Dict PyStr × Captures) :=
  (matcher lib expected value captures).map fun (n, captures) => ([(ofString name, n)], captures)

/-- `{**headers, "$allowExtra": True}`. -/
def headerContract (headers : Dict PyStr) : Value PyStr :=
  .dict (headers.filter (·.1 ≠ allowExtraKey) ++ [(allowExtraKey, .bool true)])

def normalizeHeaders (headers : Dict PyStr) (captures : Captures) :
    Option (Dict PyStr) → Option (Dict PyStr × Captures)
  | some expected => normalizePart lib "headers" (headerContract expected) (.dict headers) captures
  | none => some ([], captures)

def normalizeBody (body : Value PyStr) (captures : Captures) :
    Option (Value PyStr) → Option (Value PyStr) → Option (Dict PyStr × Captures)
  | some json, _ => normalizePart lib "json" json body captures
  | none, some expected => normalizePart lib "body" expected body captures
  | none, none => some ([], captures)

def normalizeResponse (result : HttpResult) (expect : ResponseContract) (captures : Captures) :
    Option (Value PyStr × Captures) :=
  if result.status ≠ expect.status then none
  else
    (normalizeHeaders lib result.headers captures expect.headers).bind fun (headers, captures) =>
      (normalizeBody lib result.body captures expect.json expect.body).map fun (body, captures) =>
        (.dict ((ofString "status", .int result.status) :: headers ++ body), captures)

/-- What `run_suite` says when both servers passed. -/
def comparisonCategory (baseline candidate : List (Value PyStr)) : String :=
  if pyEqual (.list baseline) (.list candidate) then "equivalent" else "http-response-mismatch"

end code

end WiseacctSso.ContractMatching
