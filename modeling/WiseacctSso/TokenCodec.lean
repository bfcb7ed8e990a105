import WiseacctSso.Json
import WiseacctSso.OidcIssuance
import Mathlib.Data.Vector.Basic

/-!
# Access, refresh and ID tokens

What the codec and the ID-token signer put into a JWT and what the verifiers ask of one.
The JWT library is a parameter: it signs a payload, and gives back the payload of a token
whose signature and registered claims it accepts.
-/
namespace WiseacctSso.JwtTokens
open Json

/-! ## The JWT library -/

inductive JwtAlgorithm
  | rs256
  | hs256
  deriving DecidableEq

abbrev Payload : Type := Dict String

/-- What is signed, and how. -/
structure Signing (Key : Type) where
  payload : Payload
  key : Key
  algorithm : JwtAlgorithm
  keyId : Option String

structure JwtOptions where
  algorithm : JwtAlgorithm
  issuer : Option String
  audience : Option String
  required : List String
  verifyAud : Bool
  verifyIat : Bool
  verifyJti : Bool
  verifySub : Bool

/-- The checks of the registered claims, for claims of the usual types. -/
def JwtOptions.accepts (options : JwtOptions) (now : ℚ) (payload : Payload) : Bool :=
  (options.required.all fun name => match payload.lookup name with
    | none => false
    | some .null => false
    | some _ => true) &&
  (match payload.lookup "exp" with
    | some (.int expiresAt) => decide (now < expiresAt)
    | _ => true) &&
  (!options.verifyIat || match payload.lookup "iat" with
    | some (.int issuedAt) => decide ((issuedAt : ℚ) ≤ now)
    | _ => true) &&
  (options.issuer.all fun issuer => (payload.lookup "iss").any (·.isStr issuer)) &&
  (!options.verifyAud || match options.audience with
    | some audience => audience ≠ "" && (payload.lookup "aud").any (·.isStr audience)
    | none => (payload.lookup "aud").all (·.isStr ""))

/-- The registered claims have the usual types, and none is there that is not used here. -/
structure Registered (payload : Payload) : Prop where
  exp : ∀ v, payload.lookup "exp" = some v → ∃ z, v = .int z
  iat : ∀ v, payload.lookup "iat" = some v → ∃ z, v = .int z
  iss : ∀ v, payload.lookup "iss" = some v → ∃ s, v = .str s
  aud : ∀ v, payload.lookup "aud" = some v → ∃ s, v = .str s
  sub : ∀ v, payload.lookup "sub" = some v → ∃ s, v = .str s
  nbf : payload.lookup "nbf" = none
  jti : payload.lookup "jti" = none

structure Jwt (Token Key : Type) where
  encode : Signing Key → Token
  /-- None when the library raises. -/
  decode : Token → Key → JwtOptions → ℚ → Option Payload
  /-- The second key verifies what the first one signs. -/
  pairs : JwtAlgorithm → Key → Key → Prop

variable {Token Key : Type}

/-- What the library documents of the tokens that have been signed. -/
structure Jwt.Documented (jwt : Jwt Token Key) (signed : Set (Signing Key)) : Prop where
  decode_encode : ∀ signing ∈ signed, ∀ key options now,
    jwt.pairs signing.algorithm signing.key key → signing.algorithm = options.algorithm →
    Registered signing.payload → Value.Plain (.dict signing.payload) →
    jwt.decode (jwt.encode signing) key options now =
      if options.accepts now signing.payload then some signing.payload else none
  /-- The algorithm that the header names has to be the one that is asked for. -/
  decode_otherAlgorithm : ∀ signing ∈ signed, ∀ key options now,
    signing.algorithm ≠ options.algorithm →
    jwt.decode (jwt.encode signing) key options now = none

/-- A token verifies under a key only if it was signed under that key with that algorithm. -/
def Jwt.Ideal (jwt : Jwt Token Key) (signed : Set (Signing Key)) : Prop :=
  ∀ token key options now payload, jwt.decode token key options now = some payload →
    ∃ signing ∈ signed, jwt.pairs signing.algorithm signing.key key ∧
      signing.algorithm = options.algorithm ∧ token = jwt.encode signing

/-! ## Times -/

inductive TokenError
  | pyJwt
  | overflow
  | value (message : String)
  /-- `TokenValidationError`. -/
  | tokenValidation
  deriving DecidableEq

/-- From the year 1 to the year 9999. -/
def inDateRange (seconds : ℤ) : Bool := -62135596800 ≤ seconds && seconds ≤ 253402300799

/-- A UTC datetime without microseconds, as its timestamp. -/
structure DateTime where
  timestamp : ℤ
  inRange : inDateRange timestamp
  deriving DecidableEq

def DateTime.fromTimestamp (seconds : ℤ) : Except TokenError DateTime :=
  if h : inDateRange seconds then .ok ⟨seconds, h⟩
  else .error (.value "year is out of range")

def DateTime.addSeconds (time : DateTime) (seconds : ℤ) : Except TokenError DateTime :=
  if h : inDateRange (time.timestamp + seconds) then .ok ⟨time.timestamp + seconds, h⟩
  else .error .overflow

@[simp] lemma DateTime.fromTimestamp_timestamp (time : DateTime) :
    fromTimestamp time.timestamp = .ok time := by
  simp [fromTimestamp, time.inRange]

/-! ## Claims -/

structure RoleClaim where
  serviceKey : String
  name : String
  deriving DecidableEq

structure AccessTokenIdentity where
  userId : String
  email : Option String
  name : Option String
  emailVerified : Bool
  roles : List RoleClaim
  deriving DecidableEq

structure AccessTokenClaims where
  identity : AccessTokenIdentity
  audience : String
  issuedAt : DateTime
  expiresAt : DateTime
  deriving DecidableEq

structure RefreshTokenClaims where
  userId : String
  tokenId : String
  audience : String
  issuedAt : DateTime
  expiresAt : DateTime
  deriving DecidableEq

structure IssuedRefreshToken (Token : Type) where
  token : Token
  tokenId : String
  tokenHash : String
  expiresAt : DateTime

def integerClaim (payload : Payload) (name : String) : Except TokenError ℤ :=
  match payload.lookup name with
  | some (.int z) => .ok z
  | _ => .error (.value s!"{name} must be an integer")

def stringClaim (payload : Payload) (name : String) : Except TokenError String :=
  match payload.lookup name with
  | some (.str s) =>
      if s = "" then .error (.value s!"{name} must be a non-empty string") else .ok s
  | _ => .error (.value s!"{name} must be a non-empty string")

def optionalStringClaim (payload : Payload) (name : String) :
    Except TokenError (Option String) :=
  match payload.lookup name with
  | none => .error (.value s!"{name} is required")
  | some .null => .ok none
  | some (.str s) => .ok (some s)
  | some _ => .error (.value s!"{name} must be a string or null")

def roleClaim : Value String → Except TokenError RoleClaim
  | .dict role =>
      if keysAre ["serviceKey", "name"] role then
        match role.lookup "serviceKey", role.lookup "name" with
        | some (.str serviceKey), some (.str name) => .ok ⟨serviceKey, name⟩
        | _, _ => .error (.value "role values must be strings")
      else .error (.value "role entries must use the Express claim shape")
  | _ => .error (.value "role entries must use the Express claim shape")

def rolesClaim (payload : Payload) : Except TokenError (List RoleClaim) :=
  match payload.lookup "roles" with
  | some (.list roles) => roles.mapM roleClaim
  | _ => .error (.value "roles must be a list")

def optionalValue : Option String → Value String
  | none => .null
  | some s => .str s

/-! ## The codec -/

/-- `secrets.token_hex`. -/
def tokenHex (bytes : List UInt8) : String :=
  String.ofList (bytes.flatMap fun b =>
    [Nat.digitChar (b.toNat / 16), Nat.digitChar (b.toNat % 16)])

/-- `^[0-9a-f]{64}$`. -/
def isRefreshTokenId (tokenId : String) : Bool :=
  tokenId.toList.length = 64 &&
    tokenId.toList.all fun c => ('0' ≤ c && c ≤ '9') || ('a' ≤ c && c ≤ 'f')

/-- What a verifier raises for whatever goes wrong. -/
def invalidToken {α : Type} : Except TokenError α → Except TokenError α
  | .ok a => .ok a
  | .error _ => .error .tokenValidation

structure JwtTokenCodec (jwt : Jwt Token Key) where
  accessPrivateKey : Key
  accessPublicKey : Key
  accessKeyId : String
  issuer : String
  defaultAudience : String
  accessExpiresInSeconds : ℤ
  refreshSecret : Key
  refreshExpiresInDays : ℤ
  /-- The settings check that the public key is the one of the private key. -/
  access_pairs : jwt.pairs .rs256 accessPrivateKey accessPublicKey
  refresh_pairs : jwt.pairs .hs256 refreshSecret refreshSecret
  defaultAudience_ne : defaultAudience ≠ ""

namespace JwtTokenCodec

variable {jwt : Jwt Token Key} (codec : JwtTokenCodec jwt)

/-- `audience or self._default_audience`. -/
def audienceOr : Option String → String
  | none => codec.defaultAudience
  | some audience => if audience = "" then codec.defaultAudience else audience

def accessPayload (identity : AccessTokenIdentity) (audience : Option String)
    (issuedAt expiresAt : DateTime) : Payload :=
  [("sub", .str identity.userId),
   ("email", optionalValue identity.email),
   ("name", optionalValue identity.name),
   ("email_verified", .bool identity.emailVerified),
   ("type", .str "access"),
   ("roles", .list (identity.roles.map fun role =>
      .dict [("serviceKey", .str role.serviceKey), ("name", .str role.name)])),
   ("iat", .int issuedAt.timestamp),
   ("exp", .int expiresAt.timestamp),
   ("iss", .str codec.issuer),
   ("aud", .str (codec.audienceOr audience))]

def accessSigning (identity : AccessTokenIdentity) (audience : Option String)
    (issuedAt : DateTime) : Except TokenError (Signing Key) := do
  let expiresAt ← issuedAt.addSeconds codec.accessExpiresInSeconds
  pure ⟨codec.accessPayload identity audience issuedAt expiresAt, codec.accessPrivateKey, .rs256,
    some codec.accessKeyId⟩

def issueAccessToken (identity : AccessTokenIdentity) (audience : Option String)
    (issuedAt : DateTime) : Except TokenError Token := do
  let signing ← codec.accessSigning identity audience issuedAt
  pure (jwt.encode signing)

def accessOptions (audience : Option String) : JwtOptions where
  algorithm := .rs256
  issuer := some codec.issuer
  audience := some (codec.audienceOr audience)
  required := ["sub", "email_verified", "type", "roles", "iat", "exp", "iss", "aud"]
  verifyAud := true
  verifyIat := true
  verifyJti := true
  verifySub := true

/-- What is read from the payload that the library gives back. -/
def accessClaims (payload : Payload) : Except TokenError AccessTokenClaims := do
  if !(payload.lookup "type").any (·.isStr "access") then
    throw (.value "not an access token")
  let emailVerified ← match payload.lookup "email_verified" with
    | some (.bool b) => pure b
    | _ => throw (.value "email_verified must be a boolean")
  let tokenAudience ← stringClaim payload "aud"
  let userId ← stringClaim payload "sub"
  let email ← optionalStringClaim payload "email"
  let name ← optionalStringClaim payload "name"
  let roles ← rolesClaim payload
  let issuedAt ← DateTime.fromTimestamp (← integerClaim payload "iat")
  let expiresAt ← DateTime.fromTimestamp (← integerClaim payload "exp")
  pure ⟨⟨userId, email, name, emailVerified, roles⟩, tokenAudience, issuedAt, expiresAt⟩

def decode (jwt : Jwt Token Key) (token : Token) (key : Key) (options : JwtOptions) (now : ℚ) :
    Except TokenError Payload :=
  match jwt.decode token key options now with
  | none => .error .pyJwt
  | some payload => .ok payload

def verifyAccessToken (token : Token) (audience : Option String) (now : ℚ) :
    Except TokenError AccessTokenClaims :=
  invalidToken do
    let payload ← decode jwt token codec.accessPublicKey (codec.accessOptions audience) now
    accessClaims payload

def adminOptions : JwtOptions where
  algorithm := .rs256
  issuer := some codec.issuer
  audience := some codec.defaultAudience
  required := []
  verifyAud := true
  verifyIat := false
  verifyJti := false
  verifySub := false

/-- The errors of the library are not caught here. -/
def verifyAdminAccessSubject (token : Token) (now : ℚ) : Except TokenError String := do
  let payload ← decode jwt token codec.accessPublicKey codec.adminOptions now
  match payload.lookup "sub" with
  | some (.str subject) =>
      if (payload.lookup "type").any (·.isStr "access") then pure subject
      else throw .tokenValidation
  | _ => throw .tokenValidation

def refreshPayload (userId : String) (audience : Option String) (tokenId : String)
    (issuedAt expiresAt : DateTime) : Payload :=
  [("sub", .str userId),
   ("type", .str "refresh"),
   ("tokenId", .str tokenId),
   ("audience", .str (codec.audienceOr audience)),
   ("iat", .int issuedAt.timestamp),
   ("exp", .int expiresAt.timestamp)]

def refreshSigning (userId : String) (audience : Option String)
    (random : List.Vector UInt8 32) (issuedAt : DateTime) : Except TokenError (Signing Key) := do
  let expiresAt ← issuedAt.addSeconds (codec.refreshExpiresInDays * 86400)
  pure ⟨codec.refreshPayload userId audience (tokenHex random.toList) issuedAt expiresAt,
    codec.refreshSecret, .hs256, none⟩

def issueRefreshToken (sha256Token : Token → String) (userId : String)
    (audience : Option String) (random : List.Vector UInt8 32) (issuedAt : DateTime) :
    Except TokenError (IssuedRefreshToken Token) := do
  let expiresAt ← issuedAt.addSeconds (codec.refreshExpiresInDays * 86400)
  let signing ← codec.refreshSigning userId audience random issuedAt
  pure ⟨jwt.encode signing, tokenHex random.toList, sha256Token (jwt.encode signing), expiresAt⟩

def refreshOptions : JwtOptions where
  algorithm := .hs256
  issuer := none
  audience := none
  required := ["sub", "type", "tokenId", "iat", "exp"]
  verifyAud := false
  verifyIat := true
  verifyJti := true
  verifySub := true

def refreshClaims (audience : Option String) (payload : Payload) :
    Except TokenError RefreshTokenClaims := do
  if !(payload.lookup "type").any (·.isStr "refresh") then
    throw (.value "not a refresh token")
  let tokenId ← stringClaim payload "tokenId"
  if !isRefreshTokenId tokenId then throw (.value "invalid refresh token id")
  let tokenAudience ← if (payload.lookup "audience").isSome then stringClaim payload "audience"
    else pure codec.defaultAudience
  if audience.any (tokenAudience ≠ ·) then throw (.value "refresh token audience mismatch")
  let userId ← stringClaim payload "sub"
  let issuedAt ← DateTime.fromTimestamp (← integerClaim payload "iat")
  let expiresAt ← DateTime.fromTimestamp (← integerClaim payload "exp")
  pure ⟨userId, tokenId, tokenAudience, issuedAt, expiresAt⟩

def verifyRefreshToken (token : Token) (audience : Option String) (now : ℚ) :
    Except TokenError RefreshTokenClaims :=
  invalidToken do
    let payload ← decode jwt token codec.refreshSecret refreshOptions now
    codec.refreshClaims audience payload

end JwtTokenCodec

end WiseacctSso.JwtTokens
