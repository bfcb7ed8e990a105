import WiseacctSso.FormEncoding
import WiseacctSso.JsonEquality
import WiseacctSso.JsonRoundTrip
import WiseacctSso.NodeStrings

/-!
# Record formats

The six kinds of records in Redis as JSON bytes: what the create methods write and what the
parsers read. `urlsplit` answers with the hostname of a URL, or with none where it or its port
raises `ValueError`; `sha256` is the hexadecimal digest.
-/
namespace WiseacctSso.RecordFormats
open Json FormEncoding

inductive PyError
  | value (message : String)
  | overflow
  | unicodeEncode
  deriving DecidableEq

/-! ## Absolute URLs -/

def isAlpha (c : CodePoint) : Bool :=
  (65 ≤ c.val && c.val ≤ 90) || (97 ≤ c.val && c.val ≤ 122)

def isDigit (c : CodePoint) : Bool := 48 ≤ c.val && c.val ≤ 57

/-- `[A-Za-z0-9+.-]`. -/
def isSchemeChar (c : CodePoint) : Bool :=
  isAlpha c || isDigit c || c.val = 43 || c.val = 46 || c.val = 45

/-- The scheme that `^[A-Za-z][A-Za-z0-9+.-]*:` matches, and what follows the colon. -/
def absoluteUrlScheme (text : PyStr) : Option (PyStr × PyStr) :=
  match text.dropWhile isSchemeChar with
  | c :: remainder =>
      let scheme := text.takeWhile isSchemeChar
      if scheme.head?.any isAlpha ∧ c.val = 58 then some (scheme, remainder) else none
  | [] => none

def lowerAscii (c : CodePoint) : CodePoint :=
  if 65 ≤ c.val ∧ c.val ≤ 90 then codePoint (c.val + 32) else c

def isEdgeWhitespace (c : CodePoint) : Bool := c.val < 0x21

def stripEdges (text : PyStr) : PyStr :=
  ((text.dropWhile isEdgeWhitespace).reverse.dropWhile isEdgeWhitespace).reverse

def isInvalidUrlCharacter (c : CodePoint) : Bool :=
  PythonText.isSpaceCode c.val || c.val ≤ 0x20 || (0xD800 ≤ c.val && c.val ≤ 0xDFFF)

def containsInvalidUrlCharacter (value : PyStr) : Bool := value.any isInvalidUrlCharacter

def validUrlHostname (hostname : Option PyStr) : Bool :=
  hostname.any fun h => h ≠ [] && !containsInvalidUrlCharacter h

def hostRequiredSchemes : List PyStr := ["ftp", "http", "https", "ws", "wss"].map ofString

section url

variable (urlsplit : PyStr → Option (Option PyStr))

def isAbsoluteZodUrl (value : PyStr) : Bool :=
  let normalized := stripEdges value
  match absoluteUrlScheme normalized with
  | none => false
  | some (scheme, remainder) =>
    let scheme := scheme.map lowerAscii
    let slashes := ofString "//"
    match urlsplit normalized with
    | none => false
    | some hostname =>
      if scheme = ofString "file" then
        if ¬ slashes.isPrefixOf remainder ∨ remainder = ofString "///" then
          !containsInvalidUrlCharacter remainder
        else
          let authority := (remainder.drop 2).takeWhile (·.val ≠ 47)
          authority.isEmpty || validUrlHostname (some authority)
      else if scheme ∉ hostRequiredSchemes then
        if containsInvalidUrlCharacter remainder then false
        else if ¬ slashes.isPrefixOf remainder ∨ remainder = slashes then true
        else validUrlHostname hostname
      else
        match hostname with
        | none =>
          let repairedRemainder := remainder.dropWhile (·.val = 47)
          if repairedRemainder = [] then false
          else (urlsplit (scheme ++ ofString "://" ++ repairedRemainder)).any validUrlHostname
        | some h => validUrlHostname (some h)

end url

/-! ## JSON objects -/

def encodeAscii (text : List Char) : Except PyError (List UInt8) :=
  if text.all (·.toNat < 128) then .ok (text.map fun c => .ofNat c.toNat)
  else .error .unicodeEncode

def serialize (record : List (PyStr × Field)) : Except PyError (List UInt8) :=
  encodeAscii (dumps record)

/-- `_parse_json_object`, `_object`. -/
def parseJsonObject (raw : List UInt8) : Option (Dict PyStr) :=
  match (decodeStrict raw).bind fun text => loads text.toList with
  | some (.dict record) => some record
  | _ => none

/-- `_nonempty_string`, `_nonempty`. -/
def nonemptyString : Value PyStr → Option PyStr
  | .str s => if s = [] then none else some s
  | _ => none

/-- `_nullable_nonempty_string`, `_optional_nonempty`; none is the invalid value. -/
def nullableNonemptyString : Value PyStr → Option (Option PyStr)
  | .null => some none
  | v => (nonemptyString v).map some

/-- A string that is one of `words`. -/
def wordOf (words : List String) : Value PyStr → Option PyStr
  | .str s => if s ∈ words.map ofString then some s else none
  | _ => none

/-- `in ("S256", None)`. -/
def nullableMethod : Value PyStr → Option (Option PyStr)
  | .null => some none
  | v => (wordOf ["S256"] v).map some

def scopesOf : Value PyStr → Option (List PyStr)
  | .list items =>
      if items.isEmpty || 16 < items.length then none
      else (items.mapM nonemptyString).bind fun parsed =>
        if parsed.Nodup then some parsed else none
  | _ => none

def positiveInteger : Value PyStr → Option ℤ
  | .int z => if 0 < z then some z else none
  | _ => none

def pkceOf (challenge method : Value PyStr) : Option (Option PyStr × Option PyStr) :=
  match nullableNonemptyString challenge, method with
  | some none, .null => some (none, none)
  | some (some challenge), .str s =>
      if s = ofString "S256" then some (some challenge, some s) else none
  | _, _ => none

/-- `[A-Za-z0-9_-]{43}`. -/
def isOpaqueValue (s : PyStr) : Bool :=
  s.length = 43 && s.all fun c => isAlpha c || isDigit c || c.val = 95 || c.val = 45

def providers : List String := ["google", "naver", "kakao"]

def nullable : Option PyStr → Field
  | none => .null
  | some s => .str s

def named (members : List (String × Field)) : List (PyStr × Field) :=
  members.map fun member => (ofString member.1, member.2)

/-- The member of an object that has the key. -/
def item (record : Dict PyStr) (key : String) : Option (Value PyStr) :=
  record.lookup (ofString key)

/-! ## OAuth states -/

structure OAuthStateMetadata where
  clientId : PyStr
  redirectUri : PyStr
  callerState : Option PyStr
  codeChallenge : Option PyStr
  codeChallengeMethod : Option PyStr
  deriving DecidableEq

def oauthKeys : List String :=
  ["provider", "clientId", "redirectUri", "callerState", "codeChallenge", "codeChallengeMethod"]

def oauthMembers (provider : PyStr) (metadata : OAuthStateMetadata) : List (PyStr × Field) :=
  named [("provider", .str provider), ("clientId", .str metadata.clientId),
    ("redirectUri", .str metadata.redirectUri), ("callerState", nullable metadata.callerState),
    ("codeChallenge", nullable metadata.codeChallenge),
    ("codeChallengeMethod", nullable metadata.codeChallengeMethod)]

variable (urlsplit : PyStr → Option (Option PyStr)) (sha256 : List UInt8 → String)

def oauthRecord (raw : List UInt8) : Option (PyStr × OAuthStateMetadata) := do
  let record ← parseJsonObject raw
  if ¬ keysAre (oauthKeys.map ofString) record then none else
  let clientId ← nonemptyString (← item record "clientId")
  let redirectUri ← nonemptyString (← item record "redirectUri")
  let callerState ← nullableNonemptyString (← item record "callerState")
  let codeChallenge ← nullableNonemptyString (← item record "codeChallenge")
  let provider ← wordOf providers (← item record "provider")
  if ¬ isAbsoluteZodUrl urlsplit redirectUri then none else
  let method ← nullableMethod (← item record "codeChallengeMethod")
  pure (provider, ⟨clientId, redirectUri, callerState, codeChallenge, method⟩)

/-- The bytes that `OAuthStateStore.create` stores. -/
def OAuthStateStore.stored (provider : PyStr) (metadata : OAuthStateMetadata) :
    Except PyError (List UInt8) := do
  match oauthRecord urlsplit (← serialize (oauthMembers provider metadata)) with
  | none => .error (.value "invalid OAuth state metadata")
  | some parsed => serialize (oauthMembers parsed.1 parsed.2)

/-! ## Handoffs -/

structure StoredAuthHandoffMetadata where
  clientId : PyStr
  audience : PyStr
  redirectUri : PyStr
  userId : PyStr
  loginMethod : PyStr
  codeChallenge : PyStr
  codeChallengeMethod : PyStr
  state : Option PyStr
  expiresAtEpochMs : ℤ
  provider : Option PyStr
  deriving DecidableEq

structure AuthHandoffCreateInput where
  clientId : PyStr
  audience : PyStr
  redirectUri : PyStr
  userId : PyStr
  loginMethod : PyStr
  codeChallenge : PyStr
  codeChallengeMethod : PyStr
  state : Option PyStr
  provider : Option PyStr
  deriving DecidableEq

def authHandoffTtlSeconds : ℤ := 2 * 60

def AuthHandoffCreateInput.at (metadata : AuthHandoffCreateInput) (nowEpochMs : ℤ) :
    StoredAuthHandoffMetadata :=
  ⟨metadata.clientId, metadata.audience, metadata.redirectUri, metadata.userId,
    metadata.loginMethod, metadata.codeChallenge, metadata.codeChallengeMethod, metadata.state,
    nowEpochMs + authHandoffTtlSeconds * 1000, metadata.provider⟩

def handoffKeys : List String :=
  ["clientId", "audience", "redirectUri", "userId", "loginMethod", "codeChallenge",
    "codeChallengeMethod", "state", "expiresAtEpochMs"]

/-- A provider that is not given has no member. -/
def handoffMembers (metadata : StoredAuthHandoffMetadata) : List (PyStr × Field) :=
  named ([("clientId", .str metadata.clientId), ("audience", .str metadata.audience),
    ("redirectUri", .str metadata.redirectUri), ("userId", .str metadata.userId)] ++
    (metadata.provider.map fun provider => ("provider", Field.str provider)).toList ++
    [("loginMethod", .str metadata.loginMethod), ("codeChallenge", .str metadata.codeChallenge),
      ("codeChallengeMethod", .str metadata.codeChallengeMethod),
      ("state", nullable metadata.state), ("expiresAtEpochMs", .int metadata.expiresAtEpochMs)])

/-- A whole number is read from a float as well; `float` of an integer may overflow. -/
def expiryOf : Value PyStr → Except PyError (Option ℤ)
  | .int z =>
      match PyFloat.ofInt z with
      | none => .error .overflow
      | some f => .ok (if f.isInteger && 0 < z then some z else none)
  | .float f => .ok (if f.isInteger && f.isPositive then some f.truncate else none)
  | _ => .ok none

def handoffFields (record : Dict PyStr) (expires : Option ℤ) :
    Option StoredAuthHandoffMetadata := do
  let clientId ← nonemptyString (← item record "clientId")
  let audience ← nonemptyString (← item record "audience")
  let redirectUri ← nonemptyString (← item record "redirectUri")
  let userId ← nonemptyString (← item record "userId")
  let codeChallenge ← nonemptyString (← item record "codeChallenge")
  let state ← nullableNonemptyString (← item record "state")
  if ¬ isAbsoluteZodUrl urlsplit redirectUri then none else
  let loginMethod ← wordOf ["oauth", "password"] (← item record "loginMethod")
  let method ← wordOf ["S256"] (← item record "codeChallengeMethod")
  let provider ← match item record "provider" with
    | none => some none
    | some provider => (wordOf providers provider).map some
  pure ⟨clientId, audience, redirectUri, userId, loginMethod, codeChallenge, method, state,
    ← expires, provider⟩

def handoffRecord (raw : List UInt8) : Except PyError (Option StoredAuthHandoffMetadata) :=
  match parseJsonObject raw with
  | none => .ok none
  | some record =>
      if keysAre (handoffKeys.map ofString) record ||
          keysAre (("provider" :: handoffKeys).map ofString) record then
        match item record "expiresAtEpochMs" with
        | none => .ok none
        | some expires => (expiryOf expires).map (handoffFields urlsplit record)
      else .ok none

/-- The bytes that `AuthHandoffStore.create` stores. -/
def AuthHandoffStore.stored (metadata : AuthHandoffCreateInput) (nowEpochMs : ℤ) :
    Except PyError (List UInt8) := do
  let serialized ← serialize (handoffMembers (metadata.at nowEpochMs))
  match ← handoffRecord urlsplit serialized with
  | none => .error (.value "invalid auth handoff metadata")
  | some _ => .ok serialized

/-! ## OIDC transactions -/

structure OidcAuthorizationTransaction where
  clientId : PyStr
  redirectUri : PyStr
  scopes : List PyStr
  state : Option PyStr
  nonce : Option PyStr
  codeChallenge : Option PyStr
  codeChallengeMethod : Option PyStr
  browserBindingHash : PyStr
  csrfHash : PyStr
  expiresAtEpochMs : ℤ
  deriving DecidableEq

structure OidcAuthorizationTransactionCreateInput where
  clientId : PyStr
  redirectUri : PyStr
  scopes : List PyStr
  state : Option PyStr
  nonce : Option PyStr
  codeChallenge : Option PyStr
  codeChallengeMethod : Option PyStr
  browserBinding : PyStr
  csrfToken : PyStr

def oidcTransactionTtlSeconds : ℤ := 10 * 60

/-- `oidc_secret_digest`; a string that cannot be encoded is an error. -/
def oidcSecretDigest (value : PyStr) : Except PyError PyStr :=
  match NodeStrings.oidcSecretDigest sha256 value with
  | none => .error .unicodeEncode
  | some digest => .ok (ofString digest)

def OidcAuthorizationTransactionCreateInput.at
    (input : OidcAuthorizationTransactionCreateInput) (nowEpochMs : ℤ) :
    Except PyError OidcAuthorizationTransaction := do
  let browserBindingHash ← oidcSecretDigest sha256 input.browserBinding
  let csrfHash ← oidcSecretDigest sha256 input.csrfToken
  pure ⟨input.clientId, input.redirectUri, input.scopes, input.state, input.nonce,
    input.codeChallenge, input.codeChallengeMethod, browserBindingHash, csrfHash,
    nowEpochMs + oidcTransactionTtlSeconds * 1000⟩

def transactionKeys : List String :=
  ["purpose", "clientId", "redirectUri", "scopes", "state", "nonce", "codeChallenge",
    "codeChallengeMethod", "browserBindingHash", "csrfHash", "expiresAtEpochMs"]

def transactionMembers (record : OidcAuthorizationTransaction) : List (PyStr × Field) :=
  named [("purpose", .str (ofString "oidc-transaction")), ("clientId", .str record.clientId),
    ("redirectUri", .str record.redirectUri), ("scopes", .strs record.scopes),
    ("state", nullable record.state), ("nonce", nullable record.nonce),
    ("codeChallenge", nullable record.codeChallenge),
    ("codeChallengeMethod", nullable record.codeChallengeMethod),
    ("browserBindingHash", .str record.browserBindingHash), ("csrfHash", .str record.csrfHash),
    ("expiresAtEpochMs", .int record.expiresAtEpochMs)]

/-- The object of a record with the keys and the purpose. -/
def recordOf (keys : List String) (purpose : String) (raw : List UInt8) : Option (Dict PyStr) := do
  let record ← parseJsonObject raw
  if ¬ keysAre (keys.map ofString) record then none else
  if ¬ (← item record "purpose").isStr (ofString purpose) then none else
  some record

def transactionRecord (raw : List UInt8) : Option OidcAuthorizationTransaction := do
  let record ← recordOf transactionKeys "oidc-transaction" raw
  let clientId ← nonemptyString (← item record "clientId")
  let redirectUri ← nonemptyString (← item record "redirectUri")
  let scopes ← scopesOf (← item record "scopes")
  let state ← nullableNonemptyString (← item record "state")
  let nonce ← nullableNonemptyString (← item record "nonce")
  let pkce ← pkceOf (← item record "codeChallenge") (← item record "codeChallengeMethod")
  let bindingHash ← nonemptyString (← item record "browserBindingHash")
  let csrfHash ← nonemptyString (← item record "csrfHash")
  let expires ← positiveInteger (← item record "expiresAtEpochMs")
  pure ⟨clientId, redirectUri, scopes, state, nonce, pkce.1, pkce.2, bindingHash, csrfHash, expires⟩

/-- What a create method stores: the bytes, once they have been read back. -/
def checked {α : Type} (parse : List UInt8 → Option α) (message : String)
    (record : List (PyStr × Field)) : Except PyError (List UInt8) := do
  let raw ← serialize record
  if (parse raw).isNone then .error (.value message) else .ok raw

/-- The bytes that `OidcAuthorizationTransactionStore.create` stores. -/
def OidcAuthorizationTransactionStore.stored (input : OidcAuthorizationTransactionCreateInput)
    (nowEpochMs : ℤ) : Except PyError (List UInt8) := do
  checked transactionRecord "invalid OIDC authorization transaction"
    (transactionMembers (← input.at sha256 nowEpochMs))

/-! ## OIDC provider states -/

structure OidcProviderState where
  provider : PyStr
  transactionId : PyStr
  browserBindingHash : PyStr
  expiresAtEpochMs : ℤ
  deriving DecidableEq

structure OidcProviderStateCreateInput where
  provider : PyStr
  transactionId : PyStr
  browserBinding : PyStr

def oidcProviderStateTtlSeconds : ℤ := 10 * 60

def OidcProviderStateCreateInput.at (input : OidcProviderStateCreateInput) (nowEpochMs : ℤ) :
    Except PyError OidcProviderState := do
  let browserBindingHash ← oidcSecretDigest sha256 input.browserBinding
  pure ⟨input.provider, input.transactionId, browserBindingHash,
    nowEpochMs + oidcProviderStateTtlSeconds * 1000⟩

def providerStateKeys : List String :=
  ["purpose", "provider", "transactionId", "browserBindingHash", "expiresAtEpochMs"]

def providerStateMembers (record : OidcProviderState) : List (PyStr × Field) :=
  named [("purpose", .str (ofString "oidc-provider-state")), ("provider", .str record.provider),
    ("transactionId", .str record.transactionId),
    ("browserBindingHash", .str record.browserBindingHash),
    ("expiresAtEpochMs", .int record.expiresAtEpochMs)]

def providerStateRecord (raw : List UInt8) : Option OidcProviderState := do
  let record ← recordOf providerStateKeys "oidc-provider-state" raw
  let transactionId ← nonemptyString (← item record "transactionId")
  let bindingHash ← nonemptyString (← item record "browserBindingHash")
  let expires ← positiveInteger (← item record "expiresAtEpochMs")
  let provider ← wordOf providers (← item record "provider")
  if ¬ isOpaqueValue transactionId then none else
  pure ⟨provider, transactionId, bindingHash, expires⟩

/-- The bytes that `OidcProviderStateStore.create` stores. -/
def OidcProviderStateStore.stored (input : OidcProviderStateCreateInput) (nowEpochMs : ℤ) :
    Except PyError (List UInt8) := do
  if input.provider ∉ providers.map ofString ∨ ¬ isOpaqueValue input.transactionId ∨
      input.browserBinding = [] then
    .error (.value "invalid OIDC provider state metadata")
  else
    checked providerStateRecord "invalid OIDC provider state metadata"
      (providerStateMembers (← input.at sha256 nowEpochMs))

/-! ## OIDC authorization codes -/

structure StoredOidcAuthorizationCode where
  clientId : PyStr
  redirectUri : PyStr
  userId : PyStr
  scopes : List PyStr
  nonce : Option PyStr
  codeChallenge : Option PyStr
  codeChallengeMethod : Option PyStr
  expiresAtEpochMs : ℤ
  deriving DecidableEq

structure OidcAuthorizationCodeCreateInput where
  clientId : PyStr
  redirectUri : PyStr
  userId : PyStr
  scopes : List PyStr
  nonce : Option PyStr
  codeChallenge : Option PyStr
  codeChallengeMethod : Option PyStr

def oidcAuthorizationCodeTtlSeconds : ℤ := 60

def OidcAuthorizationCodeCreateInput.at (input : OidcAuthorizationCodeCreateInput)
    (nowEpochMs : ℤ) : StoredOidcAuthorizationCode :=
  ⟨input.clientId, input.redirectUri, input.userId, input.scopes, input.nonce,
    input.codeChallenge, input.codeChallengeMethod,
    nowEpochMs + oidcAuthorizationCodeTtlSeconds * 1000⟩

def codeKeys : List String :=
  ["purpose", "clientId", "redirectUri", "userId", "scopes", "nonce", "codeChallenge",
    "codeChallengeMethod", "expiresAtEpochMs"]

def codeMembers (record : StoredOidcAuthorizationCode) : List (PyStr × Field) :=
  named [("purpose", .str (ofString "oidc-code")), ("clientId", .str record.clientId),
    ("redirectUri", .str record.redirectUri), ("userId", .str record.userId),
    ("scopes", .strs record.scopes), ("nonce", nullable record.nonce),
    ("codeChallenge", nullable record.codeChallenge),
    ("codeChallengeMethod", nullable record.codeChallengeMethod),
    ("expiresAtEpochMs", .int record.expiresAtEpochMs)]

def codeRecord (raw : List UInt8) : Option StoredOidcAuthorizationCode := do
  let record ← recordOf codeKeys "oidc-code" raw
  let clientId ← nonemptyString (← item record "clientId")
  let redirectUri ← nonemptyString (← item record "redirectUri")
  let userId ← nonemptyString (← item record "userId")
  let scopes ← scopesOf (← item record "scopes")
  let nonce ← nullableNonemptyString (← item record "nonce")
  let pkce ← pkceOf (← item record "codeChallenge") (← item record "codeChallengeMethod")
  let expires ← positiveInteger (← item record "expiresAtEpochMs")
  pure ⟨clientId, redirectUri, userId, scopes, nonce, pkce.1, pkce.2, expires⟩

/-- The bytes that `OidcAuthorizationCodeStore.create` stores. -/
def OidcAuthorizationCodeStore.stored (input : OidcAuthorizationCodeCreateInput)
    (nowEpochMs : ℤ) : Except PyError (List UInt8) :=
  checked codeRecord "invalid OIDC authorization code metadata" (codeMembers (input.at nowEpochMs))

/-! ## OIDC access tokens -/

structure StoredOidcAccessToken where
  clientId : PyStr
  userId : PyStr
  scopes : List PyStr
  expiresAtEpochMs : ℤ
  deriving DecidableEq

structure OidcAccessTokenCreateInput where
  clientId : PyStr
  userId : PyStr
  scopes : List PyStr

def oidcAccessTokenTtlSeconds : ℤ := 5 * 60

def OidcAccessTokenCreateInput.at (input : OidcAccessTokenCreateInput) (nowEpochMs : ℤ) :
    StoredOidcAccessToken :=
  ⟨input.clientId, input.userId, input.scopes, nowEpochMs + oidcAccessTokenTtlSeconds * 1000⟩

def accessTokenKeys : List String :=
  ["purpose", "clientId", "userId", "scopes", "expiresAtEpochMs"]

def accessTokenMembers (record : StoredOidcAccessToken) : List (PyStr × Field) :=
  named [("purpose", .str (ofString "oidc-userinfo")), ("clientId", .str record.clientId),
    ("userId", .str record.userId), ("scopes", .strs record.scopes),
    ("expiresAtEpochMs", .int record.expiresAtEpochMs)]

/-- `_record`. -/
def accessTokenRecord (raw : List UInt8) : Option StoredOidcAccessToken := do
  let record ← recordOf accessTokenKeys "oidc-userinfo" raw
  let clientId ← nonemptyString (← item record "clientId")
  let userId ← nonemptyString (← item record "userId")
  let scopes ← scopesOf (← item record "scopes")
  let expires ← positiveInteger (← item record "expiresAtEpochMs")
  pure ⟨clientId, userId, scopes, expires⟩

/-- The bytes that `OidcAccessTokenStore.create` stores. -/
def OidcAccessTokenStore.stored (input : OidcAccessTokenCreateInput) (nowEpochMs : ℤ) :
    Except PyError (List UInt8) :=
  checked accessTokenRecord "invalid OIDC access token metadata"
    (accessTokenMembers (input.at nowEpochMs))

end WiseacctSso.RecordFormats
