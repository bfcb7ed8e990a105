import WiseacctSso.TokenCodec

/-!
# Token kinds kept apart

Every token that verifies was signed by one of three functions; what a verifier accepts is
traced back to its own.
-/
namespace WiseacctSso.JwtTokens
open Json
open OidcIssuance (OidcProvider OidcIdTokenIdentity OidcIdTokenClaims)

variable {Token Key : Type} {jwt : Jwt Token Key} (codec : JwtTokenCodec jwt)

/-! ## ID tokens -/

def idTokenPayload (claims : OidcIdTokenClaims) (issuedAt expiresAt : DateTime) : Payload :=
  [("sub", .str claims.sub),
   ("email", .str claims.email),
   ("email_verified", .bool claims.emailVerified),
   ("groups", .list (claims.groups.map .str)),
   ("iat", .int issuedAt.timestamp),
   ("exp", .int expiresAt.timestamp),
   ("iss", .str claims.iss),
   ("aud", .str claims.aud)] ++
  (claims.name.toList.map fun name => ("name", .str name)) ++
  (claims.nonce.toList.map fun nonce => ("nonce", .str nonce))

/-- The signer uses the private key of the codec. -/
def idTokenSigning (provider : OidcProvider) (expiresInSeconds : ℤ)
    (identity : OidcIdTokenIdentity) (clientId : String) (nonce : Option String)
    (issuedAt : DateTime) : Except TokenError (Signing Key) := do
  match OidcIssuance.OidcIdTokenSigner.issue provider identity clientId nonce
      issuedAt.timestamp.toNat with
  | .error _ => throw (.value "invalid OIDC ID token identity or audience")
  | .ok claims =>
      let expiresAt ← issuedAt.addSeconds expiresInSeconds
      pure ⟨idTokenPayload claims issuedAt expiresAt, codec.accessPrivateKey, .rs256,
        some codec.accessKeyId⟩

/-! ## Mints -/

/-- A call that signs a token, with what it draws from the clock and the random source. -/
inductive Mint
  | access (identity : AccessTokenIdentity) (audience : Option String) (issuedAt : DateTime)
  | refresh (userId : String) (audience : Option String) (random : List.Vector UInt8 32)
      (issuedAt : DateTime)
  | idToken (provider : OidcProvider) (expiresInSeconds : ℤ) (identity : OidcIdTokenIdentity)
      (clientId : String) (nonce : Option String) (issuedAt : DateTime)

def Mint.signing : Mint → Except TokenError (Signing Key)
  | access identity audience issuedAt => codec.accessSigning identity audience issuedAt
  | refresh userId audience random issuedAt =>
      codec.refreshSigning userId audience random issuedAt
  | idToken provider expiresInSeconds identity clientId nonce issuedAt =>
      idTokenSigning codec provider expiresInSeconds identity clientId nonce issuedAt

def signed (minted : Set Mint) : Set (Signing Key) :=
  {signing | ∃ mint ∈ minted, mint.signing codec = .ok signing}

lemma accessSigning_ok_iff {identity : AccessTokenIdentity} {audience : Option String}
    {issuedAt : DateTime} {signing : Signing Key} :
    codec.accessSigning identity audience issuedAt = .ok signing ↔
      ∃ expiresAt, issuedAt.addSeconds codec.accessExpiresInSeconds = .ok expiresAt ∧
        signing = ⟨codec.accessPayload identity audience issuedAt expiresAt,
          codec.accessPrivateKey, .rs256, some codec.accessKeyId⟩ := by
  unfold JwtTokenCodec.accessSigning
  cases issuedAt.addSeconds codec.accessExpiresInSeconds <;>
    simp [bind, Except.bind, pure, Except.pure, eq_comm]

lemma refreshSigning_ok_iff {userId : String} {audience : Option String}
    {random : List.Vector UInt8 32} {issuedAt : DateTime} {signing : Signing Key} :
    codec.refreshSigning userId audience random issuedAt = .ok signing ↔
      ∃ expiresAt, issuedAt.addSeconds (codec.refreshExpiresInDays * 86400) = .ok expiresAt ∧
        signing = ⟨codec.refreshPayload userId audience (tokenHex random.toList) issuedAt expiresAt,
          codec.refreshSecret, .hs256, none⟩ := by
  unfold JwtTokenCodec.refreshSigning
  cases issuedAt.addSeconds (codec.refreshExpiresInDays * 86400) <;>
    simp [bind, Except.bind, pure, Except.pure, eq_comm]

lemma issueAccessToken_ok_iff {identity : AccessTokenIdentity} {audience : Option String}
    {issuedAt : DateTime} {token : Token} :
    codec.issueAccessToken identity audience issuedAt = .ok token ↔
      ∃ signing, codec.accessSigning identity audience issuedAt = .ok signing ∧
        token = jwt.encode signing := by
  unfold JwtTokenCodec.issueAccessToken
  cases codec.accessSigning identity audience issuedAt <;>
    simp [bind, Except.bind, pure, Except.pure, eq_comm]

lemma issueRefreshToken_ok_iff {sha256Token : Token → String} {userId : String}
    {audience : Option String} {random : List.Vector UInt8 32} {issuedAt : DateTime}
    {issued : IssuedRefreshToken Token} :
    codec.issueRefreshToken sha256Token userId audience random issuedAt = .ok issued ↔
      ∃ expiresAt signing, issuedAt.addSeconds (codec.refreshExpiresInDays * 86400) =
          .ok expiresAt ∧
        codec.refreshSigning userId audience random issuedAt = .ok signing ∧
        issued = ⟨jwt.encode signing, tokenHex random.toList, sha256Token (jwt.encode signing),
          expiresAt⟩ := by
  unfold JwtTokenCodec.issueRefreshToken
  cases issuedAt.addSeconds (codec.refreshExpiresInDays * 86400) <;>
    cases codec.refreshSigning userId audience random issuedAt <;>
      simp [bind, Except.bind, pure, Except.pure, eq_comm]

lemma idTokenSigning_payload {provider : OidcProvider} {expiresInSeconds : ℤ}
    {identity : OidcIdTokenIdentity} {clientId : String} {nonce : Option String}
    {issuedAt : DateTime} {signing : Signing Key}
    (h : idTokenSigning codec provider expiresInSeconds identity clientId nonce issuedAt =
      .ok signing) :
    ∃ claims issuedAt expiresAt, signing = ⟨idTokenPayload claims issuedAt expiresAt,
      codec.accessPrivateKey, .rs256, some codec.accessKeyId⟩ := by
  unfold idTokenSigning at h
  split at h
  · cases h
  · rename_i claims _
    cases hexpires : issuedAt.addSeconds expiresInSeconds with
    | error e => simp [hexpires, bind, Except.bind] at h
    | ok expiresAt =>
      simp only [hexpires, bind, Except.bind, pure, Except.pure, Except.ok.injEq] at h
      exact ⟨claims, issuedAt, expiresAt, h.symm⟩

/-- What each mint signs. -/
lemma Mint.signing_cases {mint : Mint} {signing : Signing Key}
    (h : mint.signing codec = .ok signing) :
    (∃ identity audience issuedAt expiresAt, mint = .access identity audience issuedAt ∧
      issuedAt.addSeconds codec.accessExpiresInSeconds = .ok expiresAt ∧
      signing = ⟨codec.accessPayload identity audience issuedAt expiresAt,
        codec.accessPrivateKey, .rs256, some codec.accessKeyId⟩) ∨
    (∃ userId audience random issuedAt expiresAt, mint = .refresh userId audience random issuedAt ∧
      issuedAt.addSeconds (codec.refreshExpiresInDays * 86400) = .ok expiresAt ∧
      signing = ⟨codec.refreshPayload userId audience (tokenHex random.toList) issuedAt expiresAt,
        codec.refreshSecret, .hs256, none⟩) ∨
    ∃ claims issuedAt expiresAt, signing = ⟨idTokenPayload claims issuedAt expiresAt,
      codec.accessPrivateKey, .rs256, some codec.accessKeyId⟩ := by
  cases mint with
  | access identity audience issuedAt =>
    obtain ⟨expiresAt, hexpires, rfl⟩ := (accessSigning_ok_iff codec).mp h
    exact .inl ⟨identity, audience, issuedAt, expiresAt, rfl, hexpires, rfl⟩
  | refresh userId audience random issuedAt =>
    obtain ⟨expiresAt, hexpires, rfl⟩ := (refreshSigning_ok_iff codec).mp h
    exact .inr (.inl ⟨userId, audience, random, issuedAt, expiresAt, rfl, hexpires, rfl⟩)
  | idToken provider expiresInSeconds identity clientId nonce issuedAt =>
    exact .inr (.inr (idTokenSigning_payload codec h))

/-! ## Payloads -/

lemma plain_timestamp (time : DateTime) :
    Value.Plain (.int time.timestamp : Value String) := by
  have h := time.inRange
  simp only [inDateRange, Bool.and_eq_true, decide_eq_true_eq] at h
  exact .int _ (by omega)

lemma plain_optionalValue (s : Option String) : Value.Plain (optionalValue s) := by
  cases s with
  | none => exact .null
  | some s => exact .str s

lemma plain_accessPayload (identity : AccessTokenIdentity) (audience : Option String)
    (issuedAt expiresAt : DateTime) :
    Value.Plain (.dict (codec.accessPayload identity audience issuedAt expiresAt)) := by
  have hroles : ∀ v ∈ identity.roles.map fun role => Value.dict
      [("serviceKey", .str role.serviceKey), ("name", .str role.name)], Value.Plain v := by
    intro v hv
    obtain ⟨role, -, rfl⟩ := List.mem_map.mp hv
    refine .dict _ (by simp) ?_
    simp [Value.Plain.str]
  refine .dict _ (by simp [JwtTokenCodec.accessPayload]) ?_
  simp [JwtTokenCodec.accessPayload, plain_timestamp, plain_optionalValue, Value.Plain.str,
    Value.Plain.bool, Value.Plain.list _ hroles]

lemma plain_refreshPayload (userId : String) (audience : Option String) (tokenId : String)
    (issuedAt expiresAt : DateTime) :
    Value.Plain (.dict (codec.refreshPayload userId audience tokenId issuedAt expiresAt)) := by
  refine .dict _ (by simp [JwtTokenCodec.refreshPayload]) ?_
  simp [JwtTokenCodec.refreshPayload, plain_timestamp, Value.Plain.str]

lemma plain_idTokenPayload (claims : OidcIdTokenClaims) (issuedAt expiresAt : DateTime) :
    Value.Plain (.dict (idTokenPayload claims issuedAt expiresAt)) := by
  have hgroups : ∀ v ∈ claims.groups.map Value.str, Value.Plain v := by
    intro v hv
    obtain ⟨group, -, rfl⟩ := List.mem_map.mp hv
    exact .str group
  refine .dict _ ?_ ?_
  · cases hname : claims.name <;> cases hnonce : claims.nonce <;>
      simp [idTokenPayload, hname, hnonce]
  · cases hname : claims.name <;> cases hnonce : claims.nonce <;>
      simp [idTokenPayload, hname, hnonce, plain_timestamp, Value.Plain.str, Value.Plain.bool,
        Value.Plain.list _ hgroups]

/-- What is signed comes back from the library. -/
lemma Mint.sound {mint : Mint} {signing : Signing Key} (h : mint.signing codec = .ok signing) :
    Registered signing.payload ∧ Value.Plain (.dict signing.payload) := by
  obtain ⟨identity, audience, issuedAt, expiresAt, -, -, rfl⟩ |
    ⟨userId, audience, random, issuedAt, expiresAt, -, -, rfl⟩ |
    ⟨claims, issuedAt, expiresAt, rfl⟩ := Mint.signing_cases codec h
  · refine ⟨?_, plain_accessPayload codec identity audience issuedAt expiresAt⟩
    constructor <;> simp [JwtTokenCodec.accessPayload, List.lookup]
  · refine ⟨?_, plain_refreshPayload codec userId audience _ issuedAt expiresAt⟩
    constructor <;> simp [JwtTokenCodec.refreshPayload, List.lookup]
  · refine ⟨?_, plain_idTokenPayload claims issuedAt expiresAt⟩
    constructor <;> cases hname : claims.name <;> cases hnonce : claims.nonce <;>
      simp [idTokenPayload, hname, hnonce, List.lookup]

/-- A token that the library accepts was signed by a mint, with the payload it gives back. -/
lemma decode_minted {minted : Set Mint} (documented : jwt.Documented (signed codec minted))
    (ideal : jwt.Ideal (signed codec minted)) {token : Token} {key : Key}
    {options : JwtOptions} {now : ℚ} {payload : Payload}
    (h : jwt.decode token key options now = some payload) :
    ∃ mint ∈ minted, ∃ signing, mint.signing codec = .ok signing ∧
      signing.algorithm = options.algorithm ∧ token = jwt.encode signing ∧
      signing.payload = payload ∧ options.accepts now payload := by
  obtain ⟨signing, ⟨mint, hmint, hsigning⟩, hpairs, halgorithm, rfl⟩ :=
    ideal token key options now payload h
  obtain ⟨hregistered, hplain⟩ := Mint.sound codec hsigning
  have hdecode := documented.decode_encode signing ⟨mint, hmint, hsigning⟩ key options now hpairs
    halgorithm hregistered hplain
  rw [h] at hdecode
  split at hdecode
  · rename_i haccepts
    obtain rfl := Option.some.inj hdecode
    exact ⟨mint, hmint, signing, hsigning, halgorithm, rfl, rfl, haccepts⟩
  · cases hdecode

/-- A minted token is accepted when its registered claims are. -/
lemma decode_encode {minted : Set Mint} (documented : jwt.Documented (signed codec minted))
    {mint : Mint} (hmint : mint ∈ minted) {signing : Signing Key}
    (hsigning : mint.signing codec = .ok signing) {key : Key} {options : JwtOptions} {now : ℚ}
    (hpairs : jwt.pairs signing.algorithm signing.key key)
    (halgorithm : signing.algorithm = options.algorithm)
    (haccepts : options.accepts now signing.payload) :
    jwt.decode (jwt.encode signing) key options now = some signing.payload := by
  obtain ⟨hregistered, hplain⟩ := Mint.sound codec hsigning
  rw [documented.decode_encode signing ⟨mint, hmint, hsigning⟩ key options now hpairs halgorithm
    hregistered hplain]
  exact if_pos haccepts

/-! ## What the verifiers read -/

lemma audienceOr_ne (audience : Option String) : codec.audienceOr audience ≠ "" := by
  unfold JwtTokenCodec.audienceOr
  split
  · exact codec.defaultAudience_ne
  · split
    · exact codec.defaultAudience_ne
    · assumption

lemma optionalStringClaim_of_lookup {payload : Payload} {name : String} {s : Option String}
    (h : payload.lookup name = some (optionalValue s)) :
    optionalStringClaim payload name = .ok s := by
  cases s <;> simp [optionalStringClaim, h, optionalValue]

lemma mapM_roleClaim (roles : List RoleClaim) :
    (roles.map fun role => Value.dict
      [("serviceKey", .str role.serviceKey), ("name", .str role.name)]).mapM roleClaim =
      .ok roles := by
  induction roles with
  | nil => rfl
  | cons role roles ih =>
    rw [List.map_cons, List.mapM_cons, ih]
    simp [roleClaim, keysAre, List.lookup, bind, Except.bind, pure, Except.pure]

lemma accessClaims_accessPayload {identity : AccessTokenIdentity} {audience : Option String}
    {issuedAt expiresAt : DateTime} {claims : AccessTokenClaims} :
    JwtTokenCodec.accessClaims (codec.accessPayload identity audience issuedAt expiresAt) =
      .ok claims ↔
      identity.userId ≠ "" ∧
        claims = ⟨identity, codec.audienceOr audience, issuedAt, expiresAt⟩ := by
  have hemail : optionalStringClaim (codec.accessPayload identity audience issuedAt expiresAt)
      "email" = .ok identity.email :=
    optionalStringClaim_of_lookup (by simp [JwtTokenCodec.accessPayload, List.lookup])
  have hname : optionalStringClaim (codec.accessPayload identity audience issuedAt expiresAt)
      "name" = .ok identity.name :=
    optionalStringClaim_of_lookup (by simp [JwtTokenCodec.accessPayload, List.lookup])
  have hroles : rolesClaim (codec.accessPayload identity audience issuedAt expiresAt) =
      .ok identity.roles := by
    simpa [rolesClaim, JwtTokenCodec.accessPayload, List.lookup] using mapM_roleClaim identity.roles
  simp only [JwtTokenCodec.accessClaims, hemail, hname, hroles]
  by_cases hid : identity.userId = ""
  · simp [JwtTokenCodec.accessPayload, List.lookup, stringClaim, hid, audienceOr_ne, bind,
      Except.bind, pure, Except.pure]
  · simp [JwtTokenCodec.accessPayload, List.lookup, stringClaim, integerClaim, hid, audienceOr_ne,
      bind, Except.bind, pure, Except.pure]
    exact eq_comm

lemma hexDigit_of_lt {n : ℕ} (h : n < 16) :
    (('0' ≤ n.digitChar && n.digitChar ≤ '9') || ('a' ≤ n.digitChar && n.digitChar ≤ 'f')) =
      true := by
  interval_cases n <;> decide

lemma isRefreshTokenId_tokenHex (random : List.Vector UInt8 32) :
    isRefreshTokenId (tokenHex random.toList) = true := by
  have hlength : (random.toList.flatMap fun b =>
      [Nat.digitChar (b.toNat / 16), Nat.digitChar (b.toNat % 16)]).length = 64 := by
    rw [List.length_flatMap]
    simp only [List.length_cons, List.length_nil, List.map_const', List.sum_replicate,
      List.Vector.toList_length]
    rfl
  simp only [isRefreshTokenId, tokenHex, String.toList_ofList, hlength, decide_true, Bool.true_and,
    List.all_eq_true, List.mem_flatMap]
  rintro c ⟨b, -, hc⟩
  have hb : b.toNat < 256 := b.toNat_lt
  simp only [List.mem_cons, List.not_mem_nil, or_false] at hc
  obtain rfl | rfl := hc
  · exact hexDigit_of_lt (by omega)
  · exact hexDigit_of_lt (by omega)

lemma refreshClaims_refreshPayload {userId : String} {requested audience : Option String}
    {random : List.Vector UInt8 32} {issuedAt expiresAt : DateTime} {claims : RefreshTokenClaims} :
    codec.refreshClaims audience (codec.refreshPayload userId requested (tokenHex random.toList)
      issuedAt expiresAt) = .ok claims ↔
      userId ≠ "" ∧ (∀ a ∈ audience, a = codec.audienceOr requested) ∧
        claims = ⟨userId, tokenHex random.toList, codec.audienceOr requested, issuedAt,
          expiresAt⟩ := by
  have htokenId := isRefreshTokenId_tokenHex random
  have hne : tokenHex random.toList ≠ "" := by
    intro h
    simp [h, isRefreshTokenId] at htokenId
  simp only [JwtTokenCodec.refreshClaims, JwtTokenCodec.refreshPayload]
  by_cases haudience : ∀ a ∈ audience, a = codec.audienceOr requested
  · have hmatch : audience.any (fun a => !decide (codec.audienceOr requested = a)) = false := by
      rw [Option.any_eq_false]
      exact fun a ha => by simp [haudience a ha]
    by_cases hid : userId = ""
    · simp [List.lookup, stringClaim, hne, htokenId, audienceOr_ne, hmatch, hid, bind, Except.bind]
    · simp [List.lookup, stringClaim, integerClaim, hne, htokenId, audienceOr_ne, hmatch, hid, bind,
        Except.bind, pure, Except.pure]
      exact ⟨fun h => ⟨haudience, h.symm⟩, fun h => h.2.symm⟩
  · obtain ⟨a, rfl, ha⟩ : ∃ a, audience = some a ∧ a ≠ codec.audienceOr requested := by
      simpa using haudience
    simp [List.lookup, stringClaim, hne, htokenId, audienceOr_ne, ha.symm, ha, bind,
      Except.bind, throw, throwThe, MonadExceptOf.throw]

/-! ## Which tokens are accepted -/

lemma accessOptions_accepts {requested audience : Option String} {identity : AccessTokenIdentity}
    {issuedAt expiresAt : DateTime} {now : ℚ} :
    (codec.accessOptions audience).accepts now
      (codec.accessPayload identity requested issuedAt expiresAt) ↔
      codec.audienceOr requested = codec.audienceOr audience ∧
        (issuedAt.timestamp : ℚ) ≤ now ∧ now < expiresAt.timestamp := by
  simp [JwtOptions.accepts, JwtTokenCodec.accessOptions, JwtTokenCodec.accessPayload, List.lookup,
    audienceOr_ne]
  tauto

lemma adminOptions_accepts {requested : Option String} {identity : AccessTokenIdentity}
    {issuedAt expiresAt : DateTime} {now : ℚ} :
    codec.adminOptions.accepts now
      (codec.accessPayload identity requested issuedAt expiresAt) ↔
      codec.audienceOr requested = codec.defaultAudience ∧ now < expiresAt.timestamp := by
  simp [JwtOptions.accepts, JwtTokenCodec.adminOptions, JwtTokenCodec.accessPayload, List.lookup,
    codec.defaultAudience_ne]
  tauto

lemma refreshOptions_accepts {userId tokenId : String} {requested : Option String}
    {issuedAt expiresAt : DateTime} {now : ℚ} :
    JwtTokenCodec.refreshOptions.accepts now
      (codec.refreshPayload userId requested tokenId issuedAt expiresAt) ↔
      (issuedAt.timestamp : ℚ) ≤ now ∧ now < expiresAt.timestamp := by
  simp [JwtOptions.accepts, JwtTokenCodec.refreshOptions, JwtTokenCodec.refreshPayload, List.lookup]
  tauto

/-- An ID token has no type. -/
lemma idTokenPayload_type (claims : OidcIdTokenClaims) (issuedAt expiresAt : DateTime) :
    (idTokenPayload claims issuedAt expiresAt).lookup "type" = none := by
  cases hname : claims.name <;> cases hnonce : claims.nonce <;>
    simp [idTokenPayload, hname, hnonce, List.lookup]

lemma invalidToken_ok {α : Type} {r : Except TokenError α} {a : α} :
    invalidToken r = .ok a ↔ r = .ok a := by
  cases r <;> simp [invalidToken]

lemma invalidToken_error {α : Type} {r : Except TokenError α} (h : ∀ a, r ≠ .ok a) :
    invalidToken r = .error .tokenValidation := by
  cases r with
  | error e => rfl
  | ok a => exact absurd rfl (h a)

lemma decode_bind_ok {α : Type} {token : Token} {key : Key} {options : JwtOptions} {now : ℚ}
    {f : Payload → Except TokenError α} {a : α} :
    (do let payload ← JwtTokenCodec.decode jwt token key options now; f payload) = .ok a ↔
      ∃ payload, jwt.decode token key options now = some payload ∧ f payload = .ok a := by
  unfold JwtTokenCodec.decode
  cases h : jwt.decode token key options now <;> simp [bind, Except.bind]

section

variable {minted : Set Mint} {token : Token} {now : ℚ}

/-- An access token that is minted for the audience, and only that, is accepted as such. -/
lemma verifyAccessToken_ok_iff (documented : jwt.Documented (signed codec minted))
    (ideal : jwt.Ideal (signed codec minted)) {audience : Option String}
    {claims : AccessTokenClaims} :
    codec.verifyAccessToken token audience now = .ok claims ↔
      ∃ identity requested issuedAt expiresAt, .access identity requested issuedAt ∈ minted ∧
        codec.issueAccessToken identity requested issuedAt = .ok token ∧
        issuedAt.addSeconds codec.accessExpiresInSeconds = .ok expiresAt ∧
        codec.audienceOr requested = codec.audienceOr audience ∧
        (issuedAt.timestamp : ℚ) ≤ now ∧ now < expiresAt.timestamp ∧ identity.userId ≠ "" ∧
        claims = ⟨identity, codec.audienceOr audience, issuedAt, expiresAt⟩ := by
  rw [JwtTokenCodec.verifyAccessToken, invalidToken_ok, decode_bind_ok]
  constructor
  · rintro ⟨payload, hdecode, hclaims⟩
    obtain ⟨mint, hmint, signing, hsigning, halgorithm, rfl, rfl, haccepts⟩ :=
      decode_minted codec documented ideal hdecode
    obtain ⟨identity, requested, issuedAt, expiresAt, rfl, hexpires, rfl⟩ |
      ⟨userId, requested, random, issuedAt, expiresAt, rfl, hexpires, rfl⟩ |
      ⟨claims', issuedAt, expiresAt, rfl⟩ := Mint.signing_cases codec hsigning
    · rw [accessOptions_accepts] at haccepts
      rw [accessClaims_accessPayload, haccepts.1] at hclaims
      exact ⟨identity, requested, issuedAt, expiresAt, hmint,
        (issueAccessToken_ok_iff codec).mpr ⟨_, hsigning, rfl⟩, hexpires, haccepts.1,
        haccepts.2.1, haccepts.2.2, hclaims.1, hclaims.2⟩
    · cases halgorithm
    · simp [JwtTokenCodec.accessClaims, idTokenPayload_type, bind, Except.bind, throw, throwThe,
        MonadExceptOf.throw] at hclaims
  · rintro ⟨identity, requested, issuedAt, expiresAt, hmint, hissue, hexpires, haudience, hiat,
      hexp, hid, rfl⟩
    obtain ⟨signing, hsigning, rfl⟩ := (issueAccessToken_ok_iff codec).mp hissue
    obtain ⟨expiresAt', hexpires', rfl⟩ := (accessSigning_ok_iff codec).mp hsigning
    obtain rfl := Except.ok.inj (hexpires'.symm.trans hexpires)
    refine ⟨_, decode_encode codec documented hmint hsigning codec.access_pairs rfl
      ((accessOptions_accepts codec).mpr ⟨haudience, hiat, hexp⟩), ?_⟩
    rw [accessClaims_accessPayload, haudience]
    exact ⟨hid, rfl⟩

/-- A refresh token is accepted when it was minted as one, for the audience that is asked for. -/
lemma verifyRefreshToken_ok_iff (documented : jwt.Documented (signed codec minted))
    (ideal : jwt.Ideal (signed codec minted)) (sha256Token : Token → String)
    {audience : Option String} {claims : RefreshTokenClaims} :
    codec.verifyRefreshToken token audience now = .ok claims ↔
      ∃ userId requested random issuedAt issued,
        .refresh userId requested random issuedAt ∈ minted ∧
        codec.issueRefreshToken sha256Token userId requested random issuedAt = .ok issued ∧
        issued.token = token ∧ (∀ a ∈ audience, a = codec.audienceOr requested) ∧
        (issuedAt.timestamp : ℚ) ≤ now ∧ now < issued.expiresAt.timestamp ∧ userId ≠ "" ∧
        claims = ⟨userId, issued.tokenId, codec.audienceOr requested, issuedAt,
          issued.expiresAt⟩ := by
  rw [JwtTokenCodec.verifyRefreshToken, invalidToken_ok, decode_bind_ok]
  constructor
  · rintro ⟨payload, hdecode, hclaims⟩
    obtain ⟨mint, hmint, signing, hsigning, halgorithm, rfl, rfl, haccepts⟩ :=
      decode_minted codec documented ideal hdecode
    obtain ⟨identity, requested, issuedAt, expiresAt, rfl, hexpires, rfl⟩ |
      ⟨userId, requested, random, issuedAt, expiresAt, rfl, hexpires, rfl⟩ |
      ⟨claims', issuedAt, expiresAt, rfl⟩ := Mint.signing_cases codec hsigning
    · cases halgorithm
    · rw [refreshOptions_accepts] at haccepts
      rw [refreshClaims_refreshPayload] at hclaims
      exact ⟨userId, requested, random, issuedAt, _, hmint,
        (issueRefreshToken_ok_iff codec).mpr ⟨expiresAt, _, hexpires, hsigning, rfl⟩, rfl,
        hclaims.2.1, haccepts.1, haccepts.2, hclaims.1, hclaims.2.2⟩
    · cases halgorithm
  · rintro ⟨userId, requested, random, issuedAt, issued, hmint, hissue, rfl, haudience, hiat, hexp,
      hid, rfl⟩
    obtain ⟨expiresAt, signing, hexpires, hsigning, rfl⟩ :=
      (issueRefreshToken_ok_iff codec).mp hissue
    obtain ⟨expiresAt', hexpires', rfl⟩ := (refreshSigning_ok_iff codec).mp hsigning
    obtain rfl := Except.ok.inj (hexpires'.symm.trans hexpires)
    refine ⟨_, decode_encode codec documented hmint hsigning codec.refresh_pairs rfl
      ((refreshOptions_accepts codec).mpr ⟨hiat, hexp⟩), ?_⟩
    exact (refreshClaims_refreshPayload codec).mpr ⟨hid, haudience, rfl⟩

/-- The admin routes accept access tokens of the default audience. -/
lemma verifyAdminAccessSubject_ok_iff (documented : jwt.Documented (signed codec minted))
    (ideal : jwt.Ideal (signed codec minted)) {subject : String} :
    codec.verifyAdminAccessSubject token now = .ok subject ↔
      ∃ identity requested issuedAt expiresAt, .access identity requested issuedAt ∈ minted ∧
        codec.issueAccessToken identity requested issuedAt = .ok token ∧
        issuedAt.addSeconds codec.accessExpiresInSeconds = .ok expiresAt ∧
        codec.audienceOr requested = codec.defaultAudience ∧ now < expiresAt.timestamp ∧
        subject = identity.userId := by
  rw [JwtTokenCodec.verifyAdminAccessSubject, decode_bind_ok]
  constructor
  · rintro ⟨payload, hdecode, hsubject⟩
    obtain ⟨mint, hmint, signing, hsigning, halgorithm, rfl, rfl, haccepts⟩ :=
      decode_minted codec documented ideal hdecode
    obtain ⟨identity, requested, issuedAt, expiresAt, rfl, hexpires, rfl⟩ |
      ⟨userId, requested, random, issuedAt, expiresAt, rfl, hexpires, rfl⟩ |
      ⟨claims', issuedAt, expiresAt, rfl⟩ := Mint.signing_cases codec hsigning
    · rw [adminOptions_accepts] at haccepts
      simp [JwtTokenCodec.accessPayload, List.lookup, pure, Except.pure] at hsubject
      exact ⟨identity, requested, issuedAt, expiresAt, hmint,
        (issueAccessToken_ok_iff codec).mpr ⟨_, hsigning, rfl⟩, hexpires, haccepts.1, haccepts.2,
        hsubject.symm⟩
    · cases halgorithm
    · simp only [idTokenPayload_type] at hsubject
      split at hsubject <;> simp [throw, throwThe, MonadExceptOf.throw] at hsubject
  · rintro ⟨identity, requested, issuedAt, expiresAt, hmint, hissue, hexpires, haudience, hexp, rfl⟩
    obtain ⟨signing, hsigning, rfl⟩ := (issueAccessToken_ok_iff codec).mp hissue
    obtain ⟨expiresAt', hexpires', rfl⟩ := (accessSigning_ok_iff codec).mp hsigning
    obtain rfl := Except.ok.inj (hexpires'.symm.trans hexpires)
    refine ⟨_, decode_encode codec documented hmint hsigning codec.access_pairs rfl
      ((adminOptions_accepts codec).mpr ⟨haudience, hexp⟩), ?_⟩
    simp [JwtTokenCodec.accessPayload, List.lookup, pure, Except.pure]

/-- No verifier takes an ID token. -/
lemma idToken_rejected (documented : jwt.Documented (signed codec minted)) {provider : OidcProvider}
    {expiresInSeconds : ℤ} {identity : OidcIdTokenIdentity} {clientId : String}
    {nonce : Option String} {issuedAt : DateTime} {signing : Signing Key}
    (hmint : .idToken provider expiresInSeconds identity clientId nonce issuedAt ∈ minted)
    (h : idTokenSigning codec provider expiresInSeconds identity clientId nonce issuedAt =
      .ok signing) :
    (∀ audience, codec.verifyAccessToken (jwt.encode signing) audience now =
      .error .tokenValidation) ∧
    (∀ subject, codec.verifyAdminAccessSubject (jwt.encode signing) now ≠ .ok subject) ∧
    ∀ audience, codec.verifyRefreshToken (jwt.encode signing) audience now =
      .error .tokenValidation := by
  have hsigned : signing ∈ signed codec minted := ⟨_, hmint, h⟩
  obtain ⟨hregistered, hplain⟩ := @Mint.sound _ _ _ codec (.idToken ..) _ h
  obtain ⟨claims, issuedAt', expiresAt, rfl⟩ := idTokenSigning_payload codec h
  have hpayload : ∀ {options payload}, options.algorithm = .rs256 →
      jwt.decode (jwt.encode ⟨idTokenPayload claims issuedAt' expiresAt, codec.accessPrivateKey,
        .rs256, some codec.accessKeyId⟩) codec.accessPublicKey options now = some payload →
      payload.lookup "type" = none := by
    intro options payload halgorithm hdecode
    rw [documented.decode_encode _ hsigned _ _ _ codec.access_pairs halgorithm.symm hregistered
      hplain]
      at hdecode
    split at hdecode
    · obtain rfl := Option.some.inj hdecode
      exact idTokenPayload_type claims issuedAt' expiresAt
    · cases hdecode
  refine ⟨?_, ?_, ?_⟩
  · intro audience
    refine invalidToken_error fun accepted haccepted => ?_
    obtain ⟨payload, hdecode, hclaims⟩ := decode_bind_ok.mp haccepted
    simp [JwtTokenCodec.accessClaims, hpayload rfl hdecode, bind, Except.bind, throw, throwThe,
      MonadExceptOf.throw] at hclaims
  · intro subject hsubject
    obtain ⟨payload, hdecode, hread⟩ := decode_bind_ok.mp hsubject
    simp only [hpayload rfl hdecode] at hread
    split at hread <;> simp [throw, throwThe, MonadExceptOf.throw] at hread
  · intro audience
    refine invalidToken_error fun accepted haccepted => ?_
    obtain ⟨payload, hdecode, -⟩ := decode_bind_ok.mp haccepted
    rw [documented.decode_otherAlgorithm _ hsigned _ _ _ (by simp [JwtTokenCodec.refreshOptions])]
      at hdecode
    cases hdecode

end

/-- Access, refresh and ID tokens do not stand in for one another: each verifier accepts what
its own function has issued, for the audience and the time, and reads back what was put in. -/
theorem tokenKinds_apart {minted : Set Mint} (documented : jwt.Documented (signed codec minted))
    (ideal : jwt.Ideal (signed codec minted)) (sha256Token : Token → String) (token : Token)
    (now : ℚ) :
    (∀ audience claims, codec.verifyAccessToken token audience now = .ok claims ↔
      ∃ identity requested issuedAt expiresAt, .access identity requested issuedAt ∈ minted ∧
        codec.issueAccessToken identity requested issuedAt = .ok token ∧
        issuedAt.addSeconds codec.accessExpiresInSeconds = .ok expiresAt ∧
        codec.audienceOr requested = codec.audienceOr audience ∧
        (issuedAt.timestamp : ℚ) ≤ now ∧ now < expiresAt.timestamp ∧ identity.userId ≠ "" ∧
        claims = ⟨identity, codec.audienceOr audience, issuedAt, expiresAt⟩) ∧
    (∀ audience claims, codec.verifyRefreshToken token audience now = .ok claims ↔
      ∃ userId requested random issuedAt issued,
        .refresh userId requested random issuedAt ∈ minted ∧
        codec.issueRefreshToken sha256Token userId requested random issuedAt = .ok issued ∧
        issued.token = token ∧ (∀ a ∈ audience, a = codec.audienceOr requested) ∧
        (issuedAt.timestamp : ℚ) ≤ now ∧ now < issued.expiresAt.timestamp ∧ userId ≠ "" ∧
        claims = ⟨userId, issued.tokenId, codec.audienceOr requested, issuedAt,
          issued.expiresAt⟩) ∧
    (∀ subject, codec.verifyAdminAccessSubject token now = .ok subject ↔
      ∃ identity requested issuedAt expiresAt, .access identity requested issuedAt ∈ minted ∧
        codec.issueAccessToken identity requested issuedAt = .ok token ∧
        issuedAt.addSeconds codec.accessExpiresInSeconds = .ok expiresAt ∧
        codec.audienceOr requested = codec.defaultAudience ∧ now < expiresAt.timestamp ∧
        subject = identity.userId) ∧
    (∀ provider expiresInSeconds identity clientId nonce issuedAt signing,
      .idToken provider expiresInSeconds identity clientId nonce issuedAt ∈ minted →
      idTokenSigning codec provider expiresInSeconds identity clientId nonce issuedAt =
        .ok signing → token = jwt.encode signing →
      (∀ audience, codec.verifyAccessToken token audience now = .error .tokenValidation) ∧
      (∀ subject, codec.verifyAdminAccessSubject token now ≠ .ok subject) ∧
      ∀ audience, codec.verifyRefreshToken token audience now = .error .tokenValidation) := by
  refine ⟨?_, ?_, ?_, ?_⟩
  · exact fun audience claims => verifyAccessToken_ok_iff codec documented ideal
  · exact fun audience claims => verifyRefreshToken_ok_iff codec documented ideal sha256Token
  · exact fun subject => verifyAdminAccessSubject_ok_iff codec documented ideal
  · rintro provider expiresInSeconds identity clientId nonce issuedAt signing hmint h rfl
    exact idToken_rejected codec documented hmint h

open Classical in
/-- A library whose tokens are what has been signed; the public key follows the private one. -/
noncomputable def ledgerJwt (signed : Set (Signing ℕ)) : Jwt (Signing ℕ) ℕ where
  encode signing := signing
  decode token key options now :=
    if token ∈ signed ∧ token.algorithm = options.algorithm ∧
        key = (if token.algorithm = .rs256 then token.key + 1 else token.key) ∧
        options.accepts now token.payload then some token.payload
    else none
  pairs algorithm signing verifying :=
    verifying = if algorithm = .rs256 then signing + 1 else signing

lemma ledgerJwt_documented (signed : Set (Signing ℕ)) : (ledgerJwt signed).Documented signed where
  decode_encode := by
    intro signing hsigned key options now hpairs halgorithm _ _
    have hkey : key = if signing.algorithm = .rs256 then signing.key + 1 else signing.key := hpairs
    simp [ledgerJwt, hsigned, halgorithm, hkey]
  decode_otherAlgorithm := by
    intro signing hsigned key options now hne
    simp [ledgerJwt, hne]

lemma ledgerJwt_ideal (signed : Set (Signing ℕ)) : (ledgerJwt signed).Ideal signed := by
  intro token key options now payload h
  simp only [ledgerJwt, Option.ite_none_right_eq_some] at h
  exact ⟨token, h.1.1, h.1.2.2.1, h.1.2.1, rfl⟩

def ledgerCodec (signed : Set (Signing ℕ)) : JwtTokenCodec (ledgerJwt signed) where
  accessPrivateKey := 1
  accessPublicKey := 2
  accessKeyId := "access-key"
  issuer := "https://auth.example"
  defaultAudience := "temis"
  accessExpiresInSeconds := 900
  refreshSecret := 7
  refreshExpiresInDays := 30
  access_pairs := rfl
  refresh_pairs := rfl
  defaultAudience_ne := by decide

def minutes (n : ℕ) (h : inDateRange (60 * n) := by decide) : DateTime := ⟨60 * n, h⟩

def aliceIdentity : AccessTokenIdentity :=
  ⟨"u0", some "alice@example.com", none, true, [⟨"temis", "user"⟩]⟩

/-- One access token for the default audience. -/
def aliceMint : Set Mint := {.access aliceIdentity none (minutes 0)}

def aliceSigned : Set (Signing ℕ) := signed (ledgerCodec ∅) aliceMint

theorem aliceToken_reads_back :
    ∃ token, (ledgerCodec aliceSigned).issueAccessToken aliceIdentity none (minutes 0) =
        .ok token ∧
      (ledgerCodec aliceSigned).verifyAccessToken token (some "temis") 600 =
        .ok ⟨aliceIdentity, "temis", minutes 0, minutes 15⟩ := by
  have hissue : ∃ token, (ledgerCodec aliceSigned).issueAccessToken aliceIdentity none
      (minutes 0) = .ok token := ⟨_, rfl⟩
  obtain ⟨token, hissue⟩ := hissue
  have hkinds := @tokenKinds_apart _ _ _ (ledgerCodec aliceSigned) aliceMint
    (ledgerJwt_documented aliceSigned) (ledgerJwt_ideal aliceSigned) (fun _ => "") token 600
  refine ⟨token, hissue, (hkinds.1 (some "temis") _).mpr ⟨aliceIdentity, none, minutes 0,
    minutes 15, rfl, hissue, rfl, rfl, ?_, ?_, by decide, rfl⟩⟩
  · simp [minutes]
  · simp [minutes]
    norm_num

end WiseacctSso.JwtTokens
