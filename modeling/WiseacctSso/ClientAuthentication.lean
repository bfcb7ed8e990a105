import WiseacctSso.OidcParsing
import WiseacctSso.Base64

/-!
# Client authentication

A client names itself and its secret in the form or in a Basic authorization header, never in
both. In the header the two are form encoded, joined by a colon and written in base64.
-/
open PythonText
namespace WiseacctSso.OidcParsing
open FormEncoding

structure ClientCredentials where
  clientId : String
  clientSecret : String
  method : String
  deriving DecidableEq

/-- `_TOKEN.fullmatch`. -/
def isToken (s : String) : Bool :=
  s ≠ "" && s.toList.all fun c => 0x21 ≤ c.toNat && c.toNat ≤ 0x7e

/-- A header's value is Latin-1 text, kept as its bytes. -/
abbrev HeaderText := List UInt8

/-- `str.isspace` in Latin-1. -/
def isSpace (c : UInt8) : Bool :=
  (9 ≤ c.toNat && c.toNat ≤ 13) || (28 ≤ c.toNat && c.toNat ≤ 32) || c = 0x85 || c = 0xA0

/-- `str.lower` in Latin-1. -/
def lower (c : UInt8) : UInt8 :=
  if (65 ≤ c.toNat ∧ c.toNat ≤ 90) ∨ (192 ≤ c.toNat ∧ c.toNat ≤ 222 ∧ c ≠ 215) then c + 32 else c

def decodeComponent (value : String) : Except RequestError String :=
  if badPercent (utf8 value) then .error (.parse "invalid client authorization")
  else
    match decodeText (unquotePlus (utf8 value)) with
    | .ok text => .ok text
    | .error _ => .error (.parse "invalid client authorization")

def invalidAuthorization : RequestError := .clientAuthentication "invalid client authorization"

/-- The checks on a pair, which both methods make. -/
def acceptable (clientId clientSecret : String) : Bool :=
  clientId ≠ "" && clientId.length ≤ 128 && clientSecret ≠ "" && clientSecret.length ≤ 1024 &&
    isToken clientId

/-- What the decoded header says. -/
def basicPair (decoded : String) : Except RequestError ClientCredentials :=
  if ':' ∉ decoded.toList then .error invalidAuthorization
  else
    match decodeComponent (.ofList (before ':' decoded.toList)),
      decodeComponent (.ofList (after ':' decoded.toList)) with
    | .ok clientId, .ok clientSecret =>
      if acceptable clientId clientSecret then .ok ⟨clientId, clientSecret, "client_secret_basic"⟩
      else .error invalidAuthorization
    | _, _ => .error invalidAuthorization

def basicCredentials (value : HeaderText) : Except RequestError ClientCredentials :=
  let scheme := before 32 value
  let encoded := after 32 value
  if 32 ∉ value ∨ scheme.map lower ≠ utf8 "basic" ∨ encoded = [] ∨ 4096 < encoded.length ∨
      encoded.any isSpace then .error invalidAuthorization
  else if encoded.any (128 ≤ ·.toNat) then
    .error (.value "string argument should contain only ASCII characters")
  else
    match Base64.decodeStrict encoded with
    | none => .error invalidAuthorization
    | some bytes =>
      match decodeText bytes with
      | .error _ => .error invalidAuthorization
      | .ok decoded => basicPair decoded

def postCredentials (bodyClientId bodySecret : Option String) :
    Except RequestError ClientCredentials :=
  match bodyClientId, bodySecret with
  | some clientId, some clientSecret =>
    if clientId = "" ∨ clientSecret = "" then
      .error (.clientAuthentication "missing client authentication")
    else if acceptable clientId clientSecret then
      .ok ⟨clientId, clientSecret, "client_secret_post"⟩
    else .error (.clientAuthentication "invalid client authentication")
  | _, _ => .error (.clientAuthentication "missing client authentication")

def extractClientCredentials (authorizationValues : List HeaderText)
    (form : List (String × String)) : Except RequestError ClientCredentials :=
  let bodyClientId := form.lookup "client_id"
  let bodySecret := form.lookup "client_secret"
  match authorizationValues with
  | [] => postCredentials bodyClientId bodySecret
  | value :: others =>
    if others ≠ [] ∨ bodyClientId ≠ none ∨ bodySecret ≠ none then
      .error (.parse "multiple client authentication methods")
    else basicCredentials value

/-! ## The header a client writes -/

/-- `quote_plus(id):quote_plus(secret)`. -/
def credentialText (clientId clientSecret : String) : List UInt8 :=
  quotePlusEncoder.component clientId ++ 58 :: quotePlusEncoder.component clientSecret

def basicHeader (clientId clientSecret : String) : HeaderText :=
  utf8 "Basic" ++ 32 :: Base64.encode (credentialText clientId clientSecret)

/-! ## What a client writes is read -/

lemma component_ascii (s : String) : ∀ b ∈ quotePlusEncoder.component s, b.toNat < 128 :=
  fun _ hb => (mem_component quotePlusEncoder hb).1

lemma decodeComponent_component (s : String) :
    decodeComponent (.ofList ((quotePlusEncoder.component s).map asciiChar)) = .ok s := by
  have htext : decodeText (utf8 s) = .ok s := decodeText_ok.mpr rfl
  rw [decodeComponent, utf8_ascii (component_ascii s), badPercent_component,
    unquotePlus_component, if_neg (by simp), htext]

lemma colon_not_mem (s : String) : ':' ∉ (quotePlusEncoder.component s).map asciiChar := by
  intro h
  obtain ⟨b, hb, hcolon⟩ := List.mem_map.mp h
  obtain ⟨hascii, hmem⟩ := mem_component quotePlusEncoder hb
  have hb58 : b.toNat = 58 := by
    rw [← asciiChar_toNat hascii, hcolon]
    rfl
  obtain rfl : b = 58 := UInt8.toNat.inj hb58
  exact hmem (by decide)

variable {clientId clientSecret : String}

lemma basicPair_credentialText (h : acceptable clientId clientSecret = true) :
    basicPair (.ofList ((credentialText clientId clientSecret).map asciiChar)) =
      .ok ⟨clientId, clientSecret, "client_secret_basic"⟩ := by
  have hsplit : (credentialText clientId clientSecret).map asciiChar =
      (quotePlusEncoder.component clientId).map asciiChar ++
        ':' :: (quotePlusEncoder.component clientSecret).map asciiChar := by
    rw [credentialText, List.map_append, List.map_cons]
    rfl
  rw [basicPair, String.toList_ofList, hsplit, before_append (colon_not_mem _),
    after_append (colon_not_mem _), if_neg (by simp), decodeComponent_component,
    decodeComponent_component]
  simp only [h, if_true]

lemma credentialText_ascii : ∀ b ∈ credentialText clientId clientSecret, b.toNat < 128 := by
  intro b hb
  rw [credentialText, List.mem_append, List.mem_cons] at hb
  obtain hb | rfl | hb := hb
  · exact component_ascii _ b hb
  · decide
  · exact component_ascii _ b hb

lemma encode_ne_nil {bytes : List UInt8} (h : bytes ≠ []) : Base64.encode bytes ≠ [] := by
  intro hnil
  have hlength := Base64.encode_length bytes
  rw [hnil, List.length_nil] at hlength
  have hpos := List.length_pos_iff.mpr h
  omega

/-- The header's base64 text is short enough, or the header is refused. -/
lemma basicCredentials_basicHeader (h : acceptable clientId clientSecret = true) :
    basicCredentials (basicHeader clientId clientSecret) =
      if (credentialText clientId clientSecret).length ≤ 3072 then
        .ok ⟨clientId, clientSecret, "client_secret_basic"⟩
      else .error invalidAuthorization := by
  set text := credentialText clientId clientSecret with htext
  have hscheme : 32 ∉ utf8 "Basic" := by decide
  have hlength := Base64.encode_length text
  have hnil : Base64.encode text ≠ [] := encode_ne_nil (by rw [htext, credentialText]; simp)
  have hletters : ∀ c ∈ Base64.encode text, 33 ≤ c.toNat ∧ c.toNat < 127 := fun c =>
    Base64.mem_encode
  have hspace : (Base64.encode text).any isSpace = false := by
    rw [List.any_eq_false]
    intro c hc
    obtain ⟨hlow, hhigh⟩ := hletters c hc
    have hne : c ≠ 0x85 ∧ c ≠ 0xA0 := by
      constructor <;> rintro rfl <;> revert hhigh <;> decide
    simp only [isSpace, Bool.or_eq_true, Bool.and_eq_true, decide_eq_true_eq, not_or]
    exact ⟨⟨⟨by omega, by omega⟩, hne.1⟩, hne.2⟩
  have hascii : (Base64.encode text).any (128 ≤ ·.toNat) = false := by
    rw [List.any_eq_false]
    intro c hc
    obtain ⟨-, hhigh⟩ := hletters c hc
    simp only [decide_eq_true_eq]
    omega
  have hlower : (utf8 "Basic").map lower = utf8 "basic" := by decide
  rw [basicCredentials, basicHeader, before_append hscheme, after_append hscheme, ← htext]
  by_cases hshort : text.length ≤ 3072
  · have hdecode : decodeText text = .ok (.ofList (text.map asciiChar)) :=
      decodeText_ok.mpr (utf8_ascii credentialText_ascii).symm
    have hfits : (Base64.encode text).length ≤ 4096 := by omega
    rw [hspace, hlower, if_neg (by simp [hnil, hfits]), hascii, if_neg (by simp),
      Base64.decodeStrict_encode, if_pos hshort]
    dsimp only
    rw [hdecode]
    exact basicPair_credentialText h
  · have hlong : 4096 < (Base64.encode text).length := by omega
    rw [if_pos (.inr (.inr (.inr (.inl hlong)))), if_neg hshort]

lemma postCredentials_acceptable (h : acceptable clientId clientSecret = true) :
    postCredentials (some clientId) (some clientSecret) =
      .ok ⟨clientId, clientSecret, "client_secret_post"⟩ := by
  have hne : ¬ (clientId = "" ∨ clientSecret = "") := by
    simp only [acceptable, Bool.and_eq_true, decide_eq_true_eq] at h
    tauto
  simp only [postCredentials, if_neg hne, h, if_true]

/-- A client's credentials: what the two methods are to accept. -/
structure Credentials (clientId clientSecret : String) : Prop where
  id_length : 1 ≤ clientId.length ∧ clientId.length ≤ 128
  id_letters : ∀ c ∈ clientId.toList, 0x21 ≤ c.toNat ∧ c.toNat ≤ 0x7e
  secret_length : 1 ≤ clientSecret.length ∧ clientSecret.length ≤ 1024

lemma Credentials.acceptable (h : Credentials clientId clientSecret) :
    acceptable clientId clientSecret = true := by
  have hid : clientId ≠ "" := by
    rintro rfl
    simpa using h.id_length.1
  have hsecret : clientSecret ≠ "" := by
    rintro rfl
    simpa using h.secret_length.1
  have hletters : clientId.toList.all (fun c => 0x21 ≤ c.toNat && c.toNat ≤ 0x7e) = true := by
    simpa using h.id_letters
  simp [OidcParsing.acceptable, isToken, hid, hsecret, hletters, h.id_length.2, h.secret_length.2]

/-- In the form, the credentials are always accepted. In the header they are when they come to at
most 3072 bytes there, so that the base64 text has at most 4096; longer ones are refused. -/
theorem extractClientCredentials_methods (h : Credentials clientId clientSecret) :
    (∀ form : List (String × String), form.length ≤ maxFields → (∀ entry ∈ form, entry.1 ≠ "") →
      (form.map Prod.fst).Nodup → (formEncode form).length ≤ maxFormBytes →
      form.lookup "client_id" = some clientId → form.lookup "client_secret" = some clientSecret →
        parseUrlencoded (formEncode form) maxFormBytes = .ok form ∧
        extractClientCredentials [] form = .ok ⟨clientId, clientSecret, "client_secret_post"⟩) ∧
    ∀ form : List (String × String),
      form.lookup "client_id" = none → form.lookup "client_secret" = none →
        extractClientCredentials [basicHeader clientId clientSecret] form =
          if (credentialText clientId clientSecret).length ≤ 3072 then
            .ok ⟨clientId, clientSecret, "client_secret_basic"⟩
          else .error (.clientAuthentication "invalid client authorization") := by
  constructor
  · intro form hlength hnames hnodup hbytes hid hsecret
    refine ⟨parse_formEncode hlength hnames hnodup hbytes, ?_⟩
    rw [extractClientCredentials, hid, hsecret]
    exact postCredentials_acceptable h.acceptable
  · intro form hid hsecret
    rw [extractClientCredentials, hid, hsecret]
    exact basicCredentials_basicHeader h.acceptable

lemma awkward_credentials : Credentials "a:b" "é:+% " where
  id_length := by decide
  id_letters := by simp
  secret_length := by decide

/-- Colons, a plus, a percent sign and a letter outside ASCII. -/
theorem extractClientCredentials_methods_example :
    extractClientCredentials [] [("client_id", "a:b"), ("client_secret", "é:+% ")] =
        .ok ⟨"a:b", "é:+% ", "client_secret_post"⟩ ∧
      extractClientCredentials [basicHeader "a:b" "é:+% "] [] =
        .ok ⟨"a:b", "é:+% ", "client_secret_basic"⟩ := by
  obtain ⟨hpost, hbasic⟩ := extractClientCredentials_methods awkward_credentials
  have hshort : (credentialText "a:b" "é:+% ").length ≤ 3072 := by decide +kernel
  have hread := hbasic [] rfl rfl
  rw [if_pos hshort] at hread
  exact ⟨(hpost [("client_id", "a:b"), ("client_secret", "é:+% ")] (by decide) (by simp) (by simp)
    (by decide +kernel) rfl rfl).2, hread⟩

/-- A secret of percent signs. -/
def percents (n : ℕ) : String := .ofList (List.replicate n '%')

lemma percents_length (n : ℕ) : (percents n).length = n := by
  rw [percents, String.length_ofList, List.length_replicate]

lemma percents_component (n : ℕ) : (quotePlusEncoder.component (percents n)).length = 3 * n := by
  have hbyte : String.utf8EncodeChar '%' = [37] := by decide
  have hescape : quotePlusEncoder.encode 37 = [37, 50, 53] := by decide
  rw [Encoder.component, utf8_eq_flatMap, percents, String.toList_ofList]
  induction n with
  | zero => rfl
  | succ n ih =>
    rw [List.replicate_succ, List.flatMap_cons, hbyte, List.flatMap_append, List.flatMap_singleton,
      hescape, List.length_append, ih, List.length_cons, List.length_cons, List.length_singleton]
    omega

lemma percents_credentials : Credentials "a" (percents 1024) where
  id_length := by decide
  id_letters := by simp
  secret_length := by
    rw [percents_length]
    omega

/-- They fit in the form and not in the header. -/
theorem percents_refused : ¬ ∀ clientId clientSecret : String,
    Credentials clientId clientSecret →
    (formEncode [("client_id", clientId), ("client_secret", clientSecret)]).length ≤ maxFormBytes →
      extractClientCredentials [] [("client_id", clientId), ("client_secret", clientSecret)] =
          .ok ⟨clientId, clientSecret, "client_secret_post"⟩ ∧
        extractClientCredentials [basicHeader clientId clientSecret] [] =
          .ok ⟨clientId, clientSecret, "client_secret_basic"⟩ := by
  intro h
  have hid : (quotePlusEncoder.component "a").length = 1 := by decide
  have hnames : (quotePlusEncoder.component "client_id").length = 9 ∧
      (quotePlusEncoder.component "client_secret").length = 13 := by decide +kernel
  have hfits : (formEncode [("client_id", "a"), ("client_secret", (percents 1024))]).length ≤
      maxFormBytes := by
    simp [formEncode, Encoder.form, Encoder.pair, List.intercalate, hid, hnames,
      percents_component, maxFormBytes]
  have hlong : ¬ (credentialText "a" (percents 1024)).length ≤ 3072 := by
    simp [credentialText, hid, percents_component]
  have haccept := (h "a" (percents 1024) percents_credentials hfits).2
  have hrefuse := basicCredentials_basicHeader percents_credentials.acceptable
  rw [if_neg hlong] at hrefuse
  rw [extractClientCredentials] at haccept
  simp [hrefuse] at haccept

end WiseacctSso.OidcParsing
