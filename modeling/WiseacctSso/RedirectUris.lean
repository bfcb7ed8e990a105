import WiseacctSso.DotSegments
import WiseacctSso.HostNumbers
import WiseacctSso.UrlSplitting

/-!
# Redirect URIs of the relying clients

A client's redirect URIs are brought into a canonical form when the configuration is loaded. A
login sends the browser back to one of them with a code, and with the state the client gave.
-/
open PythonText
namespace WiseacctSso.RedirectUris
open FormEncoding UrlSplitting UrlPath

/-- What the configuration takes from the Unicode tables and from `ipaddress`. -/
structure HostLibrary extends NetlocRules where
  nfc : Text → Text
  lower : Text → Text
  punycode : Text → Text
  /-- `IPv6Address(..).compressed`. -/
  ipv6 : Text → Option Text

def http : Text := ['h', 't', 't', 'p']

def https : Text := ['h', 't', 't', 'p', 's']

/-- `quote`. -/
def quote (safe text : Text) : Text :=
  (utf8 (.ofList text)).flatMap fun b =>
    if alwaysSafe b || (b.toNat < 128 && asciiChar b ∈ safe) then [asciiChar b]
    else (escape b).map asciiChar

/-! ## The properties of a network location -/

/-- The host and the text of the port. -/
def hostinfo (netloc : Text) : Text × Text :=
  let info := afterLast '@' netloc
  if '[' ∈ info then
    (before ']' (after '[' info), after ':' (after ']' (after '[' info)))
  else (before ':' info, after ':' info)

/-- Without a port, `some none`; none is a `ValueError`. -/
def port (netloc : Text) : Option (Option ℕ) :=
  let digits := (hostinfo netloc).2
  if digits = [] then some none
  else if digits.all Char.isDigit then
    let n := digits.foldl (fun n c => 10 * n + (c.toNat - 48)) 0
    if n ≤ 65535 then some (some n) else none
  else none

def hostname (lib : HostLibrary) (netloc : Text) : Option Text :=
  let name := (hostinfo netloc).1
  if name = [] then none
  else some (lib.lower (before '%' name) ++ if '%' ∈ name then '%' :: after '%' name else [])

def username (netloc : Text) : Option Text :=
  if '@' ∈ netloc then some (before ':' (beforeLast '@' netloc)) else none

def password (netloc : Text) : Option Text :=
  if '@' ∈ netloc ∧ ':' ∈ beforeLast '@' netloc then some (after ':' (beforeLast '@' netloc))
  else none

/-! ## The special schemes' inputs -/

def stripped (value : Text) : Text :=
  let edge : Char → Bool := fun c => c ∈ ['\t', '\n', '\r', ' ']
  ((value.dropWhile edge).reverse.dropWhile edge).reverse

/-- `(?i)^(https?):`, with the text behind the colon. The long s matches as well. -/
def matchScheme (text : Text) : Option (Text × Text) :=
  match text with
  | a :: b :: c :: d :: rest =>
    if [a, b, c, d].map Char.toLower = http then
      match rest with
      | ':' :: remainder => some ([a, b, c, d], remainder)
      | s :: ':' :: remainder =>
        if s ∈ ['s', 'S', 'ſ'] then some ([a, b, c, d, s], remainder) else none
      | _ => none
    else none
  | _ => none

def specialHttpUrlInput (value : Text) : Text :=
  match matchScheme (stripped value) with
  | none => stripped value
  | some (scheme, remainder) =>
    let ends : Char → Bool := fun c => c ≠ '?' && c ≠ '#'
    let specialPart := (remainder.takeWhile ends).map fun c => if c = '\\' then '/' else c
    scheme.map Char.toLower ++ ':' :: '/' :: '/' ::
      (specialPart.dropWhile (· = '/') ++ remainder.dropWhile ends)

/-- The text up to the first `://`, with it, and the text behind. -/
def cutAuthority : Text → Option (Text × Text)
  | ':' :: '/' :: '/' :: rest => some ([':', '/', '/'], rest)
  | [] => none
  | c :: rest => (cutAuthority rest).map fun cut => (c :: cut.1, cut.2)

def escapeSpecialUserinfo (value : Text) : Text :=
  match cutAuthority value with
  | none => value
  | some (front, rest) =>
    let authority := rest.takeWhile (!endsNetloc ·)
    if '@' ∈ authority then
      let escaped := (beforeLast '@' authority).flatMap fun c =>
        if c = '[' then ['%', '5', 'B'] else if c = ']' then ['%', '5', 'D'] else [c]
      front ++ escaped ++ '@' :: afterLast '@' authority ++ rest.dropWhile (!endsNetloc ·)
    else value

/-! ## The host -/

/-- The code points of a text. -/
def codePoints (value : Text) : CodePoints := value.map Char.toNat

/-- `str(IPv4Address(..))`. -/
def ipv4Text (address : ℕ) : Text :=
  ['.'].intercalate ([3, 2, 1, 0].map fun i => (address / 256 ^ i % 256).repr.toList)

def isAsciiText (text : Text) : Bool := text.all (·.toNat < 128)

def whatwgDomainToAscii (lib : HostLibrary) (hostname : Text) : Option Text :=
  let mapped := (lib.nfkc hostname).map fun c =>
    if c = '\u3002' ∨ c = '\uff0e' ∨ c = '\uff61' then '.' else c
  let labels := (mapped.splitOn '.').mapM fun label =>
    let normalized := lib.lower (lib.nfc label)
    if '\u200c' ∈ normalized ∨ '\u200d' ∈ normalized then none
    else if isAsciiText normalized then some normalized
    else some (['x', 'n', '-', '-'] ++ lib.punycode normalized)
  labels.map (['.'].intercalate ·)

def isInvalidHostCharacter (c : Char) : Bool :=
  c.toNat ≤ 0x20 || c ∈ ['#', '%', '/', ':', '<', '>', '?', '@', '[', '\\', ']', '^', '|']

/-- None is the `ValueError` of an invalid URL. -/
def canonicalHostname (lib : HostLibrary) (hostname : Text) : Option Text := do
  let hostname ←
    if '%' ∈ hostname then
      if badPercent (utf8 (.ofList hostname)) then none
      else (decodeStrict (percentDecode (utf8 (.ofList hostname)))).map String.toList
    else some hostname
  if ':' ∈ hostname then lib.ipv6 hostname
  else if hostname.any isInvalidHostCharacter then none
  else
    match HostNumbers.whatwgIpv4 (codePoints hostname) with
    | .error _ => none
    | .ok (some address) => some (ipv4Text address)
    | .ok none => whatwgDomainToAscii lib hostname

/-! ## The canonical form -/

/-- `_remove_url_dot_segments`, on the code points of the path. -/
def removeUrlDotSegments (lib : HostLibrary) (path : Text) : Text :=
  let lower segment := codePoints (lib.lower (segment.map Char.ofNat))
  (DotSegments.removeUrlDotSegments lower (codePoints path)).map Char.ofNat

def userinfoSafe : Text := "%!$&'()*+,-._~".toList

def pathSafe : Text := "/%:@!$&'()*+,;=-._~".toList

def querySafe : Text := "/%?:@!$&()*+,;=-._~\\[]|^`\x7b\x7d".toList

def fragmentSafe : Text := "/%?:@!$&'()*+,;=-._~\\[]|^\x7b\x7d".toList

def userinfoText (netloc : Text) : Text :=
  match username netloc with
  | none => []
  | some name =>
    quote userinfoSafe name ++
      (match password netloc with
      | none => []
      | some word => ':' :: quote userinfoSafe word) ++ ['@']

def portSuffix (scheme : Text) (port : Option ℕ) : Text :=
  match port with
  | none => []
  | some n => if n = (if scheme = https then 443 else 80) then [] else ':' :: n.repr.toList

/-- `_canonical_redirect_uri`; none is the `ValueError` of an invalid URL. -/
def canonicalRedirectUri (lib : HostLibrary) (value : Text) : Option Text := do
  let specialInput := escapeSpecialUserinfo (specialHttpUrlInput value)
  let parsed ← urlsplit lib.toNetlocRules specialInput
  let port ← port parsed.netloc
  let hostname ← hostname lib parsed.netloc
  if parsed.scheme ∉ [http, https] then none
  else
    let host ← canonicalHostname lib hostname
    let host := if ':' ∈ host then '[' :: host ++ [']'] else host
    let path := if parsed.path = [] then ['/'] else parsed.path
    let queryMarker := if '?' ∈ before '#' specialInput then ['?'] else []
    let fragmentMarker := if '#' ∈ specialInput then ['#'] else []
    some (parsed.scheme ++ ':' :: '/' :: '/' :: (userinfoText parsed.netloc ++ host ++
      portSuffix parsed.scheme port ++ quote pathSafe (removeUrlDotSegments lib path) ++
      queryMarker ++ quote querySafe parsed.query ++ fragmentMarker ++
      quote fragmentSafe parsed.fragment))

end WiseacctSso.RedirectUris
