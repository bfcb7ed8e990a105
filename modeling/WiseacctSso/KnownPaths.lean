import WiseacctSso.UrlPath

/-!
# Path classification and rewriting

The server decodes the path once. The security headers look at the decoded path, the rate
limiter at the raw one, and the compatibility middleware at both before it rewrites the
path the router sees.
-/
namespace WiseacctSso
open UrlPath

structure HttpRequest where
  method : String
  rawPath : List UInt8

namespace HttpRequest

/-- The raw path as the middlewares decode it. -/
def raw (r : HttpRequest) : CodePoints := surrogateEscape r.rawPath

/-- The path the server puts into the scope. -/
def path (r : HttpRequest) : CodePoints := unquote r.rawPath

end HttpRequest

def publicRoutes : List CodePoints :=
  ["/", "/healthz", "/readyz", "/.well-known/jwks.json", "/.well-known/openid-configuration",
    "/login", "/signup", "/auth/callback", "/password-reset", "/verify-email",
    "/admin/dashboard", "/manage/dashboard", "/auth/register", "/auth/login", "/auth/refresh",
    "/auth/logout", "/auth/exchange", "/auth/password-reset/request",
    "/auth/password-reset/confirm", "/auth/email-verification/request",
    "/auth/email-verification/confirm", "/auth/google", "/auth/google/callback", "/auth/naver",
    "/auth/naver/callback", "/auth/kakao", "/auth/kakao/callback", "/users/me"].map text

def rateLimitedAuthRoutes : List (String × CodePoints) :=
  [("POST", text "/auth/register"), ("POST", text "/auth/login"), ("POST", text "/auth/refresh"),
    ("POST", text "/auth/logout"), ("POST", text "/auth/exchange"),
    ("POST", text "/auth/password-reset/request"), ("POST", text "/auth/password-reset/confirm"),
    ("POST", text "/auth/email-verification/request"),
    ("POST", text "/auth/email-verification/confirm"),
    ("GET", text "/auth/google"), ("HEAD", text "/auth/google"),
    ("GET", text "/auth/google/callback"), ("HEAD", text "/auth/google/callback"),
    ("GET", text "/auth/naver"), ("HEAD", text "/auth/naver"),
    ("GET", text "/auth/naver/callback"), ("HEAD", text "/auth/naver/callback"),
    ("GET", text "/auth/kakao"), ("HEAD", text "/auth/kakao"),
    ("GET", text "/auth/kakao/callback"), ("HEAD", text "/auth/kakao/callback")]

/-- `value[:-1] if len(value) > 1 and value.endswith("/") else value`. -/
def withoutTrailingSlash (value : CodePoints) : CodePoints :=
  if 1 < value.length ∧ value.getLast? = some 47 then value.dropLast else value

/-! ## Administration paths -/

/-- The characters that a letter of a pattern matches under `re.IGNORECASE`. -/
def letterVariants (c : ℕ) : List ℕ :=
  if 97 ≤ c ∧ c ≤ 122 then
    c :: (c - 32) ::
      (if c = 105 then [0x130, 0x131] else if c = 107 then [0x212A]
      else if c = 115 then [0x17F] else [])
  else [c]

def equalIgnoringCase : CodePoints → CodePoints → Bool
  | [], [] => true
  | c :: word, d :: value => (letterVariants c).contains d && equalIgnoringCase word value
  | _, _ => false

def matchesWord (words : List String) (value : CodePoints) : Bool :=
  words.any fun word => equalIgnoringCase (text word) value

/-- The segments between slashes, less one optional slash at the end. -/
def adminSegments (path : CodePoints) : List CodePoints :=
  let segments := path.splitOn 47
  if segments.getLast? = some [] then segments.dropLast else segments

def joinSegments (segments : List CodePoints) : CodePoints := segments.flatMap (47 :: ·)

def adminPrefixes : List String := ["admin", "manage-api"]

/-- The three patterns differ in their number of segments. -/
def canonicalAdminPath (path : CodePoints) : Option CodePoints :=
  match adminSegments path with
  | [[], area, route] =>
      if matchesWord adminPrefixes area && matchesWord ["users", "audit-logs"] route then
        some (joinSegments [asciiLower area, asciiLower route])
      else none
  | [[], area, users, id, route] =>
      if matchesWord adminPrefixes area && matchesWord ["users"] users && id ≠ [] &&
          matchesWord ["status", "roles", "revoke-sessions"] route then
        some (joinSegments [asciiLower area, text "users", id, asciiLower route])
      else none
  | [[], area, users, id, roles, roleId] =>
      if matchesWord adminPrefixes area && matchesWord ["users"] users && id ≠ [] &&
          matchesWord ["roles"] roles && roleId ≠ [] then
        some (joinSegments [asciiLower area, text "users", id, text "roles", roleId])
      else none
  | _ => none

/-! ## The middlewares -/

namespace KnownPathCompatibilityMiddleware

/-- `_CANONICAL_PUBLIC_ROUTES.get`. -/
def canonicalPublicRoute (lowered : CodePoints) : Option CodePoints :=
  publicRoutes.find? fun route => asciiLower route = lowered

def notFoundPath : CodePoints := text "/__encoded_public_path_not_found__"

/-- The path left in the scope; none when the request is answered with a redirect. -/
def rewrite (r : HttpRequest) : Option CodePoints :=
  if asciiLower r.raw = text "/assets" ∧ (r.method = "GET" ∨ r.method = "HEAD") then none
  else
    match canonicalPublicRoute (asciiLower (withoutTrailingSlash r.raw)) with
    | some canonical => some canonical
    | none =>
        match canonicalAdminPath (withoutTrailingSlash r.raw) with
        | some rawAdminPath =>
            some ((canonicalAdminPath (withoutTrailingSlash r.path)).getD rawAdminPath)
        | none =>
            if (text "/assets/").isPrefixOf (asciiLower r.raw) then
              some (text "/assets/" ++ r.path.drop 8)
            else if (canonicalPublicRoute (asciiLower (withoutTrailingSlash r.path))).isSome ∨
                (text "/assets/").isPrefixOf (asciiLower r.path) ∨
                (canonicalAdminPath (withoutTrailingSlash r.path)).isSome then
              some notFoundPath
            else some r.path

end KnownPathCompatibilityMiddleware

namespace AuthRateLimitMiddleware

/-- The request is one the limiter counts. -/
def counts (r : HttpRequest) : Bool :=
  (r.method, asciiLower (withoutTrailingSlash r.raw)) ∈ rateLimitedAuthRoutes

end AuthRateLimitMiddleware

def requiresNoStore (path : CodePoints) : Bool :=
  let candidate := withoutTrailingSlash (asciiLower path)
  if candidate = text "/users/me" then true
  else if (text "/auth/").isPrefixOf candidate then candidate ≠ text "/auth/callback"
  else if (text "/manage-api/").isPrefixOf candidate then true
  else (text "/admin/").isPrefixOf candidate && candidate ≠ text "/admin/dashboard"

/-- The router accepts a path for a literal route when `^route$` matches it, and `$` also
matches before a newline at the end. -/
def routeAccepts (route path : CodePoints) : Bool := path = route || path = route ++ [10]

/-! ## What raw and decoded path have in common -/

section lemmas

variable {r : HttpRequest}

lemma withoutTrailingSlash_prefix (value : CodePoints) : withoutTrailingSlash value <+: value := by
  unfold withoutTrailingSlash
  split
  · exact List.dropLast_prefix value
  · exact List.prefix_refl value

lemma mem_withoutTrailingSlash {value : CodePoints} {c : ℕ} (h : c ∈ value) :
    c ∈ withoutTrailingSlash value ∨ c = 47 := by
  unfold withoutTrailingSlash
  split
  · next hslash =>
    have hne : value ≠ [] := List.ne_nil_of_mem h
    have hlast : value.getLast hne = 47 :=
      Option.some.inj ((List.getLast?_eq_some_getLast hne).symm.trans hslash.2)
    rw [← List.dropLast_append_getLast hne, List.mem_append, hlast] at h
    simpa using h
  · exact .inl h

lemma withoutTrailingSlash_asciiLower (value : CodePoints) :
    withoutTrailingSlash (asciiLower value) = asciiLower (withoutTrailingSlash value) := by
  have hlast : (asciiLower value).getLast? = some 47 ↔ value.getLast? = some 47 := by
    rw [asciiLower, List.getLast?_map, Option.map_eq_some_iff]
    constructor
    · rintro ⟨c, hc, hlower⟩
      rwa [eq_of_asciiLowerChar hlower (by omega)] at hc
    · exact fun h => ⟨47, h, rfl⟩
  simp only [withoutTrailingSlash, hlast]
  split
  · next h =>
    rw [if_pos ⟨by simpa [asciiLower] using h.1, h.2⟩]
    exact List.map_dropLast.symm
  · next h =>
    rw [if_neg fun h' => h ⟨by simpa [asciiLower] using h'.1, h'.2⟩]

/-- The characters a byte must stand for itself to give. -/
def plain (c : ℕ) : Bool := c < 128 && c ≠ 37

lemma plain_of_lower {b : UInt8}
    (h : plain (asciiLowerChar (if b.toNat < 128 then b.toNat else 0xDC00 + b.toNat)) = true) :
    b.toNat < 128 ∧ b ≠ 37 := by
  simp only [plain, Bool.and_eq_true, decide_eq_true_eq, ne_eq] at h
  have hlt := asciiLowerChar_lt h.1
  have hb : b.toNat < 128 := by
    by_contra hge
    rw [if_neg hge] at hlt
    omega
  refine ⟨hb, ?_⟩
  rintro rfl
  exact h.2 (by decide)

/-- What the raw path begins with is not changed by decoding. -/
lemma prefix_path {p : CodePoints} (hp : ∀ c ∈ p, plain c = true) (h : p <+: asciiLower r.raw) :
    p <+: asciiLower r.path := by
  obtain ⟨method, bytes⟩ := r
  simp only [HttpRequest.raw, HttpRequest.path] at h ⊢
  induction p generalizing bytes with
  | nil => exact List.nil_prefix
  | cons c p ih =>
    cases bytes with
    | nil => simp [surrogateEscape] at h
    | cons b rest =>
      rw [surrogateEscape, List.map_cons, asciiLower_cons, List.cons_prefix_cons] at h
      obtain ⟨hascii, hpercent⟩ := plain_of_lower (h.1 ▸ hp c List.mem_cons_self)
      rw [unquote_cons hascii hpercent, asciiLower_cons, List.cons_prefix_cons]
      rw [if_pos hascii] at h
      exact ⟨h.1, ih (fun c' hc' => hp c' (List.mem_cons_of_mem _ hc')) rest h.2⟩

/-- A raw path that spells plain text, up to case and one slash, decodes to itself. -/
lemma path_eq_raw {route : CodePoints} (hroute : ∀ c ∈ route, plain c = true)
    (h : asciiLower (withoutTrailingSlash r.raw) = route) : r.path = r.raw := by
  refine unquote_of_plain fun b hb => plain_of_lower ?_
  have hmem : (if b.toNat < 128 then b.toNat else 0xDC00 + b.toNat) ∈ r.raw :=
    List.mem_map.mpr ⟨b, hb, rfl⟩
  rcases mem_withoutTrailingSlash hmem with hc | hc
  · exact hroute _ (h ▸ List.mem_map.mpr ⟨_, hc, rfl⟩)
  · rw [hc]
    decide

/-! ## Administration paths stay apart -/

/-- The path begins with `/ad` or `/m` in either case. -/
def inAdminArea (path : CodePoints) : Prop :=
  [47, 97, 100] <+: asciiLower path ∨ [47, 109] <+: asciiLower path

instance (path : CodePoints) : Decidable (inAdminArea path) :=
  inferInstanceAs (Decidable (_ ∨ _))

lemma lower_of_equalIgnoringCase {c : ℕ} {word value : CodePoints}
    (hc : ∀ d ∈ letterVariants c, asciiLowerChar d = c)
    (h : equalIgnoringCase (c :: word) value = true) :
    ∃ d rest, value = d :: rest ∧ asciiLowerChar d = c ∧ equalIgnoringCase word rest = true := by
  cases value with
  | nil => simp [equalIgnoringCase] at h
  | cons d rest =>
    simp only [equalIgnoringCase, Bool.and_eq_true, List.contains_iff_mem] at h
    exact ⟨d, rest, rfl, hc d h.1, h.2⟩

lemma area_of_matchesWord {area : CodePoints} (h : matchesWord adminPrefixes area = true) :
    [97, 100] <+: asciiLower area ∨ [109] <+: asciiLower area := by
  have hadmin : text "admin" = [97, 100, 109, 105, 110] := by decide
  have hmanage : text "manage-api" = [109, 97, 110, 97, 103, 101, 45, 97, 112, 105] := by decide
  simp only [matchesWord, adminPrefixes, List.any_cons, List.any_nil, Bool.or_false,
    Bool.or_eq_true, hadmin, hmanage] at h
  rcases h with h | h
  · obtain ⟨a, rest, rfl, ha, hrest⟩ := lower_of_equalIgnoringCase (by decide) h
    obtain ⟨d, rest, rfl, hd, -⟩ := lower_of_equalIgnoringCase (by decide) hrest
    simp [ha, hd]
  · obtain ⟨a, rest, rfl, ha, -⟩ := lower_of_equalIgnoringCase (by decide) h
    simp [ha]

lemma inAdminArea_cons {area : CodePoints} (h : matchesWord adminPrefixes area = true)
    (rest : CodePoints) : inAdminArea (47 :: area ++ rest) := by
  rcases area_of_matchesWord h with h | h
  · exact .inl (by simpa [asciiLowerChar] using h.trans (List.prefix_append _ (asciiLower rest)))
  · exact .inr (by simpa [asciiLowerChar] using h.trans (List.prefix_append _ (asciiLower rest)))

lemma asciiLower_idem (value : CodePoints) : asciiLower (asciiLower value) = asciiLower value := by
  simp only [asciiLower, List.map_map]
  refine List.map_congr_left fun c _ => ?_
  simp only [Function.comp_apply, asciiLowerChar]
  split_ifs <;> omega

lemma inAdminArea_join {area : CodePoints} (h : matchesWord adminPrefixes area = true)
    (segments : List CodePoints) : inAdminArea (joinSegments (asciiLower area :: segments)) := by
  have hjoin := inAdminArea_cons h (joinSegments segments)
  simpa [inAdminArea, joinSegments, asciiLower_idem] using hjoin

/-- The first segment of an administration path is one of the two areas. -/
lemma inAdminArea_of_segments {path area second : CodePoints} {segments : List CodePoints}
    (h : adminSegments path = [] :: area :: second :: segments)
    (harea : matchesWord adminPrefixes area = true) : inAdminArea path := by
  have hsplit : ∃ tail, path.splitOn 47 = [] :: area :: second :: tail := by
    simp only [adminSegments] at h
    split at h
    · next hlast =>
      have hne : path.splitOn 47 ≠ [] := List.ne_nil_of_mem (List.mem_of_getLast? hlast)
      refine ⟨segments ++ [(path.splitOn 47).getLast hne], ?_⟩
      calc path.splitOn 47 = (path.splitOn 47).dropLast ++ [(path.splitOn 47).getLast hne] :=
            (List.dropLast_append_getLast hne).symm
        _ = [] :: area :: second :: (segments ++ [(path.splitOn 47).getLast hne]) := by
            rw [h]
            rfl
    · exact ⟨segments, h⟩
  obtain ⟨tail, hsplit⟩ := hsplit
  have hpath : List.intercalate [47] (path.splitOn 47) = path := List.intercalate_splitOn 47
  rw [hsplit] at hpath
  have hcons : path = 47 :: area ++ 47 :: List.intercalate [47] (second :: tail) := by
    rw [← hpath]
    simp [List.intercalate, List.intersperse]
  rw [hcons]
  exact inAdminArea_cons harea _

lemma inAdminArea_of_canonicalAdminPath {path canonical : CodePoints}
    (h : canonicalAdminPath path = some canonical) : inAdminArea path ∧ inAdminArea canonical := by
  unfold canonicalAdminPath at h
  split at h
  · next area route hsegments =>
    split at h
    · next hmatch =>
      simp only [Bool.and_eq_true] at hmatch
      obtain rfl := Option.some.inj h
      exact ⟨inAdminArea_of_segments hsegments hmatch.1, inAdminArea_join hmatch.1 _⟩
    · simp at h
  · next area users id route hsegments =>
    split at h
    · next hmatch =>
      simp only [Bool.and_eq_true] at hmatch
      obtain rfl := Option.some.inj h
      exact ⟨inAdminArea_of_segments hsegments hmatch.1.1.1, inAdminArea_join hmatch.1.1.1 _⟩
    · simp at h
  · next area users id roles roleId hsegments =>
    split at h
    · next hmatch =>
      simp only [Bool.and_eq_true] at hmatch
      obtain rfl := Option.some.inj h
      exact ⟨inAdminArea_of_segments hsegments hmatch.1.1.1.1, inAdminArea_join hmatch.1.1.1.1 _⟩
    · simp at h
  · simp at h

end lemmas

/-! ## What the router accepts -/

/-- The literal routes of the auth and OAuth routers. -/
def authRoutes : List CodePoints :=
  ["/auth/register", "/auth/login", "/auth/refresh", "/auth/logout", "/auth/exchange",
    "/auth/password-reset/request", "/auth/password-reset/confirm",
    "/auth/email-verification/request", "/auth/email-verification/confirm", "/auth/google",
    "/auth/google/callback", "/auth/naver", "/auth/naver/callback", "/auth/kakao",
    "/auth/kakao/callback"].map text

/-- The routes whose responses are private. -/
def privateRoutes : List CodePoints := text "/users/me" :: authRoutes

/-- The router accepts the request for the route after its path has been rewritten. -/
def reaches (r : HttpRequest) (route : CodePoints) : Prop :=
  ∃ path ∈ KnownPathCompatibilityMiddleware.rewrite r, routeAccepts route path = true

/-- Every rate-limited route the request reaches has counted it. -/
def LimiterCovers (r : HttpRequest) : Prop :=
  ∀ x ∈ rateLimitedAuthRoutes, x.1 = r.method → reaches r x.2 →
    AuthRateLimitMiddleware.counts r = true

/-- Every private route the request reaches answers with no-store. -/
def NoStoreCovers (r : HttpRequest) : Prop :=
  ∀ route ∈ privateRoutes, reaches r route → requiresNoStore r.path = true

/-- The decoded path is a rate-limited route of the method, or `/users/me`, and a newline. -/
def endsRouteWithNewline (r : HttpRequest) : Bool :=
  (rateLimitedAuthRoutes.any fun x => x.1 = r.method && r.path = x.2 ++ [10]) ||
    r.path = text "/users/me" ++ [10]

section routes

open KnownPathCompatibilityMiddleware

variable {r : HttpRequest} {route : CodePoints}

lemma limited_mem_privateRoutes : ∀ x ∈ rateLimitedAuthRoutes, x.2 ∈ privateRoutes := by decide

lemma limited_mem_publicRoutes : ∀ x ∈ rateLimitedAuthRoutes, x.2 ∈ publicRoutes := by decide

lemma private_plain : ∀ route ∈ privateRoutes, ∀ c ∈ route, plain c = true := by decide

lemma public_plain : ∀ route ∈ publicRoutes, ∀ c ∈ route, plain c = true ∧ c ≠ 10 := by decide

lemma public_lower : ∀ route ∈ publicRoutes, asciiLower route = route := by decide

/-- What sets a private route, with or without a newline, apart from the other areas. -/
lemma private_apart : ∀ route ∈ privateRoutes, ∀ path ∈ [route, route ++ [10]],
    ¬ inAdminArea path ∧ ¬ text "/assets" <+: asciiLower path ∧ ¬ text "/assets/" <+: path ∧
      path ≠ notFoundPath := by
  decide

lemma canonical_private : ∀ route ∈ privateRoutes,
    canonicalPublicRoute (asciiLower (withoutTrailingSlash route)) = some route := by
  decide

lemma not_canonical_newline : ∀ route ∈ privateRoutes,
    canonicalPublicRoute (asciiLower (withoutTrailingSlash (route ++ [10]))) = none := by
  decide

lemma canonicalPublicRoute_some {lowered canonical : CodePoints}
    (h : canonicalPublicRoute lowered = some canonical) :
    canonical ∈ publicRoutes ∧ lowered = canonical := by
  have hmem := List.mem_of_find?_eq_some h
  have heq : asciiLower canonical = lowered := by simpa using List.find?_some h
  exact ⟨hmem, heq.symm.trans (public_lower canonical hmem)⟩

lemma routeAccepts_iff {path : CodePoints} :
    routeAccepts route path = true ↔ path ∈ [route, route ++ [10]] := by
  simp [routeAccepts]

/-- A private route is reached by a spelling of it, or by its decoded path and a newline. -/
lemma spelled_of_reaches (hroute : route ∈ privateRoutes) (h : reaches r route) :
    asciiLower (withoutTrailingSlash r.raw) = route ∨ r.path = route ++ [10] := by
  obtain ⟨path, hpath, haccepts⟩ := h
  have hmem := routeAccepts_iff.mp haccepts
  obtain ⟨hadmin, -, hassets, hnotFound⟩ := private_apart route hroute path hmem
  simp only [rewrite, Option.mem_def] at hpath
  split at hpath
  · simp at hpath
  split at hpath
  · next canonical hcanonical =>
    obtain rfl := Option.some.inj hpath
    obtain ⟨hpublic, hlowered⟩ := canonicalPublicRoute_some hcanonical
    rcases List.mem_pair.mp hmem with rfl | rfl
    · exact .inl hlowered
    · exact absurd rfl (public_plain _ hpublic 10 (by simp)).2
  split at hpath
  · next rawAdminPath hraw =>
    obtain rfl := Option.some.inj hpath
    refine absurd ?_ hadmin
    cases hdecoded : canonicalAdminPath (withoutTrailingSlash r.path) with
    | none => exact (inAdminArea_of_canonicalAdminPath hraw).2
    | some adminPath => exact (inAdminArea_of_canonicalAdminPath hdecoded).2
  split at hpath
  · obtain rfl := Option.some.inj hpath
    exact absurd (List.prefix_append _ _) hassets
  split at hpath
  · obtain rfl := Option.some.inj hpath
    exact absurd rfl hnotFound
  · next hother =>
    obtain rfl := Option.some.inj hpath
    rcases List.mem_pair.mp hmem with hself | hnewline
    · refine absurd (.inl ?_) hother
      rw [hself, canonical_private route hroute]
      rfl
    · exact .inr hnewline

/-- A decoded path that is a private route and a newline goes to the router as it is. -/
lemma rewrite_newline (hroute : route ∈ privateRoutes) (h : r.path = route ++ [10]) :
    rewrite r = some r.path ∧ asciiLower (withoutTrailingSlash r.raw) ∉ publicRoutes := by
  obtain ⟨hadmin, hassets, -, -⟩ := private_apart route hroute (route ++ [10]) (by simp)
  rw [← h] at hadmin hassets
  have hraw : ∀ {p : CodePoints}, (∀ c ∈ p, plain c = true) → p <+: asciiLower r.raw →
      p <+: asciiLower r.path := prefix_path
  have hpublic : asciiLower (withoutTrailingSlash r.raw) ∉ publicRoutes := by
    intro hmem
    have heq := path_eq_raw (fun c hc => (public_plain _ hmem c hc).1) rfl
    have hnewline : 10 ∈ r.raw := by
      rw [← heq, h]
      simp
    rcases mem_withoutTrailingSlash hnewline with hin | hslash
    · exact (public_plain _ hmem 10 (List.mem_map.mpr ⟨10, hin, rfl⟩)).2 rfl
    · omega
  have hcanonical : canonicalPublicRoute (asciiLower (withoutTrailingSlash r.raw)) = none := by
    cases hfind : canonicalPublicRoute (asciiLower (withoutTrailingSlash r.raw)) with
    | none => rfl
    | some canonical =>
      obtain ⟨hmem, hlowered⟩ := canonicalPublicRoute_some hfind
      exact absurd (hlowered ▸ hmem) hpublic
  have hadminRaw : canonicalAdminPath (withoutTrailingSlash r.raw) = none := by
    by_contra hne
    obtain ⟨canonical, hsome⟩ := Option.ne_none_iff_exists'.mp hne
    have hstart := withoutTrailingSlash_prefix r.raw
    rcases (inAdminArea_of_canonicalAdminPath hsome).1 with harea | harea
    · exact hadmin (.inl (hraw (by decide) (harea.trans (hstart.map asciiLowerChar))))
    · exact hadmin (.inr (hraw (by decide) (harea.trans (hstart.map asciiLowerChar))))
  have hadminPath : canonicalAdminPath (withoutTrailingSlash r.path) = none := by
    by_contra hne
    obtain ⟨canonical, hsome⟩ := Option.ne_none_iff_exists'.mp hne
    have hstart := withoutTrailingSlash_prefix r.path
    rcases (inAdminArea_of_canonicalAdminPath hsome).1 with harea | harea
    · exact hadmin (.inl (harea.trans (hstart.map asciiLowerChar)))
    · exact hadmin (.inr (harea.trans (hstart.map asciiLowerChar)))
  have hdirectory : asciiLower r.raw ≠ text "/assets" := fun heq =>
    hassets (hraw (by decide) (heq ▸ List.prefix_refl _))
  have hassetsRaw : ¬ text "/assets/" <+: asciiLower r.raw := fun hp =>
    hassets (hraw (by decide) ((by decide : text "/assets" <+: text "/assets/").trans hp))
  have hassetsPath : ¬ text "/assets/" <+: asciiLower r.path := fun hp =>
    hassets ((by decide : text "/assets" <+: text "/assets/").trans hp)
  have hdecoded : canonicalPublicRoute (asciiLower (withoutTrailingSlash r.path)) = none := by
    rw [h, not_canonical_newline route hroute]
  refine ⟨?_, hpublic⟩
  simp [rewrite, hdirectory, hcanonical, hadminRaw, hassetsRaw, hdecoded, hassetsPath, hadminPath]

lemma counts_false_of_newline (hroute : route ∈ privateRoutes) (h : r.path = route ++ [10]) :
    AuthRateLimitMiddleware.counts r = false := by
  by_contra hcounts
  have hmem : (r.method, asciiLower (withoutTrailingSlash r.raw)) ∈ rateLimitedAuthRoutes := by
    simpa [AuthRateLimitMiddleware.counts] using hcounts
  exact (rewrite_newline hroute h).2 (limited_mem_publicRoutes _ hmem)

lemma reaches_newline (hroute : route ∈ privateRoutes) (h : r.path = route ++ [10]) :
    reaches r route :=
  ⟨r.path, (rewrite_newline hroute h).1, routeAccepts_iff.mpr (by simp [h])⟩

lemma requiresNoStore_of_spelled (hroute : route ∈ privateRoutes)
    (h : asciiLower (withoutTrailingSlash r.raw) = route) : requiresNoStore r.path = true := by
  have hstore : ∀ route ∈ privateRoutes, route = text "/users/me" ∨
      (text "/auth/").isPrefixOf route = true ∧ route ≠ text "/auth/callback" := by decide
  rw [path_eq_raw (private_plain route hroute) h, requiresNoStore,
    withoutTrailingSlash_asciiLower, h]
  rcases hstore route hroute with rfl | ⟨hauth, hcallback⟩
  · simp
  · simp [hauth, hcallback]

/-! ## The exact condition -/

theorem limiterCovers_iff : LimiterCovers r ↔
    ∀ x ∈ rateLimitedAuthRoutes, x.1 = r.method → r.path ≠ x.2 ++ [10] := by
  constructor
  · intro hcovers x hx hmethod hpath
    have hroute := limited_mem_privateRoutes x hx
    have hcounts := hcovers x hx hmethod (reaches_newline hroute hpath)
    rw [counts_false_of_newline hroute hpath] at hcounts
    exact absurd hcounts (by simp)
  · intro hnewline x hx hmethod hreaches
    rcases spelled_of_reaches (limited_mem_privateRoutes x hx) hreaches with hspelled | hpath
    · rw [AuthRateLimitMiddleware.counts, hspelled, ← hmethod]
      exact decide_eq_true hx
    · exact absurd hpath (hnewline x hx hmethod)

theorem noStoreCovers_iff : NoStoreCovers r ↔ r.path ≠ text "/users/me" ++ [10] := by
  have hme : text "/users/me" ∈ privateRoutes := List.mem_cons_self
  constructor
  · intro hcovers hpath
    have hstore := hcovers _ hme (reaches_newline hme hpath)
    rw [hpath] at hstore
    exact absurd hstore (by decide)
  · intro hne route hroute hreaches
    rcases spelled_of_reaches hroute hreaches with hspelled | hpath
    · exact requiresNoStore_of_spelled hroute hspelled
    · rw [hpath]
      rcases List.mem_cons.mp hroute with rfl | hauth
      · exact absurd hpath hne
      · have hstore : ∀ route ∈ authRoutes, requiresNoStore (route ++ [10]) = true := by decide
        exact hstore route hauth

/-- The classifiers agree with the router on every request but those whose decoded path is
a route they are to cover with a newline after it. -/
theorem classifiers_agree_iff (r : HttpRequest) :
    (LimiterCovers r ∧ NoStoreCovers r) ↔ endsRouteWithNewline r = false := by
  rw [limiterCovers_iff, noStoreCovers_iff]
  simp [endsRouteWithNewline]

/-- `POST /auth/login%0A`. -/
def loginWithNewline : HttpRequest :=
  ⟨"POST", [47, 97, 117, 116, 104, 47, 108, 111, 103, 105, 110, 37, 48, 65]⟩

/-- The router serves the login route and the limiter has not counted the request. -/
theorem login_uncounted :
    ("POST", text "/auth/login") ∈ rateLimitedAuthRoutes ∧
      reaches loginWithNewline (text "/auth/login") ∧
      AuthRateLimitMiddleware.counts loginWithNewline = false ∧
      ¬ LimiterCovers loginWithNewline := by
  have hlogin : ("POST", text "/auth/login") ∈ rateLimitedAuthRoutes := by decide
  have hreaches : reaches loginWithNewline (text "/auth/login") :=
    ⟨loginWithNewline.path, by decide, by decide⟩
  have hcounts : AuthRateLimitMiddleware.counts loginWithNewline = false := by decide
  refine ⟨hlogin, hreaches, hcounts, fun hcovers => ?_⟩
  have hcovered := hcovers _ hlogin rfl hreaches
  rw [hcounts] at hcovered
  exact absurd hcovered (by simp)

end routes

end WiseacctSso
