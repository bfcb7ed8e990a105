import WiseacctSso.KnownPaths

/-!
# Administration routes and the ids they act on

The middleware rewrites the path of an administration request so that the router splits it
where Express would have, and leaves the decoded raw segments for the handlers to read.
-/
namespace WiseacctSso.AdminRouting
open UrlPath

/-! ## The patterns -/

/-- Which pattern accepts a path, with its groups. -/
inductive AdminMatch
  | collection (area route : CodePoints)
  | userRoute (area id route : CodePoints)
  | userRole (area id roleId : CodePoints)
  deriving DecidableEq

def matchSegments : List CodePoints → Option AdminMatch
  | [[], area, route] =>
      if matchesWord adminPrefixes area && matchesWord ["users", "audit-logs"] route then
        some (.collection area route)
      else none
  | [[], area, users, id, route] =>
      if matchesWord adminPrefixes area && matchesWord ["users"] users && id ≠ [] &&
          matchesWord ["status", "roles", "revoke-sessions"] route then
        some (.userRoute area id route)
      else none
  | [[], area, users, id, roles, roleId] =>
      if matchesWord adminPrefixes area && matchesWord ["users"] users && id ≠ [] &&
          matchesWord ["roles"] roles && roleId ≠ [] then
        some (.userRole area id roleId)
      else none
  | _ => none

def adminMatch (path : CodePoints) : Option AdminMatch := matchSegments (adminSegments path)

namespace AdminMatch

/-- The path that a match is written as. -/
def canonical : AdminMatch → CodePoints
  | collection area route => joinSegments [asciiLower area, asciiLower route]
  | userRoute area id route => joinSegments [asciiLower area, text "users", id, asciiLower route]
  | userRole area id roleId =>
      joinSegments [asciiLower area, text "users", id, text "roles", roleId]

/-- The groups that name a user or a role. -/
def parameters : AdminMatch → List (String × CodePoints)
  | collection _ _ => []
  | userRoute _ id _ => [("id", id)]
  | userRole _ id roleId => [("id", id), ("roleId", roleId)]

/-- The same pattern with the same prefix and route word, up to case. -/
def sameRoute : AdminMatch → AdminMatch → Bool
  | collection area route, collection area' route' =>
      asciiLower area = asciiLower area' && asciiLower route = asciiLower route'
  | userRoute area _ route, userRoute area' _ route' =>
      asciiLower area = asciiLower area' && asciiLower route = asciiLower route'
  | userRole area _ _, userRole area' _ _ => asciiLower area = asciiLower area'
  | _, _ => false

end AdminMatch

lemma matchSegments_of_other {segments : List CodePoints}
    (hthree : ¬ ∃ area route, segments = [[], area, route])
    (hfive : ¬ ∃ area users id route, segments = [[], area, users, id, route])
    (hsix : ¬ ∃ area users id roles roleId, segments = [[], area, users, id, roles, roleId]) :
    matchSegments segments = none := by
  unfold matchSegments
  split
  · exact (hthree ⟨_, _, rfl⟩).elim
  · exact (hfive ⟨_, _, _, _, rfl⟩).elim
  · exact (hsix ⟨_, _, _, _, _, rfl⟩).elim
  · rfl

/-- The canonical path is the one of the match. -/
lemma canonicalAdminPath_eq (path : CodePoints) :
    canonicalAdminPath path = (adminMatch path).map AdminMatch.canonical := by
  unfold canonicalAdminPath adminMatch
  generalize adminSegments path = segments
  by_cases hthree : ∃ area route, segments = [[], area, route]
  · obtain ⟨area, route, rfl⟩ := hthree
    simp only [matchSegments]
    split_ifs <;> rfl
  by_cases hfive : ∃ area users id route, segments = [[], area, users, id, route]
  · obtain ⟨area, users, id, route, rfl⟩ := hfive
    simp only [matchSegments]
    split_ifs <;> rfl
  by_cases hsix : ∃ area users id roles roleId, segments = [[], area, users, id, roles, roleId]
  · obtain ⟨area, users, id, roles, roleId, rfl⟩ := hsix
    simp only [matchSegments]
    split_ifs <;> rfl
  rw [matchSegments_of_other hthree hfive hsix]
  split
  · exact (hthree ⟨_, _, rfl⟩).elim
  · exact (hfive ⟨_, _, _, _, rfl⟩).elim
  · exact (hsix ⟨_, _, _, _, _, rfl⟩).elim
  · rfl

/-! ## Parameters -/

/-- `unquote` of a text: each run of ASCII is decoded by itself, other characters stay. -/
def unquoteFrom (run : List UInt8) : CodePoints → CodePoints
  | [] => unquote run
  | c :: rest =>
      if c < 128 then unquoteFrom (run ++ [.ofNat c]) rest
      else unquote run ++ c :: unquoteFrom [] rest

def unquoteText (value : CodePoints) : CodePoints := unquoteFrom [] value

abbrev Parameters : Type := List (String × CodePoints)

/-- `_decoded_admin_raw_parameters`. -/
def decodedAdminRawParameters (path : CodePoints) : Parameters :=
  match adminMatch path with
  | some m => m.parameters.map fun x => (x.1, unquoteText x.2)
  | none => []

/-- What the middleware leaves for the handlers; nothing outside its branch for the
administration. -/
def expressAdminPathParams (r : HttpRequest) : Option Parameters :=
  if asciiLower r.raw = text "/assets" ∧ (r.method = "GET" ∨ r.method = "HEAD") then none
  else
    match KnownPathCompatibilityMiddleware.canonicalPublicRoute
        (asciiLower (withoutTrailingSlash r.raw)) with
    | some _ => none
    | none => (canonicalAdminPath (withoutTrailingSlash r.raw)).map fun _ =>
        decodedAdminRawParameters (withoutTrailingSlash r.raw)

/-- `_admin_path_parameter`. -/
def adminPathParameter (parameters : Option Parameters) (name : String)
    (fallback : CodePoints) : CodePoints :=
  match parameters with
  | none => fallback
  | some parameters => (parameters.lookup name).getD fallback

/-! ## The router -/

/-- The handlers with the path parameters that the router gives them. -/
inductive AdminHandler
  | listUsers
  | listAuditLogs
  | setUserStatus (userId : CodePoints)
  | assignRole (userId : CodePoints)
  | removeRole (userId roleId : CodePoints)
  | revokeSessions (userId : CodePoints)
  deriving DecidableEq

/-- A route is chosen by the method, the number of segments and the literal words; a
parameter is one segment that is not empty. -/
def routeSegments (method : String) : List CodePoints → Option AdminHandler
  | [[], area, route] =>
      if area ∈ adminPrefixes.map text ∧ method ∈ ["GET", "HEAD"] then
        if route = text "users" then some .listUsers
        else if route = text "audit-logs" then some .listAuditLogs
        else none
      else none
  | [[], area, users, userId, route] =>
      if area ∈ adminPrefixes.map text ∧ users = text "users" ∧ userId ≠ [] then
        if method = "PATCH" ∧ route = text "status" then some (.setUserStatus userId)
        else if method = "POST" ∧ route = text "roles" then some (.assignRole userId)
        else if method = "POST" ∧ route = text "revoke-sessions" then
          some (.revokeSessions userId)
        else none
      else none
  | [[], area, users, userId, roles, roleId] =>
      if area ∈ adminPrefixes.map text ∧ users = text "users" ∧ userId ≠ [] ∧
          roles = text "roles" ∧ roleId ≠ [] ∧ method = "DELETE" then
        some (.removeRole userId roleId)
      else none
  | _ => none

def adminRoute (method : String) (path : CodePoints) : Option AdminHandler :=
  routeSegments method (path.splitOn 47)

/-- The identifiers that a handler reads, by their names. -/
def AdminHandler.reads (parameters : Option Parameters) : AdminHandler → Parameters
  | listUsers | listAuditLogs => []
  | setUserStatus userId | assignRole userId | revokeSessions userId =>
      [("id", adminPathParameter parameters "id" userId)]
  | removeRole userId roleId =>
      [("id", adminPathParameter parameters "id" userId),
        ("roleId", adminPathParameter parameters "roleId" roleId)]

/-! ## Route and target -/

/-- The rewritten path is accepted by the pattern of the raw one, with the same prefix and
route word, and whichever handler it reaches reads the decoded segments of the raw path. -/
def KeepsRouteAndTarget (rawPath : List UInt8) (m : AdminMatch) : Prop :=
  ∀ method, ∃ path m', KnownPathCompatibilityMiddleware.rewrite ⟨method, rawPath⟩ = some path ∧
    adminMatch path = some m' ∧ m.sameRoute m' = true ∧
    ∀ handler, adminRoute method path = some handler →
      ∀ x ∈ handler.reads (expressAdminPathParams ⟨method, rawPath⟩),
        ∃ segment, (x.1, segment) ∈ m.parameters ∧ x.2 = unquoteText segment

/-- The segment as the server decodes it within the path. -/
def serverDecode (segment : CodePoints) : CodePoints :=
  unquote (segment.map fun c => .ofNat (if c < 128 then c else c - 0xDC00))

/-- The decoded path splits as the path of another route: an id that decodes to a user and
`roles`, or a role id that decodes to a slash, which goes for a slash at the end. -/
def misSegmented (rawPath : List UInt8) : AdminMatch → Bool
  | .collection _ _ => false
  | .userRoute _ id _ =>
      match (serverDecode id).splitOn 47 with
      | [user, word] => user ≠ [] && matchesWord ["roles"] word
      | _ => false
  | .userRole _ id roleId =>
      serverDecode roleId = [47] && 47 ∉ serverDecode id && rawPath.getLast? ≠ some 47

/-! ## Decoding goes segment by segment -/

/-- A percent sign that starts no escape is left as it is. -/
lemma percentDecode_percent {rest : List UInt8}
    (h : ∀ c d later, rest = c :: d :: later → hexValue c = none ∨ hexValue d = none) :
    percentDecode (37 :: rest) = 37 :: percentDecode rest := by
  match rest with
  | [] => rfl
  | [_] => rfl
  | c :: d :: later =>
    rw [percentDecode, if_pos rfl]
    rcases h c d later rfl with hc | hd
    · rw [hc]
    · rw [hd]
      cases hexValue c <;> rfl

lemma percentDecode_slash (a b : List UInt8) :
    percentDecode (a ++ 47 :: b) = percentDecode a ++ 47 :: percentDecode b := by
  have hslash : hexValue 47 = none := by decide
  induction hn : a.length using Nat.strongRecOn generalizing a with
  | ind n ih =>
    match a with
    | [] => exact percentDecode_cons (by decide) b
    | c :: a =>
      have htail := ih a.length (by simp [← hn]) a rfl
      by_cases hc : c = 37
      swap
      · rw [List.cons_append, percentDecode_cons hc, percentDecode_cons hc, htail]
        rfl
      subst hc
      match a with
      | [] =>
        rw [List.cons_append, percentDecode_percent fun _ _ _ h => ?_, htail]
        · rfl
        · obtain ⟨rfl, -⟩ := List.cons.inj h
          exact .inl hslash
      | [x] =>
        rw [List.cons_append, percentDecode_percent fun _ _ _ h => ?_, htail]
        · rfl
        · simp only [List.cons_append, List.nil_append, List.cons.injEq] at h
          exact .inr (h.2.1 ▸ hslash)
      | x :: y :: a =>
        by_cases hhex : hexValue x = none ∨ hexValue y = none
        · have hescape : ∀ later : List UInt8, ∀ c d more, x :: y :: later = c :: d :: more →
              hexValue c = none ∨ hexValue d = none := by
            rintro later c d more h
            simp only [List.cons.injEq] at h
            rwa [← h.1, ← h.2.1]
          rw [List.cons_append, List.cons_append, List.cons_append,
            percentDecode_percent (hescape _), percentDecode_percent (hescape _)]
          rw [List.cons_append, List.cons_append] at htail
          rw [htail]
          rfl
        · obtain ⟨hx, hy⟩ := not_or.mp hhex
          obtain ⟨x', hx⟩ := Option.ne_none_iff_exists'.mp hx
          obtain ⟨y', hy⟩ := Option.ne_none_iff_exists'.mp hy
          have hlater := ih a.length (by simp [← hn]; omega) a rfl
          rw [List.cons_append, List.cons_append, List.cons_append, percentDecode, percentDecode]
          simp only [if_true, hx, hy, hlater, List.cons_append]

/-- The continuation bytes that are still to come are no ASCII. -/
def Continues (pending : Pending) : Prop := ∀ range ∈ pending.ranges, 128 ≤ range.1

lemma continues_leadStep (b : UInt8) : Continues (leadStep b).2 := by
  unfold leadStep
  split_ifs with hascii hranges
  · exact nofun
  · exact nofun
  · intro range hrange
    dsimp only at hrange
    unfold leadRanges at hrange
    split_ifs at hrange <;> simp at hrange <;> rcases hrange with rfl | rfl | rfl <;> simp

lemma continues_utf8Step {pending : Pending} (h : Continues pending) (b : UInt8) :
    Continues (utf8Step pending b).2 := by
  obtain ⟨bits, ranges⟩ := pending
  cases ranges with
  | nil => exact continues_leadStep b
  | cons range ranges =>
    unfold utf8Step
    dsimp only
    split_ifs
    · exact nofun
    · exact fun range' hrange => h range' (List.mem_cons_of_mem _ hrange)
    · exact continues_leadStep b

lemma decodeFrom_slash {pending : Pending} (h : Continues pending) (a b : List UInt8) :
    decodeFrom pending (a ++ 47 :: b) = decodeFrom pending a ++ 47 :: decodeUtf8 b := by
  induction a generalizing pending with
  | nil =>
    have hlead : leadStep 47 = ([47], .idle) := rfl
    obtain ⟨bits, ranges⟩ := pending
    cases ranges with
    | nil =>
      simp only [List.nil_append, decodeFrom, utf8Step, hlead]
      rfl
    | cons range ranges =>
      have hlow : ¬ (range.1 ≤ UInt8.toNat 47 ∧ UInt8.toNat 47 ≤ range.2) := by
        have hrange := h range List.mem_cons_self
        have hbyte : UInt8.toNat 47 = 47 := rfl
        omega
      simp only [List.nil_append, decodeFrom, utf8Step, if_neg hlow, hlead]
      rfl
  | cons c a ih =>
    rw [List.cons_append, decodeFrom, decodeFrom, ih (continues_utf8Step h c), List.append_assoc]

lemma unquote_slash (a b : List UInt8) : unquote (a ++ 47 :: b) = unquote a ++ 47 :: unquote b := by
  have hidle : Continues .idle := fun _ h => by simp [Pending.idle] at h
  rw [unquote, percentDecode_slash, decodeUtf8, decodeFrom_slash hidle]
  rfl

lemma decodeFrom_ne_nil {pending : Pending} {bytes : List UInt8}
    (h : pending.ranges ≠ [] ∨ bytes ≠ []) : decodeFrom pending bytes ≠ [] := by
  induction bytes generalizing pending with
  | nil =>
    have hranges : pending.ranges ≠ [] := h.resolve_right (fun hne => hne rfl)
    simp [decodeFrom, hranges]
  | cons b bytes ih =>
    have hlead : (leadStep b).1 ≠ [] ∨ (leadStep b).2.ranges ≠ [] := by
      unfold leadStep
      split_ifs with hascii hranges
      · exact .inl (by simp)
      · exact .inl (by simp)
      · exact .inr hranges
    have hstep : (utf8Step pending b).1 ≠ [] ∨ (utf8Step pending b).2.ranges ≠ [] := by
      obtain ⟨bits, ranges⟩ := pending
      cases ranges with
      | nil => exact hlead
      | cons range ranges =>
        unfold utf8Step
        dsimp only
        split_ifs with hin hlast
        · exact .inl (by simp)
        · exact .inr hlast
        · exact .inl (by simp)
    rw [decodeFrom]
    rcases hstep with hout | hranges
    · simp [hout]
    · simp [ih (.inl hranges)]

/-- A segment that is not empty does not vanish. -/
lemma unquote_ne_nil {bytes : List UInt8} (h : bytes ≠ []) : unquote bytes ≠ [] := by
  refine decodeFrom_ne_nil (.inr ?_)
  match bytes with
  | [_] => simp [percentDecode]
  | [_, _] => simp [percentDecode]
  | b :: c :: d :: rest =>
    rw [percentDecode]
    split
    · split <;> simp
    · simp

/-- What the text of the bytes is split into, given what a segment becomes. -/
lemma splitOn_of_slash {f : List UInt8 → CodePoints}
    (hslash : ∀ a b, f (a ++ 47 :: b) = f a ++ 47 :: f b) (bytes : List UInt8) :
    (f bytes).splitOn 47 = (bytes.splitOn 47).flatMap fun segment => (f segment).splitOn 47 := by
  have hjoin : ∀ segments : List (List UInt8), segments ≠ [] →
      (f ([47].intercalate segments)).splitOn 47 =
        segments.flatMap fun segment => (f segment).splitOn 47 := by
    intro segments
    induction segments with
    | nil => exact fun h => absurd rfl h
    | cons segment segments ih =>
      intro _
      cases segments with
      | nil => simp [List.intercalate]
      | cons next segments =>
        have hcons : [47].intercalate (segment :: next :: segments) =
            segment ++ 47 :: [47].intercalate (next :: segments) := by
          simp [List.intercalate, List.intersperse]
        rw [hcons, hslash, List.splitOn_append_cons_self, ih (by simp)]
        rfl
  have hbytes := hjoin (bytes.splitOn 47) (List.splitOn_ne_nil _ _)
  rwa [List.intercalate_splitOn] at hbytes

lemma surrogateEscape_slash (a b : List UInt8) :
    surrogateEscape (a ++ 47 :: b) = surrogateEscape a ++ 47 :: surrogateEscape b := by
  simp [surrogateEscape]

lemma slash_mem_surrogateEscape {bytes : List UInt8} : 47 ∈ surrogateEscape bytes ↔ 47 ∈ bytes := by
  unfold surrogateEscape
  rw [List.mem_map]
  constructor
  · rintro ⟨b, hb, hcode⟩
    have hb47 : b = 47 := by
      split at hcode
      · exact UInt8.toNat_inj.mp hcode
      · omega
    exact hb47 ▸ hb
  · exact fun h => ⟨47, h, rfl⟩

/-- The raw path has the segments of its bytes. -/
lemma splitOn_raw (bytes : List UInt8) :
    (surrogateEscape bytes).splitOn 47 = (bytes.splitOn 47).map surrogateEscape := by
  rw [splitOn_of_slash surrogateEscape_slash]
  have hsegments : ∀ segment ∈ bytes.splitOn 47,
      (surrogateEscape segment).splitOn 47 = [surrogateEscape segment] := by
    intro segment hsegment
    refine List.splitOn_eq_singleton fun h => ?_
    exact notMem_of_mem_splitOn hsegment (slash_mem_surrogateEscape.mp h)
  rw [List.flatMap_congr hsegments, ← List.map_eq_flatMap]

/-! ## Slashes at the end -/

/-- Leave out an empty segment at the end. -/
def dropEmpty (segments : List CodePoints) : List CodePoints :=
  if segments.getLast? = some [] then segments.dropLast else segments

/-- Two slashes at the end are left out, one by the middleware and one by the patterns. -/
lemma adminMatch_withoutTrailingSlash (path : CodePoints) :
    adminMatch (withoutTrailingSlash path) =
      matchSegments (dropEmpty (dropEmpty (path.splitOn 47))) := by
  have hsegments : ∀ value : CodePoints, adminSegments value = dropEmpty (value.splitOn 47) :=
    fun _ => rfl
  unfold adminMatch withoutTrailingSlash
  rw [hsegments]
  by_cases hslash : 1 < path.length ∧ path.getLast? = some 47
  · rw [if_pos hslash]
    obtain ⟨front, rfl⟩ := List.getLast?_eq_some_iff.mp hslash.2
    have hsplit : (front ++ [47]).splitOn 47 = front.splitOn 47 ++ [[]] := by
      rw [List.splitOn_append_cons_self, List.splitOn_nil]
    have hdrop : dropEmpty (front.splitOn 47 ++ [[]]) = front.splitOn 47 := by
      simp [dropEmpty]
    rw [List.dropLast_concat, hsplit, hdrop]
  · rw [if_neg hslash]
    by_cases hlast : (path.splitOn 47).getLast? = some []
    · have hshort : path.length ≤ 1 := by
        by_contra hlong
        have hne : path ≠ [] := by
          rintro rfl
          exact hlong (by simp)
        exact hslash ⟨by omega, getLast_of_splitOn hne hlast⟩
      match path with
      | [] => rfl
      | [c] =>
        have hc : c = 47 := by simpa using getLast_of_splitOn (by simp) hlast
        subst hc
        rfl
    · have hdrop : dropEmpty (path.splitOn 47) = path.splitOn 47 := if_neg hlast
      rw [hdrop, hdrop]

lemma dropEmpty_append (segments : List CodePoints) :
    ∃ tail, (tail = [] ∨ tail = [[]]) ∧ segments = dropEmpty segments ++ tail := by
  unfold dropEmpty
  split
  · rename_i hlast
    obtain ⟨front, rfl⟩ := List.getLast?_eq_some_iff.mp hlast
    exact ⟨[[]], .inr rfl, by simp⟩
  · exact ⟨[], .inl rfl, by simp⟩

/-- Up to two empty segments. -/
def Trailing {α : Type} (tail : List (List α)) : Prop :=
  tail = [] ∨ tail = [[]] ∨ tail = [[], []]

lemma dropEmpty_twice (segments : List CodePoints) :
    ∃ tail, Trailing tail ∧ segments = dropEmpty (dropEmpty segments) ++ tail := by
  obtain ⟨tail, htail, hone⟩ := dropEmpty_append segments
  obtain ⟨tail', htail', htwo⟩ := dropEmpty_append (dropEmpty segments)
  refine ⟨tail' ++ tail, ?_, ?_⟩
  · rcases htail with rfl | rfl <;> rcases htail' with rfl | rfl <;> simp [Trailing]
  · rw [← List.append_assoc, ← htwo, ← hone]

lemma dropEmpty_of_last {segments : List CodePoints} {last : CodePoints} (h : last ≠ []) :
    dropEmpty (segments ++ [last]) = segments ++ [last] := by
  simp [dropEmpty, h]

/-- What comes after a last segment is left out. -/
lemma dropEmpty_trailing {segments tail : List CodePoints} {last : CodePoints} (h : last ≠ [])
    (htail : Trailing tail) :
    dropEmpty (dropEmpty (segments ++ [last] ++ tail)) = segments ++ [last] := by
  have hempty : ∀ front : List CodePoints, dropEmpty (front ++ [[]]) = front := by
    simp [dropEmpty]
  rcases htail with rfl | rfl | rfl
  · rw [List.append_nil, dropEmpty_of_last h, dropEmpty_of_last h]
  · rw [hempty, dropEmpty_of_last h]
  · have htwo : segments ++ [last] ++ [[], []] = segments ++ [last] ++ [[]] ++ [[]] := by simp
    rw [htwo, hempty, hempty]

/-! ## The words of a raw path -/

def routeWords : List String :=
  ["admin", "manage-api", "users", "audit-logs", "status", "roles", "revoke-sessions"]

/-- A byte that a raw path spells a word with. -/
lemma byte_of_variant {c : ℕ} {b : UInt8} (hc : (97 ≤ c ∧ c ≤ 122) ∨ c = 45)
    (h : (if b.toNat < 128 then b.toNat else 0xDC00 + b.toNat) ∈ letterVariants c) :
    b.toNat < 128 ∧ b ≠ 37 ∧ b ≠ 47 ∧ asciiLowerChar b.toNat = c := by
  have hne : ∀ n : ℕ, b.toNat ≠ n → ∀ k : UInt8, k.toNat = n → b ≠ k :=
    fun n hn k hk hbk => hn (hbk ▸ hk)
  have hbound := b.toNat_lt
  have hcode : b.toNat < 128 ∧ (b.toNat = c ∨ (97 ≤ c ∧ c ≤ 122 ∧ b.toNat = c - 32)) := by
    unfold letterVariants at h
    split_ifs at h <;> simp at h <;> omega
  refine ⟨hcode.1, hne 37 (by omega) 37 rfl, hne 47 (by omega) 47 rfl, ?_⟩
  unfold asciiLowerChar
  split_ifs <;> omega

lemma spelled_of_equalIgnoringCase {word : CodePoints} {bytes : List UInt8}
    (hword : ∀ c ∈ word, (97 ≤ c ∧ c ≤ 122) ∨ c = 45)
    (h : equalIgnoringCase word (surrogateEscape bytes) = true) :
    (∀ b ∈ bytes, b.toNat < 128 ∧ b ≠ 37 ∧ b ≠ 47) ∧ asciiLower (surrogateEscape bytes) = word := by
  induction word generalizing bytes with
  | nil =>
    cases bytes with
    | nil => exact ⟨nofun, rfl⟩
    | cons b bytes => simp [surrogateEscape, equalIgnoringCase] at h
  | cons c word ih =>
    cases bytes with
    | nil => simp [surrogateEscape, equalIgnoringCase] at h
    | cons b bytes =>
      simp only [surrogateEscape, List.map_cons, equalIgnoringCase, Bool.and_eq_true,
        List.contains_iff_mem] at h
      obtain ⟨hascii, hpercent, hslash, hlower⟩ :=
        byte_of_variant (hword c List.mem_cons_self) h.1
      obtain ⟨hrest, heq⟩ := ih (fun d hd => hword d (List.mem_cons_of_mem _ hd)) h.2
      constructor
      · rintro b' hb'
        rcases List.mem_cons.mp hb' with rfl | hb'
        · exact ⟨hascii, hpercent, hslash⟩
        · exact hrest b' hb'
      · rw [surrogateEscape, List.map_cons, asciiLower_cons, if_pos hascii, hlower,
          ← surrogateEscape, heq]

/-- A word of a raw path is plain ASCII, and decodes to itself. -/
lemma spelled_of_matchesWord {words : List String} (hwords : words ⊆ routeWords)
    {bytes : List UInt8} (h : matchesWord words (surrogateEscape bytes) = true) :
    unquote bytes = surrogateEscape bytes ∧ 47 ∉ bytes ∧ bytes ≠ [] ∧
      asciiLower (surrogateEscape bytes) ∈ words.map text := by
  obtain ⟨word, hword, hequal⟩ := List.any_eq_true.mp h
  have hplain : ∀ word ∈ routeWords, text word ≠ [] ∧
      ∀ c ∈ text word, (97 ≤ c ∧ c ≤ 122) ∨ c = 45 := by decide
  obtain ⟨hne, hchars⟩ := hplain word (hwords hword)
  obtain ⟨hbytes, hlower⟩ := spelled_of_equalIgnoringCase hchars hequal
  refine ⟨unquote_of_plain fun b hb => ⟨(hbytes b hb).1, (hbytes b hb).2.1⟩, ?_, ?_, ?_⟩
  · exact fun hmem => (hbytes 47 hmem).2.2 rfl
  · rintro rfl
    exact hne hlower.symm
  · exact List.mem_map.mpr ⟨word, hword, hlower.symm⟩

/-- The segments that a raw segment is decoded to. -/
def decodedSegments (bytes : List UInt8) : List CodePoints := (unquote bytes).splitOn 47

lemma decodedSegments_word {words : List String} (hwords : words ⊆ routeWords)
    {bytes : List UInt8} (h : matchesWord words (surrogateEscape bytes) = true) :
    decodedSegments bytes = [surrogateEscape bytes] := by
  obtain ⟨hdecode, hslash, -, -⟩ := spelled_of_matchesWord hwords h
  rw [decodedSegments, hdecode]
  exact List.splitOn_eq_singleton fun hmem => hslash (slash_mem_surrogateEscape.mp hmem)

/-- How a raw path spells what a pattern accepts. -/
inductive Spelled (bytes : List UInt8) : AdminMatch → Prop
  | collection {area route tail} (trailing : Trailing tail)
      (split : bytes.splitOn 47 = [[], area, route] ++ tail)
      (area_word : matchesWord adminPrefixes (surrogateEscape area) = true)
      (route_word : matchesWord ["users", "audit-logs"] (surrogateEscape route) = true) :
      Spelled bytes (.collection (surrogateEscape area) (surrogateEscape route))
  | userRoute {area users id route tail} (trailing : Trailing tail)
      (split : bytes.splitOn 47 = [[], area, users, id, route] ++ tail)
      (area_word : matchesWord adminPrefixes (surrogateEscape area) = true)
      (users_word : matchesWord ["users"] (surrogateEscape users) = true) (id_ne : id ≠ [])
      (route_word : matchesWord ["status", "roles", "revoke-sessions"]
        (surrogateEscape route) = true) :
      Spelled bytes (.userRoute (surrogateEscape area) (surrogateEscape id)
        (surrogateEscape route))
  | userRole {area users id roles roleId tail} (trailing : Trailing tail)
      (split : bytes.splitOn 47 = [[], area, users, id, roles, roleId] ++ tail)
      (area_word : matchesWord adminPrefixes (surrogateEscape area) = true)
      (users_word : matchesWord ["users"] (surrogateEscape users) = true) (id_ne : id ≠ [])
      (roles_word : matchesWord ["roles"] (surrogateEscape roles) = true)
      (roleId_ne : roleId ≠ []) :
      Spelled bytes (.userRole (surrogateEscape area) (surrogateEscape id)
        (surrogateEscape roleId))

lemma surrogateEscape_eq_nil {bytes : List UInt8} : surrogateEscape bytes = [] ↔ bytes = [] :=
  List.map_eq_nil_iff

lemma trailing_of_map {tail : List (List UInt8)} (h : Trailing (tail.map surrogateEscape)) :
    Trailing tail := by
  unfold Trailing at h ⊢
  match tail with
  | [] => exact .inl rfl
  | [a] => simpa [surrogateEscape_eq_nil] using h
  | [a, b] => simpa [surrogateEscape_eq_nil] using h
  | a :: b :: c :: rest => simp at h

theorem spelled_of_adminMatch {bytes : List UInt8} {m : AdminMatch}
    (h : adminMatch (withoutTrailingSlash (surrogateEscape bytes)) = some m) :
    Spelled bytes m := by
  rw [adminMatch_withoutTrailingSlash, splitOn_raw] at h
  obtain ⟨tail, htrailing, hsegments⟩ :=
    dropEmpty_twice ((bytes.splitOn 47).map surrogateEscape)
  generalize dropEmpty (dropEmpty ((bytes.splitOn 47).map surrogateEscape)) = core at h hsegments
  obtain ⟨front, back, hsplit, rfl, rfl⟩ := List.map_eq_append_iff.mp hsegments
  have hback := trailing_of_map htrailing
  unfold matchSegments at h
  split at h
  · rename_i area route hcore
    obtain ⟨b₀, b₁, b₂, rfl, hnil, rfl, rfl⟩ : ∃ b₀ b₁ b₂, front = [b₀, b₁, b₂] ∧
        surrogateEscape b₀ = [] ∧ surrogateEscape b₁ = area ∧ surrogateEscape b₂ = route := by
      simpa [List.map_eq_cons_iff] using hcore
    obtain rfl := surrogateEscape_eq_nil.mp hnil
    split at h
    · rename_i hwords
      rw [Bool.and_eq_true] at hwords
      obtain rfl := Option.some.inj h
      exact .collection hback hsplit hwords.1 hwords.2
    · cases h
  · rename_i area users id route hcore
    obtain ⟨b₀, b₁, b₂, b₃, b₄, rfl, hnil, rfl, rfl, rfl, rfl⟩ : ∃ b₀ b₁ b₂ b₃ b₄,
        front = [b₀, b₁, b₂, b₃, b₄] ∧ surrogateEscape b₀ = [] ∧ surrogateEscape b₁ = area ∧
          surrogateEscape b₂ = users ∧ surrogateEscape b₃ = id ∧ surrogateEscape b₄ = route := by
      simpa [List.map_eq_cons_iff] using hcore
    obtain rfl := surrogateEscape_eq_nil.mp hnil
    split at h
    · rename_i hwords
      simp only [Bool.and_eq_true, decide_eq_true_eq, ne_eq, surrogateEscape_eq_nil] at hwords
      obtain ⟨⟨⟨harea, husers⟩, hid⟩, hroute⟩ := hwords
      obtain rfl := Option.some.inj h
      exact .userRoute hback hsplit harea husers hid hroute
    · cases h
  · rename_i area users id roles roleId hcore
    obtain ⟨b₀, b₁, b₂, b₃, b₄, b₅, rfl, hnil, rfl, rfl, rfl, rfl, rfl⟩ :
        ∃ b₀ b₁ b₂ b₃ b₄ b₅, front = [b₀, b₁, b₂, b₃, b₄, b₅] ∧ surrogateEscape b₀ = [] ∧
          surrogateEscape b₁ = area ∧ surrogateEscape b₂ = users ∧ surrogateEscape b₃ = id ∧
          surrogateEscape b₄ = roles ∧ surrogateEscape b₅ = roleId := by
      simpa [List.map_eq_cons_iff] using hcore
    obtain rfl := surrogateEscape_eq_nil.mp hnil
    split at h
    · rename_i hwords
      simp only [Bool.and_eq_true, decide_eq_true_eq, ne_eq, surrogateEscape_eq_nil] at hwords
      obtain ⟨⟨⟨⟨harea, husers⟩, hid⟩, hroles⟩, hroleId⟩ := hwords
      obtain rfl := Option.some.inj h
      exact .userRole hback hsplit harea husers hid hroles hroleId
    · cases h
  · cases h

/-! ## The decoded path -/

/-- The match of the decoded path, if it has one. -/
lemma decoded_match {bytes : List UInt8} {core tail : List (List UInt8)}
    (hsplit : bytes.splitOn 47 = core ++ tail) (htail : Trailing tail) {front : List CodePoints}
    {last : CodePoints} (hcore : core.flatMap decodedSegments = front ++ [last])
    (hlast : last ≠ []) :
    adminMatch (withoutTrailingSlash (unquote bytes)) = matchSegments (front ++ [last]) := by
  have htrailing : Trailing (tail.flatMap decodedSegments) := by
    have hnil : decodedSegments [] = [[]] := rfl
    rcases htail with rfl | rfl | rfl
    · exact .inl rfl
    · exact .inr (.inl (by simp [hnil]))
    · exact .inr (.inr (by simp [hnil]))
  have hpath : (unquote bytes).splitOn 47 =
      front ++ [last] ++ tail.flatMap decodedSegments := by
    rw [splitOn_of_slash unquote_slash, hsplit, List.flatMap_append]
    exact congrArg (· ++ _) hcore
  rw [adminMatch_withoutTrailingSlash, hpath, dropEmpty_trailing hlast htrailing]

lemma serverDecode_surrogateEscape (bytes : List UInt8) :
    serverDecode (surrogateEscape bytes) = unquote bytes := by
  have hbytes : (surrogateEscape bytes).map
      (fun c => UInt8.ofNat (if c < 128 then c else c - 0xDC00)) = bytes := by
    rw [surrogateEscape, List.map_map]
    conv_rhs => rw [← List.map_id bytes]
    refine List.map_congr_left fun b _ => ?_
    simp only [Function.comp_apply, id_eq]
    split_ifs with hascii hlow
    · exact UInt8.ofNat_toNat
    · omega
    · rw [Nat.add_sub_cancel_left]
      exact UInt8.ofNat_toNat
  rw [serverDecode, hbytes]

/-- A decoded segment without a slash is one segment. -/
lemma eq_of_splitOn_singleton {value segment : CodePoints} (h : value.splitOn 47 = [segment]) :
    segment = value := by
  have hvalue : [47].intercalate (value.splitOn 47) = value := List.intercalate_splitOn 47
  rw [h] at hvalue
  simpa [List.intercalate] using hvalue

lemma splitOn_join {segments : List CodePoints} (h : ∀ segment ∈ segments, 47 ∉ segment) :
    (joinSegments segments).splitOn 47 = [] :: segments := by
  have hjoin : ∀ first : CodePoints, 47 ∉ first →
      (first ++ joinSegments segments).splitOn 47 = first :: segments := by
    induction segments with
    | nil =>
      intro first hfirst
      rw [joinSegments, List.flatMap_nil, List.append_nil, List.splitOn_eq_singleton hfirst]
    | cons segment segments ih =>
      intro first hfirst
      have hsegment := ih (fun s hs => h s (List.mem_cons_of_mem _ hs)) segment
        (h segment List.mem_cons_self)
      rw [joinSegments, List.flatMap_cons, List.cons_append,
        List.splitOn_append_cons_self_of_not_mem hfirst, ← joinSegments, hsegment]
  exact hjoin [] (by simp)

/-! ## The written path -/

/-- What holds of a path that is written for the match `m'` when `m` is the raw one. -/
def Serves (m m' : AdminMatch) : Prop :=
  ∃ m'', adminMatch m'.canonical = some m'' ∧ m.sameRoute m'' = true ∧
    ∀ method handler, adminRoute method m'.canonical = some handler →
      ∀ x ∈ handler.reads (some (m.parameters.map fun x => (x.1, unquoteText x.2))),
        ∃ segment, (x.1, segment) ∈ m.parameters ∧ x.2 = unquoteText segment

lemma segments_of_spelled {bytes : List UInt8} {m : AdminMatch} (h : Spelled bytes m) :
    ∃ area second later, bytes.splitOn 47 = [] :: area :: second :: later ∧
      asciiLower (surrogateEscape area) ∈ adminPrefixes.map text ∧
      asciiLower (surrogateEscape second) ∈ ["users", "audit-logs"].map text := by
  cases h with
  | collection trailing split area_word route_word =>
    exact ⟨_, _, _, split, (spelled_of_matchesWord (by decide) area_word).2.2.2,
      (spelled_of_matchesWord (by decide) route_word).2.2.2⟩
  | userRoute trailing split area_word users_word id_ne route_word =>
    have husers := (spelled_of_matchesWord (by decide) users_word).2.2.2
    exact ⟨_, _, _, split, (spelled_of_matchesWord (by decide) area_word).2.2.2,
      (by decide : ["users"].map text ⊆ ["users", "audit-logs"].map text) husers⟩
  | userRole trailing split area_word users_word id_ne roles_word roleId_ne =>
    have husers := (spelled_of_matchesWord (by decide) users_word).2.2.2
    exact ⟨_, _, _, split, (spelled_of_matchesWord (by decide) area_word).2.2.2,
      (by decide : ["users"].map text ⊆ ["users", "audit-logs"].map text) husers⟩

/-- The raw path begins with an area and the first word after it. -/
lemma prefix_of_spelled {bytes : List UInt8} {m : AdminMatch} (h : Spelled bytes m) :
    ∃ area ∈ adminPrefixes, ∃ second ∈ ["users", "audit-logs"],
      (47 :: text area ++ 47 :: text second) <+: asciiLower (surrogateEscape bytes) := by
  obtain ⟨area, second, later, hsplit, harea, hsecond⟩ := segments_of_spelled h
  obtain ⟨areaWord, harea, hareaLower⟩ := List.mem_map.mp harea
  obtain ⟨secondWord, hsecond, hsecondLower⟩ := List.mem_map.mp hsecond
  refine ⟨areaWord, harea, secondWord, hsecond, ?_⟩
  have hraw : [47].intercalate ((surrogateEscape bytes).splitOn 47) = surrogateEscape bytes :=
    List.intercalate_splitOn 47
  rw [splitOn_raw, hsplit] at hraw
  rw [← hraw, hareaLower, hsecondLower]
  cases later with
  | nil => simp [List.intercalate, surrogateEscape, asciiLowerChar]
  | cons segment later => simp [List.intercalate, List.intersperse, surrogateEscape, asciiLowerChar]

/-- A path that begins so is neither a public route nor the directory of the assets. -/
lemma routePrefix_apart : ∀ area ∈ adminPrefixes, ∀ second ∈ ["users", "audit-logs"],
    (47 :: text area ++ 47 :: text second).getLast? ≠ some 47 ∧
      ¬ (47 :: text area ++ 47 :: text second) <+: text "/assets" ∧
      ∀ route ∈ publicRoutes, ¬ (47 :: text area ++ 47 :: text second) <+: route := by
  decide

lemma prefix_withoutTrailingSlash {front value : CodePoints} (hfront : front.getLast? ≠ some 47)
    (h : front <+: asciiLower value) : front <+: asciiLower (withoutTrailingSlash value) := by
  rw [← withoutTrailingSlash_asciiLower]
  unfold withoutTrailingSlash
  split
  · rename_i hslash
    obtain ⟨rest, hrest⟩ := List.getLast?_eq_some_iff.mp hslash.2
    rw [hrest] at h ⊢
    rw [List.dropLast_concat]
    rcases List.prefix_concat_iff.mp h with heq | hpre
    · rw [heq] at hfront
      simp at hfront
    · exact hpre
  · exact h

/-- What the middleware does with a raw path of the administration. -/
lemma rewrite_of_spelled {bytes : List UInt8} {m : AdminMatch}
    (hmatch : adminMatch (withoutTrailingSlash (surrogateEscape bytes)) = some m)
    (method : String) :
    KnownPathCompatibilityMiddleware.rewrite ⟨method, bytes⟩ =
        some ((adminMatch (withoutTrailingSlash (unquote bytes))).getD m).canonical ∧
      expressAdminPathParams ⟨method, bytes⟩ =
        some (m.parameters.map fun x => (x.1, unquoteText x.2)) := by
  obtain ⟨area, harea, second, hsecond, hprefix⟩ := prefix_of_spelled (spelled_of_adminMatch hmatch)
  obtain ⟨hlast, hassets, hpublic⟩ := routePrefix_apart area harea second hsecond
  have hraw : HttpRequest.raw ⟨method, bytes⟩ = surrogateEscape bytes := rfl
  have hpath : HttpRequest.path ⟨method, bytes⟩ = unquote bytes := rfl
  have hdirectory : ¬ (asciiLower (surrogateEscape bytes) = text "/assets" ∧
      (method = "GET" ∨ method = "HEAD")) := fun h => hassets (h.1 ▸ hprefix)
  have hnone : KnownPathCompatibilityMiddleware.canonicalPublicRoute
      (asciiLower (withoutTrailingSlash (surrogateEscape bytes))) = none := by
    cases hfind : KnownPathCompatibilityMiddleware.canonicalPublicRoute
        (asciiLower (withoutTrailingSlash (surrogateEscape bytes))) with
    | none => rfl
    | some canonical =>
      obtain ⟨hmem, hlowered⟩ := canonicalPublicRoute_some hfind
      exact absurd (hlowered ▸ prefix_withoutTrailingSlash hlast hprefix) (hpublic _ hmem)
  constructor
  · unfold KnownPathCompatibilityMiddleware.rewrite
    rw [hraw, hpath, if_neg hdirectory, hnone, canonicalAdminPath_eq, canonicalAdminPath_eq, hmatch]
    cases adminMatch (withoutTrailingSlash (unquote bytes)) <;> rfl
  · unfold expressAdminPathParams decodedAdminRawParameters
    rw [hraw, if_neg hdirectory, hnone, canonicalAdminPath_eq, hmatch]
    rfl

lemma keeps_iff_serves {bytes : List UInt8} {m : AdminMatch}
    (hmatch : adminMatch (withoutTrailingSlash (surrogateEscape bytes)) = some m) :
    KeepsRouteAndTarget bytes m ↔
      Serves m ((adminMatch (withoutTrailingSlash (unquote bytes))).getD m) := by
  have hwritten := rewrite_of_spelled hmatch
  constructor
  · intro hkeeps
    obtain ⟨path, m'', hpath, haccepted, hsame, -⟩ := hkeeps "GET"
    rw [(hwritten "GET").1] at hpath
    obtain rfl := Option.some.inj hpath
    refine ⟨m'', haccepted, hsame, fun method handler hhandler x hx => ?_⟩
    obtain ⟨path, -, hpath, -, -, hreads⟩ := hkeeps method
    rw [(hwritten method).1] at hpath
    obtain rfl := Option.some.inj hpath
    rw [(hwritten method).2] at hreads
    exact hreads handler hhandler x hx
  · rintro ⟨m'', haccepted, hsame, hreads⟩ method
    refine ⟨_, m'', (hwritten method).1, haccepted, hsame, ?_⟩
    rw [(hwritten method).2]
    exact hreads method

/-- The lower-case spelling of a word of a raw path. -/
lemma lowered_word {words : List String} (hwords : words ⊆ routeWords) {bytes : List UInt8}
    (h : matchesWord words (surrogateEscape bytes) = true) :
    matchesWord words (asciiLower (surrogateEscape bytes)) = true ∧
      47 ∉ asciiLower (surrogateEscape bytes) ∧ asciiLower (surrogateEscape bytes) ≠ [] := by
  have hself : ∀ word ∈ routeWords, equalIgnoringCase (text word) (text word) = true ∧
      47 ∉ text word ∧ text word ≠ [] := by decide
  obtain ⟨word, hword, hlower⟩ :=
    List.mem_map.mp (spelled_of_matchesWord hwords h).2.2.2
  obtain ⟨hequal, hslash, hne⟩ := hself word (hwords hword)
  rw [← hlower]
  exact ⟨List.any_eq_true.mpr ⟨word, hword, hequal⟩, hslash, hne⟩

lemma adminMatch_join {segments : List CodePoints} {last : CodePoints}
    (h : ∀ segment ∈ segments ++ [last], 47 ∉ segment) (hlast : last ≠ []) :
    adminMatch (joinSegments (segments ++ [last])) =
      matchSegments ([] :: (segments ++ [last])) := by
  have hdrop : dropEmpty ([] :: segments ++ [last]) = [] :: segments ++ [last] :=
    dropEmpty_of_last hlast
  unfold adminMatch
  change matchSegments (dropEmpty ((joinSegments (segments ++ [last])).splitOn 47)) = _
  rw [splitOn_join h]
  exact congrArg _ hdrop

lemma adminRoute_join {segments : List CodePoints} (h : ∀ segment ∈ segments, 47 ∉ segment)
    (method : String) :
    adminRoute method (joinSegments segments) = routeSegments method ([] :: segments) := by
  rw [adminRoute, splitOn_join h]

lemma serves_collection {area route : List UInt8}
    (harea : matchesWord adminPrefixes (surrogateEscape area) = true)
    (hroute : matchesWord ["users", "audit-logs"] (surrogateEscape route) = true) :
    Serves (.collection (surrogateEscape area) (surrogateEscape route))
      (.collection (surrogateEscape area) (surrogateEscape route)) := by
  obtain ⟨hareaWord, hareaSlash, -⟩ := lowered_word (by decide) harea
  obtain ⟨hrouteWord, hrouteSlash, hrouteNe⟩ := lowered_word (by decide) hroute
  have hslash : ∀ segment ∈ [asciiLower (surrogateEscape area)] ++
      [asciiLower (surrogateEscape route)], 47 ∉ segment := by
    simp [hareaSlash, hrouteSlash]
  refine ⟨.collection (asciiLower (surrogateEscape area)) (asciiLower (surrogateEscape route)),
    ?_, ?_, ?_⟩
  · refine (adminMatch_join hslash hrouteNe).trans ?_
    simp [matchSegments, hareaWord, hrouteWord]
  · simp [AdminMatch.sameRoute, asciiLower_idem]
  · intro method handler hhandler x hx
    replace hhandler := (adminRoute_join hslash method).symm.trans hhandler
    simp only [routeSegments, List.cons_append, List.nil_append] at hhandler
    split_ifs at hhandler <;> obtain rfl := Option.some.inj hhandler <;>
      simp [AdminHandler.reads] at hx

section written
variable {area route : List UInt8} {written writtenRole : CodePoints}

lemma slash_userRoute (harea : matchesWord adminPrefixes (surrogateEscape area) = true)
    (hroute : matchesWord ["status", "roles", "revoke-sessions"] (surrogateEscape route) = true)
    (hwritten : 47 ∉ written) :
    ∀ segment ∈ [asciiLower (surrogateEscape area), text "users", written] ++
      [asciiLower (surrogateEscape route)], 47 ∉ segment := by
  have husers : 47 ∉ text "users" := by decide
  simp [(lowered_word (by decide) harea).2.1, (lowered_word (by decide) hroute).2.1, husers,
    hwritten]

lemma match_userRoute (harea : matchesWord adminPrefixes (surrogateEscape area) = true)
    (hroute : matchesWord ["status", "roles", "revoke-sessions"] (surrogateEscape route) = true)
    (hwritten : written ≠ [] ∧ 47 ∉ written) :
    adminMatch (AdminMatch.userRoute (surrogateEscape area) written
        (surrogateEscape route)).canonical =
      some (.userRoute (asciiLower (surrogateEscape area)) written
        (asciiLower (surrogateEscape route))) := by
  obtain ⟨hareaWord, -, -⟩ := lowered_word (by decide) harea
  obtain ⟨hrouteWord, -, hrouteNe⟩ := lowered_word (by decide) hroute
  have husers : matchesWord ["users"] (text "users") = true := by decide
  refine (adminMatch_join (slash_userRoute harea hroute hwritten.2) hrouteNe).trans ?_
  simp [matchSegments, hareaWord, hrouteWord, husers, hwritten.1]

lemma slash_userRole (harea : matchesWord adminPrefixes (surrogateEscape area) = true)
    (hwritten : 47 ∉ written) (hwrittenRole : 47 ∉ writtenRole) :
    ∀ segment ∈ [asciiLower (surrogateEscape area), text "users", written, text "roles"] ++
      [writtenRole], 47 ∉ segment := by
  have husers : 47 ∉ text "users" := by decide
  have hroles : 47 ∉ text "roles" := by decide
  simp [(lowered_word (by decide) harea).2.1, husers, hroles, hwritten, hwrittenRole]

lemma match_userRole (harea : matchesWord adminPrefixes (surrogateEscape area) = true)
    (hwritten : written ≠ [] ∧ 47 ∉ written)
    (hwrittenRole : writtenRole ≠ [] ∧ 47 ∉ writtenRole) :
    adminMatch (AdminMatch.userRole (surrogateEscape area) written writtenRole).canonical =
      some (.userRole (asciiLower (surrogateEscape area)) written writtenRole) := by
  obtain ⟨hareaWord, -, -⟩ := lowered_word (by decide) harea
  have husers : matchesWord ["users"] (text "users") = true := by decide
  have hroles : matchesWord ["roles"] (text "roles") = true := by decide
  refine (adminMatch_join (slash_userRole harea hwritten.2 hwrittenRole.2) hwrittenRole.1).trans ?_
  simp [matchSegments, hareaWord, husers, hroles, hwritten.1, hwrittenRole.1]

/-- A handler with one id reads the one the middleware has left. -/
lemma serves_userRoute {id : CodePoints}
    (harea : matchesWord adminPrefixes (surrogateEscape area) = true)
    (hroute : matchesWord ["status", "roles", "revoke-sessions"] (surrogateEscape route) = true)
    (hwritten : written ≠ [] ∧ 47 ∉ written) :
    Serves (.userRoute (surrogateEscape area) id (surrogateEscape route))
      (.userRoute (surrogateEscape area) written (surrogateEscape route)) := by
  refine ⟨_, match_userRoute harea hroute hwritten, ?_, ?_⟩
  · simp [AdminMatch.sameRoute, asciiLower_idem]
  · intro method handler hhandler x hx
    replace hhandler := (adminRoute_join
      (slash_userRoute harea hroute hwritten.2) method).symm.trans hhandler
    simp only [routeSegments, List.cons_append, List.nil_append] at hhandler
    split_ifs at hhandler <;> obtain rfl := Option.some.inj hhandler <;>
      · obtain rfl := List.mem_singleton.mp hx
        exact ⟨id, List.mem_singleton_self _, rfl⟩

/-- A handler with two ids reads the two the middleware has left. -/
lemma serves_userRole {id roleId : CodePoints}
    (harea : matchesWord adminPrefixes (surrogateEscape area) = true)
    (hwritten : written ≠ [] ∧ 47 ∉ written)
    (hwrittenRole : writtenRole ≠ [] ∧ 47 ∉ writtenRole) :
    Serves (.userRole (surrogateEscape area) id roleId)
      (.userRole (surrogateEscape area) written writtenRole) := by
  refine ⟨_, match_userRole harea hwritten hwrittenRole, ?_, ?_⟩
  · simp [AdminMatch.sameRoute, asciiLower_idem]
  · intro method handler hhandler x hx
    replace hhandler := (adminRoute_join
      (slash_userRole harea hwritten.2 hwrittenRole.2) method).symm.trans hhandler
    simp only [routeSegments, List.cons_append, List.nil_append] at hhandler
    split_ifs at hhandler
    obtain rfl := Option.some.inj hhandler
    rcases List.mem_pair.mp hx with rfl | rfl
    · exact ⟨id, by simp [AdminMatch.parameters], rfl⟩
    · exact ⟨roleId, by simp [AdminMatch.parameters], rfl⟩

/-- A path that the pattern of the roles accepts does not serve for one of the other. -/
lemma not_serves_userRole {area' id route' : CodePoints}
    (harea : matchesWord adminPrefixes (surrogateEscape area) = true)
    (hwritten : written ≠ [] ∧ 47 ∉ written)
    (hwrittenRole : writtenRole ≠ [] ∧ 47 ∉ writtenRole) :
    ¬ Serves (.userRoute area' id route')
      (.userRole (surrogateEscape area) written writtenRole) := by
  rintro ⟨m, haccepted, hsame, -⟩
  rw [match_userRole harea hwritten hwrittenRole] at haccepted
  obtain rfl := Option.some.inj haccepted
  simp [AdminMatch.sameRoute] at hsame

lemma not_serves_userRoute {area' id roleId : CodePoints}
    (harea : matchesWord adminPrefixes (surrogateEscape area) = true)
    (hroute : matchesWord ["status", "roles", "revoke-sessions"] (surrogateEscape route) = true)
    (hwritten : written ≠ [] ∧ 47 ∉ written) :
    ¬ Serves (.userRole area' id roleId)
      (.userRoute (surrogateEscape area) written (surrogateEscape route)) := by
  rintro ⟨m, haccepted, hsame, -⟩
  rw [match_userRoute harea hroute hwritten] at haccepted
  obtain rfl := Option.some.inj haccepted
  simp [AdminMatch.sameRoute] at hsame

end written

/-! ## The exact condition -/

lemma decodedSegments_slash {bytes : List UInt8} {segment : CodePoints}
    (h : segment ∈ decodedSegments bytes) : 47 ∉ segment :=
  notMem_of_mem_splitOn h

lemma misSegmented_userRoute (bytes : List UInt8) (area id route : CodePoints) :
    misSegmented bytes (.userRoute area id route) = match (serverDecode id).splitOn 47 with
      | [user, word] => decide (user ≠ []) && matchesWord ["roles"] word
      | _ => false := rfl

lemma serves_iff_userRoute {bytes area users id route : List UInt8} {tail : List (List UInt8)}
    (htail : Trailing tail) (hsplit : bytes.splitOn 47 = [[], area, users, id, route] ++ tail)
    (harea : matchesWord adminPrefixes (surrogateEscape area) = true)
    (husers : matchesWord ["users"] (surrogateEscape users) = true) (hid : id ≠ [])
    (hroute : matchesWord ["status", "roles", "revoke-sessions"] (surrogateEscape route) = true) :
    Serves (.userRoute (surrogateEscape area) (surrogateEscape id) (surrogateEscape route))
        ((adminMatch (withoutTrailingSlash (unquote bytes))).getD
          (.userRoute (surrogateEscape area) (surrogateEscape id) (surrogateEscape route))) ↔
      misSegmented bytes (.userRoute (surrogateEscape area) (surrogateEscape id)
        (surrogateEscape route)) = false := by
  have hrouteNe : surrogateEscape route ≠ [] := fun h =>
    (spelled_of_matchesWord (by decide) hroute).2.2.1 (surrogateEscape_eq_nil.mp h)
  have hrouteSlash : 47 ∉ surrogateEscape route := fun h =>
    (spelled_of_matchesWord (by decide) hroute).2.1 (slash_mem_surrogateEscape.mp h)
  have hidSlash : 47 ∉ surrogateEscape id := by
    have hmem : id ∈ bytes.splitOn 47 := by simp [hsplit]
    exact fun h => notMem_of_mem_splitOn hmem (slash_mem_surrogateEscape.mp h)
  have hcore : [[], area, users, id, route].flatMap decodedSegments =
      [[], surrogateEscape area, surrogateEscape users] ++ decodedSegments id ++
        [surrogateEscape route] := by
    have hnil : decodedSegments [] = [[]] := rfl
    simp [hnil, decodedSegments_word (by decide) harea, decodedSegments_word (by decide) husers,
      decodedSegments_word (by decide) hroute]
  have hraw : Serves (.userRoute (surrogateEscape area) (surrogateEscape id)
      (surrogateEscape route))
      (.userRoute (surrogateEscape area) (surrogateEscape id) (surrogateEscape route)) :=
    serves_userRoute harea hroute ⟨fun h => hid (surrogateEscape_eq_nil.mp h), hidSlash⟩
  rw [decoded_match hsplit htail hcore hrouteNe, misSegmented_userRoute,
    serverDecode_surrogateEscape, ← decodedSegments]
  rcases hsegments : decodedSegments id with _ | ⟨user, _ | ⟨word, _ | ⟨third, later⟩⟩⟩
  · exact absurd hsegments (List.splitOn_ne_nil _ _)
  · obtain rfl := eq_of_splitOn_singleton hsegments
    have hslash := decodedSegments_slash (hsegments ▸ List.mem_singleton_self (unquote id))
    have hmatch : matchSegments ([[], surrogateEscape area, surrogateEscape users] ++
        [unquote id] ++ [surrogateEscape route]) =
          some (.userRoute (surrogateEscape area) (unquote id) (surrogateEscape route)) := by
      simp [matchSegments, harea, husers, hroute, unquote_ne_nil hid]
    rw [hmatch]
    simp [serves_userRoute harea hroute ⟨unquote_ne_nil hid, hslash⟩]
  · have huser := decodedSegments_slash (hsegments ▸ List.mem_cons_self : user ∈ decodedSegments id)
    by_cases hroles : (decide (user ≠ []) && matchesWord ["roles"] word) = true
    · have hmatch : matchSegments ([[], surrogateEscape area, surrogateEscape users] ++
          [user, word] ++ [surrogateEscape route]) =
            some (.userRole (surrogateEscape area) user (surrogateEscape route)) := by
        simp only [Bool.and_eq_true, decide_eq_true_eq] at hroles
        simp [matchSegments, harea, husers, hroles.1, hroles.2, hrouteNe]
      rw [hmatch]
      simp only [Option.getD_some, hroles, Bool.true_eq_false, iff_false]
      rw [Bool.and_eq_true, decide_eq_true_eq] at hroles
      exact not_serves_userRole harea ⟨hroles.1, huser⟩ ⟨hrouteNe, hrouteSlash⟩
    · have hmatch : matchSegments ([[], surrogateEscape area, surrogateEscape users] ++
          [user, word] ++ [surrogateEscape route]) = none := by
        simp only [Bool.and_eq_true, decide_eq_true_eq, not_and, Bool.not_eq_true] at hroles
        simp only [matchSegments, List.cons_append, List.nil_append]
        rw [if_neg]
        simp only [Bool.and_eq_true, decide_eq_true_eq]
        rintro ⟨⟨⟨-, huserNe⟩, hword⟩, -⟩
        rw [hroles huserNe] at hword
        cases hword
      rw [hmatch]
      simp only [Option.getD_none, hraw, true_iff]
      exact Bool.not_eq_true _ ▸ hroles
  · have hmatch : matchSegments ([[], surrogateEscape area, surrogateEscape users] ++
        (user :: word :: third :: later) ++ [surrogateEscape route]) = none := by
      cases later <;> rfl
    rw [hmatch]
    simp [hraw]

/-- The segments of the decoded path when it has two ids. -/
lemma segments_userRole {bytes area users id roles roleId : List UInt8}
    {tail : List (List UInt8)}
    (hsplit : bytes.splitOn 47 = [[], area, users, id, roles, roleId] ++ tail)
    (harea : matchesWord adminPrefixes (surrogateEscape area) = true)
    (husers : matchesWord ["users"] (surrogateEscape users) = true)
    (hroles : matchesWord ["roles"] (surrogateEscape roles) = true) :
    (unquote bytes).splitOn 47 = [] :: surrogateEscape area :: surrogateEscape users ::
      (decodedSegments id ++ surrogateEscape roles ::
        (decodedSegments roleId ++ tail.flatMap decodedSegments)) := by
  have hnil : decodedSegments [] = [[]] := rfl
  have hpath : (unquote bytes).splitOn 47 = (bytes.splitOn 47).flatMap decodedSegments :=
    splitOn_of_slash unquote_slash bytes
  rw [hpath, hsplit]
  simp [hnil, decodedSegments_word (by decide) harea, decodedSegments_word (by decide) husers,
    decodedSegments_word (by decide) hroles]

/-- Only empty segments that end the path make five segments out of it. -/
lemma slash_of_five {id roleId roles : List UInt8} {tail : List (List UInt8)}
    {left : List CodePoints} {user word : CodePoints} (hroles : surrogateEscape roles ≠ [])
    (hroleId : roleId ≠ []) (hleft : Trailing left)
    (h : decodedSegments id ++ surrogateEscape roles ::
      (decodedSegments roleId ++ tail.flatMap decodedSegments) = user :: word :: left) :
    decodedSegments id = [user] ∧ word = surrogateEscape roles ∧ unquote roleId = [47] ∧
      tail.flatMap decodedSegments = [] := by
  have hempty : ∀ segment ∈ left, segment = [] := by
    rcases hleft with rfl | rfl | rfl <;> simp
  rcases hid : decodedSegments id with _ | ⟨x, _ | ⟨y, more⟩⟩
  · exact absurd hid (List.splitOn_ne_nil _ _)
  · rw [hid] at h
    simp only [List.cons_append, List.nil_append, List.cons.injEq] at h
    obtain ⟨rfl, rfl, h⟩ := h
    refine ⟨rfl, rfl, ?_⟩
    rcases hrole : decodedSegments roleId with _ | ⟨first, _ | ⟨second, later⟩⟩
    · exact absurd hrole (List.splitOn_ne_nil _ _)
    · have hfirst := hempty first (h ▸ by simp [hrole])
      subst hfirst
      exact absurd (eq_of_splitOn_singleton hrole).symm (unquote_ne_nil hroleId)
    · rw [hrole] at h
      have hvalue : [47].intercalate (decodedSegments roleId) = unquote roleId :=
        List.intercalate_splitOn 47
      rcases hleft with rfl | rfl | rfl
      · simp at h
      · simp at h
      · obtain ⟨rfl, rfl, hlater⟩ : first = [] ∧ second = [] ∧
            later ++ tail.flatMap decodedSegments = [] := by simpa using h
        obtain ⟨rfl, htail⟩ := List.append_eq_nil_iff.mp hlater
        rw [hrole] at hvalue
        exact ⟨hvalue.symm, htail⟩
  · rw [hid] at h
    simp only [List.cons_append, List.cons.injEq] at h
    have hmem : surrogateEscape roles ∈ left := by
      rw [← h.2.2]
      simp
    exact absurd (hempty _ hmem) hroles

/-- The raw path ends with a slash just when an empty segment ends it. -/
lemma getLast_iff_tail {bytes last : List UInt8} {front tail : List (List UInt8)}
    (htail : Trailing tail) (hsplit : bytes.splitOn 47 = front ++ last :: tail)
    (hlast : last ≠ []) :
    bytes.getLast? = some 47 ↔ tail ≠ [] := by
  constructor
  · rintro hslash rfl
    obtain ⟨start, rfl⟩ := List.getLast?_eq_some_iff.mp hslash
    rw [List.splitOn_append_cons_self, List.splitOn_nil] at hsplit
    exact hlast (List.append_inj_right' hsplit rfl |> List.cons.inj).1.symm
  · intro hne
    refine getLast_of_splitOn ?_ ?_
    · rintro rfl
      rcases htail with rfl | rfl | rfl
      · exact hne rfl
      · have hlength := congrArg List.length hsplit
        simp at hlength
      · have hlength := congrArg List.length hsplit
        simp at hlength
    · rw [hsplit]
      rcases htail with rfl | rfl | rfl
      · exact absurd rfl hne
      · simp
      · simp

lemma serves_iff_userRole {bytes area users id roles roleId : List UInt8}
    {tail : List (List UInt8)} (htail : Trailing tail)
    (hsplit : bytes.splitOn 47 = [[], area, users, id, roles, roleId] ++ tail)
    (harea : matchesWord adminPrefixes (surrogateEscape area) = true)
    (husers : matchesWord ["users"] (surrogateEscape users) = true) (hid : id ≠ [])
    (hroles : matchesWord ["roles"] (surrogateEscape roles) = true) (hroleId : roleId ≠ []) :
    Serves (.userRole (surrogateEscape area) (surrogateEscape id) (surrogateEscape roleId))
        ((adminMatch (withoutTrailingSlash (unquote bytes))).getD
          (.userRole (surrogateEscape area) (surrogateEscape id) (surrogateEscape roleId))) ↔
      misSegmented bytes (.userRole (surrogateEscape area) (surrogateEscape id)
        (surrogateEscape roleId)) = false := by
  have hrolesNe : surrogateEscape roles ≠ [] := fun h =>
    (spelled_of_matchesWord (by decide) hroles).2.2.1 (surrogateEscape_eq_nil.mp h)
  have hrouteWord : matchesWord ["status", "roles", "revoke-sessions"] (surrogateEscape roles) =
      true := by
    obtain ⟨word, hword, hequal⟩ := List.any_eq_true.mp hroles
    exact List.any_eq_true.mpr ⟨word, by simp_all, hequal⟩
  have hsegments := segments_userRole hsplit harea husers hroles
  have hslash : ∀ segment ∈ (unquote bytes).splitOn 47, 47 ∉ segment :=
    fun segment => notMem_of_mem_splitOn
  have hbytes : ∀ segment ∈ bytes.splitOn 47, 47 ∉ surrogateEscape segment := fun segment hs h =>
    notMem_of_mem_splitOn hs (slash_mem_surrogateEscape.mp h)
  have hraw : Serves (.userRole (surrogateEscape area) (surrogateEscape id)
      (surrogateEscape roleId))
      (.userRole (surrogateEscape area) (surrogateEscape id) (surrogateEscape roleId)) :=
    serves_userRole harea ⟨fun h => hid (surrogateEscape_eq_nil.mp h), hbytes _ (by simp [hsplit])⟩
      ⟨fun h => hroleId (surrogateEscape_eq_nil.mp h), hbytes _ (by simp [hsplit])⟩
  have hshape : bytes.splitOn 47 = [[], area, users, id, roles] ++ roleId :: tail := hsplit
  have hlastSlash := getLast_iff_tail htail hshape hroleId
  have hmis : misSegmented bytes (.userRole (surrogateEscape area) (surrogateEscape id)
      (surrogateEscape roleId)) = true ↔
        unquote roleId = [47] ∧ 47 ∉ unquote id ∧ tail = [] := by
    rw [misSegmented, serverDecode_surrogateEscape, serverDecode_surrogateEscape]
    simp only [Bool.and_eq_true, decide_eq_true_eq, ne_eq, hlastSlash, not_not, and_assoc]
  obtain ⟨left, hleft, hdecoded⟩ := dropEmpty_twice ((unquote bytes).splitOn 47)
  rw [adminMatch_withoutTrailingSlash]
  generalize hcore : dropEmpty (dropEmpty ((unquote bytes).splitOn 47)) = core at hdecoded ⊢
  by_cases hslashRole : unquote roleId = [47] ∧ 47 ∉ unquote id ∧ tail = []
  · have hfive : matchSegments core =
        some (.userRoute (surrogateEscape area) (unquote id) (surrogateEscape roles)) := by
      obtain ⟨hrole, huser, rfl⟩ := hslashRole
      have hone : decodedSegments id = [unquote id] := List.splitOn_eq_singleton huser
      have htwo : decodedSegments roleId = [[], []] := by
        rw [decodedSegments, hrole]
        rfl
      have hpath : (unquote bytes).splitOn 47 = [[], surrogateEscape area, surrogateEscape users,
          unquote id] ++ [surrogateEscape roles] ++ [[], []] := by
        rw [hsegments, hone, htwo]
        rfl
      rw [← hcore, hpath, dropEmpty_trailing hrolesNe (.inr (.inr rfl))]
      simp [matchSegments, harea, husers, hrouteWord, unquote_ne_nil hid]
    rw [hfive, hmis.mpr hslashRole]
    simp only [Option.getD_some, Bool.true_eq_false, iff_false]
    exact not_serves_userRoute harea hrouteWord ⟨unquote_ne_nil hid, hslashRole.2.1⟩
  · rw [Bool.eq_false_iff.mpr fun h => hslashRole (hmis.mp h)]
    simp only [iff_true]
    rw [hsegments] at hdecoded
    unfold matchSegments
    split
    · simp only [List.cons_append, List.nil_append, List.cons.injEq] at hdecoded
      have hmem : surrogateEscape roles ∈ left := by
        rw [← hdecoded.2.2.2]
        simp
      have hempty : ∀ segment ∈ left, segment = [] := by
        rcases hleft with rfl | rfl | rfl <;> simp
      exact absurd (hempty _ hmem) hrolesNe
    · simp only [List.cons_append, List.nil_append, List.cons.injEq] at hdecoded
      obtain ⟨hone, -, hrole, htailNil⟩ := slash_of_five hrolesNe hroleId hleft hdecoded.2.2.2
      refine absurd ⟨hrole, ?_, ?_⟩ hslashRole
      · have huser := eq_of_splitOn_singleton hone
        exact huser ▸ decodedSegments_slash (hone ▸ List.mem_singleton_self _)
      · rcases htail with rfl | rfl | rfl
        · rfl
        · cases htailNil
        · cases htailNil
    · rename_i area' users' id' roles' roleId'
      simp only [List.cons_append, List.nil_append, List.cons.injEq, true_and] at hdecoded
      split
      · rename_i hwords
        simp only [Bool.and_eq_true, decide_eq_true_eq] at hwords
        have hmem : ∀ segment ∈ [id', roleId'], 47 ∉ segment := by
          intro segment hs
          refine hslash segment ?_
          rw [hsegments, hdecoded.1, hdecoded.2.1, hdecoded.2.2]
          rcases List.mem_pair.mp hs with rfl | rfl <;> simp
        rw [← hdecoded.1]
        exact serves_userRole harea ⟨hwords.1.1.2, hmem _ (by simp)⟩ ⟨hwords.2, hmem _ (by simp)⟩
      · exact hraw
    · exact hraw

/-- An accepted raw path keeps its route and the ids it names unless its decoding splits as
the path of another route. -/
theorem keepsRouteAndTarget_iff {bytes : List UInt8} {m : AdminMatch}
    (hmatch : adminMatch (withoutTrailingSlash (surrogateEscape bytes)) = some m) :
    KeepsRouteAndTarget bytes m ↔ misSegmented bytes m = false := by
  rw [keeps_iff_serves hmatch]
  cases spelled_of_adminMatch hmatch with
  | @collection area route tail trailing split area_word route_word =>
    have hnil : decodedSegments [] = [[]] := rfl
    have hrouteNe : surrogateEscape route ≠ [] := fun h =>
      (spelled_of_matchesWord (by decide) route_word).2.2.1 (surrogateEscape_eq_nil.mp h)
    have hcore : [[], area, route].flatMap decodedSegments =
        [[], surrogateEscape area] ++ [surrogateEscape route] := by
      simp [hnil, decodedSegments_word (by decide) area_word,
        decodedSegments_word (by decide) route_word]
    have hsame : matchSegments ([[], surrogateEscape area] ++ [surrogateEscape route]) =
        some (.collection (surrogateEscape area) (surrogateEscape route)) := by
      simp [matchSegments, area_word, route_word]
    rw [decoded_match split trailing hcore hrouteNe, hsame]
    simp [serves_collection area_word route_word, misSegmented]
  | userRoute trailing split area_word users_word id_ne route_word =>
    exact serves_iff_userRoute trailing split area_word users_word id_ne route_word
  | userRole trailing split area_word users_word id_ne roles_word roleId_ne =>
    exact serves_iff_userRole trailing split area_word users_word id_ne roles_word roleId_ne

/-- `/admin/users/alice%2Fbob/status`. -/
def userWithSlash : List UInt8 :=
  [47, 97, 100, 109, 105, 110, 47, 117, 115, 101, 114, 115, 47, 97, 108, 105, 99, 101, 37,
   50, 70, 98, 111, 98, 47, 115, 116, 97, 116, 117, 115]

theorem userWithSlash_kept :
    adminMatch (withoutTrailingSlash (surrogateEscape userWithSlash)) =
        some (.userRoute (text "admin") (text "alice%2Fbob") (text "status")) ∧
      KeepsRouteAndTarget userWithSlash
        (.userRoute (text "admin") (text "alice%2Fbob") (text "status")) := by
  have hmatch : adminMatch (withoutTrailingSlash (surrogateEscape userWithSlash)) =
      some (.userRoute (text "admin") (text "alice%2Fbob") (text "status")) := by decide +kernel
  exact ⟨hmatch, (keepsRouteAndTarget_iff hmatch).mpr (by decide +kernel)⟩

/-- `/admin/users/alice%2Froles/status`. -/
def userWithRoles : List UInt8 :=
  [47, 97, 100, 109, 105, 110, 47, 117, 115, 101, 114, 115, 47, 97, 108, 105, 99, 101, 37,
   50, 70, 114, 111, 108, 101, 115, 47, 115, 116, 97, 116, 117, 115]

/-- The ids of the user and of the role that are deleted are no ids of the raw path. -/
theorem userWithRoles_misrouted :
    let m := AdminMatch.userRoute (text "admin") (text "alice%2Froles") (text "status")
    adminMatch (withoutTrailingSlash (surrogateEscape userWithRoles)) = some m ∧
      adminRoute "DELETE" (text "/admin/users/alice/roles/status") =
        some (.removeRole (text "alice") (text "status")) ∧
      KnownPathCompatibilityMiddleware.rewrite ⟨"DELETE", userWithRoles⟩ =
        some (text "/admin/users/alice/roles/status") ∧
      (AdminHandler.removeRole (text "alice") (text "status")).reads
          (expressAdminPathParams ⟨"DELETE", userWithRoles⟩) =
        [("id", text "alice/roles"), ("roleId", text "status")] ∧
      ¬ KeepsRouteAndTarget userWithRoles m := by
  have hrewrite : KnownPathCompatibilityMiddleware.rewrite ⟨"DELETE", userWithRoles⟩ =
      some (text "/admin/users/alice/roles/status") := by decide +kernel
  have haccepted : adminMatch (text "/admin/users/alice/roles/status") =
      some (.userRole (text "admin") (text "alice") (text "status")) := by decide +kernel
  refine ⟨by decide +kernel, by decide +kernel, hrewrite, by decide +kernel, fun hkeeps => ?_⟩
  obtain ⟨path, m', hpath, hm', hsame, -⟩ := hkeeps "DELETE"
  obtain rfl := Option.some.inj (hrewrite.symm.trans hpath)
  obtain rfl := Option.some.inj (haccepted.symm.trans hm')
  cases hsame

end WiseacctSso.AdminRouting
