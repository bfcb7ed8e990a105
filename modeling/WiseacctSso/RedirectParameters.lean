import WiseacctSso.RedirectUris

/-!
# The parameters of a login's redirect

The code, and the state if there is one, are set in the query of a redirect URI as a browser's
`URLSearchParams` sets them, and nothing else of the URI changes.
-/
open PythonText
namespace WiseacctSso.RedirectUris
open FormEncoding UrlSplitting

/-- One name's round through the query; `replaced` tells whether its first entry was met. -/
def setParameter (name value : String) (replaced : Bool) :
    List (String × String) → List (String × String)
  | [] => if replaced then [] else [(name, value)]
  | entry :: query =>
    if entry.1 ≠ name then entry :: setParameter name value replaced query
    else if replaced then setParameter name value true query
    else (name, value) :: setParameter name value true query

/-- `_url_with_query`; none is a `ValueError` of `urlsplit`. -/
def urlWithQuery (rules : NetlocRules) (url : Text) (values : List (String × String)) :
    Option Text :=
  match urlsplit rules url with
  | none => none
  | some parsed =>
    let query := values.foldl (fun query entry => setParameter entry.1 entry.2 false query)
      (parseQsl parsed.query)
    let result := urlunsplit { parsed with query := queryText browserEncoder query }
    some (if url.getLast? = some '#' then result ++ ['#'] else result)

/-- A state that is empty counts as none. -/
def givenState (state : Option String) : Option String := state.filter (· ≠ "")

def redirectWithCode (rules : NetlocRules) (redirectUri : Text) (code : String)
    (state : Option String) : Option Text :=
  urlWithQuery rules redirectUri
    (("code", code) :: (givenState state).toList.map fun s => ("state", s))

/-! ## Setting a parameter -/

/-- The parameter's first entry is replaced and the later ones are removed; without one, an entry
is appended. -/
def Sets (name value : String) (query updated : List (String × String)) : Prop :=
  (∃ front old back, (∀ entry ∈ front, entry.1 ≠ name) ∧ query = front ++ (name, old) :: back ∧
    updated = front ++ (name, value) :: back.filter (·.1 ≠ name)) ∨
  ((∀ entry ∈ query, entry.1 ≠ name) ∧ updated = query ++ [(name, value)])

section sets

variable {name value : String} {query updated : List (String × String)}

lemma setParameter_true (query : List (String × String)) :
    setParameter name value true query = query.filter (·.1 ≠ name) := by
  induction query with
  | nil => rfl
  | cons entry query ih =>
    by_cases h : entry.1 = name
    · simp [setParameter, h, ih]
    · simp [setParameter, h, ih]

lemma setParameter_sets (query : List (String × String)) :
    Sets name value query (setParameter name value false query) := by
  induction query with
  | nil => exact .inr ⟨by simp, rfl⟩
  | cons entry query ih =>
    obtain ⟨n, old⟩ := entry
    by_cases h : n = name
    · subst h
      exact .inl ⟨[], old, query, by simp, rfl, by simp [setParameter, setParameter_true]⟩
    · have hhead : setParameter name value false ((n, old) :: query) =
          (n, old) :: setParameter name value false query := by
        simp [setParameter, h]
      rw [hhead]
      obtain ⟨front, v, back, hfront, rfl, hset⟩ | ⟨hquery, hset⟩ := ih
      · exact .inl ⟨(n, old) :: front, v, back, by simpa [h] using hfront, rfl, by rw [hset]; rfl⟩
      · exact .inr ⟨by simpa [h] using hquery, by rw [hset]; rfl⟩

lemma filter_of_all_ne {front : List (String × String)} (h : ∀ entry ∈ front, entry.1 ≠ name) :
    front.filter (·.1 = name) = [] := by
  rw [List.filter_eq_nil_iff]
  intro entry hentry
  simpa using h entry hentry

/-- There is exactly one entry of the name then. -/
lemma Sets.filter_name (h : Sets name value query updated) :
    updated.filter (·.1 = name) = [(name, value)] := by
  obtain ⟨front, old, back, hfront, rfl, rfl⟩ | ⟨hquery, rfl⟩ := h
  · have hback : ∀ entry ∈ back.filter (·.1 ≠ name), entry.1 ≠ name := by
      intro entry hentry
      simpa using (List.mem_filter.mp hentry).2
    rw [List.filter_append, filter_of_all_ne hfront, List.filter_cons_of_pos (by simp),
      filter_of_all_ne hback, List.nil_append]
  · rw [List.filter_append, filter_of_all_ne hquery]
    simp

/-- The other entries are as they were. -/
lemma Sets.filter_other (h : Sets name value query updated) {p : String × String → Bool}
    (hp : ∀ v, p (name, v) = false) : updated.filter p = query.filter p := by
  obtain ⟨front, old, back, -, rfl, rfl⟩ | ⟨-, rfl⟩ := h
  · have hback : (back.filter (·.1 ≠ name)).filter p = back.filter p := by
      rw [List.filter_filter]
      refine List.filter_congr fun entry _ => ?_
      by_cases hname : entry.1 = name
      · have hentry : p entry = false := by
          rw [← hp entry.2, ← hname]
        simp [hentry]
      · simp [hname]
    rw [List.filter_append, List.filter_append, List.filter_cons_of_neg (by simp [hp]),
      List.filter_cons_of_neg (by simp [hp]), hback]
  · rw [List.filter_append, List.filter_cons_of_neg (by simp [hp]), List.filter_nil,
      List.append_nil]

end sets

/-- What the receiver of a code and perhaps of a state finds in the query. -/
structure Receives (code : String) (given : Option String)
    (old query : List (String × String)) : Prop where
  sets : ∃ withCode, Sets "code" code old withCode ∧
    match given with
    | none => query = withCode
    | some s => Sets "state" s withCode query
  code : query.filter (·.1 = "code") = [("code", code)]
  state : query.filter (·.1 = "state") =
    match given with
    | none => old.filter (·.1 = "state")
    | some s => [("state", s)]
  others : query.filter (fun entry => entry.1 ≠ "code" ∧ entry.1 ≠ "state") =
    old.filter fun entry => entry.1 ≠ "code" ∧ entry.1 ≠ "state"

lemma receives_code {code : String} {old query : List (String × String)}
    (h : Sets "code" code old query) : Receives code none old query where
  sets := ⟨query, h, rfl⟩
  code := h.filter_name
  state := h.filter_other (by simp)
  others := h.filter_other (by simp)

lemma receives_state {code s : String} {old withCode query : List (String × String)}
    (hcode : Sets "code" code old withCode) (hstate : Sets "state" s withCode query) :
    Receives code (some s) old query where
  sets := ⟨withCode, hcode, hstate⟩
  code := (hstate.filter_other (by simp)).trans hcode.filter_name
  state := hstate.filter_name
  others := (hstate.filter_other (by simp)).trans (hcode.filter_other (by simp))

/-! ## The URL as a whole -/

/-- A canonical URI starts with its scheme and two slashes. -/
lemma canonicalRedirectUri_head {lib : HostLibrary} {value uri : Text}
    (h : canonicalRedirectUri lib value = some uri) :
    ∃ scheme rest, scheme ∈ [http, https] ∧ uri = scheme ++ ':' :: '/' :: '/' :: rest := by
  simp only [canonicalRedirectUri, Option.bind_eq_bind, Option.bind_eq_some_iff] at h
  obtain ⟨parsed, -, port, -, hostname, -, h⟩ := h
  by_cases hscheme : parsed.scheme ∈ [http, https]
  · rw [if_neg (not_not.mpr hscheme), Option.bind_eq_some_iff] at h
    obtain ⟨host, -, h⟩ := h
    exact ⟨parsed.scheme, _, hscheme, (Option.some.inj h).symm⟩
  · rw [if_pos hscheme] at h
    cases h

lemma isScheme_web {scheme : Text} (h : scheme ∈ [http, https]) :
    isScheme scheme = true ∧ scheme.map Char.toLower = scheme ∧ scheme ∈ usesNetloc := by
  simp only [List.mem_cons, List.not_mem_nil, or_false] at h
  obtain rfl | rfl := h <;> decide

lemma written_of_canonical {lib : HostLibrary} {value uri : Text} {parts : Parts}
    (h : canonicalRedirectUri lib value = some uri)
    (hsplit : urlsplit lib.toNetlocRules uri = some parts) :
    Nonempty (Written lib.toNetlocRules uri parts) ∧ parts.scheme ∈ [http, https] := by
  obtain ⟨scheme, rest, hmem, rfl⟩ := canonicalRedirectUri_head h
  obtain ⟨hscheme, hlower, -⟩ := isScheme_web hmem
  have hcolon := colon_not_mem_of_isScheme hscheme
  have hclean : cleaned (scheme ++ ':' :: '/' :: '/' :: rest) =
      scheme ++ ':' :: '/' :: '/' :: rest.filter (!isDropped ·) := by
    rw [cleaned_append hscheme]
    rfl
  have hbefore : before ':' (cleaned (scheme ++ ':' :: '/' :: '/' :: rest)) = scheme := by
    rw [hclean, before_append hcolon]
  have hafter : after ':' (cleaned (scheme ++ ':' :: '/' :: '/' :: rest)) =
      '/' :: '/' :: rest.filter (!isDropped ·) := by
    rw [hclean, after_append hcolon]
  have hmark : ':' ∈ cleaned (scheme ++ ':' :: '/' :: '/' :: rest) := by simp [hclean]
  refine ⟨written_of_urlsplit hsplit hmark (by rwa [hbefore]) hafter, ?_⟩
  have hparts : parts.scheme = scheme := by
    rw [urlsplit] at hsplit
    split_ifs at hsplit
    obtain rfl := Option.some.inj hsplit
    simp only [splitScheme]
    rw [if_pos ⟨hmark, by rwa [hbefore]⟩, hbefore, hlower]
  rwa [hparts]

lemma joinNetloc_web {p : Parts} (hscheme : p.scheme ∈ [http, https])
    (hpath : p.path = [] ∨ p.path.head? = some '/') :
    joinNetloc p = '/' :: '/' :: (p.netloc ++ p.path) := by
  have hne : p.scheme ≠ [] := by
    rintro hnil
    rw [hnil] at hscheme
    revert hscheme
    decide
  unfold joinNetloc
  by_cases hnetloc : p.netloc = []
  · have hjoin : p.scheme ≠ [] ∧ p.scheme ∈ usesNetloc ∧ (p.path = [] ∨ p.path.head? = some '/') :=
      ⟨hne, (isScheme_web hscheme).2.2, hpath⟩
    rw [if_neg (not_not.mpr hnetloc), hnetloc, List.nil_append]
    split_ifs <;> rfl
  · have hslash : ¬(p.path ≠ [] ∧ p.path.head? ≠ some '/') := by tauto
    rw [if_pos hnetloc, if_neg hslash]
    rfl

lemma urlunsplit_web {p : Parts} (hscheme : p.scheme ∈ [http, https])
    (hpath : p.path = [] ∨ p.path.head? = some '/') (hquery : p.query ≠ []) :
    urlunsplit p = p.scheme ++ ':' :: '/' :: '/' :: (p.netloc ++ (p.path ++ ('?' :: p.query ++
      if p.fragment ≠ [] then '#' :: p.fragment else []))) := by
  have hne : p.scheme ≠ [] := by
    rintro hnil
    rw [hnil] at hscheme
    revert hscheme
    decide
  rw [urlunsplit, if_pos hne, if_pos hquery, joinNetloc_web hscheme hpath]
  simp only [List.append_assoc, List.cons_append]

/-- The URI with another query splits into the same parts but for that query. -/
lemma urlsplit_updated {rules : NetlocRules} {uri : Text} {parts : Parts}
    (w : Written rules uri parts) (hscheme : parts.scheme ∈ [http, https])
    (hhash : uri.getLast? = some '#' → parts.fragment = []) {entries : List (String × String)}
    (hentries : entries ≠ []) :
    urlsplit rules
        (urlunsplit { parts with query := queryText browserEncoder entries } ++
          if uri.getLast? = some '#' then ['#'] else []) =
      some { parts with query := queryText browserEncoder entries } := by
  obtain ⟨hname, hlower, -⟩ := isScheme_web hscheme
  set query := queryText browserEncoder entries with hquery
  set fragment := (if parts.fragment ≠ [] then '#' :: parts.fragment else []) ++
    (if uri.getLast? = some '#' then ['#'] else []) with hfragment
  have hhead : fragment = [] ∨ fragment.head? = some '#' := by
    rw [hfragment]
    split_ifs <;> simp
  have hafter : after '#' fragment = parts.fragment := by
    rw [hfragment]
    split_ifs with h1 h2 h2
    · exact absurd (hhash h2) h1
    · rw [List.append_nil, after_cons_self]
    · rw [not_not.mp h1]
      rfl
    · rw [not_not.mp h1]
      rfl
  have hdropped : ∀ c ∈ ('?' :: query) ++ fragment, isDropped c = false := by
    intro c hc
    rw [List.mem_append, List.mem_cons, hfragment, List.mem_append] at hc
    obtain (rfl | hc) | hc | hc := hc
    · rfl
    · exact not_isDropped_of_printable (mem_queryText _ hc).1
    · split_ifs at hc
      · obtain rfl | hc := List.mem_cons.mp hc
        · rfl
        · have hcleaned : c ∈ cleaned uri := by
            rw [w.fragment] at hc
            rw [w.text]
            simp [mem_of_mem_after hc]
          exact not_isDropped_of_mem hcleaned
      · cases hc
    · split_ifs at hc
      · obtain rfl := List.mem_singleton.mp hc
        rfl
      · cases hc
  have hmem : '#' ∉ '?' :: query := by
    rw [List.mem_cons, not_or]
    exact ⟨by decide, fun h => (mem_queryText _ h).2 rfl⟩
  have hsplit := urlsplit_rewrite w hname hlower (.inr rfl) hmem hhead hdropped
  rw [hafter, after_cons_self] at hsplit
  rw [urlunsplit_web (p := { parts with query := query }) hscheme w.path_head
    (queryText_ne_nil _ hentries), ← hsplit, hfragment]
  simp only [List.append_assoc, List.cons_append]

lemma urlWithQuery_eq {rules : NetlocRules} {uri : Text} {parts : Parts}
    (w : Written rules uri parts) (hscheme : parts.scheme ∈ [http, https])
    (hhash : uri.getLast? = some '#' → parts.fragment = []) {values query : List (String × String)}
    (hvalues : values.foldl (fun query entry => setParameter entry.1 entry.2 false query)
      (parseQsl parts.query) = query) (hne : query ≠ []) :
    ∃ url, urlWithQuery rules uri values = some url ∧
      urlsplit rules url = some { parts with query := queryText browserEncoder query } := by
  have hupdated := urlsplit_updated w hscheme hhash hne
  rw [urlWithQuery, w.urlsplit_eq]
  refine ⟨_, rfl, ?_⟩
  simp only [hvalues]
  rw [← hupdated]
  split_ifs
  · rfl
  · rw [List.append_nil]

lemma ne_nil_of_filter {p : String × String → Bool} {entry : String × String}
    {query : List (String × String)} (h : query.filter p = [entry]) : query ≠ [] := by
  rintro rfl
  cases h

/-- Everything but the query is as in the URI. In the query the code is set, and then the state if
one was given. -/
theorem redirectWithCode_receives (lib : HostLibrary) {value uri : Text} {parts : Parts}
    (hcanonical : canonicalRedirectUri lib value = some uri)
    (hsplit : urlsplit lib.toNetlocRules uri = some parts)
    (hhash : uri.getLast? = some '#' → parts.fragment = []) (code : String)
    (state : Option String) :
    ∃ url received, redirectWithCode lib.toNetlocRules uri code state = some url ∧
      urlsplit lib.toNetlocRules url = some received ∧
      received.scheme = parts.scheme ∧ received.netloc = parts.netloc ∧
      received.path = parts.path ∧ received.fragment = parts.fragment ∧
      Receives code (givenState state) (parseQsl parts.query) (parseQsl received.query) := by
  obtain ⟨⟨w⟩, hscheme⟩ := written_of_canonical hcanonical hsplit
  have hcode : Sets "code" code (parseQsl parts.query)
      (setParameter "code" code false (parseQsl parts.query)) := setParameter_sets _
  unfold redirectWithCode
  cases givenState state with
  | none =>
    have hreceives := receives_code hcode
    have hset : [("code", code)].foldl (fun query entry => setParameter entry.1 entry.2 false query)
        (parseQsl parts.query) = setParameter "code" code false (parseQsl parts.query) := rfl
    obtain ⟨url, hurl, hreceived⟩ := urlWithQuery_eq w hscheme hhash hset
      (ne_nil_of_filter hreceives.code)
    refine ⟨url, _, hurl, hreceived, rfl, rfl, rfl, rfl, ?_⟩
    rw [parseQsl_queryText]
    exact hreceives
  | some s =>
    have hstate : Sets "state" s _ _ := setParameter_sets
      (setParameter "code" code false (parseQsl parts.query))
    have hreceives := receives_state hcode hstate
    have hset : [("code", code), ("state", s)].foldl
        (fun query entry => setParameter entry.1 entry.2 false query) (parseQsl parts.query) =
          setParameter "state" s false
            (setParameter "code" code false (parseQsl parts.query)) := rfl
    obtain ⟨url, hurl, hreceived⟩ := urlWithQuery_eq w hscheme hhash hset
      (ne_nil_of_filter hreceives.code)
    refine ⟨url, _, hurl, hreceived, rfl, rfl, rfl, rfl, ?_⟩
    rw [parseQsl_queryText]
    exact hreceives

/-- ASCII hosts and their full-width forms. -/
def fullWidthLibrary : HostLibrary where
  nfkc text := text.map fun c =>
    if 0xFF01 ≤ c.toNat ∧ c.toNat ≤ 0xFF5E then Char.ofNat (c.toNat - 0xFEE0) else c
  bracketed _ := true
  nfc text := text
  lower text := text.map Char.toLower
  punycode text := text
  ipv6 _ := none

/-- The code is replaced, the state is appended. -/
theorem redirectWithCode_receives_example :
    ∃ url received, redirectWithCode fullWidthLibrary.toNetlocRules
        "https://rp.example/cb?code=old&x=%C3%A9#top".toList "a b" (some "s&t") = some url ∧
      urlsplit fullWidthLibrary.toNetlocRules url = some received ∧
      Receives "a b" (some "s&t") (parseQsl "code=old&x=%C3%A9".toList)
        (parseQsl received.query) := by
  have hcanonical : canonicalRedirectUri fullWidthLibrary
      "HTTPS:rp.example:443/a/../cb?code=old&x=é#top".toList =
        some "https://rp.example/cb?code=old&x=%C3%A9#top".toList := by decide +kernel
  have hsplit : urlsplit fullWidthLibrary.toNetlocRules
      "https://rp.example/cb?code=old&x=%C3%A9#top".toList =
        some ⟨https, "rp.example".toList, "/cb".toList, "code=old&x=%C3%A9".toList,
          "top".toList⟩ := by decide +kernel
  obtain ⟨url, received, hurl, hreceived, -, -, -, -, hreceives⟩ :=
    redirectWithCode_receives fullWidthLibrary hcanonical hsplit (by decide) "a b" (some "s&t")
  exact ⟨url, received, hurl, hreceived, hreceives⟩

/-- Without a state, those of the URI stay, however many. And where the host's letters stand for a
hash or a bracket, the URI no longer reads as it was meant: a fragment grows, or nothing is read at
all. -/
theorem redirectWithCode_surprises :
    (∃ value uri url received, canonicalRedirectUri fullWidthLibrary value = some uri ∧
      redirectWithCode fullWidthLibrary.toNetlocRules uri "c" none = some url ∧
      urlsplit fullWidthLibrary.toNetlocRules url = some received ∧
      (parseQsl received.query).filter (·.1 = "state") = [("state", "1"), ("state", "2")]) ∧
    (∃ value uri url parts received, canonicalRedirectUri fullWidthLibrary value = some uri ∧
      urlsplit fullWidthLibrary.toNetlocRules uri = some parts ∧
      redirectWithCode fullWidthLibrary.toNetlocRules uri "c" none = some url ∧
      urlsplit fullWidthLibrary.toNetlocRules url = some received ∧
      received.fragment ≠ parts.fragment) ∧
    ∃ value uri, canonicalRedirectUri fullWidthLibrary value = some uri ∧
      redirectWithCode fullWidthLibrary.toNetlocRules uri "c" none = none := by
  refine ⟨⟨"https://rp.example/cb?state=1&state=2".toList,
      "https://rp.example/cb?state=1&state=2".toList,
      "https://rp.example/cb?state=1&state=2&code=c".toList,
      ⟨https, "rp.example".toList, "/cb".toList, "state=1&state=2&code=c".toList, []⟩, ?_⟩,
    ⟨"https://a%EF%BC%83b/cb#".toList, "https://a#b/cb#".toList, "https://a?code=c#b/cb##".toList,
      ⟨https, ['a'], [], [], "b/cb#".toList⟩, ⟨https, ['a'], [], "code=c".toList, "b/cb##".toList⟩,
      ?_⟩,
    ⟨"https://a%EF%BC%BBb/cb".toList, "https://a[b/cb".toList, ?_⟩⟩
  · decide +kernel
  · decide +kernel
  · decide +kernel

end WiseacctSso.RedirectUris
