import WiseacctSso.RedirectUris

/-!
# Responses to a registered redirect URI

A relying party registers its redirect URIs, and the provider answers an authorization request by
adding parameters to one of them: two builders do that, one for a code and one for an error.
-/
open PythonText
namespace WiseacctSso.OidcRedirects
open FormEncoding UrlSplitting RedirectUris

/-! ## The check on a registered URI -/

def loopbackHosts : List Text := ["127.0.0.1".toList, "::1".toList, "localhost".toList]

def responseParameters : List String := ["code", "state", "error", "error_description"]

/-- The check on the parts of a URI, once they and the port are known. -/
def validateParts (lib : HostLibrary) (parsed : Parts) (port : Option ℕ) : Except String Unit :=
  match hostname lib parsed.netloc with
  | none => .error "OIDC redirectUris must be valid absolute URLs"
  | some host =>
    if parsed.scheme ∉ [http, https] ∨ ¬ isAsciiText host ∨ '%' ∈ host ∨
        username parsed.netloc ≠ none ∨ password parsed.netloc ≠ none ∨
        (port = none ∧ ':' ∈ afterLast ']' parsed.netloc) then
      .error "OIDC redirectUris must be valid absolute URLs"
    else if parsed.scheme = http ∧ host ∉ loopbackHosts then
      .error "OIDC redirectUris must use HTTPS"
    else if (parseQsl parsed.query).any fun entry => entry.1 ∈ responseParameters then
      .error "OIDC redirectUris must not predefine authorization response parameters"
    else .ok ()

def validateRedirectUri (lib : HostLibrary) (value : Text) : Except String Unit :=
  if value ≠ strip value ∨ value.any (fun c => isSpace c || c.toNat ≤ 0x20) ∨ '#' ∈ value ∨
      '*' ∈ value ∨ '\\' ∈ value then
    .error "OIDC redirectUris must be exact absolute URLs without fragments"
  else
    match urlsplit lib.toNetlocRules value with
    | none => .error "OIDC redirectUris must be valid absolute URLs"
    | some parsed =>
      match port parsed.netloc with
      | none => .error "OIDC redirectUris must be valid absolute URLs"
      | some port => validateParts lib parsed port

/-! ## The builders -/

def urlencode (values : List (String × String)) : Text := queryText quotePlusEncoder values

/-- `_url_with_query` of the service. -/
def urlWithQuery (url : Text) (values : List (String × String)) : Text :=
  let base := before '#' url
  let separator : Text :=
    if '?' ∉ base then ['?']
    else if base.getLast? = some '?' ∨ base.getLast? = some '&' then []
    else ['&']
  let rendered := base ++ separator ++ urlencode values
  if '#' ∉ url then rendered else rendered ++ '#' :: after '#' url

/-- The URL that `_service_error_response` hands to `RedirectResponse`, which percent-encodes what
may not stand in a header. -/
def errorResponseUrl (redirectUri : Text) (values : List (String × String)) : Text :=
  redirectUri ++ (if '?' ∈ redirectUri then ['&'] else ['?']) ++ urlencode values

def stateValue (state : Option String) : List (String × String) :=
  state.toList.map fun s => ("state", s)

def codeValues (code : String) (state : Option String) : List (String × String) :=
  ("code", code) :: stateValue state

def errorValues (error description : String) (state : Option String) : List (String × String) :=
  ("error", error) :: ("error_description", description) :: stateValue state

/-! ## Adding exactly the parameters -/

/-- The URI stays in front, its own parameters come first and the values last, each the only one of
its name. -/
def AddsExactly (rules : NetlocRules) (uri url : Text) (values : List (String × String)) : Prop :=
  uri <+: url ∧ ∃ parts received, urlsplit rules uri = some parts ∧
    urlsplit rules url = some received ∧
    parseQsl received.query = parseQsl parts.query ++ values ∧
    ∀ entry ∈ values, (parseQsl received.query).filter (·.1 = entry.1) = [entry]

/-- The URI ends in a question mark behind an earlier one. -/
def endsInSecondMark (uri : Text) : Bool := (after '?' uri).getLast? = some '?'

/-- What the check has found out. -/
structure Registered (lib : HostLibrary) (uri : Text) (parts : Parts) : Prop where
  written : ∃ w : Written lib.toNetlocRules uri parts, w.fragmentPart = [] ∧
    uri = w.name ++ ':' :: '/' :: '/' :: (parts.netloc ++ (parts.path ++ w.queryPart))
  names : ∀ entry ∈ parseQsl parts.query, entry.1 ∉ responseParameters
  hash : '#' ∉ uri

section registered

variable {lib : HostLibrary} {uri : Text}

lemma validateParts_ok {parts : Parts} {port : Option ℕ}
    (h : validateParts lib parts port = .ok ()) :
    parts.netloc ≠ [] ∧ parts.scheme ∈ [http, https] ∧
      ∀ entry ∈ parseQsl parts.query, entry.1 ∉ responseParameters := by
  unfold validateParts at h
  split at h
  · cases h
  rename_i host hhost
  split_ifs at h with hparts hscheme hnames
  refine ⟨?_, ?_, ?_⟩
  · rintro hnil
    rw [hnil] at hhost
    simp [hostname, hostinfo, afterLast, before] at hhost
  · by_contra hnot
    exact hparts (.inl hnot)
  · simpa using hnames

lemma registered_of_ok (h : validateRedirectUri lib uri = .ok ()) :
    ∃ parts, Registered lib uri parts := by
  unfold validateRedirectUri at h
  split_ifs at h with htext
  simp only [not_or] at htext
  obtain ⟨-, hspace, hhash, -⟩ := htext
  split at h
  · cases h
  rename_i parts hparts
  split at h
  · cases h
  obtain ⟨hnetloc, hscheme, hnames⟩ := validateParts_ok h
  have hprintable : ∀ c ∈ uri, 33 ≤ c.toNat := by
    intro c hc
    by_contra hlow
    refine hspace (List.any_eq_true.mpr ⟨c, hc, ?_⟩)
    simp only [Bool.or_eq_true, decide_eq_true_eq]
    omega
  have hne : parts.scheme ≠ [] := by
    rintro hnil
    rw [hnil] at hscheme
    revert hscheme
    decide
  obtain ⟨w⟩ := written_of_netloc hparts hne hnetloc
  have htext := w.text
  rw [cleaned_of_printable hprintable] at htext
  have hfragment : w.fragmentPart = [] := by
    obtain hfragment | hfragment := w.fragment_head
    · exact hfragment
    · have hmem : '#' ∈ w.fragmentPart := List.mem_of_mem_head? hfragment
      exact absurd (by rw [htext]; simp [hmem]) hhash
  rw [hfragment, List.append_nil] at htext
  exact ⟨parts, ⟨w, hfragment, htext⟩, hnames, hhash⟩

/-- Before its query, a URI has no question mark. -/
lemma Registered.front {parts : Parts} (h : Registered lib uri parts) :
    ∃ w : Written lib.toNetlocRules uri parts, ∃ front, '?' ∉ front ∧ '#' ∉ w.queryPart ∧
      front = w.name ++ ':' :: '/' :: '/' :: (parts.netloc ++ parts.path) ∧
      uri = front ++ w.queryPart := by
  obtain ⟨w, -, htext⟩ := h.written
  have hname : '?' ∉ w.name := by
    intro hmem
    have hscheme := w.isScheme
    simp only [isScheme, Bool.and_eq_true, List.all_eq_true] at hscheme
    exact absurd (hscheme.2 '?' hmem) (by decide)
  have hnetloc : '?' ∉ parts.netloc := fun hmem => absurd (w.netloc '?' hmem) (by decide)
  refine ⟨w, _, ?_, w.query_mem, rfl, ?_⟩
  · simp only [List.mem_append, List.mem_cons, not_or]
    exact ⟨hname, by decide, by decide, by decide, hnetloc, w.path_mem.1⟩
  · conv_lhs => rw [htext]
    simp only [List.append_assoc, List.cons_append]

/-- The query is what stands behind the first question mark. -/
lemma Registered.query {parts : Parts} (h : Registered lib uri parts) :
    parts.query = after '?' uri := by
  obtain ⟨w, front, hfront, -, -, htext⟩ := h.front
  rw [htext, after_append_left hfront, w.query]

/-- So it is with more text in the query. -/
lemma Registered.urlsplit_append {parts : Parts} (h : Registered lib uri parts)
    {extra : Text} (hextra : ∀ c ∈ extra, 33 ≤ c.toNat ∧ c ≠ '#')
    (hmark : '?' ∈ uri ∨ extra.head? = some '?') :
    ∃ received, urlsplit lib.toNetlocRules (uri ++ extra) = some received ∧
      received.query = after '?' (uri ++ extra) := by
  obtain ⟨w, front, hfront, hhash, hparts, htext⟩ := h.front
  have hurl : uri ++ extra = front ++ (w.queryPart ++ extra) := by
    rw [← List.append_assoc, ← htext]
  have hhead : w.queryPart ++ extra = [] ∨ (w.queryPart ++ extra).head? = some '?' := by
    obtain hnil | hhead := w.query_head
    · obtain hmem | hextra := hmark
      · rw [htext, hnil, List.append_nil] at hmem
        exact absurd hmem hfront
      · exact .inr (by rw [hnil, List.nil_append, hextra])
    · exact .inr (by rw [List.head?_append, hhead, Option.some_or])
  have hmem : '#' ∉ w.queryPart ++ extra := by
    rw [List.mem_append, not_or]
    exact ⟨hhash, fun hc => (hextra _ hc).2 rfl⟩
  have hdropped : ∀ c ∈ (w.queryPart ++ extra) ++ [], isDropped c = false := by
    intro c hc
    rw [List.append_nil, List.mem_append] at hc
    obtain hc | hc := hc
    · have hcleaned : c ∈ cleaned uri := by
        rw [w.text]
        simp [hc]
      exact not_isDropped_of_mem hcleaned
    · exact not_isDropped_of_printable (hextra c hc).1
  have hsplit := urlsplit_rewrite w w.isScheme w.scheme.symm hhead hmem (.inl rfl) hdropped
  have hnew : front ++ (w.queryPart ++ extra) = w.name ++ ':' :: '/' :: '/' ::
      (parts.netloc ++ (parts.path ++ ((w.queryPart ++ extra) ++ []))) := by
    rw [hparts]
    simp only [List.append_assoc, List.cons_append, List.append_nil]
  rw [hurl, after_append_left hfront, hnew]
  exact ⟨_, hsplit, rfl⟩

end registered

/-! ## Both builders -/

section builders

variable {lib : HostLibrary} {uri : Text} {values : List (String × String)}

lemma mem_urlencode {c : Char} (h : c ∈ urlencode values) : 33 ≤ c.toNat ∧ c ≠ '#' :=
  mem_queryText _ h

lemma filter_name {entry : String × String} (hnodup : (values.map Prod.fst).Nodup)
    (hentry : entry ∈ values) : values.filter (·.1 = entry.1) = [entry] := by
  induction values with
  | nil => cases hentry
  | cons head tail ih =>
    rw [List.map_cons, List.nodup_cons] at hnodup
    obtain rfl | hentry := List.mem_cons.mp hentry
    · have htail : tail.filter (·.1 = entry.1) = [] := by
        rw [List.filter_eq_nil_iff]
        intro other hother heq
        have hname : other.1 = entry.1 := by simpa using heq
        exact hnodup.1 (hname ▸ List.mem_map_of_mem hother)
      rw [List.filter_cons_of_pos (by simp), htail]
    · have hne : head.1 ≠ entry.1 := fun heq =>
        hnodup.1 (heq ▸ List.mem_map_of_mem hentry)
      rw [List.filter_cons_of_neg (by simpa using hne), ih hnodup.2 hentry]

/-- With the separator that its query needs, the URI gets exactly the values. -/
lemma addsExactly {parts : Parts} (h : Registered lib uri parts) {separator : Text}
    (hseparator : ∀ c ∈ separator, c ∈ ['?', '&'])
    (hmark : '?' ∈ uri ∨ separator.head? = some '?')
    (hparse : parseQsl (after '?' (uri ++ separator ++ urlencode values)) =
      parseQsl (after '?' uri) ++ values)
    (hvalues : ∀ entry ∈ values, entry.1 ∈ responseParameters)
    (hnodup : (values.map Prod.fst).Nodup) :
    AddsExactly lib.toNetlocRules uri (uri ++ separator ++ urlencode values) values := by
  have hextra : ∀ c ∈ separator ++ urlencode values, 33 ≤ c.toNat ∧ c ≠ '#' := by
    intro c hc
    rw [List.mem_append] at hc
    obtain hc | hc := hc
    · have hmem := hseparator c hc
      simp only [List.mem_cons, List.not_mem_nil, or_false] at hmem
      obtain rfl | rfl := hmem <;> decide
    · exact mem_urlencode hc
  have hhead : '?' ∈ uri ∨ (separator ++ urlencode values).head? = some '?' := by
    obtain hmem | hhead := hmark
    · exact .inl hmem
    · exact .inr (by rw [List.head?_append, hhead, Option.some_or])
  obtain ⟨received, hreceived, hquery⟩ := h.urlsplit_append hextra hhead
  obtain ⟨w, -⟩ := h.written
  rw [← List.append_assoc] at hreceived hquery
  rw [← hquery, ← h.query] at hparse
  refine ⟨⟨_, (List.append_assoc ..).symm⟩, parts, received, w.urlsplit_eq, hreceived, hparse, ?_⟩
  intro entry hentry
  have hold : (parseQsl parts.query).filter (·.1 = entry.1) = [] := by
    rw [List.filter_eq_nil_iff]
    intro old hold heq
    have hname : old.1 = entry.1 := by simpa using heq
    exact h.names old hold (hname ▸ hvalues entry hentry)
  rw [hparse, List.filter_append, hold, List.nil_append, filter_name hnodup hentry]

lemma parseQsl_urlencode : parseQsl (urlencode values) = values := parseQsl_queryText _ values

/-- The text behind the first question mark, if there is one, ends as the URI does. -/
lemma getLast?_after (hmem : '?' ∈ uri) (hne : after '?' uri ≠ []) :
    (after '?' uri).getLast? = uri.getLast? := by
  conv_rhs => rw [eq_before_append hmem]
  rw [List.getLast?_append, List.getLast?_cons, List.getLast?_eq_some_getLast hne]
  simp

lemma parse_newQuery (h : '?' ∉ uri) :
    parseQsl (after '?' (uri ++ ['?'] ++ urlencode values)) =
      parseQsl (after '?' uri) ++ values := by
  rw [List.append_assoc, List.singleton_append, after_append h, after_of_not_mem h,
    parseQsl_urlencode]
  rfl

lemma parse_ampersand (h : '?' ∈ uri) :
    parseQsl (after '?' (uri ++ ['&'] ++ urlencode values)) =
      parseQsl (after '?' uri) ++ values := by
  rw [List.append_assoc, List.singleton_append, after_append_right h, parseQsl_append,
    parseQsl_urlencode]

/-- Nothing stands between a final ampersand, or the mark of an empty query, and the values. -/
lemma parse_bare (h : '?' ∈ uri)
    (hlast : after '?' uri = [] ∨ (after '?' uri).getLast? = some '&') :
    parseQsl (after '?' (uri ++ [] ++ urlencode values)) = parseQsl (after '?' uri) ++ values := by
  rw [List.append_nil, after_append_right h]
  obtain hnil | hlast := hlast
  · rw [hnil, List.nil_append, parseQsl_urlencode]
    rfl
  · obtain ⟨query, hquery⟩ := List.getLast?_eq_some_iff.mp hlast
    rw [hquery, List.append_assoc, List.singleton_append, parseQsl_append, parseQsl_append,
      parseQsl_urlencode, show parseQsl [] = [] from rfl, List.append_nil]

/-- A field that runs into the values counts no more. -/
lemma length_merged {field : Text} (hmem : '&' ∉ field) (hvalues : values ≠ []) :
    (parseQsl (field ++ urlencode values)).length = values.length := by
  obtain ⟨entry, rest, rfl⟩ := List.exists_cons_of_ne_nil hvalues
  have hmerged : '&' ∉ field ++ pairText quotePlusEncoder entry := by
    rw [List.mem_append, not_or]
    exact ⟨hmem, not_mem_pairText quotePlusEncoder (by simp) entry⟩
  have hne : field ++ pairText quotePlusEncoder entry ≠ [] := by simp [pairText]
  cases rest with
  | nil =>
    have hencode : urlencode [entry] = pairText quotePlusEncoder entry := by
      simp [urlencode, queryText, List.intercalate]
    rw [hencode, parseQsl_field hne hmerged]
    rfl
  | cons next rest =>
    have hencode : urlencode (entry :: next :: rest) =
        pairText quotePlusEncoder entry ++ '&' :: urlencode (next :: rest) := by
      simp [urlencode, queryText, List.intercalate]
    rw [hencode, ← List.append_assoc, parseQsl_append, parseQsl_field hne hmerged,
      parseQsl_urlencode]
    rfl

/-- Behind a second mark at the end, the first value is lost in the last field. -/
lemma parse_merged (h : '?' ∈ uri) (hlast : (after '?' uri).getLast? = some '?')
    (hvalues : values ≠ []) :
    parseQsl (after '?' (uri ++ [] ++ urlencode values)) ≠
      parseQsl (after '?' uri) ++ values := by
  rw [List.append_nil, after_append_right h]
  set query := after '?' uri with hquery
  intro heq
  have hlength := congrArg List.length heq
  rw [List.length_append] at hlength
  by_cases hmem : '&' ∈ query
  · have hsplit : query = beforeLast '&' query ++ '&' :: afterLast '&' query := by
      have hreverse := eq_before_append (List.mem_reverse.mpr hmem)
      have := congrArg List.reverse hreverse
      simpa [beforeLast, afterLast] using this
    have hfield : '&' ∉ afterLast '&' query := by
      rw [afterLast, List.mem_reverse]
      exact not_mem_before _
    have hne : afterLast '&' query ≠ [] := by
      intro hnil
      rw [hsplit, hnil, List.getLast?_append, List.getLast?_singleton] at hlast
      simp at hlast
    rw [hsplit, List.append_assoc, List.cons_append, parseQsl_append, parseQsl_append,
      List.length_append, List.length_append, length_merged hfield hvalues,
      parseQsl_field hne hfield, List.length_singleton] at hlength
    omega
  · have hne : query ≠ [] := by
      intro hnil
      rw [hnil] at hlast
      cases hlast
    rw [length_merged hmem hvalues, parseQsl_field hne hmem, List.length_singleton] at hlength
    omega

lemma codeValues_names (code : String) (state : Option String) :
    (∀ entry ∈ codeValues code state, entry.1 ∈ responseParameters) ∧
      ((codeValues code state).map Prod.fst).Nodup := by
  cases state <;> simp [codeValues, stateValue, responseParameters]

lemma errorValues_names (error description : String) (state : Option String) :
    (∀ entry ∈ errorValues error description state, entry.1 ∈ responseParameters) ∧
      ((errorValues error description state).map Prod.fst).Nodup := by
  cases state <;> simp [errorValues, stateValue, responseParameters]

lemma errorResponseUrl_addsExactly {parts : Parts} (h : Registered lib uri parts)
    (hnames : ∀ entry ∈ values, entry.1 ∈ responseParameters)
    (hnodup : (values.map Prod.fst).Nodup) :
    AddsExactly lib.toNetlocRules uri (errorResponseUrl uri values) values := by
  unfold errorResponseUrl
  by_cases hmark : '?' ∈ uri
  · rw [if_pos hmark]
    exact addsExactly h (by simp) (.inl hmark) (parse_ampersand hmark) hnames hnodup
  · rw [if_neg hmark]
    exact addsExactly h (by simp) (.inr rfl) (parse_newQuery hmark) hnames hnodup

/-- Without a fragment, the builder for a code puts a separator and the values behind the URI. -/
lemma urlWithQuery_eq (hhash : '#' ∉ uri) : urlWithQuery uri values = uri ++
    (if '?' ∉ uri then ['?'] else if uri.getLast? = some '?' ∨ uri.getLast? = some '&' then []
      else ['&']) ++ urlencode values := by
  rw [urlWithQuery, before_of_not_mem hhash, if_pos hhash]

lemma urlWithQuery_addsExactly {parts : Parts} (h : Registered lib uri parts)
    (hnames : ∀ entry ∈ values, entry.1 ∈ responseParameters)
    (hnodup : (values.map Prod.fst).Nodup) (hvalues : values ≠ []) :
    AddsExactly lib.toNetlocRules uri (urlWithQuery uri values) values ↔
      endsInSecondMark uri = false := by
  rw [urlWithQuery_eq h.hash]
  by_cases hmark : '?' ∈ uri
  · rw [if_neg (not_not.mpr hmark)]
    by_cases hsecond : (after '?' uri).getLast? = some '?'
    · have hne : after '?' uri ≠ [] := by
        intro hnil
        rw [hnil] at hsecond
        cases hsecond
      rw [if_pos (.inl ((getLast?_after hmark hne).symm.trans hsecond))]
      have hends : endsInSecondMark uri = true := by simpa [endsInSecondMark] using hsecond
      simp only [hends, Bool.true_eq_false, iff_false]
      rintro ⟨-, parts', received, hparts, hreceived, hparse, -⟩
      obtain ⟨received', hreceived', hquery⟩ :=
        h.urlsplit_append (fun _ => mem_urlencode) (.inl hmark)
      obtain ⟨w, -⟩ := h.written
      rw [w.urlsplit_eq, Option.some.injEq] at hparts
      rw [List.append_nil, hreceived', Option.some.injEq] at hreceived
      rw [← hreceived, ← hparts, hquery, h.query] at hparse
      refine parse_merged hmark hsecond hvalues ?_
      rwa [List.append_nil]
    · have hends : endsInSecondMark uri = false := by simpa [endsInSecondMark] using hsecond
      simp only [hends, iff_true]
      split_ifs with hlast
      · refine addsExactly h (by simp) (.inl hmark) (parse_bare hmark ?_) hnames hnodup
        by_cases hnil : after '?' uri = []
        · exact .inl hnil
        · rw [← getLast?_after hmark hnil] at hlast
          obtain hlast | hlast := hlast
          · exact absurd hlast hsecond
          · exact .inr hlast
      · exact addsExactly h (by simp) (.inl hmark) (parse_ampersand hmark) hnames hnodup
  · have hends : endsInSecondMark uri = false := by
      simp [endsInSecondMark, after_of_not_mem hmark]
    rw [if_pos hmark]
    simp only [hends, iff_true]
    exact addsExactly h (by simp) (.inr rfl) (parse_newQuery hmark) hnames hnodup

end builders

/-- The URL of the error response, as it is handed to `RedirectResponse`, adds exactly its
parameters to every registered URI. The URL with a code does so if and only if the registered one
does not end in a question mark behind an earlier one. -/
theorem responses_addExactly (lib : HostLibrary) {uri : Text}
    (h : validateRedirectUri lib uri = .ok ()) :
    (∀ code state, AddsExactly lib.toNetlocRules uri (urlWithQuery uri (codeValues code state))
      (codeValues code state) ↔ endsInSecondMark uri = false) ∧
    ∀ error description state, AddsExactly lib.toNetlocRules uri
      (errorResponseUrl uri (errorValues error description state))
      (errorValues error description state) := by
  obtain ⟨parts, hparts⟩ := registered_of_ok h
  constructor
  · intro code state
    obtain ⟨hnames, hnodup⟩ := codeValues_names code state
    exact urlWithQuery_addsExactly hparts hnames hnodup (by simp [codeValues])
  · intro error description state
    obtain ⟨hnames, hnodup⟩ := errorValues_names error description state
    exact errorResponseUrl_addsExactly hparts hnames hnodup

/-- Hosts in ASCII. -/
def asciiLibrary : HostLibrary where
  nfkc text := text
  bracketed _ := true
  nfc text := text
  lower text := text.map Char.toLower
  punycode text := text
  ipv6 _ := none

theorem responses_addExactly_example :
    AddsExactly asciiLibrary.toNetlocRules "https://rp.example/cb?a=1".toList
      (urlWithQuery "https://rp.example/cb?a=1".toList (codeValues "c&d" (some "")))
      (codeValues "c&d" (some "")) := by
  have hvalid : validateRedirectUri asciiLibrary "https://rp.example/cb?a=1".toList = .ok () := by
    decide +kernel
  have hends : endsInSecondMark "https://rp.example/cb?a=1".toList = false := by decide +kernel
  exact ((responses_addExactly asciiLibrary hvalid).1 "c&d" (some "")).mpr hends

/-- The code ends up in the value of the URI's own parameter. -/
theorem code_lost : ∃ uri url received,
    validateRedirectUri asciiLibrary uri = .ok () ∧
    url = urlWithQuery uri (codeValues "c" none) ∧
    urlsplit asciiLibrary.toNetlocRules url = some received ∧
    parseQsl received.query = [("next", "?code=c")] ∧
    ¬ AddsExactly asciiLibrary.toNetlocRules uri url (codeValues "c" none) := by
  have hurl : urlWithQuery "https://rp.example/cb?next=?".toList (codeValues "c" none) =
      "https://rp.example/cb?next=?code=c".toList := by decide +kernel
  have hreceived : urlsplit asciiLibrary.toNetlocRules
      "https://rp.example/cb?next=?code=c".toList =
        some ⟨https, "rp.example".toList, "/cb".toList, "next=?code=c".toList, []⟩ := by
    decide +kernel
  have hparse : parseQsl "next=?code=c".toList = [("next", "?code=c")] := by decide +kernel
  refine ⟨"https://rp.example/cb?next=?".toList, "https://rp.example/cb?next=?code=c".toList, _,
    by decide +kernel, hurl.symm, hreceived, hparse, ?_⟩
  rintro ⟨-, parts, received, -, hsplit, -, hvalues⟩
  rw [hreceived, Option.some.injEq] at hsplit
  have hcode := hvalues ("code", "c") (by simp [codeValues])
  rw [← hsplit, hparse] at hcode
  simp at hcode

end WiseacctSso.OidcRedirects
