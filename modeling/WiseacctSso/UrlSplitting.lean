import WiseacctSso.FormEncoding

/-!
# URLs as texts

A URL is split at the colon of its scheme, at the two slashes of its network location, at the
first hash and at the first question mark, and joined again from the five parts. Its query is a
list of fields. What the standard library knows beyond ASCII is a parameter.
-/
namespace UrlSplitting
open PythonText FormEncoding

structure Parts where
  scheme : Text
  netloc : Text
  path : Text
  query : Text
  fragment : Text
  deriving DecidableEq

/-! ## Splitting and joining -/

/-- `unicodedata.normalize("NFKC", ..)`, and whether brackets enclose an address. -/
structure NetlocRules where
  nfkc : Text → Text
  bracketed : Text → Bool

/-- The characters that splitting drops wherever they stand. -/
def isDropped (c : Char) : Bool := c = '\t' || c = '\r' || c = '\n'

def cleaned (url : Text) : Text := (url.dropWhile (·.toNat ≤ 0x20)).filter (!isDropped ·)

def isSchemeChar (c : Char) : Bool := c.isAlphanum || c = '+' || c = '-' || c = '.'

def isScheme (name : Text) : Bool := name.head?.any Char.isAlpha && name.all isSchemeChar

def splitScheme (url : Text) : Text × Text :=
  if ':' ∈ url ∧ isScheme (before ':' url) then ((before ':' url).map Char.toLower, after ':' url)
  else ([], url)

def endsNetloc (c : Char) : Bool := c = '/' || c = '?' || c = '#'

def splitNetloc (rest : Text) : Text × Text :=
  match rest with
  | '/' :: '/' :: tail => tail.span (!endsNetloc ·)
  | _ => ([], rest)

/-- No `ValueError` for the brackets, nor for what the letters stand for. -/
def NetlocRules.accepts (rules : NetlocRules) (netloc : Text) : Bool :=
  let kept := netloc.filter fun c => c ∉ ['@', ':', '#', '?']
  decide ('[' ∈ netloc ↔ ']' ∈ netloc) && (decide ('[' ∉ netloc) || rules.bracketed netloc) &&
    (netloc.all (·.toNat < 128) || rules.nfkc kept = kept ||
      (rules.nfkc kept).all fun c => c ∉ ['/', '?', '#', '@', ':'])

/-- `urlsplit`; none is a `ValueError`. -/
def urlsplit (rules : NetlocRules) (url : Text) : Option Parts :=
  let scheme := (splitScheme (cleaned url)).1
  let netloc := (splitNetloc (splitScheme (cleaned url)).2).1
  let rest := (splitNetloc (splitScheme (cleaned url)).2).2
  if rules.accepts netloc then
    some ⟨scheme, netloc, before '?' (before '#' rest), after '?' (before '#' rest), after '#' rest⟩
  else none

def usesNetloc : List Text :=
  ["", "ftp", "http", "gopher", "nntp", "telnet", "imap", "wais", "file", "mms", "https", "shttp",
    "snews", "prospero", "rtsp", "rtsps", "rtspu", "rsync", "svn", "svn+ssh", "sftp", "nfs", "git",
    "git+ssh", "ws", "wss", "itms-services"].map String.toList

/-- The text from the network location to the end of the path. -/
def joinNetloc (p : Parts) : Text :=
  if p.netloc ≠ [] then
    '/' :: '/' :: p.netloc ++
      (if p.path ≠ [] ∧ p.path.head? ≠ some '/' then '/' :: p.path else p.path)
  else if p.path.take 2 = ['/', '/'] then '/' :: '/' :: p.path
  else if p.scheme ≠ [] ∧ p.scheme ∈ usesNetloc ∧ (p.path = [] ∨ p.path.head? = some '/') then
    '/' :: '/' :: p.path
  else p.path

def urlunsplit (p : Parts) : Text :=
  (if p.scheme ≠ [] then p.scheme ++ ':' :: joinNetloc p else joinNetloc p) ++
    (if p.query ≠ [] then '?' :: p.query else []) ++
    (if p.fragment ≠ [] then '#' :: p.fragment else [])

/-! ## Queries -/

/-- `unquote(text.replace("+", " "))`. A character beyond ASCII interrupts a sequence of escapes as
its own bytes do. -/
def unquoteText (text : Text) : String := decodeReplace (unquotePlus (utf8 (.ofList text)))

/-- `parse_qsl(query, keep_blank_values=True)`. -/
def parseQsl (query : Text) : List (String × String) :=
  ((query.splitOn '&').filter (· ≠ [])).map fun field =>
    (unquoteText (before '=' field), unquoteText (after '=' field))

/-- Fields on both sides of an ampersand are parsed one after the other. -/
lemma parseQsl_append (query more : Text) :
    parseQsl (query ++ '&' :: more) = parseQsl query ++ parseQsl more := by
  rw [parseQsl, List.splitOn_append_cons_self, List.filter_append, List.map_append]
  rfl

/-- A field by itself. -/
lemma parseQsl_field {field : Text} (hne : field ≠ []) (hmem : '&' ∉ field) :
    parseQsl field = [(unquoteText (before '=' field), unquoteText (after '=' field))] := by
  have hsplit : field.splitOn '&' = [field] := by
    have hjoined : (['&'].intercalate [field]).splitOn '&' = [field] :=
      List.splitOn_intercalate '&' (by simpa using hmem) (by simp)
    simpa [List.intercalate] using hjoined
  rw [parseQsl, hsplit, List.filter_cons_of_pos (by simpa using hne)]
  rfl

section encoder

variable (enc : Encoder)

def componentText (s : String) : Text := (enc.component s).map asciiChar

def pairText (entry : String × String) : Text :=
  componentText enc entry.1 ++ '=' :: componentText enc entry.2

/-- `"&".join(f"{name}={value}")`. -/
def queryText (entries : List (String × String)) : Text :=
  ['&'].intercalate (entries.map (pairText enc))

lemma unquoteText_componentText (s : String) : unquoteText (componentText enc s) = s := by
  have hascii : ∀ b ∈ enc.component s, b.toNat < 128 := fun _ hb => (mem_component enc hb).1
  rw [unquoteText, componentText, utf8_ascii hascii, unquotePlus_component, decodeReplace_utf8]

/-- Nothing in a component separates or ends a query. -/
lemma mem_componentText {s : String} {c : Char} (h : c ∈ componentText enc s) :
    c ∉ ['#', '&', ':', '=', '?'] := by
  obtain ⟨b, hb, rfl⟩ := List.mem_map.mp h
  obtain ⟨hascii, hmem⟩ := mem_component enc hb
  intro hc
  have hnat : (asciiChar b).toNat ∈ [35, 38, 58, 61, 63] := List.mem_map_of_mem hc
  rw [asciiChar_toNat hascii] at hnat
  have hbyte : b ∈ [35, 38, 58, 61, 63] := by
    have := List.mem_map_of_mem (f := UInt8.ofNat) hnat
    rwa [UInt8.ofNat_toNat] at this
  exact hmem hbyte

lemma parse_pairText (entry : String × String) :
    (unquoteText (before '=' (pairText enc entry)), unquoteText (after '=' (pairText enc entry))) =
      entry := by
  have hname : '=' ∉ componentText enc entry.1 := fun h =>
    mem_componentText enc h (by simp)
  rw [pairText, before_append hname, after_append hname, unquoteText_componentText,
    unquoteText_componentText]

lemma not_mem_pairText {c : Char} (hc : c ∈ ['#', '&', ':', '?']) (entry : String × String) :
    c ∉ pairText enc entry := by
  have hmem : c ∈ ['#', '&', ':', '=', '?'] := by
    simp only [List.mem_cons, List.not_mem_nil, or_false] at hc ⊢
    tauto
  have heq : c ≠ '=' := by
    rintro rfl
    simp at hc
  intro h
  rw [pairText, List.mem_append, List.mem_cons] at h
  obtain h | h | h := h
  · exact mem_componentText enc h hmem
  · exact heq h
  · exact mem_componentText enc h hmem

lemma splitOn_queryText {entries : List (String × String)} (h : entries ≠ []) :
    (queryText enc entries).splitOn '&' = entries.map (pairText enc) := by
  have hsep : ∀ pair ∈ entries.map (pairText enc), '&' ∉ pair := by
    intro pair hpair
    obtain ⟨entry, -, rfl⟩ := List.mem_map.mp hpair
    exact not_mem_pairText enc (by simp) entry
  exact List.splitOn_intercalate '&' hsep (by simpa using h)

/-- A written query is parsed back, whatever the names and values are. -/
lemma parseQsl_queryText (entries : List (String × String)) :
    parseQsl (queryText enc entries) = entries := by
  by_cases h : entries = []
  · subst h
    rfl
  · have hne : (entries.map (pairText enc)).filter (· ≠ []) = entries.map (pairText enc) := by
      rw [List.filter_eq_self]
      intro pair hpair
      obtain ⟨entry, -, rfl⟩ := List.mem_map.mp hpair
      simp [pairText]
    rw [parseQsl, splitOn_queryText enc h, hne, List.map_map]
    have hparse : ∀ entry ∈ entries, ((fun field =>
        (unquoteText (before '=' field), unquoteText (after '=' field))) ∘ pairText enc) entry =
          entry := fun entry _ => parse_pairText enc entry
    rw [List.map_congr_left hparse, List.map_id']

lemma mem_pairText {entry : String × String} {c : Char} (h : c ∈ pairText enc entry) :
    33 ≤ c.toNat := by
  have hcomponent : ∀ s, c ∈ componentText enc s → 33 ≤ c.toNat := by
    intro s hc
    obtain ⟨b, hb, rfl⟩ := List.mem_map.mp hc
    rw [asciiChar_toNat (mem_component enc hb).1]
    exact component_printable enc hb
  rw [pairText, List.mem_append, List.mem_cons] at h
  obtain h | rfl | h := h
  · exact hcomponent _ h
  · decide
  · exact hcomponent _ h

lemma mem_intercalate {sep c : Char} {parts : List Text} (h : c ∈ [sep].intercalate parts) :
    c = sep ∨ ∃ part ∈ parts, c ∈ part := by
  induction parts with
  | nil => simp [List.intercalate] at h
  | cons part parts ih =>
    cases parts with
    | nil =>
      have hpart : c ∈ part := by simpa [List.intercalate] using h
      exact .inr ⟨part, List.mem_cons_self, hpart⟩
    | cons next parts =>
      have hsplit : [sep].intercalate (part :: next :: parts) =
          part ++ sep :: [sep].intercalate (next :: parts) := by simp [List.intercalate]
      rw [hsplit, List.mem_append, List.mem_cons] at h
      obtain h | rfl | h := h
      · exact .inr ⟨part, List.mem_cons_self, h⟩
      · exact .inl rfl
      · obtain hsep | ⟨other, hother, hc⟩ := ih h
        · exact .inl hsep
        · exact .inr ⟨other, List.mem_cons_of_mem _ hother, hc⟩

/-- Every character of a query is printable, and none is a hash. -/
lemma mem_queryText {entries : List (String × String)} {c : Char}
    (h : c ∈ queryText enc entries) : 33 ≤ c.toNat ∧ c ≠ '#' := by
  obtain rfl | ⟨pair, hpair, hc⟩ := mem_intercalate h
  · decide
  · obtain ⟨entry, -, rfl⟩ := List.mem_map.mp hpair
    refine ⟨mem_pairText enc hc, ?_⟩
    rintro rfl
    exact not_mem_pairText enc (by simp) entry hc

lemma queryText_ne_nil {entries : List (String × String)} (h : entries ≠ []) :
    queryText enc entries ≠ [] := by
  intro hnil
  have hparse := parseQsl_queryText enc entries
  rw [hnil] at hparse
  exact h hparse.symm

end encoder

/-! ## URLs with a network location -/

/-- How a URL is written that splits into the parts: `name` is the scheme's text, `queryPart` and
`fragmentPart` carry their marks. -/
structure Written (rules : NetlocRules) (url : Text) (p : Parts) where
  name : Text
  queryPart : Text
  fragmentPart : Text
  text : cleaned url =
    name ++ ':' :: '/' :: '/' :: (p.netloc ++ (p.path ++ (queryPart ++ fragmentPart)))
  isScheme : isScheme name = true
  scheme : p.scheme = name.map Char.toLower
  netloc : ∀ c ∈ p.netloc, endsNetloc c = false
  accepted : rules.accepts p.netloc = true
  path_head : p.path = [] ∨ p.path.head? = some '/'
  path_mem : '?' ∉ p.path ∧ '#' ∉ p.path
  query_head : queryPart = [] ∨ queryPart.head? = some '?'
  query_mem : '#' ∉ queryPart
  query : p.query = after '?' queryPart
  fragment_head : fragmentPart = [] ∨ fragmentPart.head? = some '#'
  fragment : p.fragment = after '#' fragmentPart

section written

variable {rules : NetlocRules} {url : Text} {p : Parts}

lemma colon_not_mem_of_isScheme {name : Text} (h : isScheme name = true) : ':' ∉ name := by
  intro hmem
  simp only [isScheme, Bool.and_eq_true, List.all_eq_true] at h
  exact absurd (h.2 ':' hmem) (by decide)

lemma cut_mark {sep : Char} {front mark : Text} (hfront : sep ∉ front)
    (hmark : mark = [] ∨ mark.head? = some sep) :
    before sep (front ++ mark) = front ∧ after sep (front ++ mark) = after sep mark := by
  obtain rfl | hmark := hmark
  · rw [List.append_nil]
    exact ⟨before_of_not_mem hfront, after_of_not_mem hfront⟩
  · obtain ⟨rest, rfl⟩ : ∃ rest, mark = sep :: rest := by
      cases mark with
      | nil => simp at hmark
      | cons c rest => exact ⟨rest, by simp at hmark; rw [hmark]⟩
    exact ⟨before_append hfront rest, (after_append hfront rest).trans (after_cons_self rest).symm⟩

lemma span_netloc {netloc rest : Text} (hnetloc : ∀ c ∈ netloc, endsNetloc c = false)
    (hrest : ∀ c, rest.head? = some c → endsNetloc c = true) :
    (netloc ++ rest).span (!endsNetloc ·) = (netloc, rest) := by
  have hall : ∀ c ∈ netloc, (!endsNetloc c) = true := by
    intro c hc
    rw [hnetloc c hc]
    rfl
  rw [List.span_eq_takeWhile_dropWhile, List.takeWhile_append_of_pos hall,
    List.dropWhile_append_of_pos hall]
  cases rest with
  | nil => simp
  | cons c rest =>
    have hc := hrest c rfl
    rw [List.takeWhile_cons_of_neg (by simp [hc]), List.dropWhile_cons_of_neg (by simp [hc]),
      List.append_nil]

/-- What follows the network location starts with a slash, a question mark or a hash. -/
lemma Written.head (w : Written rules url p) {c : Char}
    (hc : (p.path ++ (w.queryPart ++ w.fragmentPart)).head? = some c) : endsNetloc c = true := by
  obtain hpath | hpath := w.path_head
  · obtain hquery | hquery := w.query_head
    · obtain hfragment | hfragment := w.fragment_head
      · simp [hpath, hquery, hfragment] at hc
      · simp only [hpath, hquery, List.nil_append, hfragment, Option.some.injEq] at hc
        rw [← hc]
        rfl
    · simp only [hpath, List.nil_append, List.head?_append, hquery, Option.some_or,
        Option.some.injEq] at hc
      rw [← hc]
      rfl
  · simp only [List.head?_append, hpath, Option.some_or, Option.some.injEq] at hc
    rw [← hc]
    rfl

lemma Written.urlsplit_eq (w : Written rules url p) : urlsplit rules url = some p := by
  have hcolon := colon_not_mem_of_isScheme w.isScheme
  have hscheme : splitScheme (cleaned url) = (p.scheme,
      '/' :: '/' :: (p.netloc ++ (p.path ++ (w.queryPart ++ w.fragmentPart)))) := by
    rw [splitScheme, w.text, before_append hcolon, after_append hcolon,
      if_pos ⟨by simp, w.isScheme⟩, w.scheme]
  have hnetloc := span_netloc w.netloc fun _ => w.head
  have hfront : '#' ∉ p.path ++ w.queryPart := by
    rw [List.mem_append, not_or]
    exact ⟨w.path_mem.2, w.query_mem⟩
  obtain ⟨hbefore, hafter⟩ := cut_mark hfront w.fragment_head
  obtain ⟨hpath, hquery⟩ := cut_mark w.path_mem.1 w.query_head
  rw [List.append_assoc] at hbefore hafter
  rw [urlsplit, hscheme]
  simp only [splitNetloc, hnetloc, w.accepted, if_true, hbefore, hafter, hpath, hquery, ← w.query,
    ← w.fragment]

/-- The mark and what follows it. -/
lemma head_drop_before {sep : Char} (text : Text) :
    text.dropWhile (· ≠ sep) = [] ∨ (text.dropWhile (· ≠ sep)).head? = some sep := by
  by_cases h : sep ∈ text
  · right
    rw [eq_before_append h, List.dropWhile_append_of_pos (all_ne (not_mem_before text)),
      List.dropWhile_cons_of_neg (by simp), List.head?_cons]
  · left
    rw [List.dropWhile_eq_nil_iff]
    exact all_ne h

lemma before_append_dropWhile {sep : Char} (text : Text) :
    before sep text ++ text.dropWhile (· ≠ sep) = text := List.takeWhile_append_dropWhile

lemma after_dropWhile {sep : Char} (text : Text) :
    after sep (text.dropWhile (· ≠ sep)) = after sep text := by
  have hbefore : sep ∉ before sep text := not_mem_before text
  have hcut := cut_mark hbefore (head_drop_before text)
  rw [before_append_dropWhile] at hcut
  exact hcut.2.symm

/-- A URL with a scheme and two slashes behind it is written as its parts say. -/
lemma written_of_urlsplit {rest : Text} (h : urlsplit rules url = some p)
    (hcolon : ':' ∈ cleaned url) (hscheme : isScheme (before ':' (cleaned url)) = true)
    (hslashes : after ':' (cleaned url) = '/' :: '/' :: rest) :
    Nonempty (Written rules url p) := by
  set name := before ':' (cleaned url) with hname
  have hsplit : splitScheme (cleaned url) = (name.map Char.toLower, '/' :: '/' :: rest) := by
    rw [splitScheme, if_pos ⟨hcolon, hscheme⟩, hslashes]
  set netloc := rest.takeWhile (!endsNetloc ·) with hnetloc
  set back := rest.dropWhile (!endsNetloc ·) with hback
  have hrest : rest = netloc ++ back := List.takeWhile_append_dropWhile.symm
  rw [urlsplit, hsplit] at h
  simp only [splitNetloc, List.span_eq_takeWhile_dropWhile, ← hnetloc, ← hback] at h
  split_ifs at h with haccepted
  obtain rfl := Option.some.inj h
  have htext : cleaned url = name ++ ':' :: '/' :: '/' :: rest := by
    rw [← hslashes]
    exact eq_before_append hcolon
  have hends : ∀ c ∈ netloc, endsNetloc c = false := by
    intro c hc
    simpa using List.mem_takeWhile_imp hc
  have hhead : ∀ c, back.head? = some c → endsNetloc c = true := by
    intro c hc
    have hnot := List.head?_dropWhile_not (!endsNetloc ·) rest
    rw [← hback, hc] at hnot
    simpa using hnot
  have hpath : before '?' (before '#' back) = [] ∨
      (before '?' (before '#' back)).head? = some '/' := by
    cases hcut : before '?' (before '#' back) with
    | nil => exact .inl rfl
    | cons c path =>
      have hquestion : c ≠ '?' := by
        rintro rfl
        have hnone : '?' ∉ before '?' (before '#' back) := not_mem_before _
        exact hnone (hcut ▸ List.mem_cons_self)
      have hfront : before '?' (before '#' back) ++ (before '#' back).dropWhile (· ≠ '?') =
          before '#' back := before_append_dropWhile _
      rw [hcut, List.cons_append] at hfront
      have hhash : c ≠ '#' := by
        rintro rfl
        have hnone : '#' ∉ before '#' back := not_mem_before _
        exact hnone (hfront ▸ List.mem_cons_self)
      have hback' : before '#' back ++ back.dropWhile (· ≠ '#') = back :=
        before_append_dropWhile _
      rw [← hfront, List.cons_append] at hback'
      have hc := hhead c (by rw [← hback', List.head?_cons])
      simp only [endsNetloc, Bool.or_eq_true, decide_eq_true_eq] at hc
      obtain (rfl | hc) | hc := hc
      · exact .inr rfl
      · exact absurd hc hquestion
      · exact absurd hc hhash
  have hmem : '#' ∉ before '?' (before '#' back) ++ (before '#' back).dropWhile (· ≠ '?') := by
    rw [before_append_dropWhile]
    exact not_mem_before back
  rw [List.mem_append, not_or] at hmem
  exact ⟨{
    name := name
    queryPart := (before '#' back).dropWhile (· ≠ '?')
    fragmentPart := back.dropWhile (· ≠ '#')
    text := by
      rw [htext, hrest, ← List.append_assoc (before '?' _), before_append_dropWhile,
        before_append_dropWhile]
    isScheme := hscheme
    scheme := rfl
    netloc := hends
    accepted := haccepted
    path_head := hpath
    path_mem := ⟨not_mem_before _, hmem.1⟩
    query_head := head_drop_before _
    query_mem := hmem.2
    query := (after_dropWhile _).symm
    fragment_head := head_drop_before _
    fragment := (after_dropWhile _).symm
  }⟩

lemma written_of_netloc (h : urlsplit rules url = some p) (hscheme : p.scheme ≠ [])
    (hnetloc : p.netloc ≠ []) : Nonempty (Written rules url p) := by
  have hparts : (splitScheme (cleaned url)).1 = p.scheme ∧
      (splitNetloc (splitScheme (cleaned url)).2).1 = p.netloc := by
    rw [urlsplit] at h
    split_ifs at h
    obtain rfl := Option.some.inj h
    exact ⟨rfl, rfl⟩
  by_cases hname : ':' ∈ cleaned url ∧ isScheme (before ':' (cleaned url))
  · have hsplit : splitScheme (cleaned url) =
        ((before ':' (cleaned url)).map Char.toLower, after ':' (cleaned url)) := if_pos hname
    rw [hsplit] at hparts
    have hslashes : ∃ rest, after ':' (cleaned url) = '/' :: '/' :: rest := by
      have hlocation := hparts.2
      unfold splitNetloc at hlocation
      split at hlocation
      · rename_i rest heq
        exact ⟨rest, heq⟩
      · exact absurd hlocation.symm hnetloc
    obtain ⟨rest, hrest⟩ := hslashes
    exact written_of_urlsplit h hname.1 hname.2 hrest
  · have hsplit : splitScheme (cleaned url) = ([], cleaned url) := if_neg hname
    rw [hsplit] at hparts
    exact absurd hparts.1.symm hscheme

lemma not_isDropped_of_mem {c : Char} (h : c ∈ cleaned url) : isDropped c = false := by
  simpa using (List.mem_filter.mp h).2

lemma isScheme_head {name : Text} (h : isScheme name = true) :
    ∃ c rest, name = c :: rest ∧ c.isAlpha = true := by
  cases name with
  | nil => simp [isScheme] at h
  | cons c rest =>
    simp only [isScheme, List.head?_cons, Option.any_some, Bool.and_eq_true] at h
    exact ⟨c, rest, rfl, h.1⟩

lemma not_isDropped_of_scheme {name : Text} (h : isScheme name = true) {c : Char} (hc : c ∈ name) :
    isDropped c = false := by
  simp only [isScheme, Bool.and_eq_true, List.all_eq_true] at h
  have hletter := h.2 c hc
  by_contra hdropped
  simp only [isDropped, Bool.or_eq_true, decide_eq_true_eq, Bool.not_eq_false] at hdropped
  obtain (rfl | rfl) | rfl := hdropped <;> revert hletter <;> decide

lemma not_isDropped_of_printable {c : Char} (h : 33 ≤ c.toNat) : isDropped c = false := by
  by_contra hdropped
  simp only [isDropped, Bool.or_eq_true, decide_eq_true_eq, Bool.not_eq_false] at hdropped
  obtain (rfl | rfl) | rfl := hdropped <;> revert h <;> decide

lemma cleaned_append {name : Text} (hname : isScheme name = true) (rest : Text) :
    cleaned (name ++ rest) = name ++ rest.filter (!isDropped ·) := by
  have hkept : name.filter (!isDropped ·) = name := by
    rw [List.filter_eq_self]
    intro c hc
    rw [not_isDropped_of_scheme hname hc]
    rfl
  obtain ⟨c, tail, rfl, hc⟩ := isScheme_head hname
  have hhigh : ¬ c.toNat ≤ 0x20 := by
    have hval : c.val.toNat = c.toNat := rfl
    simp only [Char.isAlpha, Char.isUpper, Char.isLower, Bool.or_eq_true, Bool.and_eq_true,
      decide_eq_true_eq, UInt32.le_iff_toNat_le, ge_iff_le, hval] at hc
    change (65 ≤ c.toNat ∧ c.toNat ≤ 90) ∨ (97 ≤ c.toNat ∧ c.toNat ≤ 122) at hc
    omega
  rw [cleaned, List.cons_append, List.dropWhile_cons_of_neg (by simpa using hhigh),
    ← List.cons_append, List.filter_append, hkept]

lemma cleaned_eq {name rest : Text} (hname : isScheme name = true)
    (hrest : ∀ c ∈ rest, isDropped c = false) : cleaned (name ++ rest) = name ++ rest := by
  have hkept : rest.filter (!isDropped ·) = rest := by
    rw [List.filter_eq_self]
    intro c hc
    rw [hrest c hc]
    rfl
  rw [cleaned_append hname, hkept]

lemma cleaned_of_printable {url : Text} (h : ∀ c ∈ url, 33 ≤ c.toNat) : cleaned url = url := by
  have hdrop : url.dropWhile (·.toNat ≤ 0x20) = url := by
    cases url with
    | nil => rfl
    | cons c rest =>
      have hc := h c List.mem_cons_self
      rw [List.dropWhile_cons_of_neg]
      simp only [decide_eq_true_eq, not_le]
      omega
  rw [cleaned, hdrop, List.filter_eq_self]
  intro c hc
  rw [not_isDropped_of_printable (h c hc)]
  rfl

/-- The same URL with another query and another fragment. -/
lemma urlsplit_rewrite (w : Written rules url p) {name query fragment : Text}
    (hname : isScheme name = true) (hscheme : name.map Char.toLower = p.scheme)
    (hquery : query = [] ∨ query.head? = some '?') (hmem : '#' ∉ query)
    (hfragment : fragment = [] ∨ fragment.head? = some '#')
    (hdropped : ∀ c ∈ query ++ fragment, isDropped c = false) :
    urlsplit rules
        (name ++ ':' :: '/' :: '/' :: (p.netloc ++ (p.path ++ (query ++ fragment)))) =
      some { p with query := after '?' query, fragment := after '#' fragment } := by
  have hold : ∀ c ∈ p.netloc ++ p.path, isDropped c = false := by
    intro c hc
    have hcleaned : c ∈ cleaned url := by
      rw [w.text]
      rw [List.mem_append] at hc
      obtain hc | hc := hc <;> simp [hc]
    exact not_isDropped_of_mem hcleaned
  have hrest : ∀ c ∈ ':' :: '/' :: '/' :: (p.netloc ++ (p.path ++ (query ++ fragment))),
      isDropped c = false := by
    intro c hc
    simp only [List.mem_cons, ← List.append_assoc] at hc
    rw [List.append_assoc, List.mem_append] at hc
    obtain rfl | rfl | rfl | hc | hc := hc
    · rfl
    · rfl
    · rfl
    · exact hold c hc
    · exact hdropped c hc
  have wnew : Written rules
      (name ++ ':' :: '/' :: '/' :: (p.netloc ++ (p.path ++ (query ++ fragment))))
      { p with query := after '?' query, fragment := after '#' fragment } := {
    name := name
    queryPart := query
    fragmentPart := fragment
    text := cleaned_eq hname hrest
    isScheme := hname
    scheme := hscheme.symm
    netloc := w.netloc
    accepted := w.accepted
    path_head := w.path_head
    path_mem := w.path_mem
    query_head := hquery
    query_mem := hmem
    query := rfl
    fragment_head := hfragment
    fragment := rfl
  }
  exact wnew.urlsplit_eq

end written

end UrlSplitting
