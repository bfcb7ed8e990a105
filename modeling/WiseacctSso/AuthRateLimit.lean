import WiseacctSso.KnownPaths

/-!
# The rate limiter of the auth routes

A counter in Redis belongs to a client address and a raw path, so each spelling of a route
is counted by itself.
-/
namespace WiseacctSso
open UrlPath

/-- A counter and the time at which Redis drops it. -/
structure Counter where
  count : ℕ
  expiresAt : Option ℕ
  deriving DecidableEq

abbrev Counters : Type := AList fun _ : CodePoints => Counter

/-- The counter of a key that is still there. -/
def Counters.live (counters : Counters) (key : CodePoints) (now : ℕ) : Option Counter :=
  (counters.lookup key).filter fun c => c.expiresAt.all (now < ·)

/-- The Lua script `INCR`, `TTL`, `EXPIRE`. -/
def incrementWithTtl (counters : Counters) (key : CodePoints) (ttl now : ℕ) : ℕ × Counters :=
  match counters.live key now with
  | none => (1, counters.insert key ⟨1, some (now + ttl)⟩)
  | some c =>
      let count := c.count + 1
      (count, counters.insert key
        ⟨count, if count = 1 ∨ c.expiresAt.isNone then some (now + ttl) else c.expiresAt⟩)

structure RateLimitSettings where
  windowSeconds : ℕ
  maxRequests : ℕ

/-- A request as the limiter meets it; the clock is Redis's. -/
structure ClientRequest extends HttpRequest where
  client : Option CodePoints
  validJson : Bool
  now : ℕ

def rateLimitKey (client route : CodePoints) : CodePoints := client ++ 58 :: route

/-- The retry time when the count goes over the limit. -/
def enforceRateLimit (settings : RateLimitSettings) (counters : Counters)
    (client route : CodePoints) (now : ℕ) : Option ℕ × Counters :=
  let (count, counters) :=
    incrementWithTtl counters (rateLimitKey client route) settings.windowSeconds now
  (if count ≤ settings.maxRequests then none else some settings.windowSeconds, counters)

inductive LimiterOutcome
  | passed
  | badJson
  | tooMany (retryAfter : ℕ)
  deriving DecidableEq

namespace AuthRateLimitMiddleware

def clientAddress (r : ClientRequest) : CodePoints := r.client.getD (text "unknown")

def handle (settings : RateLimitSettings) (counters : Counters) (r : ClientRequest) :
    LimiterOutcome × Counters :=
  if ¬ counts r.toHttpRequest then (.passed, counters)
  else if ¬ r.validJson then (.badJson, counters)
  else
    match enforceRateLimit settings counters (clientAddress r) r.raw r.now with
    | (none, counters) => (.passed, counters)
    | (some retryAfter, counters) => (.tooMany retryAfter, counters)

/-- The requests of a run that are passed on. -/
def passed (settings : RateLimitSettings) (counters : Counters) :
    List ClientRequest → List ClientRequest
  | [] => []
  | r :: rest =>
      let (outcome, counters) := handle settings counters r
      if outcome = .passed then r :: passed settings counters rest
      else passed settings counters rest

end AuthRateLimitMiddleware

open AuthRateLimitMiddleware

/-- The client's request would be made the canonical route by the compatibility middleware. -/
def canonicalisesTo (client : CodePoints) (route : String × CodePoints) (r : ClientRequest) :
    Bool :=
  clientAddress r = client && r.method = route.1 &&
    KnownPathCompatibilityMiddleware.canonicalPublicRoute
      (asciiLower (withoutTrailingSlash r.raw)) = some route.2

/-- The run falls into one window of each counter of the client: no counter expires while it
lasts, and it is not longer than a window that begins with it. -/
structure InOneWindow (settings : RateLimitSettings) (counters : Counters) (client : CodePoints)
    (start stop : ℕ) (requests : List ClientRequest) : Prop where
  short : stop ≤ start + settings.windowSeconds
  counter : ∀ spelling c, counters.lookup (rateLimitKey client spelling) = some c →
    (∃ e ∈ c.expiresAt, e ≤ start) ∨ ∀ e ∈ c.expiresAt, stop ≤ e
  within : ∀ r ∈ requests, start ≤ r.now ∧ r.now < stop

variable {settings : RateLimitSettings} {counters : Counters} {key : CodePoints} {start stop : ℕ}

/-- The number of requests a key has been counted for in its window, which lasts up to `stop`. -/
inductive Counted (counters : Counters) (key : CodePoints) (start stop : ℕ) : ℕ → Prop
  | absent (h : ∀ c, counters.lookup key = some c → ∃ e ∈ c.expiresAt, e ≤ start) :
      Counted counters key start stop 0
  | present {c : Counter} (found : counters.lookup key = some c)
      (window : ∀ e ∈ c.expiresAt, stop ≤ e) : Counted counters key start stop c.count

lemma InOneWindow.counted {client : CodePoints} {requests : List ClientRequest}
    (h : InOneWindow settings counters client start stop requests) (spelling : CodePoints) :
    ∃ n, Counted counters (rateLimitKey client spelling) start stop n := by
  rcases hc : counters.lookup (rateLimitKey client spelling) with _ | c
  · exact ⟨0, .absent (by simp [hc])⟩
  · rcases h.counter spelling c hc with hexpired | hwindow
    · refine ⟨0, .absent fun c' hc' => ?_⟩
      obtain rfl := Option.some.inj (hc.symm.trans hc')
      exact hexpired
    · exact ⟨c.count, .present hc hwindow⟩

/-- A key that is incremented inside the window has one more request counted. -/
lemma Counted.increment {n now : ℕ} (h : Counted counters key start stop n)
    (hshort : stop ≤ start + settings.windowSeconds) (hstart : start ≤ now) (hnow : now < stop) :
    (incrementWithTtl counters key settings.windowSeconds now).1 = n + 1 ∧
      Counted (incrementWithTtl counters key settings.windowSeconds now).2 key start stop
        (n + 1) := by
  cases h with
  | absent hexpired =>
    have hlive : counters.live key now = none := by
      rw [Counters.live, Option.filter_eq_none_iff]
      intro c hc
      obtain ⟨e, he, hle⟩ := hexpired c hc
      rw [Option.mem_def.mp he, Option.all_some]
      simp only [decide_eq_true_eq]
      omega
    simp only [incrementWithTtl, hlive]
    refine ⟨trivial, .present (AList.lookup_insert _) fun e he => ?_⟩
    obtain rfl := Option.mem_some_iff.mp he
    omega
  | @present c hfound hwindow =>
    have hlive : counters.live key now = some c := by
      rw [Counters.live, hfound, Option.filter_some, if_pos]
      rw [Option.all_eq_true]
      exact fun e he => decide_eq_true (hnow.trans_le (hwindow e he))
    simp only [incrementWithTtl, hlive]
    refine ⟨trivial, ?_⟩
    by_cases hfirst : c.count + 1 = 1 ∨ c.expiresAt.isNone = true
    · rw [if_pos hfirst]
      refine .present (AList.lookup_insert _) fun e he => ?_
      obtain rfl := Option.mem_some_iff.mp he
      omega
    · rw [if_neg hfirst]
      exact .present (AList.lookup_insert _) hwindow

/-- The other keys are not touched. -/
lemma Counted.other {n now : ℕ} {key' : CodePoints} (h : Counted counters key start stop n)
    (hne : key ≠ key') :
    Counted (incrementWithTtl counters key' settings.windowSeconds now).2 key start stop n := by
  have hlookup : (incrementWithTtl counters key' settings.windowSeconds now).2.lookup key =
      counters.lookup key := by
    unfold incrementWithTtl
    split <;> exact AList.lookup_insert_ne hne
  cases h with
  | absent hexpired => exact .absent (by rwa [hlookup])
  | present hfound hwindow => exact .present (hlookup.trans hfound) hwindow

/-- The request is the client's and is counted under this spelling. -/
def spelled (client spelling : CodePoints) (r : ClientRequest) : Bool :=
  counts r.toHttpRequest && clientAddress r = client && r.raw = spelling

lemma handle_of_counts {r : ClientRequest} (hcounts : counts r.toHttpRequest = true)
    (hjson : r.validJson = true) : handle settings counters r =
      (if (incrementWithTtl counters (rateLimitKey (clientAddress r) r.raw)
          settings.windowSeconds r.now).1 ≤ settings.maxRequests then .passed
        else .tooMany settings.windowSeconds,
        (incrementWithTtl counters (rateLimitKey (clientAddress r) r.raw)
          settings.windowSeconds r.now).2) := by
  simp only [handle, hcounts, hjson, enforceRateLimit, not_true_eq_false, if_false]
  by_cases hle : (incrementWithTtl counters (rateLimitKey (clientAddress r) r.raw)
      settings.windowSeconds r.now).1 ≤ settings.maxRequests
  · simp [hle]
  · simp [hle]

/-- What has been counted for a spelling is no longer passed on. -/
lemma passed_spelled_le {client spelling : CodePoints} {requests : List ClientRequest} {n : ℕ}
    (h : Counted counters (rateLimitKey client spelling) start stop n)
    (hshort : stop ≤ start + settings.windowSeconds)
    (hwithin : ∀ r ∈ requests, start ≤ r.now ∧ r.now < stop) :
    ((passed settings counters requests).filter (spelled client spelling)).length ≤
      settings.maxRequests - n := by
  induction requests generalizing counters n with
  | nil => simp [passed]
  | cons r rest ih =>
    have hrest : ∀ r' ∈ rest, start ≤ r'.now ∧ r'.now < stop :=
      fun r' hr' => hwithin r' (List.mem_cons_of_mem _ hr')
    obtain ⟨hstart, hnow⟩ := hwithin r List.mem_cons_self
    by_cases hcounts : counts r.toHttpRequest = true
    swap
    · simpa [passed, handle, hcounts, spelled] using ih h hrest
    by_cases hjson : r.validJson = true
    swap
    · simpa [passed, handle, hcounts, hjson] using ih h hrest
    by_cases hkey : rateLimitKey client spelling = rateLimitKey (clientAddress r) r.raw
    · obtain ⟨hcount, hnext⟩ := h.increment hshort hstart hnow
      have hle := ih hnext hrest
      simp only [passed, handle_of_counts hcounts hjson, ← hkey, hcount]
      by_cases hlimit : n + 1 ≤ settings.maxRequests
      · rw [if_pos hlimit, if_pos rfl]
        have hfilter := List.length_filter_le (spelled client spelling) [r]
        rw [← List.singleton_append, List.filter_append, List.length_append]
        simp only [List.length_singleton] at hfilter
        omega
      · rw [if_neg hlimit, if_neg (by simp)]
        omega
    · have hother : Counted (incrementWithTtl counters
          (rateLimitKey (clientAddress r) r.raw) settings.windowSeconds r.now).2
          (rateLimitKey client spelling) start stop n := h.other hkey
      have hle := ih hother hrest
      have hnot : spelled client spelling r = false := by
        by_contra hspelled
        simp only [spelled, Bool.not_eq_false, Bool.and_eq_true, decide_eq_true_eq] at hspelled
        exact hkey (by rw [hspelled.1.2, hspelled.2])
      simp only [passed, handle_of_counts hcounts hjson]
      by_cases hlimit : (incrementWithTtl counters (rateLimitKey (clientAddress r) r.raw)
          settings.windowSeconds r.now).1 ≤ settings.maxRequests
      · rw [if_pos hlimit, if_pos rfl, List.filter_cons_of_neg (by simp [hnot])]
        exact hle
      · rw [if_neg hlimit, if_neg (by simp)]
        exact hle

/-- A request that would become a rate-limited route is counted under its spelling. -/
lemma spelled_of_canonicalisesTo {client : CodePoints} {route : String × CodePoints}
    {r : ClientRequest} (hroute : route ∈ rateLimitedAuthRoutes)
    (h : canonicalisesTo client route r = true) : spelled client r.raw r = true := by
  simp only [canonicalisesTo, Bool.and_eq_true, decide_eq_true_eq] at h
  obtain ⟨⟨hclient, hmethod⟩, hcanonical⟩ := h
  have hlowered := (canonicalPublicRoute_some hcanonical).2
  have hcounts : counts r.toHttpRequest = true := by
    rw [counts, hmethod, hlowered]
    exact decide_eq_true hroute
  simp [spelled, hcounts, hclient]

/-- A list is as long as its parts of equal value together. -/
lemma length_eq_sum_fibers {α β : Type} [DecidableEq β] (f : α → β) (l : List α) :
    l.length = ∑ b ∈ (l.map f).toFinset, (l.filter fun x => f x = b).length := by
  have hcount : ∀ b, (l.map f).count b = (l.filter fun x => f x = b).length := by
    intro b
    rw [List.count, List.countP_map, List.countP_eq_length_filter]
    exact congrArg List.length (List.filter_congr fun x _ => rfl)
  calc l.length = (l.map f).length := (List.length_map ..).symm
    _ = ∑ b ∈ (l.map f).toFinset, (l.map f).count b :=
        (List.sum_toFinset_count_eq_length _).symm
    _ = ∑ b ∈ (l.map f).toFinset, (l.filter fun x => f x = b).length :=
        Finset.sum_congr rfl fun b _ => hcount b

/-- For every spelling of a rate-limited route a client gets at most the limit through in
one window, and so at most the limit times the number of spellings it uses. -/
theorem limiter_bounds_spellings {client : CodePoints} {requests : List ClientRequest}
    (hwindow : InOneWindow settings counters client start stop requests)
    {route : String × CodePoints} (hroute : route ∈ rateLimitedAuthRoutes) :
    let served := (passed settings counters requests).filter (canonicalisesTo client route)
    (∀ spelling, (served.filter fun r => r.raw = spelling).length ≤ settings.maxRequests) ∧
      served.length ≤ settings.maxRequests * (served.map (·.raw)).toFinset.card := by
  intro served
  have hspelling : ∀ spelling,
      (served.filter fun r => r.raw = spelling).length ≤ settings.maxRequests := by
    intro spelling
    obtain ⟨n, hcounted⟩ := hwindow.counted spelling
    have hle := (passed_spelled_le hcounted hwindow.short hwindow.within).trans (Nat.sub_le _ n)
    refine le_trans ?_ hle
    rw [List.filter_filter]
    refine List.Sublist.length_le (List.monotone_filter_right _ fun r hr => ?_)
    simp only [Bool.and_eq_true, decide_eq_true_eq] at hr
    exact hr.1 ▸ spelled_of_canonicalisesTo hroute hr.2
  refine ⟨hspelling, ?_⟩
  calc served.length = ∑ spelling ∈ (served.map (·.raw)).toFinset,
          (served.filter fun r => r.raw = spelling).length := length_eq_sum_fibers _ _
    _ ≤ (served.map (·.raw)).toFinset.card • settings.maxRequests :=
        Finset.sum_le_card_nsmul _ _ _ fun spelling _ => hspelling spelling
    _ = settings.maxRequests * (served.map (·.raw)).toFinset.card := by
        rw [smul_eq_mul, Nat.mul_comm]

/-- One request through in 60 seconds. -/
def oneRequest : RateLimitSettings := ⟨60, 1⟩

/-- A request for the login route under one of its spellings. -/
def loginAs (spelling : List UInt8) (now : ℕ) : ClientRequest :=
  ⟨⟨"POST", spelling⟩, some (text "10.0.0.1"), true, now⟩

/-- `/auth/login`, again, `/auth/login/` and `/Auth/login`. -/
def fourLogins : List ClientRequest :=
  [loginAs [47, 97, 117, 116, 104, 47, 108, 111, 103, 105, 110] 5,
    loginAs [47, 97, 117, 116, 104, 47, 108, 111, 103, 105, 110] 6,
    loginAs [47, 97, 117, 116, 104, 47, 108, 111, 103, 105, 110, 47] 7,
    loginAs [47, 65, 117, 116, 104, 47, 108, 111, 103, 105, 110] 8]

/-- The client has been counted for `/auth/login/` before. The counter of another client
expires in the middle of the run. -/
def loginCounters : Counters :=
  (AList.insert (rateLimitKey (text "10.0.0.2") (text "/auth/login")) ⟨7, some 40⟩ ∅).insert
    (rateLimitKey (text "10.0.0.1") (text "/auth/login/")) ⟨1, some 50⟩

lemma loginCounters_inOneWindow :
    InOneWindow oneRequest loginCounters (text "10.0.0.1") 5 45 fourLogins := by
  refine ⟨by decide, fun spelling c hc => .inr ?_, by decide⟩
  have hother : rateLimitKey (text "10.0.0.1") spelling ≠
      rateLimitKey (text "10.0.0.2") (text "/auth/login") := by
    intro heq
    have hchar := congrArg (·[7]?) heq
    simp [rateLimitKey, text] at hchar
  by_cases hkey : rateLimitKey (text "10.0.0.1") spelling =
      rateLimitKey (text "10.0.0.1") (text "/auth/login/")
  · rw [loginCounters, hkey, AList.lookup_insert] at hc
    obtain rfl := Option.some.inj hc
    decide
  · rw [loginCounters, AList.lookup_insert_ne hkey, AList.lookup_insert_ne hother] at hc
    simp at hc

theorem fourLogins_bounds_spellings :
    let served := (passed oneRequest loginCounters fourLogins).filter
      (canonicalisesTo (text "10.0.0.1") ("POST", text "/auth/login"))
    (∀ spelling, (served.filter fun r => r.raw = spelling).length ≤ 1) ∧
      served.length ≤ 1 * (served.map (·.raw)).toFinset.card :=
  limiter_bounds_spellings loginCounters_inOneWindow (by decide)

/-- Three spellings of the login route pass a limit of one. -/
theorem spellings_exceed_limit :
    InOneWindow oneRequest ∅ (text "10.0.0.1") 5 65 fourLogins ∧
      ((passed oneRequest ∅ fourLogins).filter
        (canonicalisesTo (text "10.0.0.1") ("POST", text "/auth/login"))).length = 3 ∧
      ¬ 3 ≤ oneRequest.maxRequests :=
  ⟨⟨by decide, fun _ _ h => by simp at h, by decide⟩, by decide, by decide⟩

end WiseacctSso
