import WiseacctSso.HandoffProtocol
import WiseacctSso.SessionRuns

/-!
# Safety of authorization handoffs

Every state gives one code and every code one pair, to a caller that presents what its flow
has recorded; an attempt that presents something else does not spoil the code.
-/
namespace WiseacctSso.AuthState
open ReadCommitted OneTimeRecords AuthState.Phase5AuthService

abbrev RedisSystem : Type := System (records RedisKey RedisValue HandoffNote Error)

variable {settings : HandoffSettings} {calls : ℕ → HandoffCall} {t : ℕ}

/-- An exchange that presents the binding of a live record in time and is left alone takes
the record and returns the pair. -/
lemma exchange_alone {sys : RedisSystem} {input : AuthHandoffStore.ConsumeInput}
    {nowEpochMs : Timestamp} {metadata : StoredAuthHandoffMetadata}
    (hcall : calls t = .exchange input nowEpochMs true) (hidle : sys.process t = none)
    (hfound : sys.shared.ext.lookup (authHandoffKey settings input.code) =
      some (.authHandoff metadata))
    (hlive : nowEpochMs < metadata.expiresAtEpochMs)
    (hbound : AuthHandoffStore.bindingMatches settings metadata input) :
    ∃ sys', sys.run (fun t => (calls t).prog settings)
        [.call t, .step t [], .step t [], .step t []] = some sys' ∧
      .noted (.pairReturned metadata.userId metadata.audience) ∈ sys'.shared.log.reports t := by
  have hprog : (HandoffCall.exchange input nowEpochMs true).prog settings =
      (getRaw (authHandoffKey settings input.code)).bind fun raw =>
        (AuthHandoffStore.consumeFound settings input nowEpochMs raw).bind (returnPair true) := rfl
  have htake : (AuthHandoffStore.consumeFound settings input nowEpochMs
      (some (.authHandoff metadata))).bind (returnPair true) =
      (consumeIfExact (authHandoffKey settings input.code) (.authHandoff metadata)).bind
        fun consumed => returnPair true (if consumed.isSome then some metadata else none) := by
    unfold AuthHandoffStore.consumeFound
    dsimp only
    rw [if_neg (not_le.mpr hlive), if_pos hbound]
    rfl
  let read : Event (records RedisKey RedisValue HandoffNote Error) := .called t
    (.found (authHandoffKey settings input.code) (some (.authHandoff metadata))) sys.shared.ext
  have hstill : (sys.shared.record read).ext.lookup (authHandoffKey settings input.code) =
      some (.authHandoff metadata) := hfound
  rw [System.run_call hidle, hcall, hprog, Process.start, run_getRaw, hfound, htake,
    run_consumeIfExact hstill]
  change ∃ sys', (sys.set t _ ⟨note _, _, _⟩).run _ _ = _ ∧ _
  rw [run_note]
  exact ⟨_, rfl, mem_reports_called.mpr (.inr ⟨rfl, rfl⟩)⟩

/-- A pair that is returned is one its caller is entitled to. -/
def ReturnsEntitled (settings : HandoffSettings) (calls : ℕ → HandoffCall) (prior : RedisLog)
    (t : ℕ) (report : RedisReport) (_ : AList fun _ : RedisKey => RedisValue) : Prop :=
  ∀ userId audience, report = .noted (.pairReturned userId audience) →
    ∃ input nowEpochMs t₀ metadata,
      PairEntitled settings calls prior t input nowEpochMs t₀ metadata userId audience

/-- An exchange with a wrong client, redirect URI or verifier leaves a live record. -/
def SparesLiveCode (settings : HandoffSettings) (calls : ℕ → HandoffCall) (prior : RedisLog)
    (t : ℕ) (_ : RedisReport) (ext : AList fun _ : RedisKey => RedisValue) : Prop :=
  ∀ input nowEpochMs pairIssued metadata, calls t = .exchange input nowEpochMs pairIssued →
    prior.ext.lookup (authHandoffKey settings input.code) = some (.authHandoff metadata) →
    nowEpochMs < metadata.expiresAtEpochMs →
    ¬ AuthHandoffStore.bindingMatches settings metadata input →
    ext.lookup (authHandoffKey settings input.code) = some (.authHandoff metadata)

theorem handoff_protocol_safe (settings : HandoffSettings) (calls : ℕ → HandoffCall)
    (hfresh : FreshDraws fun t => (calls t).draws settings)
    (acts : List (Act (records RedisKey RedisValue HandoffNote Error))) (sys : RedisSystem)
    (hrun : handoffRun settings calls acts = some sys) :
    (∀ state, sys.shared.log.tally
      (storesForState settings calls (oauthStateKey settings state)) ≤ 1) ∧
    (∀ code, sys.shared.log.tally
      (returnsForCode settings calls (authHandoffKey settings code)) ≤ 1) ∧
    sys.shared.log.Calls (ReturnsEntitled settings calls) ∧
    sys.shared.log.Calls (SparesLiveCode settings calls) ∧
    ∀ t input nowEpochMs metadata, calls t = .exchange input nowEpochMs true →
      sys.process t = none →
      sys.shared.ext.lookup (authHandoffKey settings input.code) = some (.authHandoff metadata) →
      nowEpochMs < metadata.expiresAtEpochMs →
      AuthHandoffStore.bindingMatches settings metadata input →
      ∃ sys', sys.run (fun t => (calls t).prog settings)
          [.call t, .step t [], .step t [], .step t []] = some sys' ∧
        .noted (.pairReturned metadata.userId metadata.audience) ∈ sys'.shared.log.reports t := by
  have hv : HandoffLog settings calls sys.shared.log :=
    recordRun_valid (handoff_traces settings calls) hrun
  have hdrawn := handoff_storesDrawn settings calls
  refine ⟨fun state => ?_, fun code => ?_, ?_, ?_, ?_⟩
  · exact once_after_consumed hv hdrawn hfresh (oauthStateKey settings state)
      fun _ _ _ hstep hp => HandoffStep.taken_of_storesForState hstep hp
  · exact once_after_consumed hv hdrawn hfresh (authHandoffKey settings code)
      fun _ _ _ hstep hp => HandoffStep.taken_of_returnsForCode hstep hp
  · refine hv.calls fun prior t report ext hprior hcall userId audience hreport => ?_
    subst hreport
    exact pairEntitled_of_step hprior hcall.2.2
  · refine hv.calls fun prior t report ext _ hcall input nowEpochMs pairIssued metadata hexchange
      hfound hlive hwrong => ?_
    obtain ⟨hfits, rfl, hstep⟩ := hcall
    exact lookup_of_wrongBinding hexchange hfits hstep hfound hlive hwrong
  · exact fun t input nowEpochMs metadata hcall hidle hfound hlive hbound =>
      exchange_alone hcall hidle hfound hlive hbound

/-! ## A sign-in through Google -/

/-- One client; hashes and encodings leave text as it is. -/
def temisSettings : HandoffSettings where
  toAuthSettings := { plainSettings with
    authClients := fun clientId => if clientId = "temis" then
      some ⟨"temis", "temis", ["https://temis.example/callback"], ⟨"temis", "user"⟩⟩ else none }
  nodeUtf8Bytes value := value.toList.map fun c => c.toNat.toUInt8
  sha256Hex := id
  isAbsoluteZodUrl value := value ≠ ""
  providerError _ := none
  oauthClient := true
  authClients_keyed clientId client h := by
    dsimp only at h
    split at h
    · next hid => rw [← Option.some.inj h, hid]
    · simp at h

def googleVerifier : String := "abcdefghijklmnopqrstuvwxyz0123456789-._~ABCD"

/-- A start and its callback, an exchange with a wrong verifier and one with the right one. -/
def googleSignIn : ℕ → HandoffCall
  | 0 => .oauthStart .google ⟨"temis", none, some "tab", some googleVerifier, none⟩ ["state"]
  | 1 => .oauthCallback .google "granted" "state" (.ok "alice") 1000 ["code"]
  | 2 => .exchange ⟨"temis", "https://temis.example/callback", "code", "guess"⟩ 2000 true
  | 3 => .exchange ⟨"temis", "https://temis.example/callback", "code", googleVerifier⟩ 2000 true
  | _ => .expire (.authHandoff "")

lemma googleSignIn_fresh : FreshDraws fun t => (googleSignIn t).draws temisSettings := by
  have hlater : ∀ t key, key ∉ (googleSignIn (t + 2)).draws temisSettings := by
    rintro (_ | _ | t) key <;> simp [googleSignIn, HandoffCall.draws]
  intro t t' key h h'
  match t, t' with
  | 0, 0 => rfl
  | 1, 1 => rfl
  | 0, 1 =>
    simp only [googleSignIn, HandoffCall.draws, List.map_cons, List.map_nil,
      List.mem_singleton] at h h'
    exact absurd (h.symm.trans h') (by simp [oauthStateKey, authHandoffKey])
  | 1, 0 =>
    simp only [googleSignIn, HandoffCall.draws, List.map_cons, List.map_nil,
      List.mem_singleton] at h h'
    exact absurd (h.symm.trans h') (by simp [oauthStateKey, authHandoffKey])
  | 0, t' + 2 => exact absurd h' (hlater t' key)
  | 1, t' + 2 => exact absurd h' (hlater t' key)
  | t + 2, _ => exact absurd h (hlater t key)

def googleActs : List (Act (records RedisKey RedisValue HandoffNote Error)) :=
  [.call 0, .step 0 [], .call 1, .step 1 [], .step 1 [], .call 2, .step 2 []]

/-- The guess leaves the code, and the right verifier then gets the pair. -/
theorem googleSignIn_safe : ∃ sys sys',
    handoffRun temisSettings googleSignIn googleActs = some sys ∧
    sys.shared.log.Calls (SparesLiveCode temisSettings googleSignIn) ∧
    sys.run (fun t => (googleSignIn t).prog temisSettings)
      [.call 3, .step 3 [], .step 3 [], .step 3 []] = some sys' ∧
    .noted (.pairReturned "alice" "temis") ∈ sys'.shared.log.reports 3 := by
  have hsome : (handoffRun temisSettings googleSignIn googleActs).any (fun sys =>
      (sys.process 3).isNone && sys.shared.ext.lookup (.authHandoff "code") =
        some (.authHandoff ⟨"temis", "temis", "https://temis.example/callback", "alice", .oauth,
          googleVerifier, some "tab", 121000, some "google"⟩)) = true := by decide
  obtain ⟨sys, hrun, hsys⟩ := (Option.any_eq_true _ _).mp hsome
  simp only [Bool.and_eq_true, Option.isNone_iff_eq_none, decide_eq_true_eq] at hsys
  obtain ⟨-, -, -, hspares, hredeem⟩ :=
    handoff_protocol_safe temisSettings googleSignIn googleSignIn_fresh googleActs sys hrun
  obtain ⟨sys', hrun', hpair⟩ := hredeem 3 _ 2000 _ rfl hsys.1 hsys.2 (by decide) (by decide)
  exact ⟨sys, sys', hrun, hspares, hrun', hpair⟩

end WiseacctSso.AuthState
