import WiseacctSso.SessionRuns

/-!
# Rotation is single-use

Each stored token is the source of at most one committed rotation, so the tokens derived
from one issue form a chain of which only the last may be live.
-/
namespace WiseacctSso
open ReadCommitted

variable {settings : AuthSettings} {calls : ℕ → SessionCall} {db₀ : Db store}

def HashesDistinct (db : Db store) : Prop :=
  ∀ κ κ' (r r' : RefreshToken), db.get .refreshToken κ = some r →
    db.get .refreshToken κ' = some r' → r.tokenHash = r'.tokenHash → κ = κ'

instance (db : Db store) : Decidable (HashesDistinct db) :=
  decidable_of_iff _ (forall_get₂_iff (Γ := store) (T := .refreshToken)
    (P := fun κ (r : RefreshToken) κ' r' => r.tokenHash = r'.tokenHash → κ = κ')).symm

/-- No two calls mint the same token hash, and none mints a stored one. -/
structure MintedFresh (calls : ℕ → SessionCall) (db₀ : Db store) : Prop where
  absent : ∀ t issued, (calls t).issued = some issued →
    ∀ κ (r : RefreshToken), db₀.get .refreshToken κ = some r → r.tokenHash ≠ issued.tokenHash
  distinct : ∀ t t' issued issued', (calls t).issued = some issued →
    (calls t').issued = some issued' → issued.tokenHash = issued'.tokenHash → t = t'

/-- The committed rotations of the token. -/
def rotations (tokenHash : String) : Log store → ℕ
  | .initial _ _ => 0
  | .add log (.committed _ report _ _) =>
      if report = .rotated tokenHash then rotations tokenHash log + 1 else rotations tokenHash log
  | .add log (.selected _ _) => rotations tokenHash log
  | .add log (.called _ _ _) => rotations tokenHash log

/-- The live token of the hash is revoked, one live token of the same user and audience goes
in, and the rest of the table stays. -/
def RotationEffect (tokenHash : String) (now : Timestamp) (issued : IssuedRefreshToken)
    (before after : Db store) : Prop :=
  ∃ (sourceId : String) (source : RefreshToken),
    before.get .refreshToken sourceId = some source ∧ source.tokenHash = tokenHash ∧
    source.revokedAt = none ∧ before.get .refreshToken issued.id = none ∧
    ∀ κ, after.get .refreshToken κ =
      if κ = issued.id then
        some ⟨issued.tokenHash, source.userId, issued.expiresAt, none, source.audience⟩
      else if κ = sourceId then some { source with revokedAt := some now }
      else before.get .refreshToken κ

/-- Some rotation of the log made the second token out of the first. -/
def RotatedTo (calls : ℕ → SessionCall) (log : Log store) (tokenHash newHash : String) : Prop :=
  ∃ (prior : Log store) (t : ℕ) (held : Lock store → Bool) (after : Db store)
    (issued : IssuedRefreshToken),
    (prior.add (.committed t (.rotated tokenHash) held after)).Precedes log ∧
    (calls t).issued = some issued ∧ issued.tokenHash = newHash

/-! ## Rows through one commit -/

/-- The same token, except that it may have been revoked. -/
structure SameToken (r r' : RefreshToken) : Prop where
  tokenHash : r'.tokenHash = r.tokenHash
  userId : r'.userId = r.userId
  audience : r'.audience = r.audience
  revoked : r.revokedAt ≠ none → r'.revokedAt ≠ none

lemma SameToken.refl (r : RefreshToken) : SameToken r r := ⟨rfl, rfl, rfl, id⟩

lemma SameToken.trans {r r' r'' : RefreshToken} (h : SameToken r r') (h' : SameToken r' r'') :
    SameToken r r'' :=
  ⟨h'.tokenHash.trans h.tokenHash, h'.userId.trans h.userId, h'.audience.trans h.audience,
    fun hr => h'.revoked (h.revoked hr)⟩

lemma TokenStep.kept {held : Lock store → Bool} {before after : Db store} {κ : String}
    (h : TokenStep held before after κ) {r : RefreshToken}
    (hr : before.get .refreshToken κ = some r) :
    ∃ r', after.get .refreshToken κ = some r' ∧ SameToken r r' := by
  cases h with
  | same hsame => exact ⟨r, hsame.trans hr, .refl r⟩
  | revoked found _ hafter =>
    obtain rfl := Option.some.inj (found.symm.trans hr)
    exact ⟨_, hafter, rfl, rfl, rfl, fun _ => by simp⟩
  | inserted fresh _ _ => exact absurd (fresh.symm.trans hr) (by simp)

lemma TokenRotated.source_after {tokenHash userId audience sourceId : String} {now : Timestamp}
    {issued : IssuedRefreshToken} {held : Lock store → Bool} {before after : Db store}
    {source : RefreshToken}
    (h : TokenRotated tokenHash userId audience now issued held before after sourceId source) :
    after.get .refreshToken sourceId = some { source with revokedAt := some now } := by
  have hne : sourceId ≠ issued.id := by
    rintro rfl
    exact absurd (h.found.symm.trans h.fresh) (by simp)
  rw [h.lookup, if_neg hne, if_pos rfl]

/-- A row that a commit brings in carries the hash its process minted. -/
lemma SessionCommit.inserted {log : Log store} {t : ℕ} {held : Lock store → Bool}
    {after : Db store} {report : Report}
    (h : SessionCommit settings calls log t held after report) {κ : String} {r : RefreshToken}
    (hbefore : log.db.get .refreshToken κ = none) (hafter : after.get .refreshToken κ = some r) :
    ∃ issued, (calls t).issued = some issued ∧ κ = issued.id ∧ r.tokenHash = issued.tokenHash ∧
      (∀ earlier ∈ log.reports t, earlier.insertsToken = false) ∧ report.insertsToken = true := by
  have hrevoked : ∀ {p}, ¬ TokensRevoked p log.db after := by
    intro p hp
    rcases hp κ with hsame | ⟨r', _, hr', -⟩
    · exact absurd (hafter.symm.trans (hsame.trans hbefore)) (by simp)
    · exact absurd (hr'.symm.trans hbefore) (by simp)
  have honly : ∀ {Ts : List Table}, .refreshToken ∉ Ts → ¬ OnlyTables Ts log.db after :=
    fun hT ho => absurd (hafter.symm.trans ((ho.get hT κ).trans hbefore)) (by simp)
  cases h with
  | rotated call first _ _ _ _ effect =>
    rw [effect.lookup] at hafter
    split at hafter
    · next hκ =>
      obtain rfl := Option.some.inj hafter
      refine ⟨_, ?_, hκ, rfl, by simp [first], rfl⟩
      cases hcall : calls t <;> simp_all [SessionCall.rotation, SessionCall.issued]
    · split at hafter
      · next hκ => exact absurd ((hκ ▸ effect.found).symm.trans hbefore) (by simp)
      · exact absurd (hafter.symm.trans hbefore) (by simp)
  | tokenIssued call first _ effect =>
    rw [effect.lookup] at hafter
    split at hafter
    · next hκ =>
      obtain rfl := Option.some.inj hafter
      exact ⟨_, call, hκ, rfl, first, rfl⟩
    · exact absurd (hafter.symm.trans hbefore) (by simp)
  | refused _ effect =>
    subst effect
    exact absurd (hafter.symm.trans hbefore) (by simp)
  | loggedOut _ effect _ => exact absurd effect hrevoked
  | userStatusSet _ _ _ tokens _ =>
    split at tokens
    · exact absurd tokens.revoked hrevoked
    · exact absurd tokens (honly (by simp))
  | roleAssigned _ _ only => exact absurd only (honly (by simp))
  | roleRemoved _ _ _ tokens _ =>
    split at tokens
    · exact absurd tokens.revoked hrevoked
    · exact absurd tokens (honly (by simp))
  | sessionsRevoked _ _ effect _ => exact absurd effect.revoked hrevoked
  | passwordResetRequested only => exact absurd only (honly (by simp))
  | passwordResetRefused only => exact absurd only (honly (by simp))
  | passwordReset _ _ _ tokens _ => exact absurd tokens.revoked hrevoked
  | loginSucceeded _ _ _ only => exact absurd only (honly (by simp))
  | loginFailureRecorded _ _ _ only => exact absurd only (honly (by simp))

/-- A token stays stored, and stays the same but for its revocation. -/
lemma sameToken_of_extends {permitted : Event store → Prop} {log log' : Log store}
    (h : log.Extends permitted log') (hv : SessionLog settings calls db₀ log') {κ : String}
    {r : RefreshToken} (hr : log.db.get .refreshToken κ = some r) :
    ∃ r', log'.db.get .refreshToken κ = some r' ∧ SameToken r r' := by
  refine stable_of_step (P := fun db => ∃ r', db.get .refreshToken κ = some r' ∧ SameToken r r')
    session_takesSteps ?_ h hv ⟨r, hr, .refl r⟩
  rintro held before after hstep ⟨r₁, hr₁, hsame₁⟩
  obtain ⟨r₂, hr₂, hsame₂⟩ := (hstep.tokens κ).kept hr₁
  exact ⟨r₂, hr₂, hsame₁.trans hsame₂⟩

/-! ## The invariant of a log -/

structure RotationInvariant (calls : ℕ → SessionCall) (log : Log store) : Prop where
  distinct : HashesDistinct log.db
  /-- A process that has stored nothing yet finds the hash it minted unused. -/
  unminted : ∀ t issued, (calls t).issued = some issued →
    (∀ report ∈ log.reports t, report.insertsToken = false) →
    ∀ κ (r : RefreshToken), log.db.get .refreshToken κ = some r → r.tokenHash ≠ issued.tokenHash
  single : ∀ tokenHash, rotations tokenHash log ≤ 1
  spent : ∀ tokenHash, rotations tokenHash log ≠ 0 → ∃ κ r,
    log.db.get .refreshToken κ = some r ∧ r.tokenHash = tokenHash ∧ r.revokedAt ≠ none

namespace RotationInvariant

variable {log : Log store}

lemma initial (hhash : HashesDistinct db₀) (hminted : MintedFresh calls db₀) (ext : RedisState) :
    RotationInvariant calls (.initial db₀ ext) :=
  ⟨hhash, fun t issued hissued _ => hminted.absent t issued hissued, fun _ => Nat.zero_le 1,
    fun _ hne => absurd rfl hne⟩

lemma commit (hminted : MintedFresh calls db₀) (h : RotationInvariant calls log) {t : ℕ}
    {report : Report} {held : Lock store → Bool} {after : Db store}
    (hc : SessionCommit settings calls log t held after report) :
    RotationInvariant calls (log.add (.committed t report held after)) := by
  -- A row after the commit is an earlier row or the one row that was minted.
  have horigin : ∀ κ (r : RefreshToken), after.get .refreshToken κ = some r →
      log.db.get .refreshToken κ = none ∨
        ∃ r₀, log.db.get .refreshToken κ = some r₀ ∧ SameToken r₀ r := by
    intro κ r hr
    rcases hbefore : log.db.get .refreshToken κ with _ | r₀
    · exact .inl rfl
    · obtain ⟨r', hr', hsame⟩ := (hc.step.tokens κ).kept hbefore
      obtain rfl := Option.some.inj (hr'.symm.trans hr)
      exact .inr ⟨r₀, rfl, hsame⟩
  have hfresh : ∀ κ κ' (r r' : RefreshToken), after.get .refreshToken κ = some r →
      log.db.get .refreshToken κ = none → log.db.get .refreshToken κ' = some r' →
      r.tokenHash ≠ r'.tokenHash := by
    intro κ κ' r r' hr hbefore hr' heq
    obtain ⟨issued, hissued, -, hhash, hfirst, -⟩ := hc.inserted hbefore hr
    exact h.unminted t issued hissued hfirst κ' r' hr' (heq.symm.trans hhash)
  have hdistinct : HashesDistinct after := by
    intro κ κ' r r' hr hr' heq
    rcases horigin κ r hr with hnone | ⟨r₀, hr₀, hsame⟩ <;>
      rcases horigin κ' r' hr' with hnone' | ⟨r₀', hr₀', hsame'⟩
    · obtain ⟨issued, hissued, hκ, -⟩ := hc.inserted hnone hr
      obtain ⟨issued', hissued', hκ', -⟩ := hc.inserted hnone' hr'
      obtain rfl := Option.some.inj (hissued.symm.trans hissued')
      exact hκ.trans hκ'.symm
    · exact absurd (heq.trans hsame'.tokenHash) (hfresh κ κ' r r₀' hr hnone hr₀')
    · exact absurd (heq.symm.trans hsame.tokenHash) (hfresh κ' κ r' r₀ hr' hnone' hr₀)
    · exact h.distinct κ κ' r₀ r₀' hr₀ hr₀'
        (hsame.tokenHash.symm.trans (heq.trans hsame'.tokenHash))
  have hspent : ∀ tokenHash, rotations tokenHash log ≠ 0 → ∃ κ r,
      after.get .refreshToken κ = some r ∧ r.tokenHash = tokenHash ∧ r.revokedAt ≠ none := by
    intro tokenHash hne
    obtain ⟨κ, r, hr, hhash, hrevoked⟩ := h.spent tokenHash hne
    obtain ⟨r', hr', hsame⟩ := (hc.step.tokens κ).kept hr
    exact ⟨κ, r', hr', hsame.tokenHash.trans hhash, hsame.revoked hrevoked⟩
  refine ⟨hdistinct, fun t' issued hissued hfirst κ r hr heq => ?_, fun tokenHash => ?_,
    fun tokenHash hne => ?_⟩
  · have hearlier : ∀ earlier ∈ log.reports t', earlier.insertsToken = false := by
      intro earlier hmem
      refine hfirst earlier ?_
      simp only [Log.reports]
      split
      · exact List.mem_append_left _ hmem
      · exact hmem
    rcases horigin κ r hr with hnone | ⟨r₀, hr₀, hsame⟩
    · obtain ⟨issued', hissued', -, hhash, -, hinserts⟩ := hc.inserted hnone hr
      obtain rfl := hminted.distinct t t' issued' issued hissued' hissued (hhash.symm.trans heq)
      have := hfirst report (by simp [Log.reports])
      simp [hinserts] at this
    · exact h.unminted t' issued hissued hearlier κ r₀ hr₀ (hsame.tokenHash.symm.trans heq)
  · simp only [rotations]
    split
    · next hreport =>
      subst hreport
      by_cases hzero : rotations tokenHash log = 0
      · omega
      · obtain ⟨κ, r, hr, hhash, hrevoked⟩ := h.spent tokenHash hzero
        cases hc with
        | rotated _ _ _ _ _ _ effect =>
          obtain rfl := h.distinct κ _ r _ hr effect.found (hhash.trans effect.hash.symm)
          obtain rfl := Option.some.inj (hr.symm.trans effect.found)
          exact absurd effect.live hrevoked
        | refused report_mem _ => simp at report_mem
    · exact h.single tokenHash
  · simp only [rotations] at hne
    split at hne
    · next hreport =>
      subst hreport
      cases hc with
      | rotated _ _ _ _ _ _ effect =>
        refine ⟨_, _, effect.source_after, ?_, Option.some_ne_none _⟩
        exact effect.hash
      | refused report_mem _ => simp at report_mem
    · exact hspent tokenHash hne

theorem of_valid (hhash : HashesDistinct db₀) (hminted : MintedFresh calls db₀)
    (hv : SessionLog settings calls db₀ log) : RotationInvariant calls log := by
  induction log with
  | initial db ext =>
    obtain rfl : db = db₀ := hv.1
    exact .initial hhash hminted ext
  | add log event ih =>
    have hlog := ih hv.of_add
    cases event with
    | selected t q => exact ⟨hlog.distinct, hlog.unminted, hlog.single, hlog.spent⟩
    | called t report ext =>
      refine ⟨hlog.distinct, fun t' issued hissued hfirst => ?_, hlog.single, hlog.spent⟩
      refine hlog.unminted t' issued hissued fun earlier hmem => hfirst earlier ?_
      simp only [Log.reports]
      split
      · exact List.mem_append_left _ hmem
      · exact hmem
    | committed t report held after => exact hlog.commit hminted hv.2.1

end RotationInvariant

/-! ## Rotations of a log -/

section rotations

variable {log prior : Log store} {t : ℕ} {held : Lock store → Bool} {after : Db store}
  {tokenHash : String}

lemma rotations_le_of_precedes (h : prior.Precedes log) (tokenHash : String) :
    rotations tokenHash prior ≤ rotations tokenHash log := by
  induction h with
  | refl => exact le_rfl
  | @add log event _ _ ih =>
    cases event with
    | selected t q => exact ih
    | called t report ext => exact ih
    | committed t report held db =>
      simp only [rotations]
      split
      · exact ih.trans (Nat.le_succ _)
      · exact ih

/-- A second rotation of the same token would be counted twice. -/
lemma rotation_unique {prior' : Log store} {t' : ℕ} {held' : Lock store → Bool}
    {after' : Db store} (hsingle : rotations tokenHash log ≤ 1)
    (h : (prior.add (.committed t (.rotated tokenHash) held after)).Precedes log)
    (h' : (prior'.add (.committed t' (.rotated tokenHash) held' after')).Precedes log) :
    t = t' := by
  have hcount : ∀ (log₁ log₂ : Log store) t₁ t₂ held₁ held₂ after₁ after₂,
      (log₂.add (.committed t₂ (.rotated tokenHash) held₂ after₂)).Precedes log →
      (log₁.add (.committed t₁ (.rotated tokenHash) held₁ after₁)).Precedes
        (log₂.add (.committed t₂ (.rotated tokenHash) held₂ after₂)) → t₁ = t₂ := by
    intro log₁ log₂ t₁ t₂ held₁ held₂ after₁ after₂ hlog h₁₂
    cases h₁₂ with
    | refl => rfl
    | add h₁₂ _ =>
      have hfirst := rotations_le_of_precedes h₁₂ tokenHash
      have hsecond := rotations_le_of_precedes hlog tokenHash
      simp only [rotations, if_true] at hfirst hsecond
      omega
  rcases precedes_total h h' with hle | hle
  · exact hcount prior prior' t t' held held' after after' h' hle
  · exact (hcount prior' prior t' t held' held after' after h hle).symm

/-- A commit that reports a rotation has its effect on the table. -/
lemma rotationEffect_of_commit (hinv : RotationInvariant calls log)
    (hv : SessionLog settings calls db₀ log)
    (hc : SessionCommit settings calls log t held after (.rotated tokenHash)) :
    ∃ audience now issued, (calls t).rotation = some (tokenHash, audience, now, issued) ∧
      RotationEffect tokenHash now issued log.db after := by
  cases hc with
  | @rotated tokenHash audience now issued readLog storedId stored sourceId source call _ read
      found hash _ effect =>
    obtain ⟨r, hr, hsame⟩ := sameToken_of_extends read hv found
    -- The row that was read is the row that was revoked, since the hashes are distinct.
    obtain rfl := hinv.distinct storedId sourceId r source hr effect.found
      (hsame.tokenHash.trans (hash.trans effect.hash.symm))
    obtain rfl := Option.some.inj (hr.symm.trans effect.found)
    refine ⟨audience, now, issued, call, storedId, r, hr, effect.hash, effect.live, effect.fresh,
      fun κ => ?_⟩
    rw [effect.lookup, hsame.userId, hsame.audience]
  | refused report_mem _ => simp at report_mem

/-- A rotating process either commits its rotation or leaves the table as it was. -/
lemma rotation_or_same (hcall : (calls t).rotation.isSome = true) {report : Report}
    (hc : SessionCommit settings calls log t held after report) :
    (∃ tokenHash, report = .rotated tokenHash) ∨
      after .refreshToken = log.db .refreshToken := by
  cases hc with
  | rotated => exact .inl ⟨_, rfl⟩
  | tokenIssued _ _ origin _ =>
    cases origin with
    | plain call => simp [call, SessionCall.rotation] at hcall
    | login call _ => simp [call, SessionCall.rotation] at hcall
    | exchange call _ _ _ => simp [call, SessionCall.rotation] at hcall
  | refused _ effect => exact .inr (by rw [effect])
  | loggedOut call _ _ => simp [call, SessionCall.rotation] at hcall
  | userStatusSet call _ _ _ _ => simp [call, SessionCall.rotation] at hcall
  | roleAssigned _ _ only => exact .inr (only _ (by simp))
  | roleRemoved call _ _ _ _ => simp [call, SessionCall.rotation] at hcall
  | sessionsRevoked call _ _ _ => simp [call, SessionCall.rotation] at hcall
  | passwordResetRequested only => exact .inr (only _ (by simp))
  | passwordResetRefused only => exact .inr (only _ (by simp))
  | passwordReset call _ _ _ _ => simp [call, SessionCall.rotation] at hcall
  | loginSucceeded _ _ _ only => exact .inr (only _ (by simp))
  | loginFailureRecorded _ _ _ only => exact .inr (only _ (by simp))

/-- A token that was rotated is revoked for good. -/
lemma revoked_of_rotatedTo (hinv : RotationInvariant calls log) {newHash κ : String}
    {r : RefreshToken} (h : RotatedTo calls log tokenHash newHash)
    (hr : log.db.get .refreshToken κ = some r) (hhash : r.tokenHash = tokenHash) :
    r.revokedAt ≠ none := by
  obtain ⟨prior, t, held, after, issued, hprior, -⟩ := h
  have hcount : rotations tokenHash log ≠ 0 := by
    have hle := rotations_le_of_precedes hprior tokenHash
    simp only [rotations, if_true] at hle
    omega
  obtain ⟨κ', r', hr', hhash', hrevoked⟩ := hinv.spent tokenHash hcount
  obtain rfl := hinv.distinct κ κ' r r' hr hr' (hhash.trans hhash'.symm)
  obtain rfl := Option.some.inj (hr.symm.trans hr')
  exact hrevoked

/-- Of the tokens that rotations derived from one, at most one is live. -/
lemma lineage_live_unique (hinv : RotationInvariant calls log) {origin κ κ' : String}
    {r r' : RefreshToken} (hr : log.db.get .refreshToken κ = some r)
    (hr' : log.db.get .refreshToken κ' = some r')
    (hline : Relation.ReflTransGen (RotatedTo calls log) origin r.tokenHash)
    (hline' : Relation.ReflTransGen (RotatedTo calls log) origin r'.tokenHash)
    (hlive : r.revokedAt = none) (hlive' : r'.revokedAt = none) : κ = κ' := by
  have hunique : Relator.RightUnique (RotatedTo calls log) := by
    rintro tokenHash newHash newHash' ⟨_, t, _, _, issued, h, hissued, rfl⟩
      ⟨_, t', _, _, issued', h', hissued', rfl⟩
    obtain rfl := rotation_unique (hinv.single tokenHash) h h'
    obtain rfl := Option.some.inj (hissued.symm.trans hissued')
    rfl
  -- The tokens form a chain, and a token with a successor is revoked.
  refine hinv.distinct κ κ' r r' hr hr' ?_
  rcases Relation.ReflTransGen.total_of_right_unique hunique hline hline' with hpath | hpath
  · rcases hpath.cases_head with heq | ⟨next, hnext, -⟩
    · exact heq
    · exact absurd hlive (revoked_of_rotatedTo hinv hnext hr rfl)
  · rcases hpath.cases_head with heq | ⟨next, hnext, -⟩
    · exact heq.symm
    · exact absurd hlive' (revoked_of_rotatedTo hinv hnext hr' rfl)

end rotations

/-! ## Runs -/

/-- What single use says of the system a run has reached. -/
structure RotationSingleUse (calls : ℕ → SessionCall) (sys : System store) : Prop where
  single : ∀ tokenHash, rotations tokenHash sys.shared.log ≤ 1
  /-- A committed rotation revokes its source and stores one token with its user and audience. -/
  effect : ∀ (prior : Log store) t tokenHash held after,
    (prior.add (.committed t (.rotated tokenHash) held after)).Precedes sys.shared.log →
    ∃ audience now issued, (calls t).rotation = some (tokenHash, audience, now, issued) ∧
      RotationEffect tokenHash now issued prior.db after
  refused : ∀ (prior : Log store) t report held after, (calls t).rotation.isSome = true →
    (prior.add (.committed t report held after)).Precedes sys.shared.log →
    (∀ tokenHash, report ≠ .rotated tokenHash) → after .refreshToken = prior.db .refreshToken
  /-- A rotation that raised has committed nothing. -/
  raised : ∀ t c e, (calls t).rotation.isSome = true → sys.process t = some c →
    c.prog = .raise e → sys.shared.log.reports t = []
  lineage : ∀ origin κ κ' (r r' : RefreshToken), sys.shared.db.get .refreshToken κ = some r →
    sys.shared.db.get .refreshToken κ' = some r' →
    Relation.ReflTransGen (RotatedTo calls sys.shared.log) origin r.tokenHash →
    Relation.ReflTransGen (RotatedTo calls sys.shared.log) origin r'.tokenHash →
    r.revokedAt = none → r'.revokedAt = none → κ = κ'

theorem rotation_single_use {redis : RedisState} {acts : List (Act store)} {sys : System store}
    (hunique : UniqueEntries db₀) (husers : TokenUsersExist db₀) (hhash : HashesDistinct db₀)
    (hminted : MintedFresh calls db₀)
    (hrun : sessionRun settings calls db₀ redis acts = some sys) : RotationSingleUse calls sys := by
  have hv := sessionLog_of_run hunique husers hrun
  have hinv := RotationInvariant.of_valid hhash hminted hv
  refine ⟨hinv.single, fun prior t tokenHash held after h => ?_,
    fun prior t report held after hcall h hother => ?_,
    fun t c e hcall hc hraise => rotation_raised hunique husers hrun hcall hc hraise,
    fun origin κ κ' r r' hr hr' hline hline' hlive hlive' =>
      lineage_live_unique hinv hr hr' hline hline' hlive hlive'⟩
  · have hcommit := Log.Valid.of_extends h hv
    exact rotationEffect_of_commit (.of_valid hhash hminted hcommit.of_add) hcommit.of_add
      hcommit.2.1
  · rcases rotation_or_same hcall (Log.Valid.of_extends h hv).2.1 with ⟨tokenHash, heq⟩ | hsame
    · exact absurd heq (hother tokenHash)
    · exact hsame

/-- Two rotations of one token, of which the first commits and the second finds it revoked. -/
def twoRotations : ℕ → SessionCall
  | 0 => .rotate "h0" "temis" 1 ⟨"r1", "h1", 200⟩
  | 1 => .rotate "h0" "temis" 1 ⟨"r2", "h2", 200⟩
  | _ => .logout "" 0

def twoRotationsActs : List (Act store) :=
  [.call 0, .call 1, .step 0 [], .step 1 [], .step 0 [], .step 1 [], .step 0 ["alice"],
    .step 1 ["alice"], .step 0 [], .step 0 ["r0"], .step 0 [], .step 0 [], .step 0 [], .step 1 [],
    .step 1 []]

lemma twoRotations_mintedFresh : MintedFresh twoRotations oneAdmin := by
  have hissued : ∀ t issued, (twoRotations t).issued = some issued →
      t = 0 ∧ issued = ⟨"r1", "h1", 200⟩ ∨ t = 1 ∧ issued = ⟨"r2", "h2", 200⟩ := by
    rintro (_ | _ | t) issued h
    · exact .inl ⟨rfl, (Option.some.inj h).symm⟩
    · exact .inr ⟨rfl, (Option.some.inj h).symm⟩
    · exact absurd h (by simp [twoRotations, SessionCall.issued])
  refine ⟨fun t issued h => ?_, fun t t' issued issued' h h' heq => ?_⟩
  · rcases hissued t issued h with ⟨-, rfl⟩ | ⟨-, rfl⟩ <;>
      exact (forall_get_iff (Γ := store) (T := .refreshToken)).mpr (by decide)
  · rcases hissued t issued h with ⟨rfl, rfl⟩ | ⟨rfl, rfl⟩ <;>
      rcases hissued t' issued' h' with ⟨rfl, rfl⟩ | ⟨rfl, rfl⟩
    · rfl
    · exact absurd heq (by decide)
    · exact absurd heq (by decide)
    · rfl

theorem twoRotations_single_use :
    ∃ sys, sessionRun plainSettings twoRotations oneAdmin ⟨∅⟩ twoRotationsActs = some sys ∧
      rotations "h0" sys.shared.log = 1 ∧ RotationSingleUse twoRotations sys := by
  have hsome : (sessionRun plainSettings twoRotations oneAdmin ⟨∅⟩ twoRotationsActs).any
      (fun sys => rotations "h0" sys.shared.log = 1) = true := by decide
  obtain ⟨sys, hrun, hcount⟩ := (Option.any_eq_true _ _).mp hsome
  exact ⟨sys, hrun, by simpa using hcount, rotation_single_use (by decide) (by decide) (by decide)
    twoRotations_mintedFresh hrun⟩

end WiseacctSso
