/-
How a validation comes to its resolution.

`Resolved` lists the three ways in which a validation ends: at the owner, at the membership, or with the roster. Each
holds the replies of the provider's calls up to there, in order. Every transcript of `Validation.resolve` is one of them
(`resolved_of_yields`). From it follow what the replies were when something is remembered (`Resolved.backs`), and what
the resolution is when the replies are known beforehand (`Resolved.eq_foregone`).
-/
import TokenGate.Exchange.Transcript
import TokenGate.Validation

namespace TokenGate

variable {Q : Type} {Answer : Q → Type}

/-- A call of a provider as an exchange. -/
def Provider.call (p : Provider Answer) : (c : Call) → Exchange Answer c.Reply
  | .whoAmI token => p.whoAmI token
  | .checkMembership token org login => p.checkMembership token org login
  | .listGroups token org => p.listGroups token org

namespace Validation

/-- What a validation without a cache comes to when each call of the provider gets the reply that is foregone. -/
def foregone (policy : Policy) (replies : (c : Call) → c.Reply) (token : String) : Resolution :=
  (resolve Provider.direct policy token).result replies

/-- The validation of a token is resolved as `r` with the answers of a transcript. -/
inductive Resolved (p : Provider Answer) (policy : Policy) (token : String) :
    List (Answered Answer) → Resolution → Prop where
  | owner {l : List (Answered Answer)} {reply : Except ProviderError Owner} {r : Resolution} :
      (p.call (.whoAmI token)).Yields l reply → acceptOwner policy reply = .error r → Resolved p policy token l r
  | membership {l₁ l₂ : List (Answered Answer)} {reply₁ : Except ProviderError Owner} {user : UserProfile}
      {reply₂ : Except ProviderError Unit} {r : Resolution} :
      (p.call (.whoAmI token)).Yields l₁ reply₁ → acceptOwner policy reply₁ = .ok user →
      (p.call (.checkMembership token policy.org user.login)).Yields l₂ reply₂ →
      acceptMembership reply₂ = .error r → Resolved p policy token (l₁ ++ l₂) r
  | roster {l₁ l₂ l₃ : List (Answered Answer)} {reply₁ : Except ProviderError Owner} {user : UserProfile}
      {reply₂ : Except ProviderError Unit} {reply₃ : Except ProviderError (List Team)} :
      (p.call (.whoAmI token)).Yields l₁ reply₁ → acceptOwner policy reply₁ = .ok user →
      (p.call (.checkMembership token policy.org user.login)).Yields l₂ reply₂ → acceptMembership reply₂ = .ok () →
      (p.call (.listGroups token policy.org)).Yields l₃ reply₃ →
      Resolved p policy token (l₁ ++ l₂ ++ l₃) (acceptRoster policy user reply₃)

theorem resolved_of_yields {p : Provider Answer} {policy : Policy} {token : String} {log : List (Answered Answer)}
    {r : Resolution} (h : (resolve p policy token).Yields log r) : Resolved p policy token log r := by
  obtain ⟨l₁, rest, reply₁, rfl, h₁, h⟩ := Exchange.yields_bind.1 h
  split at h
  next r' howner =>
    obtain ⟨rfl, rfl⟩ := Exchange.yields_done.1 h
    rw [List.append_nil]
    exact .owner h₁ howner
  next user howner =>
    obtain ⟨l₂, l₃, reply₂, rfl, h₂, h⟩ := Exchange.yields_bind.1 h
    split at h
    next r' hmember =>
      obtain ⟨rfl, rfl⟩ := Exchange.yields_done.1 h
      rw [List.append_nil]
      exact .membership h₁ howner h₂ hmember
    next hmember =>
      obtain ⟨reply₃, h₃, rfl⟩ := Exchange.yields_map.1 h
      rw [← List.append_assoc]
      exact .roster h₁ howner h₂ hmember h₃

/-! ## What is remembered -/

theorem acceptOwner_eq_ok {policy : Policy} {reply : Except ProviderError Owner} {user : UserProfile}
    (h : acceptOwner policy reply = .ok user) :
    ∃ owner, reply = .ok owner ∧ owner.profile = user ∧
      ¬ (policy.rejectClassicPats = true ∧ owner.isClassic = true) := by
  cases reply with
  | ok owner =>
    simp only [acceptOwner] at h
    split at h
    next => cases h
    next hpolicy =>
      cases h
      exact ⟨owner, rfl, rfl, fun hboth => hpolicy (by simp [hboth])⟩
  | error e => cases e <;> cases h

/-- Of what the first reply can decide, a rejection alone is remembered. -/
theorem memo_of_acceptOwner {policy : Policy} {reply : Except ProviderError Owner} {r : Resolution} {o : Outcome}
    (h : acceptOwner policy reply = .error r) (hmemo : r.memo = .some o) :
    reply = .error .unauthorized ∧ o = .denied .unauthorized ∧ r.result = .error .unauthorized := by
  cases reply with
  | ok owner =>
    simp only [acceptOwner] at h
    split at h
    next => cases h; cases hmemo
    next => cases h
  | error e =>
    cases e with
    | unauthorized => cases h; cases hmemo; exact ⟨rfl, rfl, rfl⟩
    | notMember | rateLimited | other => cases h; cases hmemo

theorem acceptMembership_eq_ok {reply : Except ProviderError Unit} (h : acceptMembership reply = .ok ()) :
    reply = .ok () := by
  cases reply with
  | ok => rfl
  | error e => cases e <;> cases h

/-- Nothing that the second reply decides is remembered. -/
theorem memo_of_acceptMembership {reply : Except ProviderError Unit} {r : Resolution}
    (h : acceptMembership reply = .error r) : r.memo = .none := by
  cases reply with
  | ok => cases h
  | error e => cases e <;> cases h <;> rfl

/-- Of what the third reply can decide, an identity alone is remembered. -/
theorem memo_of_acceptRoster {policy : Policy} {user : UserProfile} {reply : Except ProviderError (List Team)}
    {o : Outcome} (hmemo : (acceptRoster policy user reply).memo = .some o) :
    ∃ teams, reply = .ok teams ∧ o = .authorized (assemble policy user teams) := by
  cases reply with
  | ok teams => cases hmemo; exact ⟨teams, rfl, rfl⟩
  | error e => cases e <;> cases hmemo

/-- What a validation of `token` was answered, when it may leave `o` behind: either the owner of the credential, the
owner's membership and the owner's teams, in this order, or that the credential is not valid. -/
inductive Backs (p : Provider Answer) (policy : Policy) (token : String) :
    List (Answered Answer) → Outcome → Prop where
  | authorized {l₁ l₂ l₃ : List (Answered Answer)} {owner : Owner} {teams : List Team} :
      (p.call (.whoAmI token)).Yields l₁ (.ok owner) →
      ¬ (policy.rejectClassicPats = true ∧ owner.isClassic = true) →
      (p.call (.checkMembership token policy.org owner.profile.login)).Yields l₂ (.ok ()) →
      (p.call (.listGroups token policy.org)).Yields l₃ (.ok teams) →
      Backs p policy token (l₁ ++ l₂ ++ l₃) (.authorized
        { login := owner.profile.login
          id := owner.profile.id
          email := owner.profile.email
          org := policy.org
          teams := (teams.filter fun t => Text.sameLetters t.org.toList policy.org.toList).map Team.slug })
  | rejected {l : List (Answered Answer)} :
      (p.call (.whoAmI token)).Yields l (.error .unauthorized) → Backs p policy token l (.denied .unauthorized)

section

variable {p : Provider Answer} {policy : Policy} {token : String} {log : List (Answered Answer)} {r : Resolution}
  {o : Outcome}

/-- Whatever is remembered was answered. -/
theorem Resolved.backs (h : Resolved p policy token log r) (hmemo : r.memo = .some o) : Backs p policy token log o := by
  cases h with
  | owner h₁ howner =>
    obtain ⟨rfl, rfl, -⟩ := memo_of_acceptOwner howner hmemo
    exact .rejected h₁
  | membership _ _ _ hmember => rw [memo_of_acceptMembership hmember] at hmemo; cases hmemo
  | roster h₁ howner h₂ hmember h₃ =>
    obtain ⟨owner, rfl, rfl, hpolicy⟩ := acceptOwner_eq_ok howner
    obtain ⟨teams, rfl, rfl⟩ := memo_of_acceptRoster hmemo
    rw [acceptMembership_eq_ok hmember] at h₂
    exact .authorized h₁ hpolicy h₂ h₃

/-- What is remembered gives the same result again. -/
theorem Resolved.result_memo (h : Resolved p policy token log r) (hmemo : r.memo = .some o) : o.result = r.result := by
  cases h with
  | owner _ howner =>
    obtain ⟨-, rfl, hresult⟩ := memo_of_acceptOwner howner hmemo
    rw [hresult]; rfl
  | membership _ _ _ hmember => rw [memo_of_acceptMembership hmember] at hmemo; cases hmemo
  | roster _ _ _ _ _ =>
    obtain ⟨teams, rfl, rfl⟩ := memo_of_acceptRoster hmemo
    rfl

/-! ## Known replies -/

/-- The resolution with known answers, call by call. -/
theorem result_resolve (p : Provider Answer) (policy : Policy) (token : String) (answer : (q : Q) → Answer q) :
    (resolve p policy token).result answer =
      match acceptOwner policy ((p.whoAmI token).result answer) with
      | .error r => r
      | .ok user =>
        match acceptMembership ((p.checkMembership token policy.org user.login).result answer) with
        | .error r => r
        | .ok () => acceptRoster policy user ((p.listGroups token policy.org).result answer) := by
  rw [resolve, Exchange.result_bind]
  cases acceptOwner policy ((p.whoAmI token).result answer) with
  | error r => rfl
  | ok user =>
    simp only [Exchange.result_bind]
    cases acceptMembership ((p.checkMembership token policy.org user.login).result answer) with
    | error r => rfl
    | ok => exact Exchange.result_bind ..

theorem foregone_eq (policy : Policy) (replies : (c : Call) → c.Reply) (token : String) :
    foregone policy replies token =
      match acceptOwner policy (replies (.whoAmI token)) with
      | .error r => r
      | .ok user =>
        match acceptMembership (replies (.checkMembership token policy.org user.login)) with
        | .error r => r
        | .ok () => acceptRoster policy user (replies (.listGroups token policy.org)) :=
  result_resolve Provider.direct policy token replies

/-- When all calls get the replies that are foregone, so is the resolution. -/
theorem Resolved.eq_foregone {replies : (c : Call) → c.Reply} (h : Resolved p policy token log r)
    (hreplies : ∀ (c : Call) (l : List (Answered Answer)) (reply : c.Reply), l ⊆ log →
      (p.call c).Yields l reply → reply = replies c) : r = foregone policy replies token := by
  rw [foregone_eq]
  cases h with
  | owner h₁ howner =>
    rw [hreplies _ _ _ (List.Subset.refl _) h₁] at howner
    rw [howner]
  | membership h₁ howner h₂ hmember =>
    rw [hreplies _ _ _ (List.subset_append_left ..) h₁] at howner
    rw [hreplies _ _ _ (List.subset_append_right ..) h₂] at hmember
    rw [howner]
    simp only [hmember]
  | @roster l₁ l₂ l₃ _ _ _ _ h₁ howner h₂ hmember h₃ =>
    have hsub : l₁ ++ l₂ ⊆ l₁ ++ l₂ ++ l₃ := List.subset_append_left ..
    rw [hreplies _ _ _ (List.Subset.trans (List.subset_append_left ..) hsub) h₁] at howner
    rw [hreplies _ _ _ (List.Subset.trans (List.subset_append_right ..) hsub) h₂] at hmember
    rw [hreplies _ _ _ (List.subset_append_right ..) h₃, howner]
    simp only [hmember]

end

end Validation

end TokenGate
