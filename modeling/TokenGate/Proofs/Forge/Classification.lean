/-
What a validation at a forge comes to.

Two layers classify a response: the calls of the provider, and the validation that makes them. For each place of the
flow there is a lemma that goes through both, for a response that passes and for one that stops the flow
(`acceptOwner_passes`, `acceptOwner_stops` and so on). With them, what a sequence of deliveries comes to is what the
first of them settles that stops the flow (`denial_of_settles`), and there is one within the first so many
(`exists_settles`). A validation that the cache has nothing for, and that is not given up, comes to just this,
whatever other validations are under way (`denial_iff_settles`).
-/
import TokenGate.Forge.Flow
import TokenGate.Proofs.Forge.Origin
import TokenGate.Proofs.Service.Provenance

namespace TokenGate

open Validation

namespace Forge

variable {api : Api} {policy : Policy} {r : Response}

/-! ## Reading responses -/

theorem isExhausted_iff : Budget.isExhausted r.status r.headers = true ↔ r.Limited := by
  simp only [Budget.isExhausted, Budget.headerWord, Response.Limited, Bool.or_eq_true, beq_iff_eq,
    Option.bind_eq_some_iff]

theorem isClassic_iff : isClassic r.headers = true ↔ r.HasScopes := by
  simp [isClassic, Response.HasScopes, Option.any_eq_true]

theorem decodeBody_eq_ok_iff {α : Type} {e : Endpoint} {read : Json → Option α} {a : α} :
    decodeBody e r read = .ok a ↔ ∃ bytes, r.body = .some bytes ∧ Json.decodeBytes read bytes = .some a := by
  rw [← Option.bind_eq_some_iff, decodeBody]
  split
  next a' ha => rw [ha, Except.ok.injEq, Option.some.injEq]
  next hnone => rw [hnone]; exact ⟨nofun, nofun⟩

theorem decodes_iff {α : Type} {e : Endpoint} {read : Json → Option α} :
    r.Decodes read ↔ ∃ a, decodeBody e r read = .ok a := by
  simp only [decodeBody_eq_ok_iff]
  exact exists_comm

theorem eq_other_of_decodeBody {α : Type} {e : Endpoint} {read : Json → Option α} {err : ProviderError}
    (h : decodeBody e r read = .error err) : ∃ a, err = .other a := by
  unfold decodeBody at h
  split at h <;> cases h
  exact ⟨_, rfl⟩

theorem isSuccess_eq_false_of_status (h : r.status = 401) : r.isSuccess = false := by
  simp [Response.isSuccess, h]

theorem accept_of_not_limited {e : Endpoint} (h : ¬ r.Limited) : (Delivery.received r).accept e = .ok r := by
  rw [Delivery.accept, if_neg (mt isExhausted_iff.1 h)]

theorem accept_of_limited {e : Endpoint} (h : r.Limited) : (Delivery.received r).accept e = .error .rateLimited := by
  rw [Delivery.accept, if_pos (isExhausted_iff.2 h)]

/-! ## The owner -/

theorem readOwner_of_decodes (hsuccess : r.isSuccess = true) (hbody : r.Decodes UserProfile.ofJson?) :
    ∃ u, readOwner r = .ok ⟨u, isClassic r.headers⟩ := by
  obtain ⟨u, hu⟩ := (decodes_iff (e := .user)).1 hbody
  have h401 : r.status ≠ 401 := fun h => by simp [isSuccess_eq_false_of_status h] at hsuccess
  exact ⟨u, by simp [readOwner, h401, hsuccess, hu, Except.map]⟩

theorem acceptOwner_passes (h : r.Passes api policy 0) : ∃ user, acceptOwner policy (readOwner r) = .ok user := by
  cases h with
  | owner hsuccess hbody hpolicy =>
    obtain ⟨u, hu⟩ := readOwner_of_decodes hsuccess hbody
    refine ⟨u, ?_⟩
    rw [hu, acceptOwner, if_neg]
    rwa [Bool.and_eq_true, isClassic_iff]

theorem acceptOwner_stops {denied : Option Denial} (h : r.Stops api policy 0 denied) :
    ∃ res, acceptOwner policy (readOwner r) = .error res ∧ denial? res.result = denied := by
  cases h with
  | rejected hstatus => exact ⟨_, by rw [readOwner, if_pos hstatus]; rfl, rfl⟩
  | classic hsuccess hbody hpolicy hscopes =>
    obtain ⟨u, hu⟩ := readOwner_of_decodes hsuccess hbody
    refine ⟨.refuse .classicPat, ?_, rfl⟩
    rw [hu, acceptOwner, if_pos]
    rw [Bool.and_eq_true, isClassic_iff]
    exact ⟨hpolicy, hscopes⟩
  | ownerStatus hstatus hfailure => exact ⟨_, by rw [readOwner, if_neg hstatus, hfailure]; rfl, rfl⟩
  | ownerBody hsuccess hbody =>
    have h401 : r.status ≠ 401 := fun h => by simp [isSuccess_eq_false_of_status h] at hsuccess
    cases hread : decodeBody .user r UserProfile.ofJson? with
    | ok u => exact absurd (decodes_iff.2 ⟨u, hread⟩) hbody
    | error e =>
      obtain ⟨a, rfl⟩ := eq_other_of_decodeBody hread
      exact ⟨_, by rw [readOwner, if_neg h401, hsuccess, hread]; rfl, rfl⟩

/-! ## The membership -/

theorem acceptMembership_passes (h : r.Passes api policy 1) : acceptMembership (readMembership r) = .ok () := by
  cases h with
  | membership hstatus => rw [readMembership, if_pos hstatus]; rfl

theorem acceptMembership_stops {denied : Option Denial} (h : r.Stops api policy 1 denied) :
    ∃ res, acceptMembership (readMembership r) = .error res ∧ denial? res.result = denied := by
  cases h with
  | stranger hstatus => exact ⟨_, by simp only [readMembership, hstatus]; rfl, rfl⟩
  | membershipStatus h204 h404 =>
    rw [readMembership, if_neg h204, if_neg h404]
    split
    next => exact ⟨_, rfl, rfl⟩
    next => exact ⟨_, rfl, rfl⟩

/-! ## The pages of teams -/

theorem nextPage_eq_ok_none_iff : nextPage r.headers = .ok .none ↔ r.nextTarget? = .none := by
  unfold nextPage Response.nextTarget?
  split
  next h => simp [h]
  next target h => split <;> simp [h]

theorem nextPage_eq_ok_some_iff {next : Url} :
    nextPage r.headers = .ok (.some next) ↔ ∃ target, r.nextTarget? = .some target ∧ Url.parse target = .ok next := by
  unfold nextPage Response.nextTarget?
  split
  next h => simp [h]
  next target h => split <;> simp_all

/-- How reading a page fails. -/
theorem readPage_eq_error {e : ProviderError} (h : readPage r = .error e) :
    r.status = 401 ∧ e = .unauthorized ∨ r.status ≠ 401 ∧ ∃ a, e = .other a := by
  unfold readPage at h
  split at h
  next hstatus => cases h; exact .inl ⟨hstatus, rfl⟩
  next hstatus =>
    refine .inr ⟨hstatus, ?_⟩
    split at h
    next => cases h; exact ⟨_, rfl⟩
    next =>
      cases hnext : nextPage r.headers with
      | error e' =>
        rw [hnext] at h
        cases h
        unfold nextPage at hnext
        split at hnext
        next => cases hnext
        next => split at hnext <;> cases hnext; exact ⟨_, rfl⟩
      | ok next =>
        rw [hnext] at h
        cases hteams : decodeBody .teams r Team.page? with
        | error e' =>
          rw [hteams] at h
          cases h
          exact eq_other_of_decodeBody hteams
        | ok teams => rw [hteams] at h; cases h

theorem ne_rateLimited_of_readPage {e : ProviderError} (h : readPage r = .error e) : e ≠ .rateLimited := by
  rcases readPage_eq_error h with ⟨-, rfl⟩ | ⟨-, a, rfl⟩ <;> simp

theorem readPage_passes {n : Nat} (h : r.Passes api policy (n + 2)) :
    ∃ teams next, readPage r = .ok ⟨teams, .some next⟩ ∧ next.isSameOrigin api.base = true ∧ n + 1 < maxPages := by
  cases h with
  | @page _ target next hsuccess hbody htarget hparse hsame hn =>
    obtain ⟨teams, hteams⟩ := (decodes_iff (e := .teams)).1 hbody
    have hnext := nextPage_eq_ok_some_iff.2 ⟨target, htarget, hparse⟩
    exact ⟨teams, next, readPage_eq_ok_iff.2 ⟨hsuccess, hnext, hteams⟩, hsame, hn⟩

/-- What a page that stops the flow is read as, and what it settles. -/
theorem readPage_stops {n : Nat} {denied : Option Denial} (h : r.Stops api policy (n + 2) denied) :
    denied = .none ∧ (∃ teams, readPage r = .ok ⟨teams, .none⟩) ∨
      denied = .some .internal ∧ ((∃ e, readPage r = .error e) ∨ ∃ teams next, readPage r = .ok ⟨teams, .some next⟩ ∧
        (next.isSameOrigin api.base = false ∨ maxPages ≤ n + 1)) := by
  cases hread : readPage r with
  | error e =>
    cases h with
    | lastPage hsuccess hbody hnone =>
      obtain ⟨teams, hteams⟩ := (decodes_iff (e := .teams)).1 hbody
      have hok : readPage r = .ok ⟨teams, .none⟩ :=
        readPage_eq_ok_iff.2 ⟨hsuccess, nextPage_eq_ok_none_iff.2 hnone, hteams⟩
      rw [hok] at hread
      cases hread
    | _ => exact .inr ⟨rfl, .inl ⟨e, rfl⟩⟩
  | ok page =>
    obtain ⟨hsuccess, hnext, hteams⟩ := readPage_eq_ok_iff.1 hread
    have hbody : r.Decodes Team.page? := decodes_iff.2 ⟨_, hteams⟩
    obtain ⟨teams, next⟩ := page
    cases next with
    | none =>
      have hnone := nextPage_eq_ok_none_iff.1 hnext
      cases h with
      | lastPage => exact .inl ⟨rfl, teams, rfl⟩
      | pageStatus hfailure => rw [hsuccess] at hfailure; cases hfailure
      | pageBody _ hbad => exact absurd hbody hbad
      | badNext _ _ htarget _ => rw [hnone] at htarget; cases htarget
      | foreignNext _ _ htarget _ _ => rw [hnone] at htarget; cases htarget
      | tooManyPages _ _ htarget _ => rw [hnone] at htarget; cases htarget
    | some next =>
      obtain ⟨target, htarget, hparse⟩ := nextPage_eq_ok_some_iff.1 hnext
      cases h with
      | lastPage _ _ hnone => rw [htarget] at hnone; cases hnone
      | pageStatus hfailure => rw [hsuccess] at hfailure; cases hfailure
      | pageBody _ hbad => exact absurd hbody hbad
      | badNext _ _ htarget' hbad =>
        cases htarget.symm.trans htarget'
        exact absurd hparse (hbad next)
      | foreignNext _ _ htarget' hparse' hforeign =>
        cases htarget.symm.trans htarget'
        cases hparse.symm.trans hparse'
        exact .inr ⟨rfl, .inr ⟨teams, next, rfl, .inl hforeign⟩⟩
      | tooManyPages _ _ _ hmany => exact .inr ⟨rfl, .inr ⟨teams, next, rfl, .inr hmany⟩⟩

/-! ## Sequences of deliveries -/

section

variable {token : String} {ds : Nat → Delivery}

theorem resultFrom_readPages {url : Url} (hsame : url.isSameOrigin api.base = true) (left : Nat) (soFar : List Team) :
    (readPages api token (left + 1) soFar url).resultFrom ds =
      match ((ds 0).accept .teams).bind readPage with
      | .error e => .error e
      | .ok ⟨teams, .none⟩ => .ok (soFar ++ teams)
      | .ok ⟨teams, .some next⟩ =>
        (readPages api token left (soFar ++ teams) next).resultFrom fun n => ds (n + 1) := by
  rw [readPages, hsame, Bool.not_true, if_neg Bool.false_ne_true, ask_andThen, Exchange.resultFrom]
  cases (ds 0).accept .teams with
  | error e => rfl
  | ok r =>
    simp only [Except.bind]
    cases readPage r with
    | error e => rfl
    | ok page => obtain ⟨teams, _ | next⟩ := page <;> rfl

variable {user : UserProfile}

theorem denial_acceptRoster_error {e : ProviderError} (h : e ≠ .rateLimited) :
    denial? (acceptRoster policy user (.error e)).result = .some .internal := by
  cases e with
  | rateLimited => exact absurd rfl h
  | unauthorized | notMember | other => rfl

/-- What is settled by the pages from the `n`-th on. -/
theorem denial_readPages {n left : Nat} (hleft : n + left + 1 = maxPages) {url : Url}
    (hsame : url.isSameOrigin api.base = true) (soFar : List Team) {m : Nat}
    (hpass : ∀ k < m, (ds k).Passes api policy (n + k + 2)) {denied : Option Denial}
    (hstop : (ds m).Stops api policy (n + m + 2) denied) :
    denial? (acceptRoster policy user ((readPages api token (left + 1) soFar url).resultFrom ds)).result = denied := by
  induction m generalizing n left url soFar ds with
  | zero =>
    rw [resultFrom_readPages hsame]
    generalize ds 0 = d at hstop
    cases hstop with
    | failed => rfl
    | limited hlimited => rw [accept_of_limited hlimited]; rfl
    | @received r _ hlimited hstop =>
      rw [accept_of_not_limited hlimited]
      simp only [Except.bind]
      rcases readPage_stops hstop with ⟨rfl, teams, hread⟩ | ⟨rfl, ⟨e, hread⟩ | ⟨teams, next, hread, hwrong⟩⟩
      · rw [hread]; rfl
      · rw [hread]; exact denial_acceptRoster_error (ne_rateLimited_of_readPage hread)
      · rw [hread]
        rcases hwrong with hforeign | hmany
        · obtain ⟨a, ha⟩ : ∃ a, readPages api token left (soFar ++ teams) next = .done (.error (.other a)) :=
            readPages_foreign hforeign ..
          simp only [ha]
          rfl
        · obtain rfl : left = 0 := by omega
          rfl
  | succ m ih =>
    rw [resultFrom_readPages hsame]
    have hfirst := hpass 0 (Nat.succ_pos m)
    generalize ds 0 = d at hfirst
    cases hfirst with
    | @received r hlimited hfirst =>
      obtain ⟨teams, next, hread, hnext, hn⟩ := readPage_passes hfirst
      rw [accept_of_not_limited hlimited]
      simp only [Except.bind, hread]
      obtain ⟨left, rfl⟩ : ∃ left', left = left' + 1 := ⟨left - 1, by omega⟩
      refine ih (by omega : n + 1 + left + 1 = maxPages) hnext _ (fun k hk => ?_) ?_
      · have h := hpass (k + 1) (by omega)
        rwa [show n + (k + 1) + 2 = n + 1 + k + 2 by omega] at h
      · rwa [show n + (m + 1) + 2 = n + 1 + m + 2 by omega] at hstop

theorem resultFrom_resolve (hbase : api.base.isRootless = false) (isCounted : Bool) :
    (resolve (provider api isCounted) policy token).resultFrom ds =
      match acceptOwner policy (((ds 0).accept .user).bind readOwner) with
      | .error res => res
      | .ok user =>
        match acceptMembership (((ds 1).accept .membership).bind readMembership) with
        | .error res => res
        | .ok () => acceptRoster policy user ((listGroups api token).resultFrom fun n => ds (n + 2)) := by
  simp only [resolve, provider, whoAmI, checkMembership, Api.userUrl, Api.membershipUrl, Api.endpoint_eq hbase,
    withUrl_ask, Exchange.ask_bind, Exchange.done_bind, Exchange.resultFrom]
  cases acceptOwner policy (((ds 0).accept .user).bind readOwner) with
  | error res => rfl
  | ok user =>
    simp only [Exchange.resultFrom]
    cases acceptMembership (((ds 1).accept .membership).bind readMembership) with
    | error res => rfl
    | ok => exact Exchange.resultFrom_map ..

theorem reply_owner_passes {d : Delivery} (h : d.Passes api policy 0) :
    ∃ user, acceptOwner policy ((d.accept .user).bind readOwner) = .ok user := by
  cases h with
  | received hlimited h =>
    rw [accept_of_not_limited hlimited]
    exact acceptOwner_passes h

theorem reply_owner_stops {d : Delivery} {denied : Option Denial} (h : d.Stops api policy 0 denied) :
    ∃ res, acceptOwner policy ((d.accept .user).bind readOwner) = .error res ∧ denial? res.result = denied := by
  cases h with
  | failed => exact ⟨_, rfl, rfl⟩
  | limited hlimited => exact ⟨_, by rw [accept_of_limited hlimited]; rfl, rfl⟩
  | received hlimited h =>
    rw [accept_of_not_limited hlimited]
    exact acceptOwner_stops h

theorem reply_membership_passes {d : Delivery} (h : d.Passes api policy 1) :
    acceptMembership ((d.accept .membership).bind readMembership) = .ok () := by
  cases h with
  | received hlimited h =>
    rw [accept_of_not_limited hlimited]
    exact acceptMembership_passes h

theorem reply_membership_stops {d : Delivery} {denied : Option Denial} (h : d.Stops api policy 1 denied) :
    ∃ res, acceptMembership ((d.accept .membership).bind readMembership) = .error res ∧
      denial? res.result = denied := by
  cases h with
  | failed => exact ⟨_, rfl, rfl⟩
  | limited hlimited => exact ⟨_, by rw [accept_of_limited hlimited]; rfl, rfl⟩
  | received hlimited h =>
    rw [accept_of_not_limited hlimited]
    exact acceptMembership_stops h

/-! ## The first that stops -/

theorem owner_passes_or_stops (api : Api) (policy : Policy) (r : Response) :
    r.Passes api policy 0 ∨ ∃ denied, r.Stops api policy 0 denied := by
  cases hsuccess : r.isSuccess with
  | false =>
    by_cases h401 : r.status = 401
    · exact .inr ⟨_, .rejected h401⟩
    · exact .inr ⟨_, .ownerStatus h401 hsuccess⟩
  | true =>
    by_cases hbody : r.Decodes UserProfile.ofJson?
    · by_cases hclassic : policy.rejectClassicPats = true ∧ r.HasScopes
      · exact .inr ⟨_, .classic hsuccess hbody hclassic.1 hclassic.2⟩
      · exact .inl (.owner hsuccess hbody hclassic)
    · exact .inr ⟨_, .ownerBody hsuccess hbody⟩

theorem membership_passes_or_stops (api : Api) (policy : Policy) (r : Response) :
    r.Passes api policy 1 ∨ ∃ denied, r.Stops api policy 1 denied := by
  by_cases h204 : r.status = 204
  · exact .inl (.membership h204)
  · by_cases h404 : r.status = 404
    · exact .inr ⟨_, .stranger h404⟩
    · exact .inr ⟨_, .membershipStatus h204 h404⟩

theorem page_passes_or_stops (api : Api) (policy : Policy) (r : Response) (n : Nat) :
    r.Passes api policy (n + 2) ∨ ∃ denied, r.Stops api policy (n + 2) denied := by
  cases hsuccess : r.isSuccess with
  | false => exact .inr ⟨_, .pageStatus hsuccess⟩
  | true =>
    by_cases hbody : r.Decodes Team.page?
    · cases htarget : r.nextTarget? with
      | none => exact .inr ⟨_, .lastPage hsuccess hbody htarget⟩
      | some target =>
        cases hparse : Url.parse target with
        | error e => exact .inr ⟨_, .badNext hsuccess hbody htarget fun next h => by rw [hparse] at h; cases h⟩
        | ok next =>
          cases hsame : next.isSameOrigin api.base with
          | false => exact .inr ⟨_, .foreignNext hsuccess hbody htarget hparse hsame⟩
          | true =>
            by_cases hn : n + 1 < maxPages
            · exact .inl (.page hsuccess hbody htarget hparse hsame hn)
            · exact .inr ⟨_, .tooManyPages hsuccess hbody htarget (Nat.le_of_not_lt hn)⟩
    · exact .inr ⟨_, .pageBody hsuccess hbody⟩

theorem passes_or_stops (api : Api) (policy : Policy) (k : Nat) (d : Delivery) :
    d.Passes api policy k ∨ ∃ denied, d.Stops api policy k denied := by
  cases d with
  | failed => exact .inr ⟨_, .failed⟩
  | received r =>
    by_cases hlimited : r.Limited
    · exact .inr ⟨_, .limited hlimited⟩
    · have hresponse : r.Passes api policy k ∨ ∃ denied, r.Stops api policy k denied := by
        rcases k with _ | _ | n
        · exact owner_passes_or_stops api policy r
        · exact membership_passes_or_stops api policy r
        · exact page_passes_or_stops api policy r n
      rcases hresponse with h | ⟨denied, h⟩
      · exact .inl (.received hlimited h)
      · exact .inr ⟨denied, .received hlimited h⟩

/-- The page in the last place that is asked for does not pass. -/
theorem not_passes_of_maxPages {d : Delivery} : ¬ d.Passes api policy (maxPages + 1) := by
  intro h
  cases h with
  | received _ h =>
    cases h with
    | page _ _ _ _ _ hn => exact Nat.lt_irrefl _ hn

theorem exists_settles (api : Api) (policy : Policy) (ds : Nat → Delivery) :
    ∃ denied, Settles api policy ds denied := by
  -- Either one of the first `m` deliveries stops the flow, or all of them pass.
  have hsofar (m : Nat) : (∀ k < m, (ds k).Passes api policy k) ∨ ∃ denied, Settles api policy ds denied := by
    induction m with
    | zero => exact .inl fun k hk => absurd hk (Nat.not_lt_zero k)
    | succ m ih =>
      rcases ih with hpass | hstop
      · rcases passes_or_stops api policy m (ds m) with h | ⟨denied, h⟩
        · refine .inl fun k hk => ?_
          rcases Nat.lt_succ_iff_lt_or_eq.1 hk with hk | rfl
          · exact hpass k hk
          · exact h
        · exact .inr ⟨denied, m, hpass, h⟩
      · exact .inr hstop
  rcases hsofar (maxPages + 2) with hpass | hstop
  · exact absurd (hpass _ (Nat.lt_succ_self _)) not_passes_of_maxPages
  · exact hstop

variable {apiUrl : String}

theorem denial_of_settles (hapi : Api.ofUrl apiUrl = .ok api)
    (hsend : Url.isWebScheme api.base.scheme = true ∨ ds 0 = .failed) (isCounted : Bool) {denied : Option Denial}
    (h : Settles api policy ds denied) :
    denial? ((resolve (provider api isCounted) policy token).resultFrom ds).result = denied := by
  obtain ⟨n, hpass, hstop⟩ := h
  have hbase := (Api.base_of_ofUrl hapi).2
  rw [resultFrom_resolve hbase]
  rcases n with _ | _ | n
  · obtain ⟨res, hres, hdenied⟩ := reply_owner_stops hstop
    simpa only [hres] using hdenied
  · obtain ⟨user, huser⟩ := reply_owner_passes (hpass 0 Nat.zero_lt_one)
    obtain ⟨res, hres, hdenied⟩ := reply_membership_stops hstop
    simpa only [huser, hres] using hdenied
  · have hfirst := hpass 0 (by omega)
    obtain ⟨user, huser⟩ := reply_owner_passes hfirst
    have hweb : Url.isWebScheme api.base.scheme = true := by
      rcases hsend with h | h
      · exact h
      · rw [h] at hfirst; cases hfirst
    simp only [huser, reply_membership_passes (hpass 1 (by omega))]
    rw [listGroups, Api.teamsUrl_eq hbase, Talk.withUrl]
    have hleft : 0 + 49 + 1 = maxPages := rfl
    refine denial_readPages hleft ?_ [] (m := n) (fun k hk => ?_) ?_
    · exact isSameOrigin_of_ofUrl hapi hweb (by simp)
    · rw [Nat.zero_add]
      exact hpass (k + 2) (by omega)
    · rwa [Nat.zero_add]

theorem denial_resultFrom_iff (hapi : Api.ofUrl apiUrl = .ok api)
    (hsend : Url.isWebScheme api.base.scheme = true ∨ ds 0 = .failed) (isCounted : Bool) {denied : Option Denial} :
    denial? ((resolve (provider api isCounted) policy token).resultFrom ds).result = denied ↔
      Settles api policy ds denied := by
  constructor
  · rintro rfl
    obtain ⟨denied, h⟩ := exists_settles api policy ds
    rw [denial_of_settles hapi hsend isCounted h]
    exact h
  · exact denial_of_settles hapi hsend isCounted

end

/-- **What a validation at a forge comes to.** For every sequence of deliveries, the validation of a token comes to an
end with them, and it is the first delivery that stops the flow which settles the kind of its result. In the service,
where any number of validations are under way, the same holds of each that the cache has nothing for and that is not
given up, with the deliveries that it hears itself. (At an address that is not one of the web no request can be sent,
so the first delivery is none.) -/
theorem denial_iff_settles {apiUrl : String} {api : Api} (hapi : Api.ofUrl apiUrl = .ok api) (isCounted : Bool)
    (policy : Policy) (token : String) {ds : Nat → Delivery}
    (hsend : Url.isWebScheme api.base.scheme = true ∨ ds 0 = .failed) (denied : Option Denial) :
    (denial? ((resolve (provider api isCounted) policy token).resultFrom ds).result = denied ↔
      Settles api policy ds denied) ∧
    ∀ {ttl maxSize : Nat} {past : List (Event Answer)} {e : Event Answer} {id : Nat} {cancelAt : Option Nat}
      {result : Except ValidationError Identity},
      let w : Wiring Answer := ⟨provider api isCounted, policy⟩
      let s₀ := Service.start ttl maxSize
      Event.Orderly (past ++ [e]) → .begin id token cancelAt ∈ past ++ [e] → s₀.Missed w (past ++ [e]) id →
      ¬ Service.GivenUp (past ++ [e]) (s₀.run w past) id cancelAt →
      (∀ k x, (s₀.heard w id (past ++ [e]))[k]? = .some x → ds k = x.2) →
      .finished id result ∈ ((s₀.run w past).step w e).2 →
      (denial? result = denied ↔ Settles api policy ds denied) := by
  refine ⟨denial_resultFrom_iff hapi hsend isCounted, ?_⟩
  intro ttl maxSize past e id cancelAt result w s₀ ho hbegin hmissed hkept hheard hfinished
  rcases Service.finished_cases ho hbegin hfinished with ⟨o, rfl, -, hget⟩ | ⟨-, hgiven⟩ | ⟨res, hyields, rfl⟩
  · have hnone := hmissed past token cancelAt [] rfl
    rw [hget] at hnone
    cases hnone
  · exact absurd hgiven hkept
  · rw [← hyields.resultFrom_eq hheard]
    exact denial_resultFrom_iff hapi hsend isCounted

/-- The second page of teams of a member comes with the budget spent. The name of the member is not UTF-8, but nobody
reads it. -/
theorem denial_iff_settles_limited :
    let github : Api := ⟨⟨"https".toList, [], [], .some (.name "api.github.com".toList), .none, .segments [[]], .none,
      .none⟩⟩
    let url (path : List String) (query : Option String) : Url :=
      { github.base with path := .segments (path.map String.toList), query := query.map String.toList }
    let utf8 (s : String) : List UInt8 := Text.Utf8.encode s.toList
    let response (status : Nat) (headers : List (String × String)) (body : List UInt8) : Delivery :=
      .received ⟨status, headers.map fun h => .ofText h.1 h.2, .some body⟩
    let owner := utf8 "\x7b\"login\":\"alice\",\"name\":\"" ++ 0xE9 :: utf8 "\",\"id\":42\x7d"
    let next := "<https://api.github.com/user/teams?page=2>; rel=\"next\""
    let deliveries : List Delivery :=
      [response 200 [("X-OAuth-Scopes", "")] owner, response 204 [] [], response 200 [("Link", next)] (utf8 "[]"),
       response 200 [("X-RateLimit-Remaining", " 0")] (utf8 "[]")]
    let ds (k : Nat) : Delivery := deliveries.getD k .failed
    let policy : Policy := ⟨"acme", true⟩
    let w : Wiring Answer := ⟨provider github true, policy⟩
    let s₀ := Service.start 10 2
    let past : List (Event Answer) :=
      [.begin 1 "t" .none, .answer 1 ⟨.user, url ["user"] .none, "t"⟩ (ds 0),
       .answer 1 ⟨.membership, url ["orgs", "acme", "members", "alice"] .none, "t"⟩ (ds 1),
       .answer 1 ⟨.teams, url ["user", "teams"] (.some "per_page=100"), "t"⟩ (ds 2)]
    let e : Event Answer := .answer 1 ⟨.teams, url ["user", "teams"] (.some "page=2"), "t"⟩ (ds 3)
    (Api.ofUrl "https://api.github.com" = .ok github ∧ Url.isWebScheme github.base.scheme = true) ∧
      (Event.Orderly (past ++ [e]) ∧ s₀.Missed w (past ++ [e]) 1 ∧
        ¬ Service.GivenUp (past ++ [e]) (s₀.run w past) 1 .none ∧
        ∀ k x, (s₀.heard w 1 (past ++ [e]))[k]? = .some x → ds k = x.2) ∧
      .finished 1 (.error .rateLimited) ∈ ((s₀.run w past).step w e).2 ∧
      denial? ((resolve (provider github true) policy "t").resultFrom ds).result = .some .rateLimited ∧
      Settles github policy ds (.some .rateLimited) := by
  intro github url utf8 response owner next deliveries ds policy w s₀ past e
  have hapi : Api.ofUrl "https://api.github.com" = .ok github := by decide +kernel
  have hweb : Url.isWebScheme github.base.scheme = true := by decide +kernel
  have ho : Event.Orderly (past ++ [e]) := ⟨by decide, by intro token o h; simp [past, e] at h⟩
  have hmissed : s₀.Missed w (past ++ [e]) 1 := by
    intro l token cancelAt l' h
    cases l with
    | nil => rfl
    | cons e' l =>
      have hm : .begin 1 token cancelAt ∈ (past ++ [e]).tail := by rw [h]; simp
      simp [past, e] at hm
  have hkept : ¬ Service.GivenUp (past ++ [e]) (s₀.run w past) 1 .none := by
    rintro (h | h)
    · simp [past, e] at h
    · cases h
  have hheard : ∀ k x, (s₀.heard w 1 (past ++ [e]))[k]? = .some x → ds k = x.2 := by
    intro k x hx
    have hall : (s₀.heard w 1 (past ++ [e])).map (fun x => x.2) = deliveries := by decide +kernel
    have hk : deliveries[k]? = .some x.2 := by rw [← hall, List.getElem?_map, hx]; rfl
    exact (List.getD_eq_getElem?_getD ..).trans (by rw [hk]; rfl)
  have hfinished : .finished 1 (.error .rateLimited) ∈ ((s₀.run w past).step w e).2 := by decide +kernel
  obtain ⟨hresult, hservice⟩ := denial_iff_settles hapi true policy "t" (.inl hweb) (.some .rateLimited)
  have hsettles : Settles github policy ds (.some .rateLimited) :=
    (hservice ho (by simp [past]) hmissed hkept hheard hfinished).1 rfl
  exact ⟨⟨hapi, hweb⟩, ⟨ho, hmissed, hkept, hheard⟩, hfinished, hresult.2 hsettles, hsettles⟩

end Forge

end TokenGate
