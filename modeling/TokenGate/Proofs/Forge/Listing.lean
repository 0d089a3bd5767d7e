/-
What a listing of teams comes to.

Pages that lead on are read one after the other, each at the address that the one before it names
(`readPages_of_begins`). The delivery that comes after them settles the rest: it completes the listing, or the listing
fails with it (`ends_listGroups`). So a listing is complete, or there is an error and no team is returned
(`listing_settled`).
-/
import TokenGate.Exchange.Deadline
import TokenGate.Forge.Listing
import TokenGate.Proofs.Forge.Classification

namespace TokenGate.Forge

variable {api : Api} {token : String}

/-! ## How much is asked -/

theorem andThen_asksAtMost {α β : Type} {x : Talk α} {f : α → Talk β} {m n : Nat} (h : x.AsksAtMost m)
    (hf : ∀ a, (f a).AsksAtMost n) : (x.andThen f).AsksAtMost (m + n) := by
  refine h.bind fun reply => ?_
  cases reply with
  | ok a => exact hf a
  | error e => exact Exchange.asksAtMost_done n _

theorem withUrl_asksAtMost {α : Type} {url : Except Account Url} {f : Url → Talk α} {n : Nat}
    (h : ∀ u, (f u).AsksAtMost n) : (Talk.withUrl url f).AsksAtMost n := by
  cases url with
  | ok u => exact h u
  | error a => exact Exchange.asksAtMost_done n _

theorem ask_asksAtMost (e : Endpoint) (url : Url) (token : String) : (ask e url token).AsksAtMost 1 :=
  fun d => Exchange.asksAtMost_done 0 (d.accept e)

/-- Each page of teams is one request. -/
theorem readPages_asksAtMost (left : Nat) (soFar : List Team) (url : Url) :
    (readPages api token left soFar url).AsksAtMost left := by
  induction left generalizing soFar url with
  | zero => exact Exchange.asksAtMost_done 0 _
  | succ left ih =>
    unfold readPages
    split
    next => exact Exchange.asksAtMost_done _ _
    next =>
      rw [Nat.add_comm]
      refine andThen_asksAtMost (ask_asksAtMost .teams url token) fun r => ?_
      split
      next => exact Exchange.asksAtMost_done _ _
      next => exact Exchange.asksAtMost_done _ _
      next => exact ih ..

theorem listGroups_asksAtMost (api : Api) (token : String) : (listGroups api token).AsksAtMost maxPages :=
  withUrl_asksAtMost (readPages_asksAtMost maxPages [])

/-! ## Pages -/

theorem nextPage_eq_ok_iff {r : Response} {next : Option Url} :
    nextPage r.headers = .ok next ↔ r.nextTarget?.map Url.parse = next.map .ok := by
  cases next with
  | none => rw [nextPage_eq_ok_none_iff, Option.map_none, Option.map_eq_none_iff]
  | some next => rw [nextPage_eq_ok_some_iff, Option.map_some, Option.map_eq_some_iff]

theorem isPage_iff {r : Response} {p : Page} : r.IsPage p ↔ ¬ r.Limited ∧ readPage r = .ok p := by
  rw [readPage_eq_ok_iff, nextPage_eq_ok_iff, decodeBody_eq_ok_iff]
  constructor
  · intro h; exact ⟨h.unlimited, h.success, h.next, h.teams⟩
  · rintro ⟨hlimited, hsuccess, hnext, hteams⟩; exact ⟨hlimited, hsuccess, hteams, hnext⟩

/-- What a delivery is read as. -/
def Delivery.readPage (d : Delivery) : Except ProviderError Page :=
  (d.accept .teams).bind Forge.readPage

namespace Delivery

theorem readPage_of_isPage {r : Response} {p : Page} (h : r.IsPage p) : (received r).readPage = .ok p := by
  obtain ⟨hlimited, hread⟩ := isPage_iff.1 h
  rw [readPage, accept_of_not_limited hlimited]
  exact hread

theorem readPage_of_limited {r : Response} (h : r.Limited) : (received r).readPage = .error .rateLimited := by
  rw [readPage, accept_of_limited h]
  rfl

theorem readPage_of_rejected {r : Response} (hlimited : ¬ r.Limited) (hstatus : r.status = 401) :
    (received r).readPage = .error .unauthorized := by
  rw [readPage, accept_of_not_limited hlimited]
  exact if_pos hstatus

/-- What a delivery can be to a listing. -/
theorem readPage_cases (d : Delivery) :
    (∃ r p, d = .received r ∧ r.IsPage p) ∨ (∃ r, d = .received r ∧ r.Limited) ∨
      (∃ r, d = .received r ∧ ¬ r.Limited ∧ r.status = 401) ∨ ∃ a, d.readPage = .error (.other a) := by
  cases d with
  | failed => exact .inr (.inr (.inr ⟨_, rfl⟩))
  | received r =>
    by_cases hlimited : r.Limited
    · exact .inr (.inl ⟨r, rfl, hlimited⟩)
    cases hread : Forge.readPage r with
    | ok p => exact .inl ⟨r, p, rfl, isPage_iff.2 ⟨hlimited, hread⟩⟩
    | error e =>
      rcases readPage_eq_error hread with ⟨hstatus, -⟩ | ⟨-, a, rfl⟩
      · exact .inr (.inr (.inl ⟨r, rfl, hlimited, hstatus⟩))
      · refine .inr (.inr (.inr ⟨a, ?_⟩))
        rw [readPage, accept_of_not_limited hlimited]
        exact hread

end Delivery

/-! ## Reading one page -/

section

variable (token) (ds : Nat → Delivery) {url : Url} (hsame : url.isSameOrigin api.base = true) (left : Nat)
  (soFar : List Team)

include hsame

/-- A page that names another is followed by that. -/
theorem readPages_goes_on {teams : List Team} {next : Url} (h : (ds 0).readPage = .ok ⟨teams, .some next⟩) :
    (readPages api token (left + 1) soFar url).resultFrom ds =
        (readPages api token left (soFar ++ teams) next).resultFrom (fun n => ds (n + 1)) ∧
      (readPages api token (left + 1) soFar url).questionsFrom ds =
        ⟨.teams, url, token⟩ :: (readPages api token left (soFar ++ teams) next).questionsFrom fun n => ds (n + 1) := by
  unfold Delivery.readPage at h
  obtain ⟨r, haccept, hread⟩ := exists_of_bind_eq_ok h
  rw [readPages, hsame, Bool.not_true, if_neg Bool.false_ne_true, ask_andThen, Exchange.resultFrom,
    Exchange.questionsFrom, haccept]
  simp only [hread, and_self]

/-- A page that names no other is the last. -/
theorem readPages_completes {teams : List Team} (h : (ds 0).readPage = .ok ⟨teams, .none⟩) :
    (readPages api token (left + 1) soFar url).resultFrom ds = .ok (soFar ++ teams) ∧
      (readPages api token (left + 1) soFar url).questionsFrom ds = [⟨.teams, url, token⟩] := by
  unfold Delivery.readPage at h
  obtain ⟨r, haccept, hread⟩ := exists_of_bind_eq_ok h
  rw [readPages, hsame, Bool.not_true, if_neg Bool.false_ne_true, ask_andThen, Exchange.resultFrom,
    Exchange.questionsFrom, haccept]
  simp only [hread]
  exact ⟨rfl, rfl⟩

/-- What cannot be read as a page is the end. -/
theorem readPages_fails {e : ProviderError} (h : (ds 0).readPage = .error e) :
    (readPages api token (left + 1) soFar url).resultFrom ds = .error e := by
  unfold Delivery.readPage at h
  rw [resultFrom_readPages hsame, h]

end

/-! ## Reading page after page -/

namespace Listing

variable {ds : Nat → Delivery} {ps : List Page} {last : Page}

theorem begins_nil : Begins api ds [] := ⟨nofun, nofun⟩

theorem begins_cons {p : Page} : Begins api ds (p :: ps) ↔
    (∃ r, ds 0 = .received r ∧ r.IsPage p) ∧ p.LeadsOn api ∧ Begins api (fun n => ds (n + 1)) ps := by
  constructor
  · intro h
    exact ⟨h.pages 0 p rfl, h.leadOn p (List.mem_cons_self ..), fun i q hq => h.pages (i + 1) q hq,
      fun q hq => h.leadOn q (List.mem_cons_of_mem _ hq)⟩
  · rintro ⟨hpage, hlead, h⟩
    refine ⟨fun i q hq => ?_, List.forall_mem_cons.2 ⟨hlead, h.leadOn⟩⟩
    cases i with
    | zero => cases hq; exact hpage
    | succ i => exact h.pages i q hq

theorem Begins.concat {p : Page} {r : Response} (h : Begins api ds ps) (hr : ds ps.length = .received r)
    (hpage : r.IsPage p) (hlead : p.LeadsOn api) : Begins api ds (ps ++ [p]) where
  pages i q hq := by
    rcases Nat.lt_trichotomy i ps.length with hi | rfl | hi
    · rw [List.getElem?_append_left hi] at hq
      exact h.pages i q hq
    · rw [List.getElem?_concat_length] at hq
      cases hq
      exact ⟨r, hr, hpage⟩
    · rw [List.getElem?_eq_none (by simpa using Nat.succ_le_of_lt hi)] at hq
      cases hq
  leadOn := by simpa [or_imp, forall_and] using ⟨h.leadOn, hlead⟩

/-- The deliveries begin with `n` pages that lead on, or with fewer and then something else. -/
theorem exists_begins (api : Api) (ds : Nat → Delivery) (n : Nat) :
    ∃ ps, Begins api ds ps ∧
      (ps.length = n ∨ ps.length < n ∧
        ∀ r p, ds ps.length = .received r → r.IsPage p → ¬ p.LeadsOn api) := by
  induction n with
  | zero => exact ⟨[], begins_nil, .inl rfl⟩
  | succ n ih =>
    obtain ⟨ps, hps, rfl | ⟨hlt, hend⟩⟩ := ih
    · by_cases hmore : ∃ r p, ds ps.length = .received r ∧ r.IsPage p ∧ p.LeadsOn api
      · obtain ⟨r, p, hr, hpage, hlead⟩ := hmore
        exact ⟨ps ++ [p], hps.concat hr hpage hlead, .inl (by simp)⟩
      · exact ⟨ps, hps, .inr ⟨Nat.lt_succ_self _, fun r p hr hpage hlead => hmore ⟨r, p, hr, hpage, hlead⟩⟩⟩
    · exact ⟨ps, hps, .inr ⟨Nat.lt_succ_of_lt hlt, hend⟩⟩

/-- Pages that lead on are read one after the other, each at the address that the one before it names. -/
theorem readPages_of_begins (h : Begins api ds ps) {url : Url} (hsame : url.isSameOrigin api.base = true)
    (left : Nat) (soFar : List Team) :
    ∃ urls url', url :: ps.filterMap Page.next = urls ++ [url'] ∧ url'.isSameOrigin api.base = true ∧
      (readPages api token (left + ps.length) soFar url).resultFrom ds =
        (readPages api token left (soFar ++ ps.flatMap Page.teams) url').resultFrom (fun n => ds (n + ps.length)) ∧
      (readPages api token (left + ps.length) soFar url).questionsFrom ds =
        (urls.map fun u => ⟨.teams, u, token⟩) ++
          (readPages api token left (soFar ++ ps.flatMap Page.teams) url').questionsFrom
            fun n => ds (n + ps.length) := by
  induction ps generalizing ds url soFar with
  | nil => exact ⟨[], url, rfl, hsame, by simp, by simp⟩
  | cons p ps ih =>
    obtain ⟨⟨r, hr, hpage⟩, ⟨next, hnext, hsame'⟩, hrest⟩ := begins_cons.1 h
    have hread : (ds 0).readPage = .ok ⟨p.teams, .some next⟩ := by
      rw [hr, Delivery.readPage_of_isPage hpage, ← hnext]
    obtain ⟨hresult, hquestions⟩ := readPages_goes_on token ds hsame (left + ps.length) soFar hread
    obtain ⟨urls, url', hurls, hsameLast, hresult', hquestions'⟩ := ih hrest hsame' (soFar ++ p.teams)
    refine ⟨url :: urls, url', ?_, hsameLast, ?_, ?_⟩
    · rw [List.filterMap_cons_some hnext, hurls, List.cons_append]
    · rw [List.length_cons, ← Nat.add_assoc, hresult, hresult', List.flatMap_cons, List.append_assoc]
      rfl
    · rw [List.length_cons, ← Nat.add_assoc, hquestions, hquestions', List.flatMap_cons, List.append_assoc]
      rfl

/-! ## What comes of a listing -/

/-- What comes of the deliveries. -/
inductive Ends (api : Api) (ds : Nat → Delivery) : Except ProviderError (List Team) → Prop where
  | complete {ps : List Page} {last : Page} : Complete api ds ps last → ps.length < maxPages →
      Ends api ds (.ok ((ps ++ [last]).flatMap Page.teams))
  | limited : Reaches api ds Response.Limited → Ends api ds (.error .rateLimited)
  | rejected : Reaches api ds (fun r => ¬ r.Limited ∧ r.status = 401) → Ends api ds (.error .unauthorized)
  | failed (a : Account) : Ends api ds (.error (.other a))

section

variable (token) {url : Url} (hsame : url.isSameOrigin api.base = true)

include hsame

theorem readPages_complete (h : Complete api ds ps last) (hlength : ps.length < maxPages) :
    (readPages api token maxPages [] url).resultFrom ds = .ok ((ps ++ [last]).flatMap Page.teams) ∧
      (readPages api token maxPages [] url).questionsFrom ds =
        (url :: ps.filterMap Page.next).map fun u => ⟨.teams, u, token⟩ := by
  obtain ⟨left, hleft⟩ : ∃ left, maxPages = left + 1 + ps.length := ⟨maxPages - 1 - ps.length, by omega⟩
  obtain ⟨r, hr, hpage⟩ := h.last_isPage
  obtain ⟨teams, next⟩ := last
  obtain rfl : next = .none := h.last_next
  obtain ⟨urls, url', hurls, hsame', hresult, hquestions⟩ := readPages_of_begins h.toBegins hsame (left + 1) []
  have hread : (ds (0 + ps.length)).readPage = .ok ⟨teams, .none⟩ := by
    rw [Nat.zero_add, hr, Delivery.readPage_of_isPage hpage]
  obtain ⟨hresult', hquestions'⟩ := readPages_completes token (fun n => ds (n + ps.length)) hsame' left _ hread
  rw [hleft, hresult, hquestions, hresult', hquestions', hurls]
  simp

/-- After the last page that may be read, nothing more is asked. -/
theorem readPages_tooMany (h : Begins api ds ps) (hlength : ps.length = maxPages) :
    (readPages api token maxPages [] url).resultFrom ds = .error (.other [.tooManyPages maxPages]) ∧
      ((readPages api token maxPages [] url).questionsFrom ds).length = maxPages := by
  obtain ⟨urls, url', hurls, -, hresult, hquestions⟩ := readPages_of_begins h hsame 0 []
  rw [hlength, Nat.zero_add] at hresult hquestions
  have hnext : (ps.filterMap Page.next).length = ps.length :=
    List.filterMap_length_eq_length.2 fun p hp => by obtain ⟨next, hnext, -⟩ := h.leadOn p hp; simp [hnext]
  have hurls' := congrArg List.length hurls
  rw [List.length_cons, List.length_append, List.length_singleton, hnext] at hurls'
  refine ⟨hresult, ?_⟩
  rw [hquestions]
  simp only [readPages, Talk.fail, Exchange.questionsFrom, List.append_nil, List.length_map]
  omega

/-- The delivery after the pages that lead on settles the rest. -/
theorem readPages_after (h : Begins api ds ps) (hlength : ps.length < maxPages) {e : ProviderError}
    (hread : (ds ps.length).readPage = .error e) :
    (readPages api token maxPages [] url).resultFrom ds = .error e := by
  obtain ⟨left, hleft⟩ : ∃ left, maxPages = left + 1 + ps.length := ⟨maxPages - 1 - ps.length, by omega⟩
  obtain ⟨urls, url', -, hsame', hresult, -⟩ := readPages_of_begins h hsame (left + 1) []
  rw [hleft, hresult]
  exact readPages_fails token _ hsame' left _ (by rwa [Nat.zero_add])

theorem readPages_of_reaches {P : Response → Prop} {e : ProviderError} (h : Reaches api ds P)
    (he : ∀ r, P r → (Delivery.received r).readPage = .error e) :
    (readPages api token maxPages [] url).resultFrom ds = .error e := by
  obtain ⟨ps, r, hbegins, hlength, hr, hP⟩ := h
  exact readPages_after token hsame hbegins hlength (hr ▸ he r hP)

/-- A page that names one elsewhere is the end. -/
theorem readPages_astray (h : Begins api ds ps) (hlength : ps.length < maxPages) {r : Response} {p : Page}
    (hr : ds ps.length = .received r) (hpage : r.IsPage p) (hlead : ¬ p.LeadsOn api) (hnext : p.next ≠ .none) :
    ∃ a, (readPages api token maxPages [] url).resultFrom ds = .error (.other a) := by
  obtain ⟨left, hleft⟩ : ∃ left, maxPages = left + 1 + ps.length := ⟨maxPages - 1 - ps.length, by omega⟩
  obtain ⟨urls, url', -, hsame', hresult, -⟩ := readPages_of_begins h hsame (left + 1) []
  obtain ⟨next, hnext⟩ := Option.ne_none_iff_exists'.1 hnext
  have hforeign : next.isSameOrigin api.base = false := by
    rw [← Bool.not_eq_true]
    exact fun hsame => hlead ⟨next, hnext, hsame⟩
  have hread : (ds (0 + ps.length)).readPage = .ok ⟨p.teams, .some next⟩ := by
    rw [Nat.zero_add, hr, Delivery.readPage_of_isPage hpage, ← hnext]
  obtain ⟨a, ha⟩ : ∃ a, readPages api token left (([] ++ ps.flatMap Page.teams) ++ p.teams) next =
      .done (.error (.other a)) := readPages_foreign hforeign ..
  refine ⟨a, ?_⟩
  rw [hleft, hresult, (readPages_goes_on token (fun n => ds (n + ps.length)) hsame' left _ hread).1, ha]
  rfl

theorem ends_readPages (ds : Nat → Delivery) :
    Ends api ds ((readPages api token maxPages [] url).resultFrom ds) := by
  obtain ⟨ps, hps, hlength | ⟨hlength, hend⟩⟩ := exists_begins api ds maxPages
  · rw [(readPages_tooMany token hsame hps hlength).1]
    exact .failed _
  rcases (ds ps.length).readPage_cases with ⟨r, p, hr, hpage⟩ | ⟨r, hr, hlimited⟩ | ⟨r, hr, hrejected⟩ | ⟨a, hread⟩
  · by_cases hnext : p.next = .none
    · have hcomplete : Complete api ds ps p := ⟨hps, ⟨r, hr, hpage⟩, hnext⟩
      rw [(readPages_complete token hsame hcomplete hlength).1]
      exact .complete hcomplete hlength
    · obtain ⟨a, ha⟩ := readPages_astray token hsame hps hlength hr hpage (hend r p hr hpage) hnext
      rw [ha]
      exact .failed a
  · rw [readPages_after token hsame hps hlength (hr ▸ Delivery.readPage_of_limited hlimited)]
    exact .limited ⟨ps, r, hps, hlength, hr, hlimited⟩
  · rw [readPages_after token hsame hps hlength (hr ▸ Delivery.readPage_of_rejected hrejected.1 hrejected.2)]
    exact .rejected ⟨ps, r, hps, hlength, hr, hrejected⟩
  · rw [readPages_after token hsame hps hlength hread]
    exact .failed a

end

variable {apiUrl : String}

/-- A listing asks for the first page, unless no request can be sent. -/
theorem listGroups_cases (token : String) (hapi : Api.ofUrl apiUrl = .ok api)
    (hsend : Url.isWebScheme api.base.scheme = true ∨ ds 0 = .failed) :
    (∃ first, api.teamsUrl = .ok first ∧ first.isSameOrigin api.base = true ∧
        listGroups api token = readPages api token maxPages [] first) ∨
      ds 0 = .failed ∧ ∃ a, listGroups api token = .done (.error (.other a)) := by
  obtain ⟨first, hfirst, horigin⟩ : ∃ first, api.teamsUrl = .ok first ∧ first.origin? = api.base.origin? :=
    ⟨_, Api.teamsUrl_eq (Api.base_of_ofUrl hapi).2, by simp⟩
  have hlist : listGroups api token = readPages api token maxPages [] first := by rw [listGroups, hfirst]; rfl
  cases hsame : first.isSameOrigin api.base with
  | true => exact .inl ⟨first, hfirst, hsame, hlist⟩
  | false =>
    refine .inr ⟨hsend.resolve_left fun hweb => ?_, by rw [hlist]; exact readPages_foreign hsame ..⟩
    rw [isSameOrigin_of_ofUrl hapi hweb horigin] at hsame
    cases hsame

theorem Begins.ne_failed (h : Begins api ds ps) {r : Response} (hr : ds ps.length = .received r) :
    ds 0 ≠ .failed := by
  cases ps with
  | nil => rw [show ds 0 = .received r from hr]; exact nofun
  | cons p ps =>
    obtain ⟨r', hr', -⟩ := h.pages 0 p rfl
    rw [hr']
    exact nofun

end Listing

open Listing

/-- **A listing is complete or fails.** For every sequence of deliveries, a listing of teams comes to an end with at
most fifty requests. It yields teams exactly if, for some `k` from one to fifty, the first `k` deliveries are pages of
teams, of which all but the last name one that follows at the forge and the last names none: each request but the first
goes to the address that the page before it names, and the teams are those of the pages, one page after the other. In
every other case there is an error and nothing else: that the budget is spent or that the token is rejected, where the
response after pages that lead on says so, and an account of a failure otherwise. When the fiftieth page leads on, no
further request is made. (At an address that is not one of the web no request can be sent, so the first delivery is
none.) -/
theorem listing_settled {apiUrl : String} (hapi : Api.ofUrl apiUrl = .ok api) (isCounted : Bool) (token org : String)
    (ds : Nat → Delivery) (hsend : Url.isWebScheme api.base.scheme = true ∨ ds 0 = .failed) :
    let x := (provider api isCounted).listGroups token org
    (x.questionsFrom ds).length ≤ 50 ∧
    (∀ teams, x.resultFrom ds = .ok teams ↔
      ∃ ps last, Complete api ds ps last ∧ ps.length < 50 ∧ teams = (ps ++ [last]).flatMap Page.teams) ∧
    (∀ ps last, Complete api ds ps last → ps.length < 50 → ∃ first, api.teamsUrl = .ok first ∧
      x.questionsFrom ds = (first :: ps.filterMap Page.next).map fun url => ⟨.teams, url, token⟩) ∧
    (x.resultFrom ds = .error .rateLimited ↔ Reaches api ds Response.Limited) ∧
    (x.resultFrom ds = .error .unauthorized ↔ Reaches api ds fun r => ¬ r.Limited ∧ r.status = 401) ∧
    (∀ e, x.resultFrom ds = .error e → e = .rateLimited ∨ e = .unauthorized ∨ ∃ a, e = .other a) ∧
    ∀ ps, Begins api ds ps → ps.length = 50 →
      x.resultFrom ds = .error (.other [.tooManyPages 50]) ∧ (x.questionsFrom ds).length = 50 := by
  intro x
  have hx : x = listGroups api token := rfl
  have hlength : (x.questionsFrom ds).length ≤ 50 := Exchange.length_questionsFrom_le (listGroups_asksAtMost ..) ds
  refine ⟨hlength, ?_⟩
  rcases listGroups_cases token hapi hsend with ⟨first, hfirst, hsame, hlist⟩ | ⟨hfailed, a, hlist⟩
  · have hends := ends_readPages token hsame ds
    rw [← hlist, ← hx] at hends
    simp only [hx, hlist] at hends ⊢
    refine ⟨fun teams => ⟨fun h => ?_, ?_⟩,
      fun ps last h hlt => ⟨first, hfirst, (readPages_complete token hsame h hlt).2⟩,
      ⟨fun h => ?_, fun h => ?_⟩, ⟨fun h => ?_, fun h => ?_⟩, fun e h => ?_, fun ps => readPages_tooMany token hsame⟩
    · rw [h] at hends
      cases hends with
      | complete hcomplete hlt => exact ⟨_, _, hcomplete, hlt, rfl⟩
    · rintro ⟨ps, last, h, hlt, rfl⟩
      exact (readPages_complete token hsame h hlt).1
    · rw [h] at hends
      cases hends with
      | limited h => exact h
    · exact readPages_of_reaches token hsame h fun r => Delivery.readPage_of_limited
    · rw [h] at hends
      cases hends with
      | rejected h => exact h
    · exact readPages_of_reaches token hsame h fun r hr => Delivery.readPage_of_rejected hr.1 hr.2
    · rw [h] at hends
      cases hends with
      | limited => exact .inl rfl
      | rejected => exact .inr (.inl rfl)
      | failed a => exact .inr (.inr ⟨a, rfl⟩)
  · have hnot {P : Response → Prop} : ¬ Reaches api ds P := by
      rintro ⟨ps, r, h, -, hr, -⟩
      exact h.ne_failed hr hfailed
    have hnot' {ps : List Page} {last : Page} : ¬ Complete api ds ps last := by
      intro h
      obtain ⟨r, hr, -⟩ := h.last_isPage
      exact h.ne_failed hr hfailed
    simp only [hx, hlist, Exchange.resultFrom, hnot, hnot', false_and, exists_false, false_implies, implies_true,
      reduceCtorEq, true_and, Except.error.injEq]
    refine ⟨fun e h => .inr (.inr ⟨a, h.symm⟩), fun ps h hps => ?_⟩
    obtain ⟨p, ps, rfl⟩ := List.exists_cons_of_length_pos (show 0 < ps.length by omega)
    obtain ⟨r, hr, -⟩ := h.pages 0 p rfl
    rw [hfailed] at hr
    cases hr

/-- Two pages are a listing, whatever else they tell in bytes that are not UTF-8, and a page that names itself is
none. -/
theorem listing_settled_cyclic :
    let github : Api := ⟨⟨"https".toList, [], [], .some (.name "api.github.com".toList), .none, .segments [[]], .none,
      .none⟩⟩
    let utf8 (s : String) : List UInt8 := Text.Utf8.encode s.toList
    let response (headers : List (String × String)) (body : List UInt8) : Response :=
      ⟨200, headers.map fun h => .ofText h.1 h.2, .some body⟩
    let first := response [("Link", "<https://api.github.com/user/teams?page=2>; rel=\"next\"")]
      (utf8 "[\x7b\"slug\":\"ops\",\"organization\":\x7b\"login\":\"acme\"\x7d\x7d]")
    let second := response [("Link", "<https://api.github.com/user/teams>; rel=\"prev\"")]
      (utf8 "[\x7b\"slug\":\"sre\",\"name\":\"" ++ 0xE9 ::
        utf8 "\",\"organization\":\x7b\"login\":\"ACME\"\x7d\x7d]")
    let two (n : Nat) : Delivery := .received (if n = 0 then first else second)
    let x := (provider github true).listGroups "t" "acme"
    (Api.ofUrl "https://api.github.com" = .ok github ∧ Url.isWebScheme github.base.scheme = true) ∧
      x.resultFrom two = .ok [⟨"ops", "acme"⟩, ⟨"sre", "ACME"⟩] ∧
      (x.questionsFrom two).map (fun q => q.url.text) =
        ["https://api.github.com/user/teams?per_page=100", "https://api.github.com/user/teams?page=2"] ∧
      x.resultFrom (fun _ => .received first) = .error (.other [.tooManyPages 50]) ∧
      (x.questionsFrom fun _ => .received first).length = 50 := by
  intro github utf8 response first second two x
  have hapi : Api.ofUrl "https://api.github.com" = .ok github := by decide +kernel
  have hweb : Url.isWebScheme github.base.scheme = true := by decide +kernel
  let next : Url := { github.base with
    path := .segments ["user".toList, "teams".toList], query := .some "page=2".toList }
  have hpage {r : Response} {p : Page} (hlimited : Budget.isExhausted r.status r.headers = false)
      (hsuccess : r.isSuccess = true) (hteams : (decodeBody .teams r Team.page?).toOption = .some p.teams)
      (hnext : r.nextTarget?.map Url.parse = p.next.map .ok) : r.IsPage p :=
    ⟨by rw [← isExhausted_iff, hlimited]; exact Bool.false_ne_true, hsuccess,
      decodeBody_eq_ok_iff.1 (eq_ok_of_toOption hteams), hnext⟩
  have hfirst : first.IsPage ⟨[⟨"ops", "acme"⟩], .some next⟩ :=
    hpage (by decide +kernel) (by decide +kernel) (by decide +kernel) (by decide +kernel)
  have hsecond : second.IsPage ⟨[⟨"sre", "ACME"⟩], .none⟩ :=
    hpage (by decide +kernel) (by decide +kernel) (by decide +kernel) (by decide +kernel)
  have hlead : Page.LeadsOn github ⟨[⟨"ops", "acme"⟩], .some next⟩ := ⟨next, rfl, by decide +kernel⟩
  have hcomplete : Complete github two [⟨[⟨"ops", "acme"⟩], .some next⟩] ⟨[⟨"sre", "ACME"⟩], .none⟩ :=
    ⟨begins_nil.concat rfl hfirst hlead, ⟨second, rfl, hsecond⟩, rfl⟩
  have hcycle : Begins github (fun _ => .received first)
      (List.replicate 50 ⟨[⟨"ops", "acme"⟩], .some next⟩) := by
    refine ⟨fun i p hp => ?_, fun p hp => ?_⟩
    · obtain ⟨-, rfl⟩ := List.mem_replicate.1 (List.mem_of_getElem? hp)
      exact ⟨first, rfl, hfirst⟩
    · obtain ⟨-, rfl⟩ := List.mem_replicate.1 hp
      exact hlead
  obtain ⟨-, hok, hasked, -⟩ := listing_settled hapi true "t" "acme" two (.inl hweb)
  obtain ⟨-, -, -, -, -, -, hmany⟩ := listing_settled hapi true "t" "acme" (fun _ => .received first) (.inl hweb)
  refine ⟨⟨hapi, hweb⟩, (hok _).2 ⟨_, _, hcomplete, by decide, rfl⟩, ?_, hmany _ hcycle List.length_replicate⟩
  obtain ⟨url, hurl, hquestions⟩ := hasked _ _ hcomplete (by decide)
  have htext : github.teamsUrl.toOption.map Url.text = .some "https://api.github.com/user/teams?per_page=100" := by
    decide +kernel
  have hnext : next.text = "https://api.github.com/user/teams?page=2" := by decide +kernel
  rw [hurl] at htext
  rw [hquestions]
  exact congrArg₂ (fun a b => [a, b]) (Option.some.inj htext) hnext

end TokenGate.Forge
