/-
The origin of what is asked of a forge.

A URL of the web has an origin (`origin?_isSome_of_parse`), and an address below it, with or without settings, has the
same one (`origin?_below`, `origin?_withSetting`). So all that a provider asks of a forge at an address of the web is
asked of one origin: the addresses that it makes are below the one it was given, and those that a page of teams names
are looked at first (`token_confined`).
-/
import TokenGate.Exchange.Transcript
import TokenGate.Forge.Calls
import TokenGate.Proofs.Resolution

namespace TokenGate

theorem exists_of_bind_eq_ok {ε α β : Type} {x : Except ε α} {f : α → Except ε β} {b : β} (h : x >>= f = .ok b) :
    ∃ a, x = .ok a ∧ f a = .ok b := by
  cases x with
  | error e => cases h
  | ok a => exact ⟨a, rfl, h⟩

theorem eq_ok_of_toOption {ε α : Type} {x : Except ε α} {a : α} (h : x.toOption = .some a) : x = .ok a := by
  cases x with
  | error e => cases h
  | ok a' => cases h; rfl

namespace Url

/-! ## URLs of the web -/

theorem isRootless_withRest (u : Url) (isSpecial : Bool) (s : List Char) : (withRest u isSpecial s).isRootless = false := by
  have hpath : ∃ ss, (withRest u isSpecial s).path = .segments ss := by
    change ∃ ss, readPath isSpecial (splitAtFirst endsPath s).1 = .segments ss
    unfold readPath
    split <;> exact ⟨_, rfl⟩
  obtain ⟨ss, hss⟩ := hpath
  simp only [isRootless, hss]

/-- Behind two slashes, there is a host, and addresses can lie below. -/
theorem of_readAuthority {scheme s : List Char} {u : Url} (h : readAuthority scheme s = .ok u) :
    u.scheme = scheme ∧ u.host.isSome = true ∧ u.isRootless = false := by
  unfold readAuthority at h
  obtain ⟨⟨username, password, s'⟩, -, h⟩ := exists_of_bind_eq_ok h
  obtain ⟨host, -, h⟩ := exists_of_bind_eq_ok h
  dsimp only at h
  split at h
  next => cases h
  next =>
    split at h
    next =>
      obtain ⟨⟨portNumber, rest⟩, -, h⟩ := exists_of_bind_eq_ok h
      cases h
      exact ⟨rfl, rfl, isRootless_withRest ..⟩
    next =>
      cases h
      exact ⟨rfl, rfl, isRootless_withRest ..⟩

theorem scheme_of_readFile {scheme s : List Char} {u : Url} (h : readFile scheme s = .ok u) : u.scheme = scheme := by
  unfold readFile at h
  split at h
  next =>
    split at h
    next =>
      dsimp only at h
      split at h
      all_goals
        split at h
        all_goals
          obtain ⟨host, -, h⟩ := exists_of_bind_eq_ok h
          cases h
          rfl
    next => cases h; rfl
  next => cases h; rfl

theorem scheme_of_readOther {scheme s : List Char} {u : Url} (h : readOther scheme s = .ok u) : u.scheme = scheme := by
  unfold readOther at h
  split at h
  next => exact (of_readAuthority h).1
  next => cases h; rfl
  next => cases h; rfl

/-- What is read as a URL of the web has a host. -/
theorem host_isSome_of_parse {s : String} {u : Url} (h : parse s = .ok u) (hweb : isWebScheme u.scheme = true) :
    u.host.isSome = true := by
  unfold parse at h
  split at h
  next => cases h
  next scheme rest _ =>
    split at h
    next hfile =>
      rw [scheme_of_readFile h, hfile] at hweb
      exact absurd hweb (by decide)
    next =>
      split at h
      next => exact (of_readAuthority h).2.1
      next hother => exact absurd (scheme_of_readOther h ▸ hweb) hother

/-! ## Origins -/

theorem origin?_isSome_of_parse {s : String} {u : Url} (h : parse s = .ok u) (hweb : isWebScheme u.scheme = true) :
    u.origin?.isSome = true := by
  obtain ⟨host, hhost⟩ := Option.isSome_iff_exists.1 (host_isSome_of_parse h hweb)
  obtain ⟨implied, himplied⟩ := Option.isSome_iff_exists.1 hweb
  simp [origin?, himplied, hhost]

theorem isSameOrigin_iff {u v : Url} :
    u.isSameOrigin v = true ↔ ∃ o, u.origin? = .some o ∧ v.origin? = .some o := by
  unfold isSameOrigin
  cases u.origin? <;> cases v.origin? <;> simp [eq_comm]

theorem isSameOrigin_of_origin?_eq {u v : Url} (h : u.origin? = v.origin?) (hsome : v.origin?.isSome = true) :
    u.isSameOrigin v = true := by
  obtain ⟨o, ho⟩ := Option.isSome_iff_exists.1 hsome
  exact isSameOrigin_iff.2 ⟨o, h.trans ho, ho⟩

@[simp] theorem origin?_below (u : Url) (names : List (List Char)) : (u.below names).origin? = u.origin? := by
  unfold below
  split <;> rfl

@[simp] theorem origin?_withSetting (u : Url) (setting : List Char) : (u.withSetting setting).origin? = u.origin? := rfl

end Url

/-- The token that a call is made with. -/
def Call.token : Call → String
  | whoAmI token => token
  | checkMembership token _ _ => token
  | listGroups token _ => token

namespace Forge

/-! ## The addresses of a forge -/

namespace Api

variable {apiUrl : String} {api : Api}

theorem base_of_ofUrl (h : ofUrl apiUrl = .ok api) :
    Url.parse (Config.withoutSlashes apiUrl) = .ok api.base ∧ api.base.isRootless = false := by
  unfold ofUrl at h
  split at h
  next => cases h
  next base hparse =>
    split at h
    next => cases h
    next hroot => cases h; exact ⟨hparse, by simpa using hroot⟩

theorem origin?_isSome_of_ofUrl (h : ofUrl apiUrl = .ok api) (hweb : Url.isWebScheme api.base.scheme = true) :
    api.base.origin?.isSome = true :=
  Url.origin?_isSome_of_parse (base_of_ofUrl h).1 hweb

theorem endpoint_eq (h : api.base.isRootless = false) (names : List String) :
    api.endpoint names = .ok (api.base.below (names.map String.toList)) := by
  simp [endpoint, h]

theorem teamsUrl_eq (h : api.base.isRootless = false) :
    api.teamsUrl = .ok ((api.base.below (["user", "teams"].map String.toList)).withSetting pageSetting) := by
  rw [teamsUrl, endpoint_eq h]
  rfl

end Api

/-! ## Requests -/

variable {api : Api} {token : String}

/-- A request that bears the token, to the origin of the forge. -/
def Request.Confined (api : Api) (token : String) (q : Request) : Prop :=
  q.token = token ∧ q.url.isSameOrigin api.base = true

/-- The response names a page that follows, and the name does not lead to a page of the forge. -/
def Response.NamesForeignPage (api : Api) (r : Response) : Prop :=
  ∃ target, (r.headers.firstText? "link").bind Link.next? = .some target ∧
    ∀ next, Url.parse target = .ok next → next.isSameOrigin api.base = false

/-- What holds of a request for teams: it stays with the forge, and a response that leads away from it is the end. -/
def Request.IsPage (api : Api) (token : String) (q : Request)
    (resume : Delivery → Exchange Answer (Except ProviderError (List Team))) : Prop :=
  q.Confined api token ∧ ∀ r : Response, r.NamesForeignPage api → ∃ e, resume (.received r) = .done (.error e)

theorem ask_andThen {β : Type} (e : Endpoint) (url : Url) (token : String) (f : Response → Talk β) :
    (ask e url token).andThen f = .ask ⟨e, url, token⟩ fun d =>
      match d.accept e with
      | .ok r => f r
      | .error e => .done (.error e) := by
  refine congrArg (Exchange.ask _) (funext fun d => ?_)
  rw [Exchange.done_bind]
  cases Delivery.accept e d <;> rfl

/-- A call that is one request. -/
theorem withUrl_ask {α : Type} (e : Endpoint) (url : Url) (token : String)
    (read : Response → Except ProviderError α) :
    (Talk.withUrl (.ok url) fun u => (ask e u token).andThen fun r => .done (read r)) =
      .ask ⟨e, url, token⟩ fun d => .done ((d.accept e).bind read) := by
  rw [Talk.withUrl, ask_andThen]
  refine congrArg (Exchange.ask _) (funext fun d => ?_)
  cases Delivery.accept e d <;> rfl

/-! ## Pages of teams -/

theorem readPage_eq_ok_iff {r : Response} {page : Page} :
    readPage r = .ok page ↔ r.isSuccess = true ∧ nextPage r.headers = .ok page.next ∧
      decodeBody .teams r Team.page? = .ok page.teams := by
  unfold readPage
  constructor
  · intro h
    split at h
    next => cases h
    next =>
      split at h
      next => cases h
      next hsuccess =>
        obtain ⟨next, hnext, h⟩ := exists_of_bind_eq_ok h
        obtain ⟨teams, hteams, h⟩ := exists_of_bind_eq_ok h
        cases h
        exact ⟨by simpa using hsuccess, hnext, hteams⟩
  · rintro ⟨hsuccess, hnext, hteams⟩
    have hstatus : r.status ≠ 401 := by
      intro h
      simp [Response.isSuccess, h] at hsuccess
    rw [if_neg hstatus, hsuccess, hnext, hteams]
    rfl

theorem Response.NamesForeignPage.next_of_readPage {r : Response} {page : Page} (hr : r.NamesForeignPage api)
    (h : readPage r = .ok page) : ∃ next, page.next = .some next ∧ next.isSameOrigin api.base = false := by
  obtain ⟨target, htarget, hforeign⟩ := hr
  have hnext := (readPage_eq_ok_iff.1 h).2.1
  simp only [nextPage, htarget] at hnext
  split at hnext
  next next hparse =>
    exact ⟨next, (Except.ok.inj hnext).symm, hforeign next hparse⟩
  next => cases hnext

/-- No page of another origin is asked for. -/
theorem readPages_foreign {url : Url} (h : url.isSameOrigin api.base = false) (left : Nat) (soFar : List Team) :
    ∃ a, readPages api token left soFar url = .done (.error (.other a)) := by
  cases left with
  | zero => exact ⟨_, rfl⟩
  | succ left => exact ⟨_, by simp only [readPages, h]; rfl⟩

theorem readPages_throughout (left : Nat) (soFar : List Team) (url : Url) :
    (readPages api token left soFar url).Throughout (Request.IsPage api token) := by
  induction left generalizing soFar url with
  | zero => trivial
  | succ left ih =>
    unfold readPages
    split
    next => trivial
    next hsame =>
      rw [ask_andThen]
      refine ⟨⟨⟨rfl, by simpa using hsame⟩, fun r hr => ?foreign⟩, fun d => ?pages⟩
      case foreign =>
        dsimp only
        split
        next r' haccept =>
          obtain rfl : r = r' := by
            simp only [Delivery.accept] at haccept
            split at haccept
            · cases haccept
            · cases haccept; rfl
          split
          next e _ => exact ⟨e, rfl⟩
          next hpage =>
            obtain ⟨next, hnone, -⟩ := hr.next_of_readPage hpage
            cases hnone
          next teams next hpage =>
            obtain ⟨_, hnext, hforeign⟩ := hr.next_of_readPage hpage
            cases hnext
            obtain ⟨a, ha⟩ := readPages_foreign hforeign ..
            exact ⟨_, ha⟩
        next e _ => exact ⟨e, rfl⟩
      case pages =>
        dsimp only
        split
        next r _ =>
          split
          next => trivial
          next => trivial
          next => exact ih ..
        next => trivial

/-! ## Calls -/

section

variable {apiUrl : String} (hapi : Api.ofUrl apiUrl = .ok api) (hweb : Url.isWebScheme api.base.scheme = true)

include hapi hweb

theorem isSameOrigin_of_ofUrl {url : Url} (h : url.origin? = api.base.origin?) : url.isSameOrigin api.base = true :=
  Url.isSameOrigin_of_origin?_eq h (Api.origin?_isSome_of_ofUrl hapi hweb)

theorem whoAmI_throughout (token : String) : (whoAmI api token).Throughout fun q _ => q.Confined api token := by
  rw [whoAmI, Api.userUrl, Api.endpoint_eq (Api.base_of_ofUrl hapi).2, withUrl_ask]
  exact ⟨⟨rfl, isSameOrigin_of_ofUrl hapi hweb (Url.origin?_below ..)⟩, fun d => trivial⟩

theorem checkMembership_throughout (token org login : String) :
    (checkMembership api token org login).Throughout fun q _ => q.Confined api token := by
  rw [checkMembership, Api.membershipUrl, Api.endpoint_eq (Api.base_of_ofUrl hapi).2, withUrl_ask]
  exact ⟨⟨rfl, isSameOrigin_of_ofUrl hapi hweb (Url.origin?_below ..)⟩, fun d => trivial⟩

end

theorem listGroups_throughout (token : String) : (listGroups api token).Throughout (Request.IsPage api token) := by
  unfold listGroups Talk.withUrl
  split
  next url _ => exact readPages_throughout ..
  next => trivial

/-- A forge at an address of the web is asked with the token of the call, and each request goes to the origin of that
address. A page of teams that leads to another origin ends the call with an error: nothing is asked there, and the
teams that came before are not returned. -/
theorem token_confined {apiUrl : String} {api : Api} (hapi : Api.ofUrl apiUrl = .ok api)
    (hweb : Url.isWebScheme api.base.scheme = true) (isCounted : Bool) :
    (∀ (c : Call) (log : List (Answered Answer)) (q : Request) (resume : Delivery → Exchange Answer c.Reply),
      ((provider api isCounted).call c).Leads log (.ask q resume) →
        q.token = c.token ∧ ∃ o, api.base.origin? = .some o ∧ q.url.origin? = .some o) ∧
    ∀ (token org : String) (log : List (Answered Answer)) (q : Request)
      (resume : Delivery → Exchange Answer (Except ProviderError (List Team))) (r : Response),
      ((provider api isCounted).call (.listGroups token org)).Leads log (.ask q resume) → r.NamesForeignPage api →
        ∃ e, resume (.received r) = .done (.error e) := by
  have horigin {token : String} {q : Request} (h : q.Confined api token) :
      q.token = token ∧ ∃ o, api.base.origin? = .some o ∧ q.url.origin? = .some o := by
    obtain ⟨o, hq, hbase⟩ := Url.isSameOrigin_iff.1 h.2
    exact ⟨h.1, o, hbase, hq⟩
  constructor
  · intro c log q resume hlead
    cases c with
    | whoAmI token => exact horigin ((whoAmI_throughout hapi hweb token).of_leads hlead).1
    | checkMembership token org login =>
      exact horigin ((checkMembership_throughout hapi hweb token org login).of_leads hlead).1
    | listGroups token org => exact horigin ((listGroups_throughout token).of_leads hlead).1.1
  · intro token org log q resume r hlead hr
    exact ((listGroups_throughout token).of_leads hlead).1.2 r hr

/-- A first page of teams that names a second one at another host. -/
theorem token_confined_elsewhere :
    let github : Api := ⟨⟨"https".toList, [], [], .some (.name "api.github.com".toList), .none, .segments [[]], .none,
      .none⟩⟩
    let away : Response := ⟨200, [.ofText "Link" "<https://api.github.com:8443/teams>; rel=\"next\""],
      .some (Text.Utf8.encode "[]".toList)⟩
    Api.ofUrl "https://api.github.com/" = .ok github ∧ Url.isWebScheme github.base.scheme = true ∧
      away.NamesForeignPage github ∧
      ∃ q resume, ((provider github true).call (.listGroups "t" "acme")).Leads [] (.ask q resume) ∧
        q.url.text = "https://api.github.com/user/teams?per_page=100" ∧ q.token = "t" ∧
        (∃ o, github.base.origin? = .some o ∧ q.url.origin? = .some o) ∧
        ∃ e, resume (.received away) = .done (.error e) := by
  intro github away
  have hapi : Api.ofUrl "https://api.github.com/" = .ok github := eq_ok_of_toOption (by decide +kernel)
  have hweb : Url.isWebScheme github.base.scheme = true := by decide +kernel
  have haway : away.NamesForeignPage github := by
    refine ⟨"https://api.github.com:8443/teams", by decide +kernel, fun next h => ?_⟩
    have hforeign : (Url.parse "https://api.github.com:8443/teams").toOption.any (·.isSameOrigin github.base) = false :=
      by decide +kernel
    rw [h] at hforeign
    exact hforeign
  obtain ⟨hconfined, hend⟩ := token_confined hapi hweb true
  obtain ⟨htoken, horigin⟩ := hconfined (.listGroups "t" "acme") [] _ _ .nil
  exact ⟨hapi, hweb, haway, _, _, .nil, by decide +kernel, htoken, horigin, hend "t" "acme" [] _ _ _ .nil haway⟩

end Forge

end TokenGate
