/-
What the request for a membership addresses.

The call is one request, to the address of the forge with the names of the membership behind its path
(`checkMembership_eq_ask`). That is never the address of anything else that the forge is asked for
(`text_membershipAt_ne`), and it tells the organization and the login unless they are dots (`names_eq_of_membershipAt`).
So both are only ever names in the request (`membership_addressed`).
-/
import TokenGate.Proofs.Config
import TokenGate.Proofs.Forge.Origin
import TokenGate.Proofs.Url.Segments

namespace TokenGate

theorem Config.withoutSlashes_append (url : String) (n : Nat) :
    withoutSlashes (withoutSlashes url ++ String.ofList (List.replicate n '/')) = withoutSlashes url := by
  obtain ⟨-, -, -, hlast⟩ := eq_withoutSlashes_iff.2 (rfl : withoutSlashes url = withoutSlashes url)
  refine (eq_withoutSlashes_iff.1 ⟨List.replicate n '/', ?_, fun x hx => List.eq_of_mem_replicate hx, hlast⟩).symm
  rw [String.toList_append, String.toList_ofList]

namespace Forge

/-- The request is for what lies under names below the address of a forge: its scheme, host, port and query are those
of the forge, and behind the path of the forge, without slashes at its end, each name is a segment, unless it is one or
two dots. -/
structure Request.Addresses (api : Api) (names : List String) (q : Request) : Prop where
  scheme : q.url.scheme = api.base.scheme
  host : q.url.host = api.base.host
  portNumber : q.url.portNumber = api.base.portNumber
  query : q.url.query = api.base.query
  path : ∃ ss segs n, api.base.path = .segments ss ∧
    api.base.path.text = (Url.Path.segments (Url.stem ss)).text ++ List.replicate n '/' ∧
    q.url.path = .segments (Url.stem ss ++ segs) ∧
    Url.Spells (Url.isSpecialScheme api.base.scheme) segs
      ((names.map String.toList).filter fun name => !Url.isDots name)

/-- A name that is told by the address below which it stands. -/
structure IsName (s : String) : Prop where
  plain : Url.IsPlain s.toList
  notDots : s ≠ "." ∧ s ≠ ".."

section

variable {api : Api} {ss : List (List Char)} {org login org' login' : String}

theorem exists_segments (h : api.base.isRootless = false) : ∃ ss, api.base.path = .segments ss := by
  unfold Url.isRootless at h
  split at h
  next => cases h
  next ss hpath => exact ⟨ss, hpath⟩

theorem IsName.isDots {s : String} (h : IsName s) : Url.isDots s.toList = false := by
  have hone : s.toList ≠ ['.'] := fun hs => h.notDots.1 (String.toList_inj.1 hs)
  have htwo : s.toList ≠ ['.', '.'] := fun hs => h.notDots.2 (String.toList_inj.1 hs)
  simp [Url.isDots, hone, htwo]

/-- The names below which a membership lies. -/
def membershipNames (org login : String) : List (List Char) :=
  ["orgs", org, "members", login].map String.toList

/-- The address that a membership has below that of the forge. -/
def membershipAt (base : Url) (ss : List (List Char)) (org login : String) : Url :=
  { base with path := .segments (Url.stem ss ++
      ((membershipNames org login).filter fun name => !Url.isDots name).map
        (Url.segment (Url.isSpecialScheme base.scheme))) }

theorem membershipUrl_eq (hpath : api.base.path = .segments ss) (horg : Url.IsPlain org.toList)
    (hlogin : Url.IsPlain login.toList) : api.membershipUrl org login = .ok (membershipAt api.base ss org login) := by
  have hroot : api.base.isRootless = false := by rw [Url.isRootless, hpath]
  have hplain : ∀ name ∈ membershipNames org login, Url.IsPlain name := by
    simp only [membershipNames, List.map_cons, List.map_nil, List.forall_mem_cons]
    exact ⟨by decide, horg, by decide, hlogin, List.forall_mem_nil _⟩
  rw [Api.membershipUrl, Api.endpoint_eq hroot]
  exact congrArg Except.ok (Url.below_eq hpath hplain (by decide) (by decide))

/-- The call is one request. -/
theorem checkMembership_eq_ask (hpath : api.base.path = .segments ss) (horg : Url.IsPlain org.toList)
    (hlogin : Url.IsPlain login.toList) (token : String) :
    checkMembership api token org login = .ask ⟨.membership, membershipAt api.base ss org login, token⟩
      fun d => .done ((d.accept .membership).bind readMembership) := by
  rw [checkMembership, membershipUrl_eq hpath horg hlogin, withUrl_ask]

/-- A membership does not have the address of anything else that a forge is asked for. -/
theorem text_membershipAt_ne (hpath : api.base.path = .segments ss) {url : Url}
    (h : api.userUrl = .ok url ∨ api.teamsUrl = .ok url) :
    (membershipAt api.base ss org login).text ≠ url.text := by
  have hroot : api.base.isRootless = false := by rw [Url.isRootless, hpath]
  have horgs (isSpecial : Bool) : Url.segment isSpecial "orgs".toList = 'o' :: "rgs".toList := by
    cases isSpecial <;> decide
  have huser (names : List (List Char)) (hplain : ∀ name ∈ "user".toList :: names, Url.IsPlain name) :
      ∃ segs, api.base.below ("user".toList :: names) =
        { api.base with path := .segments (Url.stem ss ++ ('u' :: "ser".toList) :: segs) } := by
    have hsegment (isSpecial : Bool) : Url.segment isSpecial "user".toList = 'u' :: "ser".toList := by
      cases isSpecial <;> decide
    rw [Url.below_eq hpath hplain (by decide) (by decide), List.filter_cons_of_pos (by decide), List.map_cons,
      hsegment]
    exact ⟨_, rfl⟩
  rw [membershipAt, membershipNames, List.map_cons, List.filter_cons_of_pos (by decide), List.map_cons, horgs]
  rcases h with h | h
  · rw [Api.userUrl, Api.endpoint_eq hroot] at h
    obtain ⟨segs, hsegs⟩ := huser [] (by decide)
    obtain rfl := (Except.ok.inj h).symm.trans hsegs
    exact Url.text_ne_of_head_ne rfl rfl (show 'o' ≠ 'u' by decide) _
  · rw [Api.teamsUrl_eq hroot] at h
    obtain ⟨segs, hsegs⟩ := huser ["teams".toList] (by decide)
    obtain rfl := (Except.ok.inj h).symm.trans (congrArg (Url.withSetting · Api.pageSetting) hsegs)
    exact Url.text_ne_of_head_ne (u := api.base) (v := api.base.withSetting Api.pageSetting) rfl rfl
      (show 'o' ≠ 'u' by decide) _

theorem names_eq_of_membershipAt (horg : IsName org) (hlogin : IsName login) (horg' : IsName org')
    (hlogin' : IsName login')
    (h : (membershipAt api.base ss org login).text = (membershipAt api.base ss org' login').text) :
    org = org' ∧ login = login' := by
  have hkept {org login : String} (horg : IsName org) (hlogin : IsName login) :
      (membershipNames org login).filter (fun name => !Url.isDots name) = membershipNames org login := by
    refine List.filter_eq_self.2 ?_
    simp only [membershipNames, List.map_cons, List.map_nil, List.forall_mem_cons, horg.isDots, hlogin.isDots]
    exact ⟨by decide, rfl, by decide, rfl, List.forall_mem_nil _⟩
  have hnames := Url.names_eq_of_text_eq h
  rw [hkept horg hlogin, hkept horg' hlogin'] at hnames
  simp only [membershipNames, List.map_cons, List.cons.injEq, String.toList_inj] at hnames
  exact ⟨hnames.2.1, hnames.2.2.2.1⟩

/-- **What the request for a membership addresses.** A forge is at the address it was given, read without the slashes
at its end, however many there are. Where no character of an organization and a login disappears, the call is one
request, to an address whose scheme, host, port and query are those of the forge, and whose path is that of the forge
with the names that lead to the membership behind it, those left out that are one or two dots; so it is not what else a
forge is asked for. Organizations and logins that are not dots are told by the text of the address. -/
theorem membership_addressed {apiUrl : String} (hapi : Api.ofUrl apiUrl = .ok api) (isCounted : Bool) :
    Url.parse (Config.withoutSlashes apiUrl) = .ok api.base ∧
    (∀ n, Api.ofUrl (Config.withoutSlashes apiUrl ++ String.ofList (List.replicate n '/')) = .ok api) ∧
    (∀ token org login : String, Url.IsPlain org.toList → Url.IsPlain login.toList →
      ∃ q resume, (provider api isCounted).call (.checkMembership token org login) = .ask q resume ∧
        (∀ d, ∃ r, resume d = .done r) ∧ q.Addresses api ["orgs", org, "members", login] ∧
        ∀ url, api.userUrl = .ok url ∨ api.teamsUrl = .ok url → q.url.text ≠ url.text) ∧
    ∀ (token org login token' org' login' : String) (q q' : Request)
      (resume resume' : Delivery → Exchange Answer (Except ProviderError Unit)),
      IsName org → IsName login → IsName org' → IsName login' →
      (provider api isCounted).call (.checkMembership token org login) = .ask q resume →
      (provider api isCounted).call (.checkMembership token' org' login') = .ask q' resume' →
      q.url.text = q'.url.text → org = org' ∧ login = login' := by
  obtain ⟨hparse, hroot⟩ := Api.base_of_ofUrl hapi
  obtain ⟨ss, hpath⟩ := exists_segments hroot
  refine ⟨hparse, fun n => ?_, fun token org login horg hlogin => ?_, ?_⟩
  · rw [← hapi, Api.ofUrl, Api.ofUrl, Config.withoutSlashes_append, hparse]
  · have hspells : Url.Spells (Url.isSpecialScheme api.base.scheme) _
        ((membershipNames org login).filter fun name => !Url.isDots name) :=
      Url.spells_map_segment (fun name hname => by simpa using (List.mem_filter.1 hname).2) _
    obtain ⟨n, hslashes⟩ := Url.pathText_stem ss
    exact ⟨_, _, checkMembership_eq_ask hpath horg hlogin token, fun d => ⟨_, rfl⟩,
      ⟨rfl, rfl, rfl, rfl, ss, _, n, hpath, hpath ▸ hslashes, rfl, hspells⟩,
      fun url => text_membershipAt_ne hpath⟩
  · intro token org login token' org' login' q q' resume resume' horg hlogin horg' hlogin' hq hq' htext
    have hask := (checkMembership_eq_ask hpath horg.plain hlogin.plain token).symm.trans hq
    have hask' := (checkMembership_eq_ask hpath horg'.plain hlogin'.plain token').symm.trans hq'
    cases hask
    cases hask'
    exact names_eq_of_membershipAt horg hlogin horg' hlogin' htext

/-- Two organizations, one of which is written as the other one is encoded, and a login of two dots. -/
theorem membership_addressed_encoded :
    let forge : Api := ⟨⟨"https".toList, [], [], .some (.name "ghe.example.com".toList), .some 8443,
      .segments ["api".toList, "v3".toList], .none, .none⟩⟩
    let request (org login : String) : Request :=
      ⟨.membership, membershipAt forge.base ["api".toList, "v3".toList] org login, "t"⟩
    Api.ofUrl "https://ghe.example.com:8443/api/v3//" = .ok forge ∧
      Api.ofUrl "https://ghe.example.com:8443/api/v3" = .ok forge ∧
      (request "a/b?" "é\\").url.text = "https://ghe.example.com:8443/api/v3/orgs/a%2Fb%3F/members/%C3%A9%5C" ∧
      (request "a/b?" "..").url.text = "https://ghe.example.com:8443/api/v3/orgs/a%2Fb%3F/members" ∧
      (∃ resume, (provider forge true).call (.checkMembership "t" "a/b?" "..") = .ask (request "a/b?" "..") resume ∧
        (request "a/b?" "..").Addresses forge ["orgs", "a/b?", "members", ".."]) ∧
      (IsName "a/b?" ∧ IsName "a%2Fb%3F" ∧ IsName "é\\") ∧
      (request "a/b?" "é\\").url.text ≠ (request "a%2Fb%3F" "é\\").url.text := by
  intro forge request
  have hforge : Api.ofUrl "https://ghe.example.com:8443/api/v3//" = .ok forge := eq_ok_of_toOption (by decide +kernel)
  have hnames : IsName "a/b?" ∧ IsName "a%2Fb%3F" ∧ IsName "é\\" :=
    ⟨⟨by decide, by decide⟩, ⟨by decide, by decide⟩, ⟨by decide, by decide⟩⟩
  have hpath : forge.base.path = .segments ["api".toList, "v3".toList] := rfl
  have hcall (org login : String) (horg : Url.IsPlain org.toList) (hlogin : Url.IsPlain login.toList) :
      ∃ resume, (provider forge true).call (.checkMembership "t" org login) = .ask (request org login) resume :=
    ⟨_, checkMembership_eq_ask hpath horg hlogin "t"⟩
  obtain ⟨-, hslashes, hrequest, hdistinct⟩ := membership_addressed hforge true
  refine ⟨hforge, hslashes 0, by decide +kernel, by decide +kernel, ?dots, hnames, fun htext => ?encoded⟩
  case dots =>
    obtain ⟨resume, hask⟩ := hcall "a/b?" ".." (by decide) (by decide)
    obtain ⟨q, _, hq, -, haddresses, -⟩ := hrequest "t" "a/b?" ".." (by decide) (by decide)
    obtain ⟨rfl, -⟩ := Exchange.ask.inj (hask.symm.trans hq)
    exact ⟨resume, hask, haddresses⟩
  case encoded =>
    obtain ⟨horg, horg', hlogin⟩ := hnames
    obtain ⟨resume, hask⟩ := hcall "a/b?" "é\\" horg.plain hlogin.plain
    obtain ⟨resume', hask'⟩ := hcall "a%2Fb%3F" "é\\" horg'.plain hlogin.plain
    have hsame := hdistinct _ _ _ _ _ _ _ _ _ _ horg hlogin horg' hlogin hask hask' htext
    exact absurd hsame.1 (by decide)

end

end Forge

end TokenGate
