/-
Which accepted configurations have a forge.

The address of an accepted configuration begins like one of the web, and no more of it is looked at before the forge
is addressed. There is a forge exactly where the address is one of the web and names a host (`access_of_parse`).
-/
import TokenGate.Launch
import TokenGate.Proofs.Config
import TokenGate.Proofs.Url.Authority

namespace TokenGate.Forge

variable {text : String} {o : Overrides} {c : Config}

/-- The address of an accepted configuration, without what does not count in it. -/
theorem exists_cleaned_apiUrl (hc : Config.parse text o = .ok c) :
    ∃ scheme rest, Url.cleaned c.apiUrl.toList = scheme ++ ':' :: rest ∧
      (scheme = "http".toList ∨ scheme = "https".toList) := by
  obtain ⟨d, -, rfl, hfault⟩ := Config.parse_eq_ok_iff.1 hc
  obtain ⟨rest, h | h⟩ := (Config.fault?_eq_none_iff.1 hfault).apiUrl
  · obtain ⟨t, ht⟩ := Url.exists_cleaned_eq (.inl rfl) rest.toList
    exact ⟨"http".toList, '/' :: '/' :: t, by rw [h, String.toList_append, ht]; rfl, .inl rfl⟩
  · obtain ⟨t, ht⟩ := Url.exists_cleaned_eq (.inr rfl) rest.toList
    exact ⟨"https".toList, '/' :: '/' :: t, by rw [h, String.toList_append, ht]; rfl, .inr rfl⟩

/-- The slashes at the end of an address are off before a configuration is accepted. -/
theorem withoutSlashes_apiUrl (hc : Config.parse text o = .ok c) : Config.withoutSlashes c.apiUrl = c.apiUrl := by
  obtain ⟨d, -, rfl, -⟩ := Config.parse_eq_ok_iff.1 hc
  exact Config.withoutSlashes_idempotent _

/-- **Which accepted configurations have a forge.** For every accepted configuration, there is a forge exactly if its
address is one of the web, and then it is reached at the host that the address names, which is never empty, over HTTP
or HTTPS. If the address is none, the configuration is accepted all the same, and the fault is found where the forge is
addressed. -/
theorem access_of_parse (hc : Config.parse text o = .ok c) :
    (∀ h, (∃ api, Api.ofUrl c.apiUrl = .ok api ∧ api.base.host = .some h) ↔ Url.IsWebAddress c.apiUrl h) ∧
    (∀ api, Api.ofUrl c.apiUrl = .ok api →
      (api.base.scheme = "http".toList ∨ api.base.scheme = "https".toList) ∧
        ∃ h, api.base.host = .some h ∧ h ≠ .name [] ∧ Url.IsWebAddress c.apiUrl h) ∧
    ((∀ h, ¬ Url.IsWebAddress c.apiUrl h) → ∃ f, Api.ofUrl c.apiUrl = .error (.invalidUrl c.apiUrl f)) := by
  obtain ⟨scheme, rest, hclean, hscheme⟩ := exists_cleaned_apiUrl hc
  have hparse : Url.parse c.apiUrl = Url.readAuthority scheme (rest.dropWhile (Url.isSlash true)) :=
    Url.parse_of_cleaned hclean hscheme
  have haddress (h : Url.Host) := Url.exists_parse_iff (h := h) hclean hscheme
  cases hu : Url.parse c.apiUrl with
  | error f =>
    have hofUrl : Api.ofUrl c.apiUrl = .error (.invalidUrl c.apiUrl f) := by
      rw [Api.ofUrl, withoutSlashes_apiUrl hc, hu]
    have hnone (h : Url.Host) : ¬ Url.IsWebAddress c.apiUrl h := by
      rw [← haddress, hu]
      rintro ⟨_, hok, -⟩
      cases hok
    refine ⟨fun h => iff_of_false ?_ (hnone h), fun api hapi => ?_, fun _ => ⟨f, hofUrl⟩⟩
    · rintro ⟨api, hapi, -⟩
      rw [hofUrl] at hapi
      cases hapi
    · rw [hofUrl] at hapi
      cases hapi
  | ok u =>
    have hread : Url.readAuthority scheme (rest.dropWhile (Url.isSlash true)) = .ok u := hparse ▸ hu
    obtain ⟨hu_scheme, hu_host, hu_root⟩ := Url.of_readAuthority hread
    have hofUrl : Api.ofUrl c.apiUrl = .ok ⟨u⟩ := by
      rw [Api.ofUrl, withoutSlashes_apiUrl hc, hu]
      simp only [hu_root, Bool.false_eq_true, if_false]
    have hiff (h : Url.Host) : Url.IsWebAddress c.apiUrl h ↔ u.host = .some h := by
      rw [← haddress, hu]
      simp
    obtain ⟨h, hh⟩ := Option.isSome_iff_exists.1 hu_host
    refine ⟨fun h => ?_, fun api hapi => ?_, fun hnone => absurd ((hiff h).2 hh) (hnone h)⟩
    · rw [hiff, hofUrl]
      simp
    · rw [hofUrl] at hapi
      cases hapi
      refine ⟨hu_scheme ▸ hscheme, h, hh, ?_, (hiff h).2 hh⟩
      rintro rfl
      obtain ⟨_, _, _, _, -, -, user, host, port, rest, -, hhost⟩ := (hiff _).2 hh
      exact Url.Host.ne_name_nil_of_parse hhost rfl

/-- A user with an at sign, an address in brackets and a port. -/
theorem access_of_parse_brackets :
    let text := "org: acme\nupstream:\n  api_url: \"https://ci:a@b@[2001:db8::7]:08443/api/v3//\"\n"
    let c : Config := { Config.preset with org := "acme", apiUrl := "https://ci:a@b@[2001:db8::7]:08443/api/v3" }
    let h : Url.Host := .v6 [0x2001, 0xdb8, 0, 0, 0, 0, 0, 7]
    Config.parse text Overrides.none = .ok c ∧ Url.IsWebAddress c.apiUrl h ∧
      ∃ api, Api.ofUrl c.apiUrl = .ok api ∧ api.base.scheme = "https".toList ∧ api.base.host = .some h ∧
        api.base.portNumber = .some 8443 := by
  intro text c h
  have hc : Config.parse text Overrides.none = .ok c := by decide +kernel
  let api : Api := ⟨⟨"https".toList, "ci".toList, "a%40b".toList, .some h, .some 8443,
    .segments ["api".toList, "v3".toList], .none, .none⟩⟩
  have hapi : Api.ofUrl c.apiUrl = .ok api := by decide +kernel
  obtain ⟨haddress, -, -⟩ := access_of_parse hc
  exact ⟨hc, (haddress h).1 ⟨api, hapi, rfl⟩, api, hapi, rfl, rfl, rfl⟩

/-- A configuration that is accepted although the port of its address is none: the service does not start, and the
fault is not one of the configuration. -/
theorem access_of_parse_port :
    let text := "org: acme\nupstream:\n  api_url: \"https://ghe.example.com:99999\"\n"
    let c : Config := { Config.preset with org := "acme", apiUrl := "https://ghe.example.com:99999" }
    let f : AccessFault := .invalidUrl c.apiUrl .invalidPort
    Config.parse text Overrides.none = .ok c ∧ (∀ h, ¬ Url.IsWebAddress c.apiUrl h) ∧ Api.ofUrl c.apiUrl = .error f ∧
      f.message = "invalid GitHub API URL: https://ghe.example.com:99999: invalid port number" ∧
      Launch.ofConfig c = .error f := by
  intro text c f
  have hc : Config.parse text Overrides.none = .ok c := by decide +kernel
  have hparse : Url.parse c.apiUrl = .error .invalidPort := by decide +kernel
  have hforge : Api.ofConfig c = .error f := by decide +kernel
  refine ⟨hc, fun h haddress => ?_, by decide +kernel, by decide +kernel, ?_⟩
  · obtain ⟨scheme, rest, hclean, hscheme⟩ := exists_cleaned_apiUrl hc
    obtain ⟨u, hu, -⟩ := (Url.exists_parse_iff hclean hscheme).2 haddress
    rw [hparse] at hu
    cases hu
  · rw [Launch.ofConfig, hforge]
    rfl

end TokenGate.Forge
