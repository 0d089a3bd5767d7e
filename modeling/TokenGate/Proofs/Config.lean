/-
Configurations are merged value by value.

An entry that is read, or that is not there, leaves one value that can prevail (`prevails_fieldOr`), so one
configuration comes of a text that can be read, and that is the one that `merge` makes (`merged_iff`). A configuration
without a fault is a sound one (`fault?_eq_none_iff`). What is accepted is thus told by the merged values alone, and
putting them in place again changes nothing (`parse_merged`).
-/
import Mathlib.Data.List.DropRight
import TokenGate.Config.Sources

namespace TokenGate

/-! ## Entries -/

namespace Yaml.Document

variable {α : Type} {entries : List (String × Node)} {name : String} {n : Node}

theorem mem_of_field?_eq_some (h : field? entries name = .some (.some n)) (n' : Node) :
    (name, n') ∈ entries ↔ n' = n := by
  have hmem : (name, n') ∈ entries ↔ (name, n') ∈ entries.filter fun e => e.1 == name := by simp
  rw [hmem]
  unfold field? at h
  split at h
  next => cases h
  next e heq =>
    have he : e ∈ entries.filter fun e => e.1 == name := heq ▸ List.mem_singleton_self e
    have hname : e.1 = name := by simpa using (List.mem_filter.1 he).2
    cases h
    rw [heq, List.mem_singleton, ← hname, Prod.ext_iff]
    exact and_iff_right rfl
  next => cases h

theorem not_mem_of_field?_eq_none (h : field? entries name = .some .none) (n' : Node) : (name, n') ∉ entries := by
  intro hmem
  have hfilter : (name, n') ∈ entries.filter fun e => e.1 == name := by simpa using hmem
  unfold field? at h
  split at h
  next heq => rw [heq] at hfilter; cases hfilter
  next => cases h
  next => cases h

end Yaml.Document

namespace Config

/-! ## What prevails -/

section

variable {α : Type} {override : Option α} {said : α → Prop} {reserve v : α}

/-- What takes the place of the only value that can prevail without it is the only one that can prevail with it. -/
theorem prevails_getD (h : ∀ v', Prevails .none said reserve v' ↔ v' = v) (override : Option α) (v' : α) :
    Prevails override said reserve v' ↔ v' = override.getD v := by
  cases override with
  | none => exact h v'
  | some u =>
    constructor
    · rintro (⟨⟨⟩⟩ | ⟨⟨⟩, -⟩ | ⟨⟨⟩, -⟩)
      rfl
    · rintro rfl
      exact .override rfl

theorem prevails_of_said (hv : ∀ v', said v' ↔ v' = v) (v' : α) : Prevails .none said reserve v' ↔ v' = v := by
  constructor
  · rintro (⟨⟨⟩⟩ | ⟨-, h⟩ | ⟨-, h⟩)
    · exact (hv _).1 h
    · exact absurd ((hv v).2 rfl) (h v)
  · exact fun h => .said rfl ((hv v').2 h)

theorem prevails_of_unsaid (hv : ∀ v', ¬ said v') (v' : α) : Prevails .none said reserve v' ↔ v' = reserve := by
  constructor
  · rintro (⟨⟨⟩⟩ | ⟨-, h⟩ | -)
    · exact absurd h (hv _)
    · rfl
  · rintro rfl
    exact .reserve rfl hv

/-- An entry that is read, or that is not there, leaves one value to prevail. -/
theorem prevails_fieldOr {entries : List (String × Yaml.Node)} {name : String} {read : Yaml.Node → Option α}
    (h : Yaml.Document.fieldOr entries name reserve read = .some v) (v' : α) :
    Prevails .none (fun v => ∃ n, (name, n) ∈ entries ∧ read n = .some v) reserve v' ↔ v' = v := by
  unfold Yaml.Document.fieldOr at h
  cases hfield : Yaml.Document.field? entries name with
  | none => simp [hfield] at h
  | some found =>
    cases found with
    | none =>
      obtain rfl : reserve = v := by simpa [hfield] using h
      exact prevails_of_unsaid (fun _ ⟨n, hmem, _⟩ => Yaml.Document.not_mem_of_field?_eq_none hfield n hmem) v'
    | some n =>
      have hread : read n = .some v := by simpa [hfield] using h
      refine prevails_of_said (fun u => ?_) v'
      simp only [Yaml.Document.mem_of_field?_eq_some hfield, exists_eq_left, hread, Option.some.injEq]
      exact eq_comm

end

/-! ## Reading -/

/-- The values that a text leaves to prevail where nothing takes their place. -/
structure Decoded (text : String) (c : Config) : Prop where
  org (v : String) : Prevails .none (Says text .top "org" Yaml.Document.text?) preset.org v ↔ v = c.org
  listen (v : String) : Prevails .none (Says text .top "listen" Yaml.Document.text?) preset.listen v ↔ v = c.listen
  apiUrl (v : String) :
    Prevails .none (Says text (.sect "upstream") "api_url" Yaml.Document.text?) preset.apiUrl v ↔ v = c.apiUrl
  userAgent (v : String) :
    Prevails .none (Says text (.sect "upstream") "user_agent" Yaml.Document.text?) preset.userAgent v ↔ v = c.userAgent
  cacheTtl (v : Nat) :
    Prevails .none (Says text (.sect "cache") "ttl" Yaml.Document.word?) preset.cacheTtl v ↔ v = c.cacheTtl
  cacheMaxSize (v : Nat) :
    Prevails .none (Says text (.sect "cache") "max_size" Yaml.Document.word?) preset.cacheMaxSize v ↔
      v = c.cacheMaxSize
  rejectClassicPats (v : Bool) :
    Prevails .none (Says text (.sect "auth") "reject_classic_pats" Yaml.Document.flag?) preset.rejectClassicPats v ↔
      v = c.rejectClassicPats
  requestTimeout (v : Nat) :
    Prevails .none (Says text (.sect "auth") "request_timeout" Yaml.Document.word?) preset.requestTimeout v ↔
      v = c.requestTimeout

section

variable {α : Type} {text : String} {d : Yaml.Document} {top : List (String × Yaml.Node)}
  {read : Yaml.Document → Yaml.Node → Option α} {name : String} {reserve v : α}

theorem says_iff (hblank : Text.isAllBlank text = false) (hparse : Yaml.Document.parse text.toList = .some d)
    (place : Place) : Says text place name read v ↔ ∃ n, Holds d place name n ∧ read d n = .some v := by
  simp only [Says, hblank, hparse, Option.some.injEq, true_and]
  constructor
  · rintro ⟨_, n, rfl, h⟩
    exact ⟨n, h⟩
  · rintro ⟨n, h⟩
    exact ⟨d, n, rfl, h⟩

/-- The entries of a section are those that it has in the document. -/
theorem holds_sect_iff {sect : String} {entries : List (String × Yaml.Node)} (htop : d.entries? d.root = .some top)
    (hsect : Yaml.Document.fieldOr top sect [] d.entries? = .some entries) {n : Yaml.Node} :
    Holds d (.sect sect) name n ↔ (name, n) ∈ entries := by
  simp only [Holds, htop, Option.some.injEq, exists_eq_left']
  unfold Yaml.Document.fieldOr at hsect
  cases hfield : Yaml.Document.field? top sect with
  | none => simp [hfield] at hsect
  | some found =>
    cases found with
    | none =>
      obtain rfl : [] = entries := by simpa [hfield] using hsect
      refine iff_of_false ?_ (List.not_mem_nil)
      rintro ⟨m, entries, hm, -⟩
      exact Yaml.Document.not_mem_of_field?_eq_none hfield m hm
    | some m =>
      have hentries : d.entries? m = .some entries := by simpa [hfield] using hsect
      simp only [Yaml.Document.mem_of_field?_eq_some hfield]
      constructor
      · rintro ⟨_, _, rfl, h, hn⟩
        obtain rfl := Option.some.inj (hentries.symm.trans h)
        exact hn
      · exact fun hn => ⟨m, entries, rfl, hentries, hn⟩

theorem prevails_top (hblank : Text.isAllBlank text = false) (hparse : Yaml.Document.parse text.toList = .some d)
    (htop : d.entries? d.root = .some top) (h : Yaml.Document.fieldOr top name reserve (read d) = .some v) (v' : α) :
    Prevails .none (Says text .top name read) reserve v' ↔ v' = v := by
  have hsaid : Says text .top name read = fun v => ∃ n, (name, n) ∈ top ∧ read d n = .some v := by
    funext u
    simp only [says_iff hblank hparse, Holds, htop, Option.some.injEq, exists_eq_left']
  rw [hsaid]
  exact prevails_fieldOr h v'

theorem prevails_sect {sect : String} {entries : List (String × Yaml.Node)} (hblank : Text.isAllBlank text = false)
    (hparse : Yaml.Document.parse text.toList = .some d) (htop : d.entries? d.root = .some top)
    (hsect : Yaml.Document.fieldOr top sect [] d.entries? = .some entries)
    (h : Yaml.Document.fieldOr entries name reserve (read d) = .some v) (v' : α) :
    Prevails .none (Says text (.sect sect) name read) reserve v' ↔ v' = v := by
  have hsaid : Says text (.sect sect) name read = fun v => ∃ n, (name, n) ∈ entries ∧ read d n = .some v := by
    funext u
    simp only [says_iff hblank hparse, holds_sect_iff htop hsect]
  rw [hsaid]
  exact prevails_fieldOr h v'

theorem prevails_of_isAllBlank (hblank : Text.isAllBlank text = true) (place : Place) (v' : α) :
    Prevails .none (Says text place name read) reserve v' ↔ v' = reserve :=
  prevails_of_unsaid (fun _ h => Bool.noConfusion (h.1.symm.trans hblank)) v'

end

theorem decoded_of_ofText? {text : String} {c : Config} (h : ofText? text = .some c) : Decoded text c := by
  unfold ofText? at h
  split at h
  next hblank =>
    cases h
    constructor <;> exact prevails_of_isAllBlank hblank _
  next hblank =>
    obtain ⟨d, hparse, h⟩ := Option.bind_eq_some_iff.1 h
    simp only [ofDocument?, Option.bind_eq_bind, Option.bind_eq_some_iff, Option.some.injEq] at h
    obtain ⟨top, htop, forge, hforge, cache, hcache, auth, hauth, org, horg, listen, hlisten, apiUrl, hapiUrl,
      userAgent, huserAgent, ttl, httl, maxSize, hmaxSize, reject, hreject, timeout, htimeout, rfl⟩ := h
    have htext := Bool.of_not_eq_true hblank
    exact
      { org := prevails_top htext hparse htop horg
        listen := prevails_top htext hparse htop hlisten
        apiUrl := prevails_sect htext hparse htop hforge hapiUrl
        userAgent := prevails_sect htext hparse htop hforge huserAgent
        cacheTtl := prevails_sect htext hparse htop hcache httl
        cacheMaxSize := prevails_sect htext hparse htop hcache hmaxSize
        rejectClassicPats := prevails_sect htext hparse htop hauth hreject
        requestTimeout := prevails_sect htext hparse htop hauth htimeout }

/-! ## Merging -/

theorem withoutSlashes_eq (url : String) :
    withoutSlashes url = String.ofList (url.toList.rdropWhile (· == '/')) := rfl

/-- What an address is without the slashes at its end. -/
theorem eq_withoutSlashes_iff {url u : String} :
    (∃ slashes, url.toList = u.toList ++ slashes ∧ (∀ x ∈ slashes, x = '/') ∧ u.toList.getLast? ≠ .some '/') ↔
      u = withoutSlashes url := by
  rw [withoutSlashes_eq]
  constructor
  · rintro ⟨slashes, hurl, hslashes, hlast⟩
    have hdrop : url.toList.rdropWhile (· == '/') = u.toList.rdropWhile (· == '/') := by
      rw [hurl, List.rdropWhile, List.reverse_append, List.dropWhile_append_of_pos, List.rdropWhile]
      exact fun x hx => beq_iff_eq.2 (hslashes x (List.mem_reverse.1 hx))
    have hself : u.toList.rdropWhile (· == '/') = u.toList :=
      List.rdropWhile_eq_self_iff.2 fun hne h => hlast (by rw [List.getLast?_eq_some_getLast hne, beq_iff_eq.1 h])
    rw [hdrop, hself, String.ofList_toList]
  · rintro rfl
    rw [String.toList_ofList]
    refine ⟨url.toList.rtakeWhile (· == '/'), (List.rdropWhile_append_rtakeWhile ..).symm, fun x hx => ?_, fun h => ?_⟩
    · exact beq_iff_eq.1 (List.mem_rtakeWhile_imp (p := (· == '/')) hx)
    · have hne : url.toList.rdropWhile (· == '/') ≠ [] := fun hnil => by rw [hnil] at h; cases h
      rw [List.getLast?_eq_some_getLast hne, Option.some.injEq] at h
      exact List.rdropWhile_last_not _ _ hne (beq_iff_eq.2 h)

theorem withoutSlashes_idempotent (url : String) : withoutSlashes (withoutSlashes url) = withoutSlashes url := by
  simp only [withoutSlashes_eq, String.toList_ofList, List.rdropWhile_idempotent]

theorem withEnvironment_eq (o : Overrides) (environment : Option String) :
    o.withEnvironment environment =
      { o with apiUrl := (environment.filter fun url => !Text.isAllBlank url).or o.apiUrl } := by
  cases environment with
  | none => rfl
  | some url => cases h : Text.isAllBlank url <;> simp [Overrides.withEnvironment, Option.filter, h]

/-- One configuration comes of a text that can be read. -/
theorem merged_iff {text : String} {d : Config} (h : ofText? text = .some d) (o : Overrides)
    (environment : Option String) (c : Config) :
    Merged text o environment c ↔ c = d.merge (o.withEnvironment environment) := by
  have hd := decoded_of_ofText? h
  rw [withEnvironment_eq]
  constructor
  · intro hc
    obtain ⟨url, slashes, hurl, hrest⟩ := hc.apiUrl
    have hapiUrl := eq_withoutSlashes_iff.1 ⟨slashes, hrest⟩
    rw [(prevails_getD hd.apiUrl _ _).1 hurl] at hapiUrl
    obtain ⟨org, listen, apiUrl, userAgent, cacheTtl, cacheMaxSize, rejectClassicPats, requestTimeout⟩ := c
    simp only [merge, mk.injEq]
    exact ⟨(prevails_getD hd.org _ _).1 hc.org, (prevails_getD hd.listen _ _).1 hc.listen, hapiUrl,
      (hd.userAgent _).1 hc.userAgent, (prevails_getD hd.cacheTtl _ _).1 hc.cacheTtl,
      (prevails_getD hd.cacheMaxSize _ _).1 hc.cacheMaxSize,
      (prevails_getD hd.rejectClassicPats _ _).1 hc.rejectClassicPats, (hd.requestTimeout _).1 hc.requestTimeout⟩
  · rintro rfl
    obtain ⟨slashes, hrest⟩ := eq_withoutSlashes_iff.2 (rfl : _ = withoutSlashes _)
    exact
      { org := (prevails_getD hd.org _ _).2 rfl
        listen := (prevails_getD hd.listen _ _).2 rfl
        apiUrl := ⟨_, slashes, (prevails_getD hd.apiUrl _ _).2 rfl, hrest⟩
        userAgent := (hd.userAgent _).2 rfl
        cacheTtl := (prevails_getD hd.cacheTtl _ _).2 rfl
        cacheMaxSize := (prevails_getD hd.cacheMaxSize _ _).2 rfl
        rejectClassicPats := (prevails_getD hd.rejectClassicPats _ _).2 rfl
        requestTimeout := (hd.requestTimeout _).2 rfl }

/-! ## Judging -/

theorem exists_toList_append_iff {start url : String} :
    start.toList.isPrefixOf url.toList = true ↔ ∃ rest, url = start ++ rest := by
  rw [List.isPrefixOf_iff_prefix]
  constructor
  · rintro ⟨rest, h⟩
    exact ⟨String.ofList rest, String.toList_injective (by rw [← h, String.toList_append, String.toList_ofList])⟩
  · rintro ⟨rest, rfl⟩
    exact ⟨rest.toList, (String.toList_append ..).symm⟩

/-- Without a fault means sound. -/
theorem fault?_eq_none_iff {c : Config} : c.fault? = .none ↔ Sound c := by
  have horg : (∃ x ∈ c.org.toList, Text.isBlank x = false) ↔ ¬ Text.isAllBlank c.org = true := by
    simp [Text.isAllBlank]
  have hlisten : (∃ address, Net.SocketAddress.parse c.listen = .some address) ↔
      ¬ (Net.SocketAddress.parse c.listen).isNone = true := by
    rw [← Option.isSome_iff_exists, Option.isNone_iff_eq_none, ← Option.ne_none_iff_isSome]
  have hapiUrl : (∃ rest, c.apiUrl = "http://" ++ rest ∨ c.apiUrl = "https://" ++ rest) ↔
      ¬ (!isWebUrl c.apiUrl) = true := by
    rw [isWebUrl, Bool.not_eq_true', Bool.not_eq_false, Bool.or_eq_true, exists_toList_append_iff,
      exists_toList_append_iff, exists_or]
  constructor
  · intro h
    unfold fault? at h
    split_ifs at h with h₁ h₂ h₃ h₄ h₅ h₆
    exact ⟨horg.2 h₁, hlisten.2 h₂, hapiUrl.2 h₃, Nat.le_of_not_lt h₄, Nat.pos_of_ne_zero h₅, Nat.pos_of_ne_zero h₆⟩
  · intro h
    have httl : ¬ maxCacheTtl < c.cacheTtl := Nat.not_lt.2 h.cacheTtl
    rw [fault?, if_neg (horg.1 h.org), if_neg (hlisten.1 h.listen), if_neg (hapiUrl.1 h.apiUrl), if_neg httl,
      if_neg h.cacheMaxSize.ne', if_neg h.requestTimeout.ne']

/-- What comes of a text depends on the merged values alone. -/
theorem parse_congr {text text' : String} {d d' : Config} {o o' : Overrides} (h : ofText? text = .some d)
    (h' : ofText? text' = .some d') (hmerge : d'.merge o' = d.merge o) : parse text' o' = parse text o := by
  simp only [parse, h, h', hmerge]

/-- Values that are put in place once more stay as they are, whether or not the address is taken from the environment
again. -/
theorem merge_asOverrides (d : Config) (o : Overrides) (environment : Option String) :
    d.merge ((d.merge (o.withEnvironment environment)).asOverrides.withEnvironment environment) =
      d.merge (o.withEnvironment environment) ∧
    d.merge (d.merge (o.withEnvironment environment)).asOverrides = d.merge (o.withEnvironment environment) := by
  simp only [withEnvironment_eq, merge, asOverrides, Option.getD_some, withoutSlashes_idempotent]
  cases environment.filter fun url => !Text.isAllBlank url with
  | none => simp [withoutSlashes_idempotent]
  | some url => simp

/-- **A configuration is merged value by value and judged as a whole.** One configuration comes of a text that can be
read, the overrides and the environment, and it is the one that is returned, if it is sound. Where the same
configuration comes of other sources, the result is the same, and so it is when the returned values take the place of
all that they can. -/
theorem parse_merged {text : String} (htext : (ofText? text).isSome) (o : Overrides) (environment : Option String) :
    ∃ m, (∀ c, Merged text o environment c ↔ c = m) ∧
      (∀ c, parse text (o.withEnvironment environment) = .ok c ↔ c = m ∧ Sound m) ∧
      (∀ text' o' environment', (ofText? text').isSome → Merged text' o' environment' m →
        parse text' (o'.withEnvironment environment') = parse text (o.withEnvironment environment)) ∧
      (Sound m → parse text (m.asOverrides.withEnvironment environment) = .ok m ∧
        parse text m.asOverrides = .ok m) := by
  obtain ⟨d, hd⟩ := Option.isSome_iff_exists.1 htext
  have hparse (c : Config) : parse text (o.withEnvironment environment) = .ok c ↔
      c = d.merge (o.withEnvironment environment) ∧ Sound (d.merge (o.withEnvironment environment)) := by
    simp only [parse_eq_ok_iff, hd, Option.some.injEq, exists_eq_left', fault?_eq_none_iff]
  refine ⟨_, merged_iff hd o environment, hparse, fun text' o' environment' htext' hmerged => ?_, fun hsound => ?_⟩
  · obtain ⟨d', hd'⟩ := Option.isSome_iff_exists.1 htext'
    exact parse_congr hd hd' ((merged_iff hd' o' environment' _).1 hmerged).symm
  · obtain ⟨hagain, halone⟩ := merge_asOverrides d o environment
    have hok := (hparse _).2 ⟨rfl, hsound⟩
    exact ⟨(parse_congr hd hd hagain).trans hok, (parse_congr hd hd halone).trans hok⟩

/-- A text whose organization is replaced, and whose address is replaced from the environment. Slashes at the end of the
address make no difference, unless nothing but a scheme is left of it. -/
theorem parse_merged_environment :
    let text := "org: file\nlisten: 127.0.0.1:9000\nupstream:\n  api_url: https://ghe.example.com/\ncache:\n  ttl: 0\n"
    let o : Overrides := { Overrides.none with org := .some "acme", apiUrl := .some "ftp://", cacheMaxSize := .some 7 }
    let c : Config := { preset with
      org := "acme", listen := "127.0.0.1:9000", apiUrl := "http://localhost:1", cacheTtl := 0, cacheMaxSize := 7 }
    (ofText? text).isSome ∧ Merged text o (.some "http://localhost:1//") c ∧ Sound c ∧
      parse text (o.withEnvironment (.some "http://localhost:1//")) = .ok c ∧
      parse text (c.asOverrides.withEnvironment (.some "http://localhost:1//")) = .ok c ∧
      parse text c.asOverrides = .ok c ∧
      parse text (o.withEnvironment (.some "http://")) = .error (.badApiUrl "http:") := by
  intro text o c
  have htext : (ofText? text).isSome := by decide +kernel
  obtain ⟨m, hmerged, hparse, -, hagain⟩ := parse_merged htext o (.some "http://localhost:1//")
  have hok : parse text (o.withEnvironment (.some "http://localhost:1//")) = .ok c := by decide +kernel
  obtain ⟨rfl, hsound⟩ := (hparse c).1 hok
  exact ⟨htext, (hmerged c).2 rfl, hsound, hok, (hagain hsound).1, (hagain hsound).2, by decide +kernel⟩

end Config

end TokenGate
