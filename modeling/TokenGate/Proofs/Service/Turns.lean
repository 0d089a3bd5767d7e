/-
What one event does to the service.

A validation has its turn when it begins and the cache knows nothing, or when it hears an answer. `StepCase` lists all
that a step can be, and `stepCase_step` says that there is nothing else: only at its turn is a validation put under way
or does it leave anything in the cache, and without a turn it is finished only with what the cache knows or because
it was given up.
-/
import TokenGate.Proofs.Cache.Order
import TokenGate.Service.Course

namespace TokenGate

/-! ## The cache -/

namespace Cache

theorem mem_entries_set {c : Cache} {now : Nat} {token : String} {o : Outcome} {x : Fingerprint × Entry}
    (h : x ∈ (c.set now token o).entries) :
    x ∈ c.entries ∨ x.1 = Fingerprint.ofToken token ∧ x.2.outcome = o ∧ x.2.expiresAt = now + c.ttl := by
  rw [set_eq] at h
  split at h
  next =>
    rw [put_entries, List.mem_cons] at h
    rcases h with rfl | h
    · exact .inr ⟨rfl, rfl, rfl⟩
    · exact .inl ((c.room_sublist _).subset h)
  next => exact .inl h

theorem get_entries (c : Cache) (now : Nat) (token : String) : (c.get now token).2.entries = c.entries := by
  obtain ⟨_, _, h⟩ := c.get_eq now token
  rw [h]

theorem get_ttl (c : Cache) (now : Nat) (token : String) : (c.get now token).2.ttl = c.ttl := by
  obtain ⟨_, _, h⟩ := c.get_eq now token
  rw [h]

/-- What is read is stored, and has not expired. -/
theorem exists_mem_of_get_eq_some {c : Cache} {now : Nat} {token : String} {o : Outcome}
    (h : (c.get now token).1 = .some o) :
    ∃ e, (Fingerprint.ofToken token, e) ∈ c.entries ∧ e.outcome = o ∧ now < e.expiresAt := by
  unfold get lookup at h
  split at h
  next => cases h
  next =>
    split at h
    next e he =>
      split at h
      next hlive =>
        obtain ⟨l, l', hl, -⟩ := List.lookup_eq_some_iff.1 he
        refine ⟨e, ?_, by simpa using h, by simpa [Entry.isLive] using hlive⟩
        rw [hl]
        exact List.mem_append_right _ (List.mem_cons_self ..)
      next => cases h
    next => cases h

end Cache

namespace Service

variable {Q : Type} {Answer : Q → Type}

/-! ## The pieces of a step -/

@[simp] theorem countQuestion_flights (p : Provider Answer) (s : Service Answer) (q : Q) :
    (countQuestion p s q).flights = s.flights := by
  unfold countQuestion; split <;> rfl

@[simp] theorem countQuestion_cache (p : Provider Answer) (s : Service Answer) (q : Q) :
    (countQuestion p s q).cache = s.cache := by
  unfold countQuestion; split <;> rfl

@[simp] theorem memorize_flights (s : Service Answer) (token : String) (memo : Option Outcome) :
    (s.memorize token memo).flights = s.flights := by
  unfold memorize; split <;> rfl

theorem mem_entries_memorize {s : Service Answer} {token : String} {memo : Option Outcome} {x : Fingerprint × Entry}
    (h : x ∈ (s.memorize token memo).cache.entries) :
    x ∈ s.cache.entries ∨ x.1 = Fingerprint.ofToken token ∧ memo = .some x.2.outcome ∧
      x.2.expiresAt = s.now + s.cache.ttl := by
  unfold memorize at h
  split at h
  next o =>
    rcases Cache.mem_entries_set h with h | ⟨hk, rfl, hexpires⟩
    · exact .inl h
    · exact .inr ⟨hk, rfl, hexpires⟩
  next => exact .inl h

section

variable {w : Wiring Answer} {s : Service Answer} {id id' : Nat} {token : String} {cancelAt : Option Nat}
  {x : Exchange Answer Resolution} {f : Flight Answer}

theorem mem_flights_proceed (h : (id, f) ∈ (s.proceed w id' token cancelAt x).1.flights) :
    (id, f) ∈ s.flights ∨
      id = id' ∧ f.token = token ∧ f.cancelAt = cancelAt ∧ x = .ask f.question f.resume := by
  cases x with
  | done r =>
    simp only [proceed, finish, memorize_flights] at h
    exact .inl h
  | ask q resume =>
    simp only [proceed, countQuestion_flights, List.mem_cons, Prod.mk.injEq] at h
    rcases h with ⟨rfl, rfl⟩ | h
    · exact .inr ⟨rfl, rfl, rfl, rfl⟩
    · exact .inl h

theorem mem_entries_proceed {y : Fingerprint × Entry}
    (h : y ∈ (s.proceed w id token cancelAt x).1.cache.entries) :
    y ∈ s.cache.entries ∨
      ∃ r, x = .done r ∧ r.memo = .some y.2.outcome ∧ y.1 = Fingerprint.ofToken token ∧
        y.2.expiresAt = s.now + s.cache.ttl := by
  cases x with
  | done r =>
    rcases mem_entries_memorize h with h | ⟨hk, hmemo, hexpires⟩
    · exact .inl h
    · exact .inr ⟨r, rfl, hmemo, hk, hexpires⟩
  | ask q resume =>
    simp only [proceed, countQuestion_cache] at h
    exact .inl h

theorem asked_proceed {q : Q} (h : .asked id q ∈ (s.proceed w id' token cancelAt x).2) :
    id = id' ∧ ∃ resume, x = .ask q resume := by
  cases x with
  | done r => simp [proceed, finish] at h
  | ask q' resume =>
    simp only [proceed, List.mem_singleton, Notice.asked.injEq] at h
    obtain ⟨rfl, rfl⟩ := h
    exact ⟨rfl, resume, rfl⟩

theorem finished_proceed {result : Except ValidationError Identity}
    (h : .finished id result ∈ (s.proceed w id' token cancelAt x).2) :
    id = id' ∧ ∃ r, x = .done r ∧ result = r.result := by
  cases x with
  | done r =>
    simp only [proceed, finish, List.mem_singleton, Notice.finished.injEq] at h
    exact ⟨h.1, r, rfl, h.2⟩
  | ask q resume => simp [proceed] at h

end

theorem mem_flights_land {s : Service Answer} {id : Nat} {x : Nat × Flight Answer} :
    x ∈ (s.land id).flights ↔ x ∈ s.flights ∧ x.1 ≠ id := by
  simp [land]

theorem mem_of_lookup_flights {s : Service Answer} {id : Nat} {f : Flight Answer}
    (h : s.flights.lookup id = .some f) : (id, f) ∈ s.flights := by
  obtain ⟨l, l', hl, -⟩ := List.lookup_eq_some_iff.1 h
  rw [hl]
  exact List.mem_append_right _ (List.mem_cons_self ..)

/-! ## Turns -/

/-- With the event `e`, the validation `id` of `token` has its turn and goes on with an exchange. -/
inductive Turn (w : Wiring Answer) (s : Service Answer) :
    Event Answer → Nat → String → Option Nat → Exchange Answer Resolution → Prop where
  | begin {id : Nat} {token : String} {cancelAt : Option Nat} :
      (s.cache.get s.now token).1 = .none → isGivenUp cancelAt s.now = false →
      Turn w s (.begin id token cancelAt) id token cancelAt (Validation.resolve w.provider w.policy token)
  | answer {id : Nat} {f : Flight Answer} {q : Q} {a : Answer q} (hq : q = f.question) :
      s.flights.lookup id = .some f → isGivenUp f.cancelAt s.now = false →
      Turn w s (.answer id q a) id f.token f.cancelAt (f.resume (hq ▸ a))

theorem Turn.unique {w : Wiring Answer} {s : Service Answer} {e : Event Answer} {id : Nat} {token token' : String}
    {cancelAt cancelAt' : Option Nat} {x x' : Exchange Answer Resolution} (h : Turn w s e id token cancelAt x)
    (h' : Turn w s e id token' cancelAt' x') : x = x' := by
  cases h with
  | begin => cases h'; rfl
  | answer hq hf =>
    cases h' with
    | answer hq' hf' =>
      rw [hf] at hf'
      cases hf'
      rfl

variable [DecidableEq Q]

/-- What a step can be: a validation has its turn, one is answered from the cache, one is found given up, or no
validation is concerned. -/
inductive StepCase (w : Wiring Answer) (s : Service Answer) (e : Event Answer) :
    Service Answer × List (Notice Q) → Prop where
  | turn {id : Nat} {token : String} {cancelAt : Option Nat} {x : Exchange Answer Resolution} {s' : Service Answer} :
      Turn w s e id token cancelAt x → s'.now = s.now ∧ s'.cache.ttl = s.cache.ttl →
      s'.cache.entries = s.cache.entries → (∀ y ∈ s'.flights, y ∈ s.flights ∧ s.heard? y.1 e = .none) →
      StepCase w s e (s'.proceed w id token cancelAt x)
  | hit {id : Nat} {token : String} {cancelAt : Option Nat} {o : Outcome} {s' : Service Answer} :
      e = .begin id token cancelAt → (s.cache.get s.now token).1 = .some o → s'.cache.entries = s.cache.entries →
      s'.flights = s.flights → StepCase w s e (s', [.finished id o.result])
  | givenUpAtOnce {id : Nat} {token : String} {cancelAt : Option Nat} {s' : Service Answer} :
      e = .begin id token cancelAt → isGivenUp cancelAt s.now = true → s'.cache.entries = s.cache.entries →
      s'.flights = s.flights → StepCase w s e (s', [.finished id (.error .cancelled)])
  | givenUp {id : Nat} {f : Flight Answer} {s' : Service Answer} :
      (id, f) ∈ s.flights → (e = .cancel id ∨ isGivenUp f.cancelAt s.now = true) →
      s'.cache.entries = s.cache.entries → (∀ f', (id, f') ∉ s'.flights) →
      (∀ y ∈ s'.flights, y ∈ s.flights ∧ s.heard? y.1 e = .none) →
      StepCase w s e (s', [.finished id (.error .cancelled)])
  | quiet {s' : Service Answer} :
      s'.cache.entries.Sublist s.cache.entries → s'.flights = s.flights → (∀ id, s.heard? id e = .none) →
      StepCase w s e (s', [])
  | remember {token : String} {o : Outcome} {s' : Service Answer} :
      e = .remember token o → s'.flights = s.flights → StepCase w s e (s', [])

theorem stepCase_step (w : Wiring Answer) (s : Service Answer) (e : Event Answer) : StepCase w s e (s.step w e) := by
  have landed : ∀ {id' : Nat} {f' : Flight Answer}, (id', f') ∉ (s.land id').flights := fun h =>
    (mem_flights_land.1 h).2 rfl
  have unheard : ∀ {id' : Nat} {q : Q} {a : Answer q} {y : Nat}, y ≠ id' → s.heard? y (.answer id' q a) = .none := by
    intro id' q a y hne
    simp only [heard?]
    split
    next => rw [if_neg fun h => hne h.1.symm]
    next => rfl
  cases e with
  | begin id token cancelAt =>
    have hentries := s.cache.get_entries s.now token
    have httl := s.cache.get_ttl s.now token
    simp only [step, begin]
    split
    next o cache heq =>
      rw [heq] at hentries
      exact .hit rfl (by rw [heq]) hentries rfl
    next cache heq =>
      rw [heq] at hentries httl
      split
      next hgiven => exact .givenUpAtOnce rfl hgiven hentries rfl
      next hgiven =>
        exact .turn (.begin (by rw [heq]) (by simpa using hgiven)) ⟨rfl, httl⟩ hentries fun y hy => ⟨hy, rfl⟩
  | answer id q a =>
    simp only [step, answer]
    split
    next f hf =>
      have hland : ∀ y ∈ (s.land id).flights, y ∈ s.flights ∧ s.heard? y.1 (.answer id q a) = .none := fun y hy =>
        have hy := mem_flights_land.1 hy
        ⟨hy.1, unheard hy.2⟩
      split
      next hq =>
        subst hq
        split
        next hgiven => exact .givenUp (mem_of_lookup_flights hf) (.inr hgiven) rfl (fun _ => landed) hland
        next hgiven => exact .turn (.answer rfl hf (by simpa using hgiven)) ⟨rfl, rfl⟩ rfl hland
      next hq => exact .quiet (.refl _) rfl fun y => by simp [heard?, hf, hq]
    next hf => exact .quiet (.refl _) rfl fun y => by simp [heard?, hf]
  | cancel id =>
    simp only [step, cancel]
    split
    next f hf =>
      exact .givenUp (mem_of_lookup_flights hf) (.inl rfl) rfl (fun _ => landed) fun y hy =>
        ⟨(mem_flights_land.1 hy).1, rfl⟩
    next => exact .quiet (.refl _) rfl fun _ => rfl
  | remember token o => exact .remember rfl rfl
  | pass d => exact .quiet (Cache.tended_await ..).entries_sublist rfl fun _ => rfl
  | settle => exact .quiet (Cache.tended_flow ..).entries_sublist rfl fun _ => rfl
  | jump d => exact .quiet (Cache.tended_jump ..).entries_sublist rfl fun _ => rfl
  | tick => exact .quiet (Cache.tended_tick ..).entries_sublist rfl fun _ => rfl
  | lookUp token => exact .quiet (by simp only [Cache.get_entries, List.Sublist.refl]) rfl fun _ => rfl
  | forget token => exact .quiet (Cache.without_sublist ..) rfl fun _ => rfl
  | stall d | report hs | stop => exact .quiet (.refl _) rfl fun _ => rfl

/-! ## What follows from a step -/

section

variable {w : Wiring Answer} {s : Service Answer} {e : Event Answer}

/-- A validation is under way because it was before, or because it has just had its turn. -/
theorem mem_flights_step {id : Nat} {f : Flight Answer} (h : (id, f) ∈ (s.step w e).1.flights) :
    (id, f) ∈ s.flights ∧ s.heard? id e = .none ∨ Turn w s e id f.token f.cancelAt (.ask f.question f.resume) := by
  have hcase := stepCase_step w s e
  generalize s.step w e = p at h hcase
  cases hcase with
  | turn hturn _ _ hkept =>
    rcases mem_flights_proceed h with h | ⟨rfl, rfl, rfl, rfl⟩
    · exact .inl (hkept _ h)
    · exact .inr hturn
  | hit he _ _ hflights => exact .inl ⟨hflights ▸ h, by rw [he]; rfl⟩
  | givenUpAtOnce he _ _ hflights => exact .inl ⟨hflights ▸ h, by rw [he]; rfl⟩
  | givenUp _ _ _ _ hkept => exact .inl (hkept _ h)
  | quiet _ hflights hheard => exact .inl ⟨hflights ▸ h, hheard id⟩
  | remember he hflights => exact .inl ⟨hflights ▸ h, by rw [he]; rfl⟩

/-- An entry is there because it was before, because a validation has just been resolved, or because it was written
past the validations. -/
theorem mem_entries_step {y : Fingerprint × Entry} (h : y ∈ (s.step w e).1.cache.entries) :
    y ∈ s.cache.entries ∨
      (∃ id token cancelAt r, Turn w s e id token cancelAt (.done r) ∧ r.memo = .some y.2.outcome ∧
        y.1 = Fingerprint.ofToken token ∧ y.2.expiresAt = s.now + s.cache.ttl) ∨
      ∃ token o, e = .remember token o := by
  have hcase := stepCase_step w s e
  generalize s.step w e = p at h hcase
  cases hcase with
  | turn hturn hsame hentries _ =>
    rcases mem_entries_proceed h with h | ⟨r, rfl, hmemo, hk, hexpires⟩
    · exact .inl (hentries ▸ h)
    · rw [hsame.1, hsame.2] at hexpires
      exact .inr (.inl ⟨_, _, _, r, hturn, hmemo, hk, hexpires⟩)
  | hit _ _ hentries _ => exact .inl (hentries ▸ h)
  | givenUpAtOnce _ _ hentries _ => exact .inl (hentries ▸ h)
  | givenUp _ _ hentries _ _ => exact .inl (hentries ▸ h)
  | quiet hentries _ _ => exact .inl (hentries.subset h)
  | remember he _ => exact .inr (.inr ⟨_, _, he⟩)

/-- A validation asks only at its turn. -/
theorem asked_step {id : Nat} {q : Q} (h : .asked id q ∈ (s.step w e).2) :
    ∃ token cancelAt resume, Turn w s e id token cancelAt (.ask q resume) := by
  have hcase := stepCase_step w s e
  generalize s.step w e = p at h hcase
  cases hcase with
  | turn hturn _ _ _ =>
    obtain ⟨rfl, resume, rfl⟩ := asked_proceed h
    exact ⟨_, _, resume, hturn⟩
  | hit | givenUpAtOnce | givenUp => cases List.mem_singleton.1 h
  | quiet | remember => cases h

/-- A validation is finished with what the cache knows, because it was given up, or as it has just been resolved. -/
theorem finished_step {id : Nat} {result : Except ValidationError Identity}
    (h : .finished id result ∈ (s.step w e).2) :
    (∃ token cancelAt o, e = .begin id token cancelAt ∧ (s.cache.get s.now token).1 = .some o ∧ result = o.result) ∨
      (result = .error .cancelled ∧
        ((∃ token cancelAt, e = .begin id token cancelAt ∧ isGivenUp cancelAt s.now = true) ∨
          ∃ f, (id, f) ∈ s.flights ∧ (e = .cancel id ∨ isGivenUp f.cancelAt s.now = true))) ∨
      ∃ token cancelAt r, Turn w s e id token cancelAt (.done r) ∧ result = r.result := by
  have hcase := stepCase_step w s e
  generalize s.step w e = p at h hcase
  cases hcase with
  | turn hturn _ _ _ =>
    obtain ⟨rfl, r, rfl, hresult⟩ := finished_proceed h
    exact .inr (.inr ⟨_, _, r, hturn, hresult⟩)
  | hit he hget _ _ =>
    obtain ⟨rfl, rfl⟩ := Notice.finished.inj (List.mem_singleton.1 h)
    exact .inl ⟨_, _, _, he, hget, rfl⟩
  | givenUpAtOnce he hgiven _ _ =>
    obtain ⟨rfl, rfl⟩ := Notice.finished.inj (List.mem_singleton.1 h)
    exact .inr (.inl ⟨rfl, .inl ⟨_, _, he, hgiven⟩⟩)
  | givenUp hf hgiven _ _ _ =>
    obtain ⟨rfl, rfl⟩ := Notice.finished.inj (List.mem_singleton.1 h)
    exact .inr (.inl ⟨rfl, .inr ⟨_, hf, hgiven⟩⟩)
  | quiet | remember => cases h

omit [DecidableEq Q] in
theorem underway_proceed {id id' : Nat} {token : String} {cancelAt : Option Nat} {x : Exchange Answer Resolution}
    (h : id = id' ∨ ∃ f, (id, f) ∈ s.flights)
    (hunfinished : ∀ result, .finished id result ∉ (s.proceed w id' token cancelAt x).2) :
    ∃ f, (id, f) ∈ (s.proceed w id' token cancelAt x).1.flights := by
  cases x with
  | done r =>
    rcases h with rfl | ⟨f, hf⟩
    · exact absurd (List.mem_singleton_self _) (hunfinished r.result)
    · exact ⟨f, by simpa [proceed, finish] using hf⟩
  | ask q resume =>
    rcases h with rfl | ⟨f, hf⟩
    · exact ⟨_, List.mem_cons_self ..⟩
    · exact ⟨f, List.mem_cons_of_mem _ (by simpa using hf)⟩

/-- A validation is under way from its beginning until it is finished. -/
theorem underway_step {id : Nat} (h : (∃ token cancelAt, e = .begin id token cancelAt) ∨ ∃ f, (id, f) ∈ s.flights)
    (hunfinished : ∀ result, .finished id result ∉ (s.step w e).2) :
    ∃ f, (id, f) ∈ (s.step w e).1.flights := by
  have hothers {id' : Nat} (hne : id ≠ id') (h : ∃ f, (id, f) ∈ s.flights) : ∃ f, (id, f) ∈ (s.land id').flights :=
    h.imp fun f hf => mem_flights_land.2 ⟨hf, hne⟩
  cases e with
  | begin id' token cancelAt =>
    have hsame : id = id' ∨ ∃ f, (id, f) ∈ s.flights :=
      h.imp_left fun ⟨_, _, he⟩ => (Event.begin.inj he).1.symm
    simp only [step, begin] at hunfinished ⊢
    split at hunfinished
    next o cache _ =>
      refine hsame.resolve_left fun heq => ?_
      subst heq
      exact hunfinished _ (List.mem_singleton_self _)
    next cache _ =>
      split at hunfinished
      next hgiven =>
        rw [if_pos hgiven]
        refine hsame.resolve_left fun heq => ?_
        subst heq
        exact hunfinished _ (List.mem_singleton_self _)
      next hgiven =>
        rw [if_neg hgiven]
        exact underway_proceed (s := { s with cache := cache }) hsame hunfinished
  | answer id' q a =>
    have h : ∃ f, (id, f) ∈ s.flights := h.resolve_left fun ⟨_, _, he⟩ => by cases he
    simp only [step, answer] at hunfinished ⊢
    split at hunfinished
    next f _ =>
      split at hunfinished
      next hq =>
        split at hunfinished
        next hgiven =>
          rw [dif_pos hq, if_pos hgiven]
          exact hothers (fun heq => hunfinished _ (by rw [heq]; exact List.mem_singleton_self _)) h
        next hgiven =>
          rw [dif_pos hq, if_neg hgiven]
          by_cases heq : id = id'
          · exact underway_proceed (.inl heq) hunfinished
          · exact underway_proceed (s := (s.land id').observe _) (.inr (hothers heq h)) hunfinished
      next hq => rw [dif_neg hq]; exact h
    next => exact h
  | cancel id' =>
    have h : ∃ f, (id, f) ∈ s.flights := h.resolve_left fun ⟨_, _, he⟩ => by cases he
    simp only [step, cancel] at hunfinished ⊢
    split at hunfinished
    next => exact hothers (fun heq => hunfinished _ (by rw [heq]; exact List.mem_singleton_self _)) h
    next => exact h
  | _ => exact h.resolve_left fun ⟨_, _, he⟩ => by cases he

end

end Service

end TokenGate
