/-
Where the entries of the cache come from.

In an orderly course of events, each validation under way has got as far as the answers that it has heard itself lead
(`Accounted.flights`), and each entry was left behind by a validation that is over, on account of the answers that this
one heard (`Accounted.entries`). `Accounted` holds at the start, and every event keeps it (`Accounted.step`), because a
validation goes on only with an answer that it hears (`Accounted.turn`). So whatever the provider replies from call to
call, and in whatever order validations come and go, no entry mixes what two of them heard (`entries_backed`).
-/
import TokenGate.Proofs.Resolution
import TokenGate.Proofs.Service.Turns
import Mathlib.Data.List.Induction

namespace TokenGate

variable {Q : Type} {Answer : Q → Type}

namespace Event

theorem mem_begun {events : List (Event Answer)} {id : Nat} {token : String} {cancelAt : Option Nat}
    (h : .begin id token cancelAt ∈ events) : (id, token) ∈ begun events :=
  List.mem_filterMap.2 ⟨_, h, rfl⟩

theorem begun_append (l l' : List (Event Answer)) : begun (l ++ l') = begun l ++ begun l' :=
  List.filterMap_append

theorem Orderly.of_append {l l' : List (Event Answer)} (h : Orderly (l ++ l')) : Orderly l where
  ids := by
    have hids := h.ids
    rw [begun_append, List.map_append, List.nodup_append] at hids
    exact hids.1
  writes token o hm := h.writes token o (List.mem_append_left _ hm)

/-- An id under which a validation begins is not given to another. -/
theorem Orderly.notMem_of_begin {l l' : List (Event Answer)} {id : Nat} {token : String} {cancelAt : Option Nat}
    (h : Orderly (l ++ .begin id token cancelAt :: l')) (token' : String) (cancelAt' : Option Nat) :
    .begin id token' cancelAt' ∉ l ∧ .begin id token' cancelAt' ∉ l' := by
  have hids := h.ids
  rw [begun_append] at hids
  change ((begun l ++ (id, token) :: begun l').map Prod.fst).Nodup at hids
  rw [List.map_append, List.map_cons, List.nodup_middle, ← List.map_append, ← begun_append] at hids
  have hnot : .begin id token' cancelAt' ∉ l ++ l' := by
    intro hm
    have hid : id ∈ (begun (l ++ l')).map Prod.fst := List.mem_map.2 ⟨_, mem_begun hm, rfl⟩
    exact (List.nodup_cons.1 hids).1 hid
  exact ⟨fun hm => hnot (List.mem_append_left _ hm), fun hm => hnot (List.mem_append_right _ hm)⟩

/-- A validation has one token and one caller. -/
theorem Orderly.begin_unique {events : List (Event Answer)} (ho : Orderly events) {id : Nat}
    {token token' : String} {cancelAt cancelAt' : Option Nat} (h : .begin id token cancelAt ∈ events)
    (h' : .begin id token' cancelAt' ∈ events) : token = token' ∧ cancelAt = cancelAt' := by
  obtain ⟨l, l', rfl⟩ := List.append_of_mem h
  obtain ⟨hl, hl'⟩ := ho.notMem_of_begin token' cancelAt'
  rw [List.mem_append, List.mem_cons] at h'
  rcases h' with h' | h' | h'
  · exact absurd h' hl
  · obtain ⟨-, rfl, rfl⟩ := Event.begin.inj h'
    exact ⟨rfl, rfl⟩
  · exact absurd h' hl'

end Event

namespace Service

deriving instance DecidableEq for Notice

open Event

variable [DecidableEq Q] {w : Wiring Answer}

/-- What a validation hears was answered to it. -/
theorem answer_mem_of_mem_heard {s : Service Answer} {id : Nat} {events : List (Event Answer)} {x : Answered Answer}
    (h : x ∈ s.heard w id events) : .answer id x.1 x.2 ∈ events := by
  induction events generalizing s with
  | nil => simp [heard] at h
  | cons e events ih =>
    rw [heard, List.mem_append] at h
    rcases h with h | h
    · rw [Option.mem_toList] at h
      cases e with
      | answer id' q a =>
        simp only [heard?] at h
        split at h
        next =>
          split at h
          next hcond =>
            cases h
            rw [hcond.1]
            exact List.mem_cons_self ..
          next => cases h
        next => cases h
      | _ => cases h
    · exact List.mem_cons_of_mem _ (ih h)

/-- Nothing is heard by a validation that is not under way. -/
theorem heard?_eq_none {s : Service Answer} {id : Nat} (h : ∀ f, (id, f) ∉ s.flights) (e : Event Answer) :
    s.heard? id e = .none := by
  cases e with
  | answer id' q a =>
    simp only [heard?]
    split
    next f hf =>
      refine if_neg ?_
      rintro ⟨rfl, -, -⟩
      exact h f (mem_of_lookup_flights hf)
    next => rfl
  | _ => rfl

/-- A validation that has its turn begins, or it is under way and hears something. -/
theorem Turn.begins_or_hears {s : Service Answer} {e : Event Answer} {id : Nat} {token : String}
    {cancelAt : Option Nat} {x : Exchange Answer Resolution} (h : Turn w s e id token cancelAt x) :
    e = .begin id token cancelAt ∨ (∃ f, (id, f) ∈ s.flights ∧ f.token = token) ∧ s.heard? id e ≠ .none := by
  cases h with
  | begin => exact .inl rfl
  | answer hq hf hgiven => exact .inr ⟨⟨_, mem_of_lookup_flights hf, rfl⟩, by simp [heard?, hq, hf, hgiven]⟩

/-- A validation that is finished is under way no longer, unless one under its id was when it began. -/
theorem begins_of_finished {s : Service Answer} {e : Event Answer} {id : Nat} {f : Flight Answer}
    {result : Except ValidationError Identity} (h : .finished id result ∈ (s.step w e).2)
    (hf : (id, f) ∈ (s.step w e).1.flights) :
    (∃ token cancelAt, e = .begin id token cancelAt) ∧ (id, f) ∈ s.flights := by
  have hcase := stepCase_step w s e
  generalize s.step w e = p at h hf hcase
  cases hcase with
  | turn hturn _ _ hkept =>
    obtain ⟨rfl, r, rfl, -⟩ := finished_proceed h
    simp only [proceed, finish, memorize_flights] at hf
    obtain ⟨hold, hnone⟩ := hkept _ hf
    rcases hturn.begins_or_hears with rfl | ⟨-, hsome⟩
    · exact ⟨⟨_, _, rfl⟩, hold⟩
    · exact absurd hnone hsome
  | hit he _ _ hflights =>
    obtain ⟨rfl, -⟩ := Notice.finished.inj (List.mem_singleton.1 h)
    exact ⟨⟨_, _, he⟩, hflights ▸ hf⟩
  | givenUpAtOnce he _ _ hflights =>
    obtain ⟨rfl, -⟩ := Notice.finished.inj (List.mem_singleton.1 h)
    exact ⟨⟨_, _, he⟩, hflights ▸ hf⟩
  | givenUp _ _ _ hover _ =>
    obtain ⟨rfl, -⟩ := Notice.finished.inj (List.mem_singleton.1 h)
    exact absurd hf (hover f)
  | quiet | remember => cases h

/-- All that validations do and leave behind is accounted for by what each of them has heard. -/
structure Accounted (w : Wiring Answer) (s₀ : Service Answer) (events : List (Event Answer)) : Prop where
  flights : ∀ id f, (id, f) ∈ (s₀.run w events).flights →
    .begin id f.token f.cancelAt ∈ events ∧
      (Validation.resolve w.provider w.policy f.token).Leads (s₀.heard w id events) (.ask f.question f.resume)
  entries : ∀ y ∈ (s₀.run w events).cache.entries,
    ∃ id token cancelAt r, .begin id token cancelAt ∈ events ∧ y.1 = Fingerprint.ofToken token ∧
      r.memo = .some y.2.outcome ∧
      (Validation.resolve w.provider w.policy token).Yields (s₀.heard w id events) r ∧
      ∀ f, (id, f) ∉ (s₀.run w events).flights
  unheard : ∀ id, (∀ token cancelAt, .begin id token cancelAt ∉ events) → s₀.heard w id events = []

section

variable {s₀ : Service Answer} {past : List (Event Answer)} {e : Event Answer}

theorem Accounted.start {ttl maxSize : Nat} : Accounted w (Service.start ttl maxSize) [] where
  flights id f h := by cases h
  entries y h := by cases h
  unheard id h := rfl

/-- A validation at its turn goes on as the answers lead that it has heard, the last one included. -/
theorem Accounted.turn (h : Accounted w s₀ past) (ho : Orderly (past ++ [e])) {id : Nat} {token : String}
    {cancelAt : Option Nat} {x : Exchange Answer Resolution} (hturn : Turn w (s₀.run w past) e id token cancelAt x) :
    .begin id token cancelAt ∈ past ++ [e] ∧
      (Validation.resolve w.provider w.policy token).Leads (s₀.heard w id (past ++ [e])) x := by
  rw [heard_concat]
  cases hturn with
  | begin =>
    refine ⟨by simp, ?_⟩
    rw [h.unheard id fun token cancelAt => (ho.notMem_of_begin token cancelAt).1]
    exact .nil
  | @answer _ f q a hq hf hgiven =>
    obtain ⟨hbegin, hleads⟩ := h.flights id f (mem_of_lookup_flights hf)
    refine ⟨List.mem_append_left _ hbegin, ?_⟩
    subst hq
    simp only [heard?, hf, hgiven, and_self, if_true, Option.toList_some]
    exact hleads.snoc a

/-- A validation that has its turn is none of those that are over. -/
theorem Accounted.ne_of_turn (ho : Orderly (past ++ [e])) {id id' : Nat} {token token' : String}
    {cancelAt cancelAt' : Option Nat} {x : Exchange Answer Resolution}
    (hturn : Turn w (s₀.run w past) e id token cancelAt x) (hbegin : .begin id' token' cancelAt' ∈ past)
    (hover : ∀ f, (id', f) ∉ (s₀.run w past).flights) : id ≠ id' := by
  rintro rfl
  rcases hturn.begins_or_hears with rfl | ⟨⟨f, hf, -⟩, -⟩
  · exact (ho.notMem_of_begin _ _).1 hbegin
  · exact hover f hf

/-- A validation that has just been resolved is over. -/
theorem Accounted.over_of_done (h : Accounted w s₀ past) (ho : Orderly (past ++ [e])) {id : Nat} {token : String}
    {cancelAt : Option Nat} {r : Resolution} (hturn : Turn w (s₀.run w past) e id token cancelAt (.done r))
    (f : Flight Answer) : (id, f) ∉ ((s₀.run w past).step w e).1.flights := by
  intro hf
  rcases mem_flights_step hf with ⟨hold, hnone⟩ | hask
  · rcases hturn.begins_or_hears with rfl | ⟨-, hsome⟩
    · exact (ho.notMem_of_begin _ _).1 (h.flights id f hold).1
    · exact hsome hnone
  · cases hturn.unique hask

theorem Accounted.step (h : Accounted w s₀ past) (ho : Orderly (past ++ [e])) : Accounted w s₀ (past ++ [e]) where
  flights id f hf := by
    rw [run_concat] at hf
    rcases mem_flights_step hf with ⟨hf, hnone⟩ | hturn
    · obtain ⟨hbegin, hleads⟩ := h.flights id f hf
      rw [heard_concat, hnone, Option.toList_none, List.append_nil]
      exact ⟨List.mem_append_left _ hbegin, hleads⟩
    · exact h.turn ho hturn
  entries y hy := by
    rw [run_concat] at hy ⊢
    rcases mem_entries_step hy with hy | ⟨id, token, cancelAt, r, hturn, hmemo, hk, -⟩ | ⟨token, o, he⟩
    · obtain ⟨id, token, cancelAt, r, hbegin, hk, hmemo, hyields, hover⟩ := h.entries y hy
      -- The validation that left it is over, so it hears nothing more, and its id does not come up again.
      refine ⟨id, token, cancelAt, r, List.mem_append_left _ hbegin, hk, hmemo, ?_, fun f hf => ?_⟩
      · rwa [heard_concat, heard?_eq_none hover, Option.toList_none, List.append_nil]
      · rcases mem_flights_step hf with ⟨hf, -⟩ | hturn
        · exact hover f hf
        · exact ne_of_turn ho hturn hbegin hover rfl
    · obtain ⟨hbegin, hleads⟩ := h.turn ho hturn
      exact ⟨id, token, cancelAt, r, hbegin, hk, hmemo, hleads, h.over_of_done ho hturn⟩
    · exact absurd (he ▸ List.mem_append_right past (List.mem_singleton_self e)) (ho.writes token o)
  unheard id hid := by
    have hpast : ∀ token cancelAt, .begin id token cancelAt ∉ past := fun token cancelAt hm =>
      hid token cancelAt (List.mem_append_left _ hm)
    have hover : ∀ f, (id, f) ∉ (s₀.run w past).flights := fun f hf => hpast _ _ (h.flights id f hf).1
    rw [heard_concat, h.unheard id hpast, heard?_eq_none hover]
    rfl

end

theorem accounted_of_orderly {ttl maxSize : Nat} {events : List (Event Answer)} (ho : Orderly events) :
    Accounted w (start ttl maxSize) events := by
  induction events using List.reverseRecOn with
  | nil => exact .start
  | append_singleton past e ih => exact (ih ho.of_append).step ho

/-- A validation is finished with what the cache knows, because it was given up, or as the answers resolve it that it
has heard. -/
theorem finished_cases {ttl maxSize : Nat} {past : List (Event Answer)} {e : Event Answer}
    (ho : Orderly (past ++ [e])) {id : Nat} {token : String} {cancelAt : Option Nat}
    (hbegin : .begin id token cancelAt ∈ past ++ [e]) {result : Except ValidationError Identity}
    (hfinished : .finished id result ∈ (((start ttl maxSize).run w past).step w e).2) :
    (∃ o, e = .begin id token cancelAt ∧ result = o.result ∧
        (((start ttl maxSize).run w past).cache.get ((start ttl maxSize).run w past).now token).1 = .some o) ∨
      (result = .error .cancelled ∧ GivenUp (past ++ [e]) ((start ttl maxSize).run w past) id cancelAt) ∨
      ∃ r, (Validation.resolve w.provider w.policy token).Yields ((start ttl maxSize).heard w id (past ++ [e])) r ∧
        result = r.result := by
  have h : Accounted w (start ttl maxSize) past := accounted_of_orderly ho.of_append
  have hlast : e ∈ past ++ [e] := List.mem_append_right past (List.mem_singleton_self e)
  rcases finished_step hfinished with ⟨_, _, o, rfl, hget, rfl⟩ | ⟨rfl, hgiven⟩ | ⟨_, _, r, hturn, rfl⟩
  · obtain ⟨rfl, rfl⟩ := ho.begin_unique hbegin hlast
    exact .inl ⟨o, rfl, rfl, hget⟩
  · refine .inr (.inl ⟨rfl, ?_⟩)
    rcases hgiven with ⟨_, _, rfl, hgiven⟩ | ⟨f, hf, rfl | hgiven⟩
    · obtain ⟨rfl, rfl⟩ := ho.begin_unique hbegin hlast
      exact .inr hgiven
    · exact .inl hlast
    · obtain ⟨-, rfl⟩ := ho.begin_unique hbegin (List.mem_append_left _ (h.flights id f hf).1)
      exact .inr hgiven
  · obtain ⟨hbegin', hleads⟩ := h.turn ho hturn
    obtain ⟨rfl, -⟩ := ho.begin_unique hbegin hbegin'
    exact .inr (.inr ⟨r, hleads, rfl⟩)

/-- **The cache is not poisoned.** Start with an empty cache and let anything happen: validations begin, are answered
and are given up in any order, whatever the provider replies from call to call, while time passes, sweeps come, and
entries are evicted and deleted. As long as only validations write, every entry under the fingerprint of a token was
left behind by one validation of that token, on account of the answers that this validation heard itself. (To the
cache, tokens of one fingerprint are one token.) -/
theorem entries_backed {ttl maxSize : Nat} {events : List (Event Answer)} (ho : Orderly events) {token : String}
    {e : Entry} (he : (Fingerprint.ofToken token, e) ∈ ((start ttl maxSize).run w events).cache.entries) :
    ∃ id token' cancelAt, Fingerprint.ofToken token' = Fingerprint.ofToken token ∧
      .begin id token' cancelAt ∈ events ∧
      Validation.Backs w.provider w.policy token' ((start ttl maxSize).heard w id events) e.outcome := by
  obtain ⟨id, token', cancelAt, r, hbegin, hk, hmemo, hyields, -⟩ := (accounted_of_orderly ho).entries _ he
  exact ⟨id, token', cancelAt, hk.symm, hbegin, (Validation.resolved_of_yields hyields).backs hmemo⟩

/-- Of two validations of one token that overlap, one is given up, and the other leaves behind what it has heard. -/
theorem entries_backed_overlapping :
    let w : Wiring Call.Reply := ⟨.direct, ⟨"acme", true⟩⟩
    let alice : Owner := ⟨⟨"alice", 42, .none⟩, false⟩
    let bob : Owner := ⟨⟨"bob", 7, .none⟩, false⟩
    let teams : List Team := [⟨"sre", "ACME"⟩, ⟨"ops", "other"⟩]
    let events : List (Event Call.Reply) :=
      [.begin 1 "token" .none, .begin 2 "token" (.some 5), .answer 2 (.whoAmI "token") (.ok bob),
       .answer 1 (.whoAmI "token") (.ok alice), .pass 7, .answer 1 (.checkMembership "token" "acme" "alice") (.ok ()),
       .answer 2 (.checkMembership "token" "acme" "bob") (.ok ()), .answer 1 (.listGroups "token" "acme") (.ok teams)]
    let e : Entry := ⟨.authorized ⟨"alice", 42, .none, "acme", ["sre"]⟩, 17, 0⟩
    Orderly events ∧ (Fingerprint.ofToken "token", e) ∈ ((start 10 2).run w events).cache.entries ∧
      ∃ id token' cancelAt, Fingerprint.ofToken token' = Fingerprint.ofToken "token" ∧
        .begin id token' cancelAt ∈ events ∧
        Validation.Backs w.provider w.policy token' ((start 10 2).heard w id events) e.outcome := by
  intro w alice bob teams events e
  have ho : Orderly events := ⟨by decide, by intro token o h; simp [events] at h⟩
  have he : (Fingerprint.ofToken "token", e) ∈ ((start 10 2).run w events).cache.entries := by decide +kernel
  exact ⟨ho, he, entries_backed ho he⟩

end Service

end TokenGate
