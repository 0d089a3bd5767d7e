/-
What a read tells about the writes before it.

A cache gives an outcome for a token exactly as long as its last write is remembered: what it gives was written last
and less than one lifetime ago (`written_of_mem_after`), and what was written last stays for its lifetime unless as
many other tokens as there is room for were written since (`Held.after`). `get_lastWrite` says both of any history.

The second part follows one entry through the history. `Held` says that it is there and that all entries in front of
it are later writes of other tokens. It can only be evicted when it stands last in a full cache, and then those later
writes alone fill the cache.
-/
import TokenGate.Proofs.Cache.Order
import Mathlib.Data.Finset.Card
import Mathlib.Data.List.Induction

namespace TokenGate.Cache

/-- A read finds the entry of its token, as long as that is live. -/
theorem Ordered.get_eq_some_iff {c : Cache} {now n : Nat} {token : String} {o : Outcome} (h : Ordered c now) :
    (c.get n token).1 = .some o ↔
      0 < c.ttl ∧ ∃ e, (Fingerprint.ofToken token, e) ∈ c.entries ∧ n < e.expiresAt ∧ e.outcome = o := by
  simp only [← lookup_eq_some_iff_mem h.keys]
  unfold get lookup Entry.isLive
  by_cases httl : c.ttl = 0
  · simp [httl]
  · have hpos := Nat.pos_of_ne_zero httl
    cases hl : c.entries.lookup (Fingerprint.ofToken token) with
    | none => simp [httl]
    | some e => by_cases hlive : n < e.expiresAt <;> simp [httl, hpos, hlive]

/-! ## What is read was written last -/

theorem History.LastWrite.snoc {h since : History} {k : Fingerprint} {s : Nat} {o : Outcome}
    (hl : h.LastWrite k s o since) {x : Nat × Op} (hx : x.2.changed? ≠ .some k) :
    History.LastWrite (h ++ [x]) k s o (since ++ [x]) := by
  obtain ⟨before, token, rfl, hk, hs⟩ := hl
  refine ⟨before, token, by simp, hk, fun y hy => ?_⟩
  rcases List.mem_append.1 hy with hy | hy
  · exact hs y hy
  · rwa [List.mem_singleton.1 hy]

/-- An entry after an operation is the one just written, or it was there before and not touched. -/
theorem mem_entries_act {c : Cache} {now : Nat} (httl : 0 < c.ttl) (hrep : now + c.ttl < Clock.horizon) {op : Op}
    {x : Fingerprint × Entry} (hx : x ∈ (c.act now op).2.entries) :
    (∃ token o, op = .set token o ∧ x = (Fingerprint.ofToken token, ⟨o, now + c.ttl, c.nextSeq⟩)) ∨
    (x ∈ c.entries ∧ op.changed? ≠ .some x.1) := by
  cases op with
  | get token =>
    obtain ⟨_, _, h⟩ := c.get_eq now token
    simp only [act, h] at hx
    exact .inr ⟨hx, by simp [Op.changed?]⟩
  | set token o =>
    simp only [act, set_eq, httl, hrep, and_self, if_true, put_entries, List.mem_cons] at hx
    rcases hx with rfl | hx
    · exact .inl ⟨token, o, rfl, rfl⟩
    · refine .inr ⟨(c.room_sublist _).subset hx, fun h => ne_of_mem_room hx ?_⟩
      simpa [Op.changed?] using h.symm
  | delete token =>
    obtain ⟨hx, hne⟩ := mem_without.1 hx
    exact .inr ⟨hx, fun h => hne (by simpa [Op.changed?] using h.symm)⟩
  | sweep => exact .inr ⟨(List.mem_filter.1 hx).1, by simp [Op.changed?]⟩
  | stop => exact .inr ⟨hx, by simp [Op.changed?]⟩

/-- Each entry is what was last written under its key, and expires one lifetime after that. -/
theorem written_of_mem_after {ttl maxSize t₀ : Nat} (httl : 0 < ttl) {h : History}
    (hrep : ∀ x ∈ h, x.1 + ttl < Clock.horizon) {x : Fingerprint × Entry}
    (hx : x ∈ ((start ttl maxSize t₀).after h).entries) :
    ∃ s since, h.LastWrite x.1 s x.2.outcome since ∧ x.2.expiresAt = s + ttl := by
  induction h using List.reverseRecOn generalizing x with
  | nil => simp [start] at hx
  | append_singleton h y ih =>
    have hc : ((start ttl maxSize t₀).after h).ttl = ttl := after_ttl ..
    rw [after_append, after_cons, after_nil] at hx
    rcases mem_entries_act (by rwa [hc]) (hc.symm ▸ hrep y (by simp)) hx with ⟨token, o, hop, rfl⟩ | ⟨hx, hne⟩
    · refine ⟨y.1, [], ⟨h, token, ?_, rfl, by simp⟩, by rw [hc]⟩
      rw [← hop]
    · obtain ⟨s, since, hl, hexp⟩ := ih (fun z hz => hrep z (by simp [hz])) hx
      exact ⟨s, since ++ [y], hl.snoc hne, hexp⟩

/-! ## What was written last is kept -/

/-- The outcome `o` is stored under `k` until `t`, and what was written later is under keys in `W`. -/
def Held (entries : List (Fingerprint × Entry)) (k : Fingerprint) (o : Outcome) (t : Nat) (W : Finset Fingerprint) :
    Prop :=
  ∃ newer older seq, entries = newer ++ (k, ⟨o, t, seq⟩) :: older ∧ ∀ x ∈ newer, x.1 ∈ W

section

variable {entries : List (Fingerprint × Entry)} {c : Cache} {k : Fingerprint} {o : Outcome} {now t : Nat}
  {W : Finset Fingerprint}

theorem Held.filter (h : Held entries k o t W) {p : Fingerprint × Entry → Bool} (hp : ∀ seq, p (k, ⟨o, t, seq⟩)) :
    Held (entries.filter p) k o t W := by
  obtain ⟨newer, older, seq, rfl, hW⟩ := h
  refine ⟨newer.filter p, older.filter p, seq, ?_, fun x hx => hW x (List.mem_filter.1 hx).1⟩
  rw [List.filter_append, List.filter_cons_of_pos (hp seq)]

theorem Held.without (h : Held entries k o t W) {l : Fingerprint} (hne : l ≠ k) : Held (without entries l) k o t W :=
  h.filter fun _ => by simpa using hne.symm

/-- An entry that stands last in a full cache has as many distinct keys in front of it as there is room for, the
new one included. -/
theorem maxSize_le_card {newer : List (Fingerprint × Entry)} {e : Entry} {l : Fingerprint} (ho : Ordered c now)
    (hc : c.entries = newer ++ [(k, e)]) (hfull : c.isFullFor l = true) (hW : ∀ x ∈ newer, x.1 ∈ W) (hl : l ∈ W) :
    c.maxSize ≤ W.card := by
  obtain ⟨hnew, -, hge⟩ := isFullFor_iff.1 hfull
  have hkeys := ho.keys
  rw [hc, List.map_append, List.nodup_append] at hkeys
  rw [hc, List.map_append, List.mem_append, not_or] at hnew
  have hnodup : (l :: newer.map Prod.fst).Nodup := List.nodup_cons.2 ⟨hnew.1, hkeys.1⟩
  have hsub : (l :: newer.map Prod.fst).toFinset ⊆ W := by
    intro m hm
    rw [List.mem_toFinset, List.mem_cons] at hm
    rcases hm with rfl | hm
    · exact hl
    · obtain ⟨x, hx, rfl⟩ := List.mem_map.1 hm
      exact hW x hx
  have hcard := Finset.card_le_card hsub
  rw [List.toFinset_card_of_nodup hnodup, List.length_cons, List.length_map] at hcard
  rw [size, hc, List.length_append, List.length_singleton] at hge
  exact Nat.le_trans hge hcard

/-- Making room for another key spares the entry, unless the keys written since are too many. -/
theorem Held.room (h : Held c.entries k o t W) (ho : Ordered c now) (hcap : c.maxSize = 0 ∨ W.card < c.maxSize)
    {l : Fingerprint} (hne : l ≠ k) (hl : l ∈ W) : Held (c.room l) k o t W := by
  unfold Cache.room
  split
  next hfull =>
    rw [ho.evict_entries]
    obtain ⟨newer, older, seq, hc, hW⟩ := h
    rcases List.eq_nil_or_concat older with rfl | ⟨init, last, rfl⟩
    · -- It would be the one to go, but then what was written since fills the cache.
      have hle := maxSize_le_card ho hc hfull hW hl
      have hpos := (isFullFor_iff.1 hfull).2.1
      omega
    · refine Held.without ⟨newer, init, seq, ?_, hW⟩ hne
      rw [hc, List.concat_eq_append, ← List.cons_append, ← List.append_assoc, List.dropLast_concat]
  next => exact h.without hne

/-- An operation on other keys, at an instant at which the entry has not expired, spares it. -/
theorem Held.act (h : Held c.entries k o t W) (ho : Ordered c now) (hcap : c.maxSize = 0 ∨ W.card < c.maxSize)
    (hlive : now < t) {op : Op} (hop : op.changed? ≠ .some k) (hW : ∀ l, op.written? = .some l → l ∈ W) :
    Held (c.act now op).2.entries k o t W := by
  cases op with
  | get token =>
    obtain ⟨_, _, hget⟩ := c.get_eq now token
    simpa only [Cache.act, hget] using h
  | set token out =>
    have hne : Fingerprint.ofToken token ≠ k := fun e => hop (by rw [← e]; rfl)
    have hl := hW (Fingerprint.ofToken token) rfl
    simp only [Cache.act, set_eq]
    split
    next =>
      obtain ⟨newer, older, seq, hroom, hnewer⟩ := h.room ho hcap hne hl
      rw [put_entries, hroom]
      refine ⟨_ :: newer, older, seq, rfl, fun x hx => ?_⟩
      rcases List.mem_cons.1 hx with rfl | hx
      · exact hl
      · exact hnewer x hx
    next => exact h
  | delete token => exact h.without fun e => hop (by rw [← e]; rfl)
  | sweep => exact h.filter fun _ => by simpa [Entry.isLive] using hlive
  | stop => exact h

theorem Held.after {since : History} (h : Held c.entries k o t W) (ho : Ordered c now)
    (hcap : c.maxSize = 0 ∨ W.card < c.maxSize) (htime : since.InTime) (hfrom : ∀ x ∈ since, now ≤ x.1)
    (hlive : ∀ x ∈ since, x.1 < t) (hother : ∀ x ∈ since, x.2.changed? ≠ .some k)
    (hW : ∀ x ∈ since, ∀ l, x.2.written? = .some l → l ∈ W) : Held (c.after since).entries k o t W := by
  induction since generalizing c now with
  | nil => exact h
  | cons x since ih =>
    rw [History.InTime, List.pairwise_cons] at htime
    simp only [List.forall_mem_cons] at hfrom hlive hother hW
    have ho' := ho.mono hfrom.1
    exact ih (h.act ho' hcap hlive.1 hother.1 hW.1) (ho'.act x.2) (by simpa using hcap) htime.2 htime.1 hlive.2
      hother.2 hW.2

end

/-- What was written last is still stored when less than a lifetime has passed and fewer other keys than there is
room for were written since. -/
theorem held_of_lastWrite {ttl maxSize t₀ : Nat} (httl : 0 < ttl) {h since : History} {k : Fingerprint} {s n : Nat}
    {o : Outcome} (htime : h.InTime) (hn : ∀ x ∈ h, x.1 ≤ n) (hrep : ∀ x ∈ h, x.1 + ttl < Clock.horizon)
    (hl : h.LastWrite k s o since) (hlive : n < s + ttl)
    (hcap : maxSize = 0 ∨ (since.written.toFinset.erase k).card < maxSize) :
    Held ((start ttl maxSize t₀).after h).entries k o (s + ttl) (since.written.toFinset.erase k) := by
  obtain ⟨before, token, rfl, rfl, hother⟩ := hl
  rw [History.InTime, List.pairwise_append, List.pairwise_cons] at htime
  obtain ⟨hbefore, ⟨hsince, htail⟩, hcross⟩ := htime
  have ho : Ordered ((start ttl maxSize t₀).after before) s :=
    (Ordered.start ttl maxSize t₀ 0).after hbefore (fun _ _ => Nat.zero_le _) (Nat.zero_le _)
      fun x hx => hcross x hx (s, .set token o) (by simp)
  rw [after_append, after_cons]
  have hset : Held (((start ttl maxSize t₀).after before).act s (.set token o)).2.entries
      (Fingerprint.ofToken token) o (s + ttl) (since.written.toFinset.erase (Fingerprint.ofToken token)) := by
    have hc : ((start ttl maxSize t₀).after before).ttl = ttl := after_ttl ..
    have hs : s + ttl < Clock.horizon := hrep (s, .set token o) (by simp)
    simp only [act, set_eq, hc, httl, hs, and_self, if_true, put_entries]
    exact ⟨[], _, _, rfl, by simp⟩
  refine hset.after (ho.act _) (by simpa [start] using hcap) htail hsince ?_ hother ?_
  · exact fun x hx => Nat.lt_of_le_of_lt (hn x (by simp [hx])) hlive
  · intro x hx l hw
    have hne : l ≠ Fingerprint.ofToken token := by
      rintro rfl
      refine hother x hx ?_
      cases hop : x.2 <;> simp_all [Op.written?, Op.changed?]
    simp only [Finset.mem_erase, List.mem_toFinset, History.written, List.mem_filterMap]
    exact ⟨hne, x, hx, hw⟩

/-! ## The law of histories -/

/-- **Reads follow the last write.** After any history of reads, writes, deletes, sweeps and stops in the course of
time, an outcome that is read at `n` for a token was stored by the last write of that token, which no deletion
followed, less than one lifetime before `n`. The other way round, what the last write stored is read until its
lifetime is over, unless a bounded cache has seen writes of at least `maxSize` distinct other tokens since. -/
theorem get_lastWrite {ttl maxSize t₀ n : Nat} {h : History} (httl : 0 < ttl) (htime : h.InTime)
    (hn : ∀ x ∈ h, x.1 ≤ n) (hrep : ∀ x ∈ h, x.1 + ttl < Clock.horizon) (token : String) :
    (∀ o, (((start ttl maxSize t₀).after h).get n token).1 = .some o →
      ∃ s since, h.LastWrite (Fingerprint.ofToken token) s o since ∧ n < s + ttl) ∧
    (∀ s o since, h.LastWrite (Fingerprint.ofToken token) s o since → n < s + ttl →
      (maxSize = 0 ∨ (since.written.toFinset.erase (Fingerprint.ofToken token)).card < maxSize) →
      (((start ttl maxSize t₀).after h).get n token).1 = .some o) := by
  have ho : Ordered ((start ttl maxSize t₀).after h) n :=
    (Ordered.start ttl maxSize t₀ 0).after htime (fun _ _ => Nat.zero_le _) (Nat.zero_le _) hn
  refine ⟨fun o hget => ?_, fun s o since hl hlive hcap => ?_⟩
  · obtain ⟨-, e, he, hlive, rfl⟩ := ho.get_eq_some_iff.1 hget
    obtain ⟨s, since, hl, hexp⟩ := written_of_mem_after httl hrep he
    exact ⟨s, since, hl, hexp ▸ hlive⟩
  · obtain ⟨newer, older, seq, hc, -⟩ := held_of_lastWrite httl htime hn hrep hl hlive hcap
    refine ho.get_eq_some_iff.2 ⟨by simpa [start] using httl, ⟨o, s + ttl, seq⟩, ?_, hlive, rfl⟩
    rw [hc]
    exact List.mem_append_right _ (List.mem_cons_self ..)

/-- In a cache for two, a token that is written anew outlives one that was written after its first write. -/
theorem get_lastWrite_renewed :
    let old : Outcome := .denied .unauthorized
    let new : Outcome := .authorized ⟨"alice", 42, .none, "acme", ["sre"]⟩
    let h : History :=
      [(0, .set "a" old), (1, .set "b" old), (2, .get "a"), (3, .set "a" new), (4, .sweep), (5, .set "c" old)]
    h.InTime ∧ (∀ x ∈ h, x.1 ≤ 12) ∧ (∀ x ∈ h, x.1 + 10 < Clock.horizon) ∧
      (((start 10 2 0).after h).get 12 "a").1 = .some new := by
  intro old new h
  have htime : h.InTime := by unfold History.InTime; decide
  have hn : ∀ x ∈ h, x.1 ≤ 12 := by decide
  have hrep : ∀ x ∈ h, x.1 + 10 < Clock.horizon := by decide
  refine ⟨htime, hn, hrep, (get_lastWrite (by decide) htime hn hrep "a").2 3 new [(4, .sweep), (5, .set "c" old)]
    ⟨[(0, .set "a" old), (1, .set "b" old), (2, .get "a")], "a", rfl, rfl, ?_⟩ (by decide) (.inr ?_)⟩
  · decide +kernel
  · decide +kernel

end TokenGate.Cache
