/-
Sweeps go unnoticed.

`visible` is what is left of a cache when all is wiped out that its user cannot read: the entries that have expired,
the schedule of the sweeper, the evictions and the published size. A use of the cache reads the same there, and leaves
the same behind (`Ordered.visible_act`), and a sweep or a stop changes nothing of it (`visible_act_of_not_isUse`). So
what the user learns from a history depends on the uses alone (`sights_eq_of_visible`).

The one use that looks at expired entries is a write under a new key: they count for whether the cache is full. But
they are also the first to make room, so the live entries lose one exactly when they fill the cache by themselves
(`Ordered.live_room`).
-/
import TokenGate.Proofs.Cache.Order

namespace TokenGate.Cache

/-! ## The visible part -/

/-- The entries that readers still see at `now`. -/
def live (entries : List (Fingerprint × Entry)) (now : Nat) : List (Fingerprint × Entry) :=
  entries.filter fun x => x.2.isLive now

/-- The cache at `now` without all that only its size, its evictions and its sweeper tell. -/
def visible (c : Cache) (now : Nat) : Cache :=
  { c with entries := live c.entries now, sweeper := .none, isStopping := false, evictions := 0, gauge := 0 }

theorem live_sublist (entries : List (Fingerprint × Entry)) (now : Nat) : (live entries now).Sublist entries :=
  List.filter_sublist

/-- What is live later is live already. -/
theorem live_live {now later : Nat} (h : now ≤ later) (entries : List (Fingerprint × Entry)) :
    live (live entries now) later = live entries later := by
  unfold live
  rw [List.filter_filter]
  refine List.filter_congr fun x _ => ?_
  simp only [Entry.isLive, Bool.and_eq_left_iff_imp, decide_eq_true_eq]
  exact Nat.lt_of_le_of_lt h

@[simp] theorem visible_visible {now later : Nat} (h : now ≤ later) (c : Cache) :
    (c.visible now).visible later = c.visible later := by
  simp only [visible, live_live h]

theorem without_live (entries : List (Fingerprint × Entry)) (k : Fingerprint) (now : Nat) :
    live (without entries k) now = without (live entries now) k := by
  unfold live without
  rw [List.filter_filter, List.filter_filter]
  exact List.filter_congr fun x _ => Bool.and_comm ..

theorem lookup_live {entries : List (Fingerprint × Entry)} (hn : (entries.map Prod.fst).Nodup) (k : Fingerprint)
    (now : Nat) : (live entries now).lookup k = (entries.lookup k).filter (·.isLive now) := by
  refine Option.ext fun e => ?_
  rw [lookup_eq_some_iff_mem (((live_sublist entries now).map Prod.fst).nodup hn), live, List.mem_filter,
    Option.filter_eq_some_iff, lookup_eq_some_iff_mem hn]

/-! ## Making room -/

/-- If the last of the entries is live, all are. -/
theorem Ordered.live_eq_self {c : Cache} {now : Nat} (h : Ordered c now) {init : List (Fingerprint × Entry)}
    {last : Fingerprint × Entry} (hc : c.entries = init ++ [last]) (hlast : last.2.isLive now = true) :
    live c.entries now = c.entries := by
  refine List.filter_eq_self.2 fun x hx => ?_
  have horder := h.order
  rw [hc, List.pairwise_append] at horder
  rw [hc, List.mem_append, List.mem_singleton] at hx
  simp only [Entry.isLive, decide_eq_true_eq] at hlast ⊢
  rcases hx with hx | rfl
  · exact Nat.lt_of_lt_of_le hlast (horder.2.2 x hx last (by simp)).2
  · exact hlast

/-- The live entries fill a cache only when there are no others. -/
theorem Ordered.visible_isFullFor_iff {c : Cache} {now : Nat} (h : Ordered c now) (k : Fingerprint) :
    (c.visible now).isFullFor k = true ↔ c.isFullFor k = true ∧ live c.entries now = c.entries := by
  constructor
  · intro hf
    obtain ⟨hk, hpos, hge⟩ := isFullFor_iff.1 hf
    have hall : live c.entries now = c.entries :=
      (live_sublist c.entries now).eq_of_length_le (Nat.le_trans (h.size_le hpos) hge)
    refine ⟨isFullFor_iff.2 ⟨?_, hpos, Nat.le_trans hge (live_sublist _ _).length_le⟩, hall⟩
    rw [← hall]
    exact hk
  · intro ⟨hf, hall⟩
    have hsame : c.visible now = { c with sweeper := .none, isStopping := false, evictions := 0, gauge := 0 } := by
      simp only [visible, hall]
    rw [hsame]
    exact hf

/-- Making room takes away the same live entry, or none, whether or not what has expired is still there. -/
theorem Ordered.live_room {c : Cache} {now : Nat} (h : Ordered c now) (k : Fingerprint) :
    live (c.room k) now = (c.visible now).room k := by
  have hv : Ordered (c.visible now) now := h.of_sublist (live_sublist _ _) rfl rfl rfl
  unfold room
  rw [without_live, h.evict_entries, hv.evict_entries]
  congr 1
  have hiff := h.visible_isFullFor_iff k
  have hentries : (c.visible now).entries = live c.entries now := rfl
  rw [hentries]
  by_cases hfull : c.isFullFor k = true
  · rw [if_pos hfull]
    by_cases hall : live c.entries now = c.entries
    · rw [if_pos (hiff.2 ⟨hfull, hall⟩), hall]
      refine List.filter_eq_self.2 fun x hx => ?_
      have hx := (List.dropLast_sublist _).subset hx
      rw [← hall] at hx
      exact (List.mem_filter.1 hx).2
    · -- Something has expired, so the last entry has, and it is the one to go.
      rw [if_neg fun hf => hall (hiff.1 hf).2]
      rcases List.eq_nil_or_concat c.entries with hnil | ⟨init, last, hc⟩
      · rw [hnil]; rfl
      · rw [List.concat_eq_append] at hc
        have hlast : ¬ last.2.isLive now = true := fun hlast => hall (h.live_eq_self hc hlast)
        simp [hc, live, hlast]
  · rw [if_neg hfull, if_neg fun hf => hfull (hiff.1 hf).1]

/-! ## Operations -/

theorem Ordered.visible_get {c : Cache} {now : Nat} (h : Ordered c now) (token : String) :
    ((c.visible now).get now token).1 = (c.get now token).1 ∧
      ((c.visible now).get now token).2 = (c.get now token).2.visible now := by
  unfold get lookup
  simp only [visible, lookup_live h.keys]
  by_cases httl : c.ttl = 0
  · simp [httl]
  · cases hl : c.entries.lookup (Fingerprint.ofToken token) with
    | none => simp [httl]
    | some e => by_cases hlive : e.isLive now = true <;> simp [httl, hlive, Option.filter]

theorem Ordered.visible_set {c : Cache} {now : Nat} (h : Ordered c now) (token : String) (o : Outcome) :
    ((c.visible now).set now token o).visible now = (c.set now token o).visible now := by
  rw [set_eq, set_eq]
  have httl : (c.visible now).ttl = c.ttl := rfl
  rw [httl]
  split
  next hset =>
    obtain ⟨_, hput⟩ := c.put_eq (Fingerprint.ofToken token) o (now + c.ttl)
    obtain ⟨_, hput'⟩ := (c.visible now).put_eq (Fingerprint.ofToken token) o (now + c.ttl)
    rw [hput, hput', ← h.live_room]
    simp only [visible, live, List.filter_cons, List.filter_filter, Bool.and_self]
  next => exact visible_visible (Nat.le_refl _) c

theorem visible_delete (c : Cache) (now : Nat) (token : String) :
    ((c.visible now).delete token).visible now = (c.delete token).visible now := by
  simp only [delete, remove, publish, visible, ← without_live, live_live (Nat.le_refl now)]

/-- A use reads and leaves behind the same, whether or not what has expired is still there. -/
theorem Ordered.visible_act {c : Cache} {now : Nat} (h : Ordered c now) (op : Op) (hop : op.isUse = true) :
    ((c.visible now).act now op).1 = (c.act now op).1 ∧
      ((c.visible now).act now op).2.visible now = (c.act now op).2.visible now := by
  cases op with
  | get token =>
    obtain ⟨hread, hcache⟩ := h.visible_get token
    refine ⟨hread, ?_⟩
    rw [Cache.act, Cache.act, hcache]
    exact visible_visible (Nat.le_refl now) _
  | set token o => exact ⟨rfl, h.visible_set token o⟩
  | delete token => exact ⟨rfl, c.visible_delete now token⟩
  | sweep => cases hop
  | stop => cases hop

/-- Sweeping and stopping the sweeper change nothing that is visible. -/
theorem visible_act_of_not_isUse {c : Cache} {now : Nat} {op : Op} (hop : op.isUse = false) :
    (c.act now op).2.visible now = c.visible now := by
  cases op with
  | get | set | delete => cases hop
  | sweep =>
    have hlive : live (live c.entries now) now = live c.entries now := live_live (Nat.le_refl now) c.entries
    simp only [act, sweep, publish, visible]
    rw [← live, hlive]
  | stop => rfl

@[simp] theorem visible_hits (c : Cache) (now : Nat) : (c.visible now).hits = c.hits := rfl

@[simp] theorem visible_misses (c : Cache) (now : Nat) : (c.visible now).misses = c.misses := rfl

/-! ## Histories -/

/-- What the user learns from a history depends on what is visible at its beginning and on the uses alone. -/
theorem sights_eq_of_visible {c d : Cache} {now : Nat} (hc : Ordered c now) (hd : Ordered d now)
    (hv : c.visible now = d.visible now) {h : History} (htime : h.InTime) (hfrom : ∀ x ∈ h, now ≤ x.1) :
    c.sights h = d.sights h.uses := by
  induction h generalizing c d now with
  | nil => rfl
  | cons x h ih =>
    obtain ⟨later, op⟩ := x
    rw [History.InTime, List.pairwise_cons] at htime
    have hle : now ≤ later := hfrom (later, op) (by simp)
    have hc := hc.mono hle
    have hd := hd.mono hle
    have hv : c.visible later = d.visible later := by
      rw [← visible_visible hle c, ← visible_visible hle d, hv]
    by_cases hop : op.isUse = true
    · obtain ⟨hreadc, hnextc⟩ := hc.visible_act op hop
      obtain ⟨hreadd, hnextd⟩ := hd.visible_act op hop
      have hread : (c.act later op).1 = (d.act later op).1 := by rw [← hreadc, ← hreadd, hv]
      have hnext : (c.act later op).2.visible later = (d.act later op).2.visible later := by
        rw [← hnextc, ← hnextd, hv]
      have hhits : (c.act later op).2.hits = (d.act later op).2.hits := by
        rw [← visible_hits _ later, hnext, visible_hits]
      have hmisses : (c.act later op).2.misses = (d.act later op).2.misses := by
        rw [← visible_misses _ later, hnext, visible_misses]
      rw [History.uses, List.filter_cons_of_pos (by exact hop)]
      simp only [sights, hop, if_true, hread, hhits, hmisses]
      rw [ih (hc.act op) (hd.act op) hnext htime.2 htime.1, History.uses]
    · rw [Bool.not_eq_true] at hop
      have hnext : (c.act later op).2.visible later = d.visible later := by
        rw [visible_act_of_not_isUse hop, hv]
      rw [History.uses, List.filter_cons_of_neg (by simp [hop])]
      simp only [sights, hop, Bool.false_eq_true, if_false]
      exact ih (hc.act op) hd hnext htime.2 htime.1

/-- **Sweeps are unobservable through reads.** Two histories of an empty cache in which the same uses happen at the
same instants show the same to the user, use by use: the same outcomes read, and the same counts of hits and misses.
When sweeps come, how many, and whether the sweeper is stopped makes no difference. -/
theorem sights_eq_of_uses_eq {ttl maxSize t₀ : Nat} {h₁ h₂ : History} (htime₁ : h₁.InTime) (htime₂ : h₂.InTime)
    (huses : h₁.uses = h₂.uses) : (start ttl maxSize t₀).sights h₁ = (start ttl maxSize t₀).sights h₂ := by
  have ho := Ordered.start ttl maxSize t₀ 0
  rw [sights_eq_of_visible ho ho rfl htime₁ fun _ _ => Nat.zero_le _,
    sights_eq_of_visible ho ho rfl htime₂ fun _ _ => Nat.zero_le _, huses]

/-- A cache for one, in which an expired entry is swept in one history and evicted in the other. -/
theorem sights_eq_of_uses_eq_evicted :
    let o : Outcome := .denied .unauthorized
    let h₁ : History := [(0, .set "a" o), (9, .get "a"), (10, .sweep), (12, .set "b" o), (13, .get "a"), (14, .get "b")]
    let h₂ : History := [(0, .set "a" o), (9, .get "a"), (9, .stop), (12, .set "b" o), (13, .get "a"), (14, .get "b")]
    (h₁.InTime ∧ h₂.InTime ∧ h₁.uses = h₂.uses ∧ (start 10 1 0).sights h₁ = (start 10 1 0).sights h₂) ∧
      ((start 10 1 0).after h₁).evictions = 0 ∧ ((start 10 1 0).after h₂).evictions = 1 := by
  intro o h₁ h₂
  have htime₁ : h₁.InTime := by unfold History.InTime; decide
  have htime₂ : h₂.InTime := by unfold History.InTime; decide
  refine ⟨⟨htime₁, htime₂, rfl, sights_eq_of_uses_eq htime₁ htime₂ rfl⟩, ?_, ?_⟩
  · decide +kernel
  · decide +kernel

end TokenGate.Cache
