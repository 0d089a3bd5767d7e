/-
The order in which a cache keeps its entries.

The entry that was written last stands first. Because time never goes back and all entries live equally long, that is
also the order of their expiries, so the entry that makes room is the one at the end (`earliest_eq_getLast?`), and a
write under a new key into a full cache costs exactly that one (`Ordered.evict_entries`). `Ordered` says this of a
state; every operation keeps it (`Ordered.act`), and so does a whole history (`Ordered.after`).
-/
import TokenGate.Cache.History
import Mathlib.Data.List.Nodup

namespace TokenGate.Cache

/-! ## Entries under a key -/

@[simp] theorem mem_without {entries : List (Fingerprint × Entry)} {k : Fingerprint} {x : Fingerprint × Entry} :
    x ∈ without entries k ↔ x ∈ entries ∧ x.1 ≠ k := by
  simp [without]

theorem without_sublist (entries : List (Fingerprint × Entry)) (k : Fingerprint) :
    (without entries k).Sublist entries :=
  List.filter_sublist

theorem without_append (l l' : List (Fingerprint × Entry)) (k : Fingerprint) :
    without (l ++ l') k = without l k ++ without l' k :=
  List.filter_append ..

/-- Under a key that is not there, nothing is taken out. -/
theorem without_of_notMem {entries : List (Fingerprint × Entry)} {k : Fingerprint}
    (h : k ∉ entries.map Prod.fst) : without entries k = entries := by
  refine List.filter_eq_self.2 fun x hx => ?_
  have : x.1 ≠ k := fun e => h (e ▸ List.mem_map_of_mem hx)
  simpa using this

theorem length_without_lt {entries : List (Fingerprint × Entry)} {k : Fingerprint}
    (h : k ∈ entries.map Prod.fst) : (without entries k).length < entries.length := by
  obtain ⟨x, hx, rfl⟩ := List.mem_map.1 h
  exact List.length_filter_lt_length_iff_exists.2 ⟨x, hx, by simp⟩

theorem lookup_isNone_iff {entries : List (Fingerprint × Entry)} {k : Fingerprint} :
    (entries.lookup k).isNone = true ↔ k ∉ entries.map Prod.fst := by
  rw [Option.isNone_iff_eq_none, List.lookup_eq_none_iff]
  simp only [List.mem_map, not_exists, not_and, bne_iff_ne, ne_eq]
  exact ⟨fun h x hx e => h x hx e.symm, fun h x hx e => h x hx e.symm⟩

/-- With distinct keys, what is found under a key is the entry that is there. -/
theorem lookup_eq_some_iff_mem {entries : List (Fingerprint × Entry)} (hn : (entries.map Prod.fst).Nodup)
    {k : Fingerprint} {e : Entry} : entries.lookup k = .some e ↔ (k, e) ∈ entries := by
  induction entries with
  | nil => simp
  | cons x entries ih =>
    obtain ⟨l, f⟩ := x
    simp only [List.map_cons, List.nodup_cons] at hn
    rw [List.lookup_cons, List.mem_cons]
    by_cases h : k = l
    · subst h
      have hk : (k, e) ∉ entries := fun hm => hn.1 (List.mem_map_of_mem hm)
      simp [hk, eq_comm]
    · simp [show (k == l) = false by simpa using h, h, ih hn.2]

/-! ## The invariant -/

/-- The entries of `c` stand in the order of their writes, as it may be at the instant `now`. -/
structure Ordered (c : Cache) (now : Nat) : Prop where
  keys : (c.entries.map Prod.fst).Nodup
  order : c.entries.Pairwise fun x y => y.2.seq < x.2.seq ∧ y.2.expiresAt ≤ x.2.expiresAt
  seq_lt : ∀ x ∈ c.entries, x.2.seq < c.nextSeq
  expires_le : ∀ x ∈ c.entries, x.2.expiresAt ≤ now + c.ttl
  size_le : 0 < c.maxSize → c.size ≤ c.maxSize

theorem Ordered.start (ttl maxSize t₀ now : Nat) : Ordered (start ttl maxSize t₀) now where
  keys := List.nodup_nil
  order := .nil
  seq_lt := by simp [Cache.start]
  expires_le := by simp [Cache.start]
  size_le := fun _ => Nat.zero_le _

theorem Ordered.mono {c : Cache} {now later : Nat} (h : Ordered c now) (hle : now ≤ later) : Ordered c later :=
  { h with expires_le := fun x hx => Nat.le_trans (h.expires_le x hx) (by omega) }

/-- Entries may be lost from an ordered cache, and its counters may change. -/
theorem Ordered.of_sublist {c d : Cache} {now : Nat} (h : Ordered c now) (hs : d.entries.Sublist c.entries)
    (hseq : d.nextSeq = c.nextSeq) (httl : d.ttl = c.ttl) (hmax : d.maxSize = c.maxSize) : Ordered d now where
  keys := (hs.map Prod.fst).nodup h.keys
  order := h.order.sublist hs
  seq_lt x hx := hseq ▸ h.seq_lt x (hs.subset hx)
  expires_le x hx := httl ▸ h.expires_le x (hs.subset hx)
  size_le hpos := Nat.le_trans hs.length_le (hmax ▸ h.size_le (hmax ▸ hpos))

/-! ## Making room -/

/-- The entry that makes room first is the last one. -/
theorem earliest_eq_getLast? {entries : List (Fingerprint × Entry)}
    (h : entries.Pairwise fun x y => y.2.seq < x.2.seq ∧ y.2.expiresAt ≤ x.2.expiresAt) :
    earliest entries = entries.getLast? := by
  induction entries with
  | nil => rfl
  | cons x rest ih =>
    rw [List.pairwise_cons] at h
    rw [earliest, ih h.2]
    cases hl : rest.getLast? with
    | none => rw [List.getLast?_eq_none_iff.1 hl]; rfl
    | some last =>
      obtain ⟨hseq, hexp⟩ := h.1 last (List.mem_of_getLast? hl)
      have hbefore : last.2.isBefore x.2 = true := by
        rcases Nat.lt_or_eq_of_le hexp with hlt | heq
        · simp [Entry.isBefore, hlt]
        · simp [Entry.isBefore, heq, hseq]
      simp [hbefore, List.getLast?_cons, hl]

theorem evict_entries_sublist (c : Cache) : c.evict.entries.Sublist c.entries := by
  unfold evict
  split
  next => exact without_sublist _ _
  next => exact .refl _

/-- Evicting from an ordered cache takes out its last entry. -/
theorem Ordered.evict_entries {c : Cache} {now : Nat} (h : Ordered c now) :
    c.evict.entries = c.entries.dropLast := by
  unfold evict
  rw [earliest_eq_getLast? h.order]
  rcases List.eq_nil_or_concat c.entries with hnil | ⟨init, last, hc⟩
  · simp [hnil]
  · rw [List.concat_eq_append] at hc
    have hkeys := h.keys
    rw [hc, List.map_append, List.nodup_append] at hkeys
    have hlast : last.1 ∉ init.map Prod.fst := fun hm => hkeys.2.2 _ hm last.1 (by simp) rfl
    simp only [hc, List.getLast?_append, List.getLast?_singleton, Option.some_or, List.dropLast_concat]
    rw [without_append, without_of_notMem hlast]
    simp [without]

theorem isFullFor_iff {c : Cache} {k : Fingerprint} :
    c.isFullFor k = true ↔ k ∉ c.entries.map Prod.fst ∧ 0 < c.maxSize ∧ c.maxSize ≤ c.size := by
  simp only [isFullFor, Bool.and_eq_true, lookup_isNone_iff, decide_eq_true_eq, and_assoc]

/-- The entries that are left where `k` is to be written. -/
def room (c : Cache) (k : Fingerprint) : List (Fingerprint × Entry) :=
  without (if c.isFullFor k then c.evict.entries else c.entries) k

theorem room_sublist (c : Cache) (k : Fingerprint) : (c.room k).Sublist c.entries := by
  unfold room
  split
  · exact (without_sublist _ _).trans c.evict_entries_sublist
  · exact without_sublist _ _

theorem ne_of_mem_room {c : Cache} {k : Fingerprint} {x : Fingerprint × Entry} (h : x ∈ c.room k) : x.1 ≠ k :=
  (mem_without.1 h).2

/-- There is room for one more entry. -/
theorem Ordered.length_room_lt {c : Cache} {now : Nat} (h : Ordered c now) (k : Fingerprint)
    (hpos : 0 < c.maxSize) : (c.room k).length < c.maxSize := by
  have hsize := h.size_le hpos
  unfold size at hsize
  unfold room
  split
  next hfull =>
    obtain ⟨-, -, hge⟩ := isFullFor_iff.1 hfull
    have hle := (without_sublist c.evict.entries k).length_le
    rw [h.evict_entries, List.length_dropLast] at hle
    unfold size at hge
    rw [h.evict_entries]
    omega
  next hfull =>
    by_cases hk : k ∈ c.entries.map Prod.fst
    · exact Nat.lt_of_lt_of_le (length_without_lt hk) hsize
    · have hlt : c.entries.length < c.maxSize :=
        Nat.lt_of_not_le fun hge => hfull (isFullFor_iff.2 ⟨hk, hpos, hge⟩)
      exact Nat.lt_of_le_of_lt (without_sublist _ _).length_le hlt

/-! ## Operations -/

theorem put_eq (c : Cache) (k : Fingerprint) (o : Outcome) (t : Nat) :
    ∃ evictions, c.put k o t =
      { c with
        entries := (k, ⟨o, t, c.nextSeq⟩) :: c.room k
        nextSeq := c.nextSeq + 1
        evictions := evictions
        gauge := (c.room k).length + 1 } := by
  unfold put room publish size
  split
  next => unfold evict; split <;> exact ⟨_, rfl⟩
  next => exact ⟨_, rfl⟩

theorem put_entries (c : Cache) (k : Fingerprint) (o : Outcome) (t : Nat) :
    (c.put k o t).entries = (k, ⟨o, t, c.nextSeq⟩) :: c.room k := by
  obtain ⟨_, h⟩ := c.put_eq k o t
  rw [h]

/-- A new entry in front of what there is room for. -/
theorem Ordered.put {c : Cache} {now : Nat} (h : Ordered c now) (k : Fingerprint) (o : Outcome) :
    Ordered (c.put k o (now + c.ttl)) now := by
  have hroom := c.room_sublist k
  obtain ⟨_, hput⟩ := c.put_eq k o (now + c.ttl)
  rw [hput]
  refine ⟨?_, ?_, fun x hx => ?_, fun x hx => ?_, fun hpos => ?_⟩
  · rw [List.map_cons, List.nodup_cons]
    refine ⟨fun hk => ?_, (hroom.map Prod.fst).nodup h.keys⟩
    obtain ⟨x, hx, rfl⟩ := List.mem_map.1 hk
    exact ne_of_mem_room hx rfl
  · rw [List.pairwise_cons]
    exact ⟨fun x hx => ⟨h.seq_lt x (hroom.subset hx), h.expires_le x (hroom.subset hx)⟩, h.order.sublist hroom⟩
  · rcases List.mem_cons.1 hx with rfl | hx
    · exact Nat.lt_succ_self _
    · exact Nat.lt_succ_of_lt (h.seq_lt x (hroom.subset hx))
  · rcases List.mem_cons.1 hx with rfl | hx
    · exact Nat.le_refl _
    · exact h.expires_le x (hroom.subset hx)
  · exact h.length_room_lt k hpos

/-- A write stores the outcome for one lifetime, where the clock can tell its end, and does nothing where the cache
is off or the clock cannot. -/
theorem set_eq (c : Cache) (now : Nat) (token : String) (o : Outcome) :
    c.set now token o =
      if 0 < c.ttl ∧ now + c.ttl < Clock.horizon then c.put (Fingerprint.ofToken token) o (now + c.ttl) else c := by
  unfold set store Clock.later?
  by_cases httl : c.ttl = 0
  · simp [httl]
  · by_cases hrep : now + c.ttl < Clock.horizon
    · simp [httl, hrep, Nat.pos_of_ne_zero]
    · simp [httl, hrep]

/-- A read changes the counts alone. -/
theorem get_eq (c : Cache) (now : Nat) (token : String) :
    ∃ hits misses, (c.get now token).2 = { c with hits := hits, misses := misses } := by
  unfold get lookup
  repeat' split
  all_goals exact ⟨_, _, rfl⟩

/-- An operation either writes a new entry, or it loses entries at most. -/
theorem act_cases (c : Cache) (now : Nat) (op : Op) :
    (∃ token o, op = .set token o ∧ 0 < c.ttl ∧
      (c.act now op).2 = c.put (Fingerprint.ofToken token) o (now + c.ttl)) ∨
    ((c.act now op).2.entries.Sublist c.entries ∧ (c.act now op).2.nextSeq = c.nextSeq ∧
      (c.act now op).2.ttl = c.ttl ∧ (c.act now op).2.maxSize = c.maxSize) := by
  cases op with
  | get token =>
    obtain ⟨_, _, h⟩ := c.get_eq now token
    exact .inr (by simp [act, h])
  | set token o =>
    simp only [act, set_eq]
    split
    next hset => exact .inl ⟨token, o, rfl, hset.1, rfl⟩
    next => exact .inr ⟨.refl _, rfl, rfl, rfl⟩
  | delete token => exact .inr ⟨without_sublist _ _, rfl, rfl, rfl⟩
  | sweep => exact .inr ⟨List.filter_sublist, rfl, rfl, rfl⟩
  | stop => exact .inr ⟨.refl _, rfl, rfl, rfl⟩

theorem Ordered.act {c : Cache} {now : Nat} (h : Ordered c now) (op : Op) : Ordered (c.act now op).2 now := by
  rcases c.act_cases now op with ⟨token, o, -, -, heq⟩ | ⟨hs, hseq, httl, hmax⟩
  · rw [heq]; exact h.put _ _
  · exact h.of_sublist hs hseq httl hmax

theorem act_limits (c : Cache) (now : Nat) (op : Op) :
    (c.act now op).2.ttl = c.ttl ∧ (c.act now op).2.maxSize = c.maxSize := by
  rcases c.act_cases now op with ⟨token, o, -, -, heq⟩ | ⟨-, -, httl, hmax⟩
  · obtain ⟨_, hput⟩ := c.put_eq (Fingerprint.ofToken token) o (now + c.ttl)
    rw [heq, hput]
    exact ⟨rfl, rfl⟩
  · exact ⟨httl, hmax⟩

@[simp] theorem act_ttl (c : Cache) (now : Nat) (op : Op) : (c.act now op).2.ttl = c.ttl :=
  (c.act_limits now op).1

@[simp] theorem act_maxSize (c : Cache) (now : Nat) (op : Op) : (c.act now op).2.maxSize = c.maxSize :=
  (c.act_limits now op).2

/-! ## The sweeper -/

/-- What becomes of `c` when the sweeper runs or its ticks are put off: its schedule changes, and it may have swept
before that. -/
inductive Tended (c : Cache) : Cache → Prop where
  | idle (s : Option Sweeper) : Tended c { c with sweeper := s }
  | swept (t : Nat) (s : Option Sweeper) : Tended c { c.sweep t with sweeper := s }

section

variable {c d : Cache}

theorem Tended.putOff (h : Tended c d) (t : Nat) : Tended c (d.putOff t) := by
  cases h with
  | idle s => exact .idle _
  | swept u s => exact .swept u _

theorem tended_tick (c : Cache) (now : Nat) : Tended c (c.tick now) := by
  unfold tick
  split
  next => split <;> [exact .swept now _; exact .idle c.sweeper]
  next => exact .idle c.sweeper

theorem tended_flow (c : Cache) (now : Nat) : Tended c (c.flow now) := by
  unfold flow
  split
  next => exact .idle _
  next => split <;> [exact .swept _ _; exact .idle c.sweeper]

theorem tended_jump (c : Cache) (now : Nat) : Tended c (c.jump now) := by
  unfold jump
  split
  next => exact .idle _
  next => exact c.tended_tick now

theorem tended_await (c : Cache) (now t : Nat) : Tended c (c.await now t) := by
  unfold await
  split
  next => exact (c.tended_flow _).putOff _
  next => exact c.tended_flow _

/-- The sweeper takes out entries at most. -/
theorem Tended.exists_filter (h : Tended c d) : ∃ p, d.entries = c.entries.filter p := by
  cases h with
  | idle s => exact ⟨fun _ => true, by simp⟩
  | swept t s => exact ⟨_, rfl⟩

theorem Tended.entries_sublist (h : Tended c d) : d.entries.Sublist c.entries := by
  obtain ⟨p, heq⟩ := h.exists_filter
  exact heq ▸ List.filter_sublist

theorem Tended.limits (h : Tended c d) : d.ttl = c.ttl ∧ d.maxSize = c.maxSize := by
  cases h <;> exact ⟨rfl, rfl⟩

theorem Tended.isStopping_eq (h : Tended c d) : d.isStopping = c.isStopping := by
  cases h <;> rfl

end

/-! ## Histories -/

@[simp] theorem after_ttl (c : Cache) (h : History) : (c.after h).ttl = c.ttl := by
  induction h generalizing c with
  | nil => rfl
  | cons x h ih => rw [after_cons, ih, act_ttl]

@[simp] theorem after_maxSize (c : Cache) (h : History) : (c.after h).maxSize = c.maxSize := by
  induction h generalizing c with
  | nil => rfl
  | cons x h ih => rw [after_cons, ih, act_maxSize]

/-- Whatever is done in the course of time, the entries stay in order. -/
theorem Ordered.after {c : Cache} {now : Nat} {h : History} (ho : Ordered c now) (htime : h.InTime)
    (hfrom : ∀ x ∈ h, now ≤ x.1) {n : Nat} (hnow : now ≤ n) (hn : ∀ x ∈ h, x.1 ≤ n) : Ordered (c.after h) n := by
  induction h generalizing c now with
  | nil => exact ho.mono hnow
  | cons x h ih =>
    rw [History.InTime, List.pairwise_cons] at htime
    have hx := (ho.mono (hfrom x (by simp))).act x.2
    exact ih hx htime.2 htime.1 (hn x (by simp)) fun y hy => hn y (by simp [hy])

end TokenGate.Cache
