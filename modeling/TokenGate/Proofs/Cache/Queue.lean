/-
A cache is a queue in the order of writes.

`Mirrors` says that the entries of a cache, the last write first, are the items of a queue, the oldest first. Every
operation reads the same of both and keeps them so (`Mirrors.act`): the entry that a cache looks for to make room is
the one that was written first, and those that have expired are the oldest ones. So in the course of a history both
show the same (`views_eq_queue`).

Which entry makes room does not depend on the order in which a cache goes through its entries, since no two were
written with the same number (`earliest_eq_of_perm`).
-/
import TokenGate.Cache.Queue
import TokenGate.Proofs.Cache.Balance
import TokenGate.Proofs.Cache.Reads
import Mathlib.Data.Finset.Lattice.Fold

namespace TokenGate.Cache

variable {c : Cache} {q : Queue} {now : Nat}

/-! ## The entry that makes room -/

theorem isBefore_iff {e f : Entry} :
    e.isBefore f = true ↔ e.expiresAt < f.expiresAt ∨ e.expiresAt = f.expiresAt ∧ e.seq < f.seq := by
  simp [Entry.isBefore]

/-- It is one of the entries, and none is before it. -/
theorem earliest_spec {entries : List (Fingerprint × Entry)} {m : Fingerprint × Entry}
    (h : earliest entries = .some m) : m ∈ entries ∧ ∀ x ∈ entries, ¬ x.2.isBefore m.2 = true := by
  induction entries generalizing m with
  | nil => cases h
  | cons kv rest ih =>
    simp only [earliest] at h
    simp only [List.mem_cons, forall_eq_or_imp]
    cases hrest : earliest rest with
    | none =>
      obtain rfl : rest = [] := by
        by_contra hne
        simpa [hrest] using earliest_isSome hne
      rw [hrest] at h
      cases h
      exact ⟨.inl rfl, by simp [isBefore_iff], by simp⟩
    | some other =>
      obtain ⟨hmem, hother⟩ := ih hrest
      simp only [isBefore_iff] at hother
      rw [hrest] at h
      dsimp only at h
      split at h
      next hbefore =>
        cases h
        refine ⟨.inr hmem, ?_, by simpa only [isBefore_iff] using hother⟩
        rw [isBefore_iff] at hbefore ⊢
        omega
      next hbefore =>
        cases h
        refine ⟨.inl rfl, by simp [isBefore_iff], fun x hx => ?_⟩
        have hx := hother x hx
        rw [isBefore_iff] at hbefore ⊢
        omega

/-- The order of the entries does not count where no two have the same number. -/
theorem earliest_eq_of_perm {entries entries' : List (Fingerprint × Entry)}
    (hseqs : (entries.map fun x => x.2.seq).Nodup) (h : entries'.Perm entries) :
    earliest entries' = earliest entries := by
  cases hm : earliest entries with
  | none =>
    have hnil : entries = [] := by
      by_contra hne
      simpa [hm] using earliest_isSome hne
    rw [hnil] at h
    rw [h.eq_nil]
    rfl
  | some m =>
    cases hm' : earliest entries' with
    | none =>
      have hnil : entries' = [] := by
        by_contra hne
        simpa [hm'] using earliest_isSome hne
      rw [hnil] at h
      rw [h.symm.eq_nil] at hm
      cases hm
    | some m' =>
      obtain ⟨hmem, hfirst⟩ := earliest_spec hm
      obtain ⟨hmem', hfirst'⟩ := earliest_spec hm'
      have hle := hfirst m' (h.subset hmem')
      have hle' := hfirst' m (h.symm.subset hmem)
      rw [isBefore_iff] at hle hle'
      have hseq : m'.2.seq = m.2.seq := by omega
      rw [List.inj_on_of_nodup_map hseqs (h.subset hmem') hmem hseq]

/-- A write takes nothing away that has not expired, as long as something has. -/
theorem Ordered.expired_of_evicted (h : Ordered c now) (token : String) (o : Outcome) {x y : Fingerprint × Entry}
    (hx : x ∈ c.entries) (hgone : x.1 ∉ (c.set now token o).entries.map Prod.fst) (hy : y ∈ c.entries)
    (hexpired : y.2.isLive now = false) : x.2.isLive now = false := by
  rw [set_eq] at hgone
  split at hgone
  next =>
    rw [put_entries, List.map_cons, List.mem_cons, not_or] at hgone
    obtain ⟨hne, hgone⟩ := hgone
    have hroom : x ∉ c.room (Fingerprint.ofToken token) := fun hm => hgone (List.mem_map_of_mem hm)
    unfold room at hroom
    split at hroom
    next =>
      -- What has made room stands last, so it expires first.
      rw [h.evict_entries, mem_without, not_and_not_right] at hroom
      rcases List.eq_nil_or_concat c.entries with hnil | ⟨init, last, hc⟩
      · rw [hnil] at hx
        cases hx
      · rw [List.concat_eq_append] at hc
        have horder := h.order
        rw [hc, List.pairwise_append] at horder
        rw [hc, List.mem_append, List.mem_singleton] at hx hy
        rw [hc, List.dropLast_concat] at hroom
        obtain rfl : x = last := hx.resolve_left fun hm => hne (hroom hm)
        simp only [Entry.isLive, decide_eq_false_iff_not] at hexpired ⊢
        rcases hy with hy | rfl
        · have hle := (horder.2.2 y hy x (by simp)).2
          omega
        · exact hexpired
    next => exact absurd (mem_without.2 ⟨hx, hne⟩) hroom
  next => exact absurd (List.mem_map_of_mem hx) hgone

/-! ## Entries and items -/

/-- An entry without the number of its write. -/
def itemOf (x : Fingerprint × Entry) : Item := ⟨x.1, x.2.outcome, x.2.expiresAt⟩

/-- The items of the queue are the entries of the cache in the order of the writes. -/
structure Mirrors (c : Cache) (q : Queue) : Prop where
  ttl_eq : q.ttl = c.ttl
  maxSize_eq : q.maxSize = c.maxSize
  evictions_eq : q.evictions = c.evictions
  items_eq : q.items = (c.entries.map itemOf).reverse

theorem Mirrors.start (ttl maxSize t₀ : Nat) : Mirrors (start ttl maxSize t₀) (Queue.start ttl maxSize) :=
  ⟨rfl, rfl, rfl, rfl⟩

theorem Mirrors.length_items (h : Mirrors c q) : q.items.length = c.size := by
  rw [h.items_eq, List.length_reverse, List.length_map, size]

theorem Mirrors.mem_items (h : Mirrors c q) {x : Item} : x ∈ q.items ↔ ∃ y ∈ c.entries, itemOf y = x := by
  rw [h.items_eq, List.mem_reverse, List.mem_map]

theorem Mirrors.has_iff (h : Mirrors c q) {k : Fingerprint} : q.has k = true ↔ k ∈ c.entries.map Prod.fst := by
  simp only [Queue.has, List.any_eq_true, beq_iff_eq, h.mem_items, List.mem_map]
  constructor
  · rintro ⟨_, ⟨y, hy, rfl⟩, hk⟩; exact ⟨y, hy, hk⟩
  · rintro ⟨y, hy, hk⟩; exact ⟨_, ⟨y, hy, rfl⟩, hk⟩

theorem Mirrors.isFull_iff (h : Mirrors c q) : q.isFull = true ↔ 0 < c.maxSize ∧ c.maxSize ≤ c.size := by
  simp [Queue.isFull, h.maxSize_eq, h.length_items]

theorem Mirrors.others_eq (h : Mirrors c q) (k : Fingerprint) :
    q.others k = ((without c.entries k).map itemOf).reverse := by
  rw [Queue.others, h.items_eq, List.filter_reverse, List.filter_map]
  rfl

/-- In the order of the writes, what has expired stands in front. -/
theorem dropWhile_expired {items : List Item} (h : items.Pairwise fun x y => x.expiresAt ≤ y.expiresAt) :
    (items.dropWhile fun x => x.expiresAt ≤ now) = items.filter fun x => now < x.expiresAt := by
  induction items with
  | nil => rfl
  | cons x items ih =>
    rw [List.pairwise_cons] at h
    by_cases hx : x.expiresAt ≤ now
    · rw [List.dropWhile_cons_of_pos (by simpa using hx), ih h.2, List.filter_cons_of_neg (by simpa using hx)]
    · rw [List.dropWhile_cons_of_neg (by simpa using hx), eq_comm, List.filter_eq_self]
      intro y hy
      rcases List.mem_cons.1 hy with rfl | hy
      · simpa using hx
      · have hle := h.1 y hy
        simp only [decide_eq_true_eq]
        omega

/-- Where no two items have the same key, the one under a key is found. -/
theorem find?_key_eq_some_iff {items : List Item} (h : (items.map Item.key).Nodup) {k : Fingerprint} {x : Item} :
    (items.find? fun y => y.key == k) = .some x ↔ x ∈ items ∧ x.key = k := by
  constructor
  · intro hfind
    exact ⟨List.mem_of_find?_eq_some hfind, by simpa using List.find?_some hfind⟩
  · rintro ⟨hx, rfl⟩
    cases hfind : items.find? fun y => y.key == x.key with
    | none => exact absurd (List.find?_eq_none.1 hfind x hx) (by simp)
    | some y =>
      have hkey : y.key = x.key := by simpa using List.find?_some hfind
      rw [List.inj_on_of_nodup_map h (List.mem_of_find?_eq_some hfind) hx hkey]

/-! ## Operations -/

theorem Mirrors.get_eq (h : Mirrors c q) (ho : Ordered c now) (httl : 0 < c.ttl) (token : String) :
    (c.get now token).1 = q.get now token := by
  have hkeys : (q.items.map Item.key).Nodup := by
    rw [h.items_eq, List.map_reverse, List.nodup_reverse, List.map_map]
    exact ho.keys
  refine Option.ext fun o => ?_
  rw [ho.get_eq_some_iff, Queue.get]
  simp only [Option.map_eq_some_iff, Option.filter_eq_some_iff, find?_key_eq_some_iff hkeys, h.mem_items, httl,
    true_and, decide_eq_true_eq]
  constructor
  · rintro ⟨e, he, hlive, ho⟩
    exact ⟨_, ⟨⟨⟨_, he, rfl⟩, rfl⟩, hlive⟩, ho⟩
  · rintro ⟨_, ⟨⟨⟨y, hy, rfl⟩, hk⟩, hlive⟩, ho⟩
    exact ⟨y.2, by rw [← hk]; exact hy, hlive, ho⟩

/-- What there is room for, and the eviction that it costs. -/
theorem Mirrors.room_eq (h : Mirrors c q) (ho : Ordered c now) (k : Fingerprint) :
    ((c.room k).map itemOf).reverse =
      if q.has k then q.others k else if q.isFull then q.items.tail else q.items := by
  unfold room
  by_cases hhas : q.has k = true
  · have hk := h.has_iff.1 hhas
    rw [if_pos hhas, if_neg fun hfull => (isFullFor_iff.1 hfull).1 hk, h.others_eq]
  · have hk : k ∉ c.entries.map Prod.fst := fun hk => hhas (h.has_iff.2 hk)
    rw [if_neg hhas]
    by_cases hfull : q.isFull = true
    · have hinit : k ∉ c.entries.dropLast.map Prod.fst := fun hm =>
        hk (((List.dropLast_sublist _).map Prod.fst).subset hm)
      rw [if_pos hfull, if_pos (isFullFor_iff.2 ⟨hk, h.isFull_iff.1 hfull⟩), ho.evict_entries,
        without_of_notMem hinit, List.map_dropLast, h.items_eq, List.tail_reverse]
    · rw [if_neg hfull, if_neg fun hf => hfull (h.isFull_iff.2 (isFullFor_iff.1 hf).2), without_of_notMem hk,
        h.items_eq]

theorem Mirrors.evictions_put (h : Mirrors c q) (k : Fingerprint) (o : Outcome) (t : Nat) :
    (c.put k o t).evictions = if q.has k then q.evictions else if q.isFull then q.evictions + 1 else q.evictions := by
  have hfull : c.isFullFor k = true ↔ ¬ q.has k = true ∧ q.isFull = true := by
    rw [isFullFor_iff, h.has_iff, h.isFull_iff]
  rw [Cache.evictions_put, h.evictions_eq]
  by_cases hhas : q.has k = true <;> by_cases hf : q.isFull = true <;> simp [hfull, hhas, hf]

theorem Mirrors.set (h : Mirrors c q) (ho : Ordered c now) (httl : 0 < c.ttl)
    (hrep : now + c.ttl < Clock.horizon) (token : String) (o : Outcome) :
    Mirrors (c.set now token o) (q.set now token o) := by
  have hroom := h.room_eq ho (Fingerprint.ofToken token)
  have hevictions := h.evictions_put (Fingerprint.ofToken token) o (now + c.ttl)
  obtain ⟨_, hput⟩ := c.put_eq (Fingerprint.ofToken token) o (now + c.ttl)
  rw [set_eq, if_pos ⟨httl, hrep⟩]
  unfold Queue.set
  refine ⟨?_, ?_, ?_, ?_⟩
  · rw [hput, ← h.ttl_eq]; dsimp only; split <;> [rfl; split <;> rfl]
  · rw [hput, ← h.maxSize_eq]; dsimp only; split <;> [rfl; split <;> rfl]
  · rw [hevictions]; dsimp only; split <;> [rfl; split <;> rfl]
  · rw [put_entries, List.map_cons, List.reverse_cons, hroom, itemOf, h.ttl_eq]
    dsimp only
    split <;> [rfl; split <;> rfl]

theorem Mirrors.sweep (h : Mirrors c q) (ho : Ordered c now) : Mirrors (c.sweep now) (q.sweep now) := by
  have horder : q.items.Pairwise fun x y => x.expiresAt ≤ y.expiresAt := by
    rw [h.items_eq, List.pairwise_reverse, List.pairwise_map]
    exact ho.order.imp fun hle => hle.2
  refine ⟨h.ttl_eq, h.maxSize_eq, h.evictions_eq, ?_⟩
  rw [Queue.sweep]
  dsimp only
  rw [dropWhile_expired horder, h.items_eq, List.filter_reverse, List.filter_map]
  rfl

/-- An operation reads the same of a cache and of its queue, and the queue remains that of the cache. -/
theorem Mirrors.act (h : Mirrors c q) (ho : Ordered c now) (httl : 0 < c.ttl)
    (hrep : now + c.ttl < Clock.horizon) (op : Op) :
    (c.act now op).1 = (q.act now op).1 ∧ Mirrors (c.act now op).2 (q.act now op).2 := by
  cases op with
  | get token =>
    obtain ⟨_, _, hget⟩ := c.get_eq now token
    refine ⟨h.get_eq ho httl token, ?_⟩
    simp only [Cache.act, Queue.act, hget]
    exact ⟨h.ttl_eq, h.maxSize_eq, h.evictions_eq, h.items_eq⟩
  | set token o => exact ⟨rfl, h.set ho httl hrep token o⟩
  | delete token =>
    exact ⟨rfl, h.ttl_eq, h.maxSize_eq, h.evictions_eq, h.others_eq (Fingerprint.ofToken token)⟩
  | sweep => exact ⟨rfl, h.sweep ho⟩
  | stop => exact ⟨rfl, h.ttl_eq, h.maxSize_eq, h.evictions_eq, h.items_eq⟩

/-! ## Histories -/

/-- In the course of a history, what can be told of a cache is what can be told of its queue. -/
theorem Mirrors.views_eq (h : Mirrors c q) (hk : Kept c now) (httl : 0 < c.ttl) {hist : History}
    (htime : hist.InTime) (hfrom : ∀ x ∈ hist, now ≤ x.1) (hrep : ∀ x ∈ hist, x.1 + c.ttl < Clock.horizon) :
    c.views hist = q.views hist := by
  induction hist generalizing c q now with
  | nil => rfl
  | cons x hist ih =>
    obtain ⟨later, op⟩ := x
    rw [History.InTime, List.pairwise_cons] at htime
    simp only [List.forall_mem_cons] at hfrom hrep
    have hk := hk.mono hfrom.1
    obtain ⟨hread, hnext⟩ := h.act hk.toOrdered httl hrep.1 op
    have hkept := hk.act op
    have hrest := ih hnext hkept (by simpa using httl) htime.2 htime.1 (by simpa using hrep.2)
    simp only [views, Queue.views, hread, hrest, hnext.evictions_eq, hnext.length_items, hkept.gauge_eq]

/-- **A cache is a queue in the order of writes.** In the course of any history at which the clock can tell the
expiries, each operation reads the same of a cache and of the queue, and leaves the same number of entries and of
evictions, the published one included: a write takes out what is there under its key, or the head of a full queue, and
goes to the end. At any instant later on, the entry that would make room is the same in whatever order the entries are
gone through, and a write that takes away an entry under another key takes one that has expired, if any has. -/
theorem views_eq_queue {ttl maxSize t₀ : Nat} (httl : 0 < ttl) {h : History} (htime : h.InTime)
    (hrep : ∀ x ∈ h, x.1 + ttl < Clock.horizon) :
    (start ttl maxSize t₀).views h = (Queue.start ttl maxSize).views h ∧
      (∀ entries, entries.Perm ((start ttl maxSize t₀).after h).entries →
        earliest entries = earliest ((start ttl maxSize t₀).after h).entries) ∧
      ∀ now token o, (∀ x ∈ h, x.1 ≤ now) →
        ∀ x ∈ ((start ttl maxSize t₀).after h).entries,
          x.1 ∉ ((((start ttl maxSize t₀).after h).set now token o).entries.map Prod.fst) →
            (∃ y ∈ ((start ttl maxSize t₀).after h).entries, y.2.isLive now = false) → x.2.isLive now = false := by
  have hordered {n : Nat} (hn : ∀ x ∈ h, x.1 ≤ n) : Ordered ((start ttl maxSize t₀).after h) n :=
    (Ordered.start ttl maxSize t₀ 0).after htime (fun _ _ => Nat.zero_le _) (Nat.zero_le _) hn
  refine ⟨?_, fun entries hperm => ?_, fun now token o hn x hx hgone ⟨y, hy, hexpired⟩ => ?_⟩
  · have hk : Kept (start ttl maxSize t₀) 0 :=
      { Ordered.start ttl maxSize t₀ 0 with gauge_eq := rfl, off := fun _ => rfl }
    exact (Mirrors.start ttl maxSize t₀).views_eq hk httl htime (fun _ _ => Nat.zero_le _) hrep
  · have hn : ∀ x ∈ h, x.1 ≤ h.toFinset.sup Prod.fst := fun x hx => Finset.le_sup (List.mem_toFinset.2 hx)
    exact earliest_eq_of_perm (hordered hn).nodup_seqs hperm
  · exact (hordered hn).expired_of_evicted token o hx hgone hy hexpired

/-- In a cache for two, three writes at one instant, a renewal that saves an entry, a sweep and an eviction. -/
theorem views_eq_queue_renewed :
    let o : Outcome := .denied .unauthorized
    let h : History :=
      [(0, .set "a" o), (0, .set "b" o), (0, .set "a" o), (0, .set "c" o), (3, .get "b"), (3, .get "a"),
        (4, .set "c" o), (10, .sweep), (12, .set "b" o), (13, .set "a" o), (13, .delete "b")]
    (0 < 10 ∧ h.InTime ∧ ∀ x ∈ h, x.1 + 10 < Clock.horizon) ∧
      (start 10 2 0).views h = (Queue.start 10 2).views h ∧
      ((start 10 2 0).views h).map View.size = [1, 2, 2, 2, 2, 2, 2, 1, 2, 2, 1] ∧
      ((start 10 2 0).views h).map View.evictions = [0, 0, 0, 1, 1, 1, 1, 1, 1, 2, 2] := by
  intro o h
  have htime : h.InTime := by unfold History.InTime; decide
  have hrep : ∀ x ∈ h, x.1 + 10 < Clock.horizon := by decide
  refine ⟨⟨by decide, htime, hrep⟩, (views_eq_queue (by decide) htime hrep).1, ?_, ?_⟩
  · decide +kernel
  · decide +kernel

end TokenGate.Cache
