/-
What a cache keeps true of its own bookkeeping.

`Kept` holds of whatever can have become of a cache (`kept_of_reachable`): its entries are ordered, the published size
is the true one, and a cache that is off is empty. Each operation either loses entries and publishes what is left, or
puts one entry in front of those that there is room for; the ticks of the sweeper are of the first kind.

`Ordered.size_put` tells what a write does to the size: the entry in front takes the place of the old one under its
key, or of the one that made room, or it comes on top.
-/
import TokenGate.Proofs.Cache.Order

namespace TokenGate.Cache

/-- The entries of `c` are in order at `now`, the gauge tells how many there are, and there are none in a cache that
is off. -/
structure Kept (c : Cache) (now : Nat) : Prop extends Ordered c now where
  gauge_eq : c.gauge = c.size
  off : c.ttl = 0 → c.entries = []

theorem Kept.start (ttl maxSize now : Nat) : Kept (start ttl maxSize now) now :=
  { Ordered.start ttl maxSize now now with gauge_eq := rfl, off := fun _ => rfl }

theorem Kept.mono {c : Cache} {now later : Nat} (h : Kept c now) (hle : now ≤ later) : Kept c later :=
  { h.toOrdered.mono hle with gauge_eq := h.gauge_eq, off := h.off }

/-- A cache that has lost entries at most and tells its size is kept. -/
theorem Kept.of_sublist {c d : Cache} {now : Nat} (h : Kept c now) (hs : d.entries.Sublist c.entries)
    (hseq : d.nextSeq = c.nextSeq) (httl : d.ttl = c.ttl) (hmax : d.maxSize = c.maxSize) (hgauge : d.gauge = d.size) :
    Kept d now where
  toOrdered := h.toOrdered.of_sublist hs hseq httl hmax
  gauge_eq := hgauge
  off hoff := List.sublist_nil.1 (h.off (httl ▸ hoff) ▸ hs)

/-! ## Operations -/

theorem Kept.act {c : Cache} {now : Nat} (h : Kept c now) (op : Op) : Kept (c.act now op).2 now := by
  have ho := h.toOrdered.act op
  cases op with
  | get token =>
    obtain ⟨_, _, hget⟩ := c.get_eq now token
    simp only [Cache.act, hget] at ho ⊢
    exact { ho with gauge_eq := h.gauge_eq, off := h.off }
  | set token o =>
    simp only [Cache.act, set_eq] at ho ⊢
    split at ho
    next hset =>
      rw [if_pos hset]
      obtain ⟨_, hput⟩ := c.put_eq (Fingerprint.ofToken token) o (now + c.ttl)
      rw [hput] at ho ⊢
      exact { ho with gauge_eq := rfl, off := fun hoff => absurd hoff (Nat.ne_of_gt hset.1) }
    next hset => rwa [if_neg hset]
  | delete token => exact h.of_sublist (without_sublist _ _) rfl rfl rfl rfl
  | sweep => exact h.of_sublist List.filter_sublist rfl rfl rfl rfl
  | stop => exact h.of_sublist (.refl _) rfl rfl rfl h.gauge_eq

theorem Kept.of_tended {c d : Cache} {now : Nat} (h : Kept c now) (htended : Tended c d) : Kept d now := by
  cases htended with
  | idle s => exact h.of_sublist (.refl _) rfl rfl rfl h.gauge_eq
  | swept t s => exact h.of_sublist List.filter_sublist rfl rfl rfl rfl

/-! ## Whatever becomes of a cache -/

variable {ttl maxSize now : Nat} {c : Cache}

theorem Reachable.limits (h : Reachable ttl maxSize now c) : c.ttl = ttl ∧ c.maxSize = maxSize := by
  have htended {c d : Cache} (h : Tended c d) (ih : c.ttl = ttl ∧ c.maxSize = maxSize) :
      d.ttl = ttl ∧ d.maxSize = maxSize := by
    rwa [h.limits.1, h.limits.2]
  induction h with
  | start => exact ⟨rfl, rfl⟩
  | act op _ ih => rwa [act_ttl, act_maxSize]
  | pass _ _ ih => exact ih
  | flow _ _ ih => exact htended (tended_flow ..) ih
  | jump _ _ ih => exact htended (tended_jump ..) ih
  | tick _ _ ih => exact htended (tended_tick ..) ih
  | putOff t _ ih => exact ih

theorem kept_of_reachable (h : Reachable ttl maxSize now c) : Kept c now := by
  induction h with
  | start now => exact .start ttl maxSize now
  | act op _ ih => exact ih.act op
  | pass _ hle ih => exact ih.mono hle
  | flow _ _ ih => exact ih.of_tended (tended_flow ..)
  | jump _ _ ih => exact ih.of_tended (tended_jump ..)
  | tick _ _ ih => exact ih.of_tended (tended_tick ..)
  | putOff t _ ih => exact ih.of_tended (.idle _)

/-! ## Sizes -/

/-- Of two entries one was written first. -/
theorem Ordered.nodup_seqs (h : Ordered c now) : (c.entries.map fun x => x.2.seq).Nodup :=
  List.pairwise_map.2 (h.order.imp fun hlt => Nat.ne_of_gt hlt.1)

/-- With distinct keys, one entry is taken out under a key that is there. -/
theorem length_without_of_mem {entries : List (Fingerprint × Entry)} (hn : (entries.map Prod.fst).Nodup)
    {k : Fingerprint} (h : k ∈ entries.map Prod.fst) : (without entries k).length + 1 = entries.length := by
  obtain ⟨x, hx, rfl⟩ := List.mem_map.1 h
  obtain ⟨l, l', rfl⟩ := List.append_of_mem hx
  rw [List.map_append, List.map_cons, List.nodup_middle, List.nodup_cons, List.mem_append, not_or] at hn
  rw [without_append, without_of_notMem hn.1.1]
  have hl' : without (x :: l') x.1 = l' := by
    rw [without, List.filter_cons_of_neg (by simp)]
    exact without_of_notMem hn.1.2
  simp only [hl', List.length_append, List.length_cons]
  omega

/-- A write adds an entry under a new key where there is room, and replaces one otherwise. -/
theorem Ordered.size_put (h : Ordered c now) (k : Fingerprint) (o : Outcome) (t : Nat) :
    (c.put k o t).size =
      if k ∈ c.entries.map Prod.fst ∨ 0 < c.maxSize ∧ c.maxSize ≤ c.size then c.size else c.size + 1 := by
  rw [size, put_entries, List.length_cons, room]
  by_cases hk : k ∈ c.entries.map Prod.fst
  · rw [if_neg fun hfull => (isFullFor_iff.1 hfull).1 hk, if_pos (Or.inl hk)]
    exact length_without_of_mem h.keys hk
  · by_cases hfull : 0 < c.maxSize ∧ c.maxSize ≤ c.size
    · have hevict : k ∉ c.evict.entries.map Prod.fst := fun hm =>
        hk ((c.evict_entries_sublist.map Prod.fst).subset hm)
      rw [if_pos (isFullFor_iff.2 ⟨hk, hfull⟩), if_pos (Or.inr hfull), without_of_notMem hevict, h.evict_entries,
        List.length_dropLast]
      exact Nat.sub_add_cancel (Nat.lt_of_lt_of_le hfull.1 hfull.2)
    · rw [if_neg fun hf => hfull (isFullFor_iff.1 hf).2, if_neg (not_or.2 ⟨hk, hfull⟩), without_of_notMem hk]
      rfl

end TokenGate.Cache
