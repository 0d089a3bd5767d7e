/-
How the entries of a cache come and go.

An operation that filters the entries loses those under the keys that are gone (`gained_add_size_of_filter`). A write
adds an entry under a new key, and if there is no room for it, the cache counts the one that has made room
(`Ordered.gained_put`). So entries added, less those taken out, are those that are there and those evicted.
-/
import TokenGate.Proofs.Cache.Representation
import TokenGate.Service.Ledger

namespace TokenGate.Cache

variable {c d : Cache} {now : Nat}

/-- Where all keys were there before, no entry is added. -/
theorem gained_eq_zero (h : d.entries ⊆ c.entries) : c.gained d = 0 := by
  refine List.countP_eq_zero.2 fun x hx hnew => ?_
  have hold : x.1 ∈ c.entries.map Prod.fst := List.mem_map_of_mem (h hx)
  simp [hold] at hnew

/-- With distinct keys, the entries that are lost and those that are left add up. -/
theorem gained_add_size_of_filter (hn : (c.entries.map Prod.fst).Nodup) {p : Fingerprint × Entry → Bool}
    (h : d.entries = c.entries.filter p) : d.gained c + d.size = c.size := by
  have hkey : ∀ x ∈ c.entries, (d.entries.map Prod.fst).contains x.1 = p x := by
    intro x hx
    rw [Bool.eq_iff_iff, List.contains_iff_mem, h, List.mem_map]
    constructor
    · rintro ⟨y, hy, hxy⟩
      have hyx : y = x := List.inj_on_of_nodup_map hn (List.mem_filter.1 hy).1 hx hxy
      exact hyx ▸ (List.mem_filter.1 hy).2
    · intro hp
      exact ⟨x, List.mem_filter.2 ⟨hx, hp⟩, rfl⟩
  have hlost : d.gained c = c.entries.countP fun x => !p x :=
    List.countP_congr fun x hx => by rw [hkey x hx]
  rw [hlost, size, size, h, ← List.countP_eq_length_filter, Nat.add_comm]
  simpa using (List.length_eq_countP_add_countP p).symm

theorem earliest_isSome {entries : List (Fingerprint × Entry)} (h : entries ≠ []) : (earliest entries).isSome := by
  cases entries with
  | nil => exact absurd rfl h
  | cons x rest =>
    rw [earliest]
    split
    next => rfl
    next => split <;> rfl

/-- A write evicts one entry where there is no room for a new one. -/
theorem evictions_put (c : Cache) (k : Fingerprint) (o : Outcome) (t : Nat) :
    (c.put k o t).evictions = c.evictions + if c.isFullFor k then 1 else 0 := by
  unfold put publish
  by_cases hfull : c.isFullFor k = true
  · obtain ⟨-, hpos, hge⟩ := isFullFor_iff.1 hfull
    have hentries : c.entries ≠ [] := by
      intro hnil
      rw [size, hnil] at hge
      exact absurd hge (Nat.not_le.2 hpos)
    obtain ⟨x, hx⟩ := Option.isSome_iff_exists.1 (earliest_isSome hentries)
    simp only [hfull, if_true, evict, hx]
  · simp only [hfull]
    rfl

theorem gained_put (c : Cache) (k : Fingerprint) (o : Outcome) (t : Nat) :
    c.gained (c.put k o t) = if k ∈ c.entries.map Prod.fst then 0 else 1 := by
  have hroom : (c.room k).countP (fun x => !(c.entries.map Prod.fst).contains x.1) = 0 := by
    refine List.countP_eq_zero.2 fun x hx hnew => ?_
    have hold : x.1 ∈ c.entries.map Prod.fst := List.mem_map_of_mem ((c.room_sublist k).subset hx)
    simp [hold] at hnew
  rw [gained, put_entries, List.countP_cons, hroom]
  by_cases hk : k ∈ c.entries.map Prod.fst
  · simp [hk]
  · simp [hk]

/-- A write adds an entry exactly if one more is there or has been evicted. -/
theorem Ordered.size_add_evictions_put (h : Ordered c now) (k : Fingerprint) (o : Outcome) (t : Nat) :
    (c.put k o t).size + (c.put k o t).evictions = c.size + c.evictions + c.gained (c.put k o t) := by
  rw [h.size_put, evictions_put, gained_put]
  by_cases hk : k ∈ c.entries.map Prod.fst
  · have hfull : ¬ c.isFullFor k = true := fun hfull => (isFullFor_iff.1 hfull).1 hk
    simp [hk, hfull]
  · by_cases hfull : c.isFullFor k = true
    · have hroom := (isFullFor_iff.1 hfull).2
      simp only [hk, hfull, hroom, and_self, or_true, if_true, if_false]
      omega
    · have hroom : ¬ (0 < c.maxSize ∧ c.maxSize ≤ c.size) := fun hroom => hfull (isFullFor_iff.2 ⟨hk, hroom⟩)
      simp only [hk, hfull, hroom, or_self, if_false, Bool.false_eq_true]
      omega

end TokenGate.Cache
