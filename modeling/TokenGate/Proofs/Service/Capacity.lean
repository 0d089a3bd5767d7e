/-
How much a cache stores, and the cache of the service.

Whatever happens to the service happens to its cache as operations, passing time and ticks of the sweeper
(`reachable_run`). So what `Kept` says of a cache holds of the service's at all times, and one that was made from an
accepted configuration has room for at least one outcome and stores no more than it has room for.
-/
import TokenGate.Proofs.Cache.Representation
import TokenGate.Proofs.Config
import TokenGate.Proofs.Service.Turns
import TokenGate.Server

namespace TokenGate

variable {Q : Type} {Answer : Q → Type}

/-! ## Accepted configurations -/

namespace Config

theorem cacheMaxSize_pos_of_parse {s : String} {o : Overrides} {c : Config} (h : parse s o = .ok c) :
    0 < c.cacheMaxSize := by
  obtain ⟨d, -, rfl, hfault⟩ := parse_eq_ok_iff.1 h
  exact (fault?_eq_none_iff.1 hfault).cacheMaxSize

end Config

/-! ## The cache of the service -/

/-- Operations other than a stop, passing time and ticks that are not put off keep `P`, which may depend on the
instant. -/
structure Cache.Keeps (P : Nat → Cache → Prop) : Prop where
  act {now : Nat} {c : Cache} {op : Cache.Op} : op ≠ .stop → P now c → P now (c.act now op).2
  pass {now later : Nat} {c : Cache} : P now c → now ≤ later → P later c
  flow {now t : Nat} {c : Cache} : P now c → t ≤ now → P now (c.flow t)
  jump {now t : Nat} {c : Cache} : P now c → t ≤ now → P now (c.jump t)
  tick {now t : Nat} {c : Cache} : P now c → t ≤ now → P now (c.tick t)

theorem Cache.Reachable.await {ttl maxSize now : Nat} {c : Cache} (h : Cache.Reachable ttl maxSize now c) (d : Nat) :
    Cache.Reachable ttl maxSize (now + d) (c.await now (now + d)) := by
  have hlater := h.pass (Nat.le_add_right now d)
  unfold Cache.await
  split
  next hfar =>
    have hle := Nat.le_trans (Timer.holdsFrom_le hfar) (Clock.firing_le (now + d))
    exact (hlater.flow (by omega)).putOff _
  next => exact hlater.flow (Nat.sub_le _ _)

theorem Cache.keeps_reachable (ttl maxSize : Nat) : Cache.Keeps (Cache.Reachable ttl maxSize) where
  act _ h := h.act _
  pass h hle := h.pass hle
  flow h hle := h.flow hle
  jump h hle := h.jump hle
  tick h hle := h.tick hle

namespace Service

open Cache (Keeps Reachable)

variable {ttl maxSize : Nat} {P : Nat → Cache → Prop}

theorem keeps_memorize (hP : Keeps P) {s : Service Answer} (h : P s.now s.cache) (token : String)
    (memo : Option Outcome) : P (s.memorize token memo).now (s.memorize token memo).cache := by
  unfold memorize
  split
  next o => exact hP.act (show Cache.Op.set token o ≠ .stop by simp) h
  next => exact h

theorem keeps_proceed (hP : Keeps P) {w : Wiring Answer} {s : Service Answer} (h : P s.now s.cache) (id : Nat)
    (token : String) (cancelAt : Option Nat) (x : Exchange Answer Resolution) :
    P (s.proceed w id token cancelAt x).1.now (s.proceed w id token cancelAt x).1.cache := by
  cases x with
  | done r => exact keeps_memorize hP h token r.memo
  | ask q resume =>
    simp only [proceed, countQuestion]
    split <;> exact h

variable [DecidableEq Q]

/-- What is kept of a cache is kept of that of the service, unless its sweeper is told to stop, and as long as it is kept
while something waits for a timer. -/
theorem keeps_step (hP : Keeps P) {w : Wiring Answer} {s : Service Answer} (h : P s.now s.cache) {e : Event Answer}
    (he : e ≠ .stop) (hwait : ∀ d, e = .pass d → P (s.now + d) (s.cache.await s.now (s.now + d))) :
    P (s.step w e).1.now (s.step w e).1.cache := by
  cases e with
  | begin id token cancelAt =>
    have hget : P s.now (s.cache.get s.now token).2 := hP.act (show Cache.Op.get token ≠ .stop by simp) h
    simp only [step, begin]
    split
    next o cache heq => rw [heq] at hget; exact hget
    next cache heq =>
      rw [heq] at hget
      split
      next => exact hget
      next => exact keeps_proceed hP (s := { s with cache := cache }) hget id token cancelAt _
  | answer id q a =>
    simp only [step, answer]
    split
    next f _ =>
      split
      next hq =>
        split
        next => exact h
        next =>
          exact keeps_proceed hP (s := (s.land id).observe (w.provider.headers q a)) h id f.token f.cancelAt _
      next => exact h
    next => exact h
  | cancel id =>
    simp only [step, cancel]
    split <;> exact h
  | pass d => exact hwait d rfl
  | settle => exact hP.flow h (Nat.le_refl _)
  | jump d => exact hP.jump (hP.pass h (Nat.le_add_right s.now d)) (Nat.le_refl _)
  | stall d => exact hP.pass h (Nat.le_add_right s.now d)
  | tick => exact hP.tick h (Nat.le_refl _)
  | lookUp token => exact hP.act (show Cache.Op.get token ≠ .stop by simp) h
  | remember token o => exact hP.act (show Cache.Op.set token o ≠ .stop by simp) h
  | forget token => exact hP.act (show Cache.Op.delete token ≠ .stop by simp) h
  | report hs => exact h
  | stop => exact absurd rfl he

theorem reachable_step {w : Wiring Answer} {s : Service Answer} (h : Reachable ttl maxSize s.now s.cache)
    (e : Event Answer) : Reachable ttl maxSize (s.step w e).1.now (s.step w e).1.cache := by
  by_cases he : e = .stop
  · subst he
    exact h.act .stop
  · exact keeps_step (Cache.keeps_reachable ttl maxSize) h he fun d _ => h.await d

theorem reachable_run {w : Wiring Answer} {s : Service Answer} (h : Reachable ttl maxSize s.now s.cache)
    (events : List (Event Answer)) : Reachable ttl maxSize (s.run w events).now (s.run w events).cache := by
  induction events generalizing s with
  | nil => exact h
  | cons e events ih => exact ih (reachable_step h e)

theorem reachable_start (w : Wiring Answer) (events : List (Event Answer)) :
    Reachable ttl maxSize ((start ttl maxSize).run w events).now ((start ttl maxSize).run w events).cache :=
  reachable_run (.start 0) events

end Service

/-! ## The representation of a cache -/

namespace Cache

/-- **A cache keeps its representation sound.** Whatever becomes of a cache: it has no more entries than it has room
for, if that is bounded; its gauge tells how many it has; no two entries have the same key or the same number, and each
number is below that of the next write; each entry expires at most one lifetime from now; and a cache that is off is
empty and never gives anything. A write that is not skipped adds one entry where its key is new and there is room, and
none otherwise. So a service with an accepted configuration never remembers more outcomes than it is configured to. -/
theorem representation_sound :
    (∀ {ttl maxSize now : Nat} {c : Cache}, Reachable ttl maxSize now c →
      (0 < maxSize → c.size ≤ maxSize) ∧ c.gauge = c.size ∧ (c.entries.map Prod.fst).Nodup ∧
      (c.entries.map fun x => x.2.seq).Nodup ∧ (∀ x ∈ c.entries, x.2.seq < c.nextSeq) ∧
      (∀ x ∈ c.entries, x.2.expiresAt ≤ now + ttl) ∧
      (ttl = 0 → c.entries = [] ∧ ∀ t token, c.get t token = (.none, { c with misses := c.misses + 1 })) ∧
      ∀ token o, 0 < ttl → now + ttl < Clock.horizon →
        (c.set now token o).size =
          if Fingerprint.ofToken token ∈ c.entries.map Prod.fst ∨ 0 < maxSize ∧ maxSize ≤ c.size then c.size
          else c.size + 1) ∧
    ∀ {s : String} {o : Overrides} {conf : Config}, Config.parse s o = .ok conf →
      ∀ {Q : Type} {Answer : Q → Type} [DecidableEq Q] (w : Wiring Answer) (events : List (Event Answer)),
        ((Service.ofConfig conf).run w events).cache.size ≤ conf.cacheMaxSize := by
  refine ⟨fun {ttl maxSize now c} h => ?_, fun {s o conf} hparse Q Answer _ w events => ?_⟩
  · have hk := kept_of_reachable h
    obtain ⟨rfl, rfl⟩ := h.limits
    refine ⟨hk.size_le, hk.gauge_eq, hk.keys, hk.nodup_seqs, hk.seq_lt, hk.expires_le, fun hoff => ?_, ?_⟩
    · exact ⟨hk.off hoff, fun t token => by simp only [get, lookup, hoff, if_true]⟩
    · intro token o hpos hrep
      rw [set_eq, if_pos ⟨hpos, hrep⟩]
      exact hk.size_put _ _ _
  · have h : Reachable (conf.cacheTtl * Clock.second) conf.cacheMaxSize _ _ := Service.reachable_start w events
    have hle := (kept_of_reachable h).size_le
    rw [h.limits.2] at hle
    exact hle (Config.cacheMaxSize_pos_of_parse hparse)

/-- A cache for two that has evicted one of three entries and is swept while both others are live is full; a write
under a fourth key leaves it so. -/
theorem representation_sound_full :
    let ms := Clock.millisecond
    let o : Outcome := .denied .unauthorized
    let c := ((((start (20 * ms) 2 0).set 0 "a" o).set ms "b" o).set (2 * ms) "c" o).flow (20 * ms)
    let conf : Config := { Config.preset with org := "acme", cacheMaxSize := 2 }
    let w : Wiring Call.Reply := ⟨.direct, conf.policy⟩
    (Reachable (20 * ms) 2 (20 * ms) c ∧ c.size = 2 ∧ c.evictions = 1 ∧ c.sweeper ≠ (start (20 * ms) 2 0).sweeper) ∧
      (c.gauge = c.size ∧ (c.set (20 * ms) "d" o).size = 2 ∧ (c.set (20 * ms) "b" o).size = 2) ∧
      Config.parse "org: acme\ncache:\n  max_size: 2\n" .none = .ok conf ∧
      ∀ events, ((Service.ofConfig conf).run w events).cache.size ≤ 2 := by
  intro ms o c conf w
  have hwrite : ∀ {now c} token, Reachable (20 * ms) 2 now c → Reachable (20 * ms) 2 now (c.set now token o) :=
    fun token h => h.act (.set token o)
  have hreach : Reachable (20 * ms) 2 (20 * ms) c := by
    have ha := hwrite "a" (.start 0)
    have hb := hwrite "b" (ha.pass (Nat.zero_le ms))
    have hc := hwrite "c" (hb.pass (by decide : ms ≤ 2 * ms))
    exact (hc.pass (by decide : 2 * ms ≤ 20 * ms)).flow (Nat.le_refl _)
  have hsize : c.size = 2 := by decide +kernel
  have hparse : Config.parse "org: acme\ncache:\n  max_size: 2\n" .none = .ok conf := by decide +kernel
  obtain ⟨-, hgauge, -, -, -, -, -, hset⟩ := representation_sound.1 hreach
  refine ⟨⟨hreach, hsize, by decide +kernel, by decide +kernel⟩, ⟨hgauge, ?_, ?_⟩, hparse, ?_⟩
  · rw [hset "d" o (by decide) (by decide), if_pos (.inr ⟨by decide, Nat.le_of_eq hsize.symm⟩), hsize]
  · rw [hset "b" o (by decide) (by decide), if_pos (.inl (by decide +kernel)), hsize]
  · exact representation_sound.2 hparse w

end Cache

end TokenGate
