/-
The cache of outcomes: bounded in size, with a lifetime for its entries, and keyed by the fingerprint of a token.

An entry is gone for readers from the instant on at which it expires. It leaves the store when it is deleted, when
a sweep finds it expired, or when it is the one closest to its expiry and a new key needs room. A lifetime of zero
switches the cache off, and a size of zero leaves it unbounded.
-/
import TokenGate.Cache.Sweeper
import TokenGate.Denial
import TokenGate.Fingerprint
import TokenGate.Timer

namespace TokenGate

/-- A stored outcome. -/
structure Entry where
  outcome : Outcome
  expiresAt : Nat
  /-- The number of the write that stored it, which breaks ties between equal expiries. -/
  seq : Nat
deriving DecidableEq

namespace Entry

/-- Whether readers still see the entry at `now`. -/
def isLive (e : Entry) (now : Nat) : Bool :=
  now < e.expiresAt

/-- Whether `e` is to make room before `f` is. -/
def isBefore (e f : Entry) : Bool :=
  e.expiresAt < f.expiresAt || (e.expiresAt == f.expiresAt && e.seq < f.seq)

end Entry

/-- The cache, with what it counts. -/
structure Cache where
  /-- How long an entry lives; zero switches the cache off. -/
  ttl : Nat
  /-- How many entries there may be; zero sets no bound. -/
  maxSize : Nat
  entries : List (Fingerprint × Entry)
  /-- The number of the next write. -/
  nextSeq : Nat
  /-- The schedule of the sweeper, until it has ended. -/
  sweeper : Option Sweeper
  /-- Whether the sweeper has been told to stop. -/
  isStopping : Bool
  hits : Nat
  misses : Nat
  evictions : Nat
  /-- The number of entries as it was last published. -/
  gauge : Nat

namespace Cache

/-- An empty cache, made at `now`. -/
def start (ttl : Nat) (maxSize : Nat) (now : Nat) : Cache where
  ttl := ttl
  maxSize := maxSize
  entries := []
  nextSeq := 0
  sweeper := if ttl = 0 then .none else .some (Sweeper.start ttl now)
  isStopping := false
  hits := 0
  misses := 0
  evictions := 0
  gauge := 0

/-- The number of stored entries, expired ones included. -/
def size (c : Cache) : Nat :=
  c.entries.length

/-- Whether the sweeper runs and goes on. One that has been told to stop ends when it is its turn. -/
def isSweeping (c : Cache) : Bool :=
  c.sweeper.isSome && !c.isStopping

/-! ## Operations on fingerprints -/

/-- Reads the outcome stored under `k`, and counts a hit or a miss. -/
def lookup (c : Cache) (now : Nat) (k : Fingerprint) : Option Outcome × Cache :=
  if c.ttl = 0 then (.none, { c with misses := c.misses + 1 })
  else match c.entries.lookup k with
    | .some e =>
      if e.isLive now then (.some e.outcome, { c with hits := c.hits + 1 })
      else (.none, { c with misses := c.misses + 1 })
    | .none => (.none, { c with misses := c.misses + 1 })

/-- The entries without those under `k`. -/
def without (entries : List (Fingerprint × Entry)) (k : Fingerprint) : List (Fingerprint × Entry) :=
  entries.filter fun kv => kv.1 != k

/-- The key of the entry that makes room first: the one closest to its expiry, and among equals the one written
first. -/
def earliest : List (Fingerprint × Entry) → Option (Fingerprint × Entry)
  | [] => .none
  | kv :: rest =>
    match earliest rest with
    | .none => .some kv
    | .some other => if other.2.isBefore kv.2 then .some other else .some kv

/-- Whether writing under `k` needs room that there is not. -/
def isFullFor (c : Cache) (k : Fingerprint) : Bool :=
  (c.entries.lookup k).isNone && c.maxSize > 0 && c.maxSize ≤ c.size

/-- Takes out the entry that makes room first, and counts that. -/
def evict (c : Cache) : Cache :=
  match earliest c.entries with
  | .some (k, _) => { c with entries := without c.entries k, evictions := c.evictions + 1 }
  | .none => c

/-- Publishes the number of entries. -/
def publish (c : Cache) : Cache :=
  { c with gauge := c.size }

/-- Stores an outcome under `k`, in place of what is there. -/
def put (c : Cache) (k : Fingerprint) (o : Outcome) (expiresAt : Nat) : Cache :=
  let c := if c.isFullFor k then c.evict else c
  publish { c with entries := (k, ⟨o, expiresAt, c.nextSeq⟩) :: without c.entries k, nextSeq := c.nextSeq + 1 }

/-- Stores an outcome under `k` for one lifetime. Nothing is stored when the cache is off, or when the clock
cannot tell the instant of the expiry. -/
def store (c : Cache) (now : Nat) (k : Fingerprint) (o : Outcome) : Cache :=
  if c.ttl = 0 then c
  else match Clock.later? now c.ttl with
    | .some t => c.put k o t
    | .none => c

/-- Takes out what is stored under `k`. -/
def remove (c : Cache) (k : Fingerprint) : Cache :=
  publish { c with entries := without c.entries k }

/-- Takes out all entries that have expired by `now`. -/
def sweep (c : Cache) (now : Nat) : Cache :=
  publish { c with entries := c.entries.filter fun kv => kv.2.isLive now }

/-! ## Operations on tokens -/

/-- The outcome that the cache has for a token. -/
def get (c : Cache) (now : Nat) (token : String) : Option Outcome × Cache :=
  c.lookup now (Fingerprint.ofToken token)

/-- Remembers an outcome for a token. -/
def set (c : Cache) (now : Nat) (token : String) (o : Outcome) : Cache :=
  c.store now (Fingerprint.ofToken token) o

/-- Forgets what is known about a token. -/
def delete (c : Cache) (token : String) : Cache :=
  c.remove (Fingerprint.ofToken token)

/-! ## Time -/

/-- Tells the sweeper to stop. -/
def stop (c : Cache) : Cache :=
  { c with isStopping := true }

/-- A tick that is due comes, and the sweeper goes on unless it has been told to stop. -/
def tick (c : Cache) (now : Nat) : Cache :=
  match c.sweeper with
  | .some s =>
    if s.isDue now then { c.sweep now with sweeper := if c.isStopping then .none else .some (s.tick now) } else c
  | .none => c

/-- Time flows up to `now`, and every tick comes when it is due, unless the sweeper ends because it has been told to.
Nothing is written in between, so the last sweep takes out all that the ones before it would have. -/
def flow (c : Cache) (now : Nat) : Cache :=
  if c.isStopping then { c with sweeper := .none }
  else match c.sweeper.bind (Sweeper.lastTick? · now) with
    | .some (s, t) => { c.sweep t with sweeper := .some (s.tick t) }
    | .none => c

/-- The clock is set forward to `now` at once. A tick that is due comes then, and only once. -/
def jump (c : Cache) (now : Nat) : Cache :=
  if c.isStopping then { c with sweeper := .none } else c.tick now

/-- The next tick cannot come before `t`. -/
def putOff (c : Cache) (t : Nat) : Cache :=
  { c with sweeper := c.sweeper.map (Sweeper.putOff · t) }

/-- Time flows from `now` to `t`, where something waits for a timer that is set to `t`. A tick that is due at the very
end is still to come. A timer that is far holds up the sweeper for as long as the wheel turns round for it. -/
def await (c : Cache) (now t : Nat) : Cache :=
  if Timer.isFar now t then (c.flow (Timer.holdsFrom now t - Clock.millisecond)).putOff (Timer.holdsUntil t)
  else c.flow (t - Clock.millisecond)

end Cache

end TokenGate
