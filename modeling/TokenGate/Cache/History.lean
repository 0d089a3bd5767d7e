/-
Histories of a cache: what was done with it, and when.

A user of a cache reads, writes and deletes. Sweeps come in between at any instants, and the sweeper may be stopped.
What a user learns is the outcome of each read and the counts of hits and misses.

`Reachable` holds of whatever can have become of a cache, the ticks of its own sweeper included.
-/
import TokenGate.Cache.Basic

namespace TokenGate.Cache

/-- What can be done with a cache. -/
inductive Op where
  | get (token : String)
  | set (token : String) (o : Outcome)
  | delete (token : String)
  | sweep
  | stop
deriving DecidableEq

namespace Op

/-- Whether it is a user who does it. -/
def isUse : Op → Bool
  | get _ | set _ _ | delete _ => true
  | sweep | stop => false

/-- The fingerprint that is written under. -/
def written? : Op → Option Fingerprint
  | set token _ => .some (Fingerprint.ofToken token)
  | _ => .none

/-- The fingerprint under which an entry is written or taken out. -/
def changed? : Op → Option Fingerprint
  | set token _ | delete token => .some (Fingerprint.ofToken token)
  | _ => .none

end Op

/-- What was done with a cache, with the instant of each operation, in order. -/
abbrev History := List (Nat × Op)

namespace History

/-- The instants never go back. -/
def InTime (h : History) : Prop :=
  h.Pairwise fun x y => x.1 ≤ y.1

/-- What its user did. -/
def uses (h : History) : History :=
  h.filter fun x => x.2.isUse

/-- The fingerprints that were written under, in order. -/
def written (h : History) : List Fingerprint :=
  h.filterMap fun x => x.2.written?

/-- The last write under `k` was that of `o` at `s`, and `since` is what came after it: nothing was written or
deleted under `k` any more. -/
def LastWrite (h : History) (k : Fingerprint) (s : Nat) (o : Outcome) (since : History) : Prop :=
  ∃ before token, h = before ++ (s, .set token o) :: since ∧ Fingerprint.ofToken token = k ∧
    ∀ x ∈ since, x.2.changed? ≠ .some k

end History

/-- What an operation reads, and the cache after it. -/
def act (c : Cache) (now : Nat) : Op → Option Outcome × Cache
  | .get token => c.get now token
  | .set token o => (.none, c.set now token o)
  | .delete token => (.none, c.delete token)
  | .sweep => (.none, c.sweep now)
  | .stop => (.none, c.stop)

/-- The cache after a history. -/
def after (c : Cache) (h : History) : Cache :=
  h.foldl (fun c x => (c.act x.1 x.2).2) c

/-- What can have become of a cache by an instant: operations are done with it, time passes, and the ticks of its
sweeper come, whether time flows or the clock is set forward, or are put off. -/
inductive Reachable (ttl maxSize : Nat) : Nat → Cache → Prop where
  | start (now : Nat) : Reachable ttl maxSize now (start ttl maxSize now)
  | act {now : Nat} {c : Cache} (op : Op) : Reachable ttl maxSize now c → Reachable ttl maxSize now (c.act now op).2
  | pass {now later : Nat} {c : Cache} : Reachable ttl maxSize now c → now ≤ later → Reachable ttl maxSize later c
  | flow {now t : Nat} {c : Cache} : Reachable ttl maxSize now c → t ≤ now → Reachable ttl maxSize now (c.flow t)
  | jump {now t : Nat} {c : Cache} : Reachable ttl maxSize now c → t ≤ now → Reachable ttl maxSize now (c.jump t)
  | tick {now t : Nat} {c : Cache} : Reachable ttl maxSize now c → t ≤ now → Reachable ttl maxSize now (c.tick t)
  | putOff {now : Nat} {c : Cache} (t : Nat) : Reachable ttl maxSize now c → Reachable ttl maxSize now (c.putOff t)

/-- What a user learns from one operation: what it reads, and how many hits and misses there have been by then. -/
structure Sight where
  read : Option Outcome
  hits : Nat
  misses : Nat
deriving DecidableEq

/-- What the user learns from a history, operation by operation. -/
def sights (c : Cache) : History → List Sight
  | [] => []
  | (now, op) :: h =>
    let (read, c) := c.act now op
    if op.isUse then ⟨read, c.hits, c.misses⟩ :: c.sights h else c.sights h

@[simp] theorem after_nil (c : Cache) : c.after [] = c := rfl

@[simp] theorem after_cons (c : Cache) (x : Nat × Op) (h : History) :
    c.after (x :: h) = (c.act x.1 x.2).2.after h := rfl

@[simp] theorem after_append (c : Cache) (h h' : History) : c.after (h ++ h') = (c.after h).after h' :=
  List.foldl_append

end TokenGate.Cache
