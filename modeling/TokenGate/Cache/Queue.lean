/-
The queue that a cache amounts to: a list of what has been written, the oldest write first.

It has no numbers of writes, and no entry is looked for that is to make room: that is the one at the head. What can be
told of a cache and of a queue from outside after each operation of a history is a list of views.
-/
import TokenGate.Cache.History

namespace TokenGate.Cache

/-- What was written under a key, and until when it is seen. -/
structure Item where
  key : Fingerprint
  outcome : Outcome
  expiresAt : Nat
deriving DecidableEq

/-- What has been written and is still there, in the order of the writes. -/
structure Queue where
  ttl : Nat
  /-- How many items there may be; zero sets no bound. -/
  maxSize : Nat
  items : List Item
  evictions : Nat

/-- What can be told from outside after an operation: what it has read, and the number of entries, of evictions, and
of entries as it is published. -/
structure View where
  read : Option Outcome
  size : Nat
  evictions : Nat
  gauge : Nat
deriving DecidableEq

namespace Queue

/-- The queue before anything is written. -/
def start (ttl maxSize : Nat) : Queue := ⟨ttl, maxSize, [], 0⟩

/-- Whether there is something under the key. -/
def has (q : Queue) (k : Fingerprint) : Bool :=
  q.items.any fun x => x.key == k

/-- Whether there is no room for one more item. -/
def isFull (q : Queue) : Bool :=
  0 < q.maxSize && q.maxSize ≤ q.items.length

/-- The items other than that under the key. -/
def others (q : Queue) (k : Fingerprint) : List Item :=
  q.items.filter fun x => x.key != k

def get (q : Queue) (now : Nat) (token : String) : Option Outcome :=
  ((q.items.find? fun x => x.key == Fingerprint.ofToken token).filter fun x => now < x.expiresAt).map Item.outcome

/-- Writes at the end. What is there under the key is taken out; if there is nothing, and no room, the head is. -/
def set (q : Queue) (now : Nat) (token : String) (o : Outcome) : Queue :=
  let k := Fingerprint.ofToken token
  let fresh : Item := ⟨k, o, now + q.ttl⟩
  if q.has k then { q with items := q.others k ++ [fresh] }
  else if q.isFull then { q with items := q.items.tail ++ [fresh], evictions := q.evictions + 1 }
  else { q with items := q.items ++ [fresh] }

def delete (q : Queue) (token : String) : Queue :=
  { q with items := q.others (Fingerprint.ofToken token) }

/-- Takes items from the head as long as they have expired. -/
def sweep (q : Queue) (now : Nat) : Queue :=
  { q with items := q.items.dropWhile fun x => x.expiresAt ≤ now }

/-- What an operation reads, and the queue after it. -/
def act (q : Queue) (now : Nat) : Op → Option Outcome × Queue
  | .get token => (q.get now token, q)
  | .set token o => (.none, q.set now token o)
  | .delete token => (.none, q.delete token)
  | .sweep => (.none, q.sweep now)
  | .stop => (.none, q)

/-- What can be told of a queue in the course of a history. It publishes its length. -/
def views (q : Queue) : History → List View
  | [] => []
  | (now, op) :: h =>
    let (read, q) := q.act now op
    ⟨read, q.items.length, q.evictions, q.items.length⟩ :: q.views h

end Queue

/-- What can be told of a cache in the course of a history. -/
def views (c : Cache) : History → List View
  | [] => []
  | (now, op) :: h =>
    let (read, c) := c.act now op
    ⟨read, c.size, c.evictions, c.gauge⟩ :: c.views h

end TokenGate.Cache
