import Leviculum.Lib.BoundedMap
import Leviculum.Lib.OrdMap
import Leviculum.Lib.Select

/-! The two bounded tables of the source. The host keeps a second map from insertion number to key; the
board stamps each value with a wrapping number and looks for the oldest stamp. Both are one queue. -/

namespace Leviculum.BoundedTables

open Select

/-! ### The host's table -/

/-- A value together with the insertion sequence that orders it. -/
structure Slot (V : Type) where
  seq : Nat
  value : V

structure BoundedMap (K V : Type) [LinearOrder K] where
  map : OrdMap K (Slot V)
  /-- Insertion sequence to key. -/
  order : OrdMap Nat K
  nextSeq : Nat
  capacity : Nat

namespace BoundedMap

variable {K V : Type} [LinearOrder K]

def evictionScan : Nat := 64

def new (capacity : Nat) : BoundedMap K V := ⟨∅, ∅, 0, max capacity 1⟩

def get (m : BoundedMap K V) (key : K) : Option V := (m.map.get? key).map (·.value)

/-- Write through `get_mut`. -/
def modify (m : BoundedMap K V) (key : K) (change : V → V) : BoundedMap K V :=
  match m.map.get? key with
  | none => m
  | some slot => { m with map := m.map.insert key { slot with value := change slot.value } }

def remove (m : BoundedMap K V) (key : K) : BoundedMap K V :=
  match m.map.get? key with
  | none => m
  | some slot => { m with map := m.map.erase key, order := m.order.erase slot.seq }

/-- Drop the victim the policy picks. -/
def evict (m : BoundedMap K V) (prefer : K → V → Bool) : Option (K × V) × BoundedMap K V :=
  let oldest := m.order.entries.take evictionScan
  match (oldest.find? (fun entry => (m.map.get? entry.2).any (fun slot => prefer entry.2 slot.value))).or oldest.head? with
  | none => (none, m)
  | some (seq, key) =>
    ((m.map.get? key).map (fun slot => (key, slot.value)),
      { m with map := m.map.erase key, order := m.order.erase seq })

/-- Insert, preferring to evict the oldest entry `prefer` accepts; with the entry evicted. -/
def insertPreferring (m : BoundedMap K V) (key : K) (value : V) (prefer : K → V → Bool) :
    Option (K × V) × BoundedMap K V :=
  let seq := m.nextSeq
  let counted := { m with nextSeq := seq + 1 }
  match counted.map.get? key with
  | some slot =>
    (none, { counted with
      map := counted.map.insert key ⟨seq, value⟩
      order := (counted.order.erase slot.seq).insert seq key })
  | none =>
    let evicted := if counted.capacity ≤ counted.map.size then counted.evict prefer else (none, counted)
    (evicted.1, { evicted.2 with
      map := evicted.2.map.insert key ⟨seq, value⟩
      order := evicted.2.order.insert seq key })

def insert (m : BoundedMap K V) (key : K) (value : V) : Option (K × V) × BoundedMap K V :=
  m.insertPreferring key value (fun _ _ => false)

def insertIfAbsent (m : BoundedMap K V) (key : K) (value : V) : BoundedMap K V :=
  if m.map.contains key then m else (m.insert key value).2

/-- Retain the entries that satisfy `keep`. -/
def retain (m : BoundedMap K V) (keep : K → V → Bool) : BoundedMap K V :=
  { m with
    map := m.map.retain (fun key slot => keep key slot.value)
    order := m.map.entries.foldl (fun order entry =>
      if keep entry.1 entry.2.value then order else order.erase entry.2.seq) m.order }

/-- Drop the entries that `keep` rejects and hand them back. -/
def drainRejected (m : BoundedMap K V) (keep : K → V → Bool) : List (K × V) × BoundedMap K V :=
  ((m.map.entries.filter (fun entry => !keep entry.1 entry.2.value)).map (fun entry => (entry.1, entry.2.value)),
    m.retain keep)

def clear (m : BoundedMap K V) : BoundedMap K V := { m with map := ∅, order := ∅ }

end BoundedMap

/-! ### The board's table -/

/-- A map of fixed capacity, as the board's table uses it. -/
structure IndexMap (K V : Type) where
  Carrier : Type
  /-- The entries in the order the map iterates in. -/
  entries : Carrier → List (K × V)
  empty : Carrier
  insert : Carrier → K → V → Carrier
  /-- Write through `get_mut`. -/
  set : Carrier → K → V → Carrier
  remove : Carrier → K → Carrier
  retain : Carrier → (K → V → Bool) → Carrier

/-- What makes it a finite map: the iteration order is free, the entries are not. -/
structure IndexMap.Correct {K V : Type} [DecidableEq K] (H : IndexMap K V) (N : Nat) : Prop where
  nodup : ∀ m, ((H.entries m).map Prod.fst).Nodup
  empty : H.entries H.empty = []
  insert : ∀ m key value, key ∉ (H.entries m).map Prod.fst → (H.entries m).length < N →
    (H.entries (H.insert m key value)).Perm ((key, value) :: H.entries m)
  set : ∀ m key value, key ∈ (H.entries m).map Prod.fst →
    (H.entries (H.set m key value)).Perm ((key, value) :: (H.entries m).filter (fun entry => entry.1 ≠ key))
  remove : ∀ m key, (H.entries (H.remove m key)).Perm ((H.entries m).filter (fun entry => entry.1 ≠ key))
  retain : ∀ m keep, (H.entries (H.retain m keep)).Perm ((H.entries m).filter (fun entry => keep entry.1 entry.2))

structure OrderedMap {K V : Type} (H : IndexMap K (UInt32 × V)) where
  map : H.Carrier
  /-- Insertion counter; wraps. -/
  nextSeq : UInt32

namespace OrderedMap

variable {K V : Type} [DecidableEq K] {H : IndexMap K (UInt32 × V)}

def new (H : IndexMap K (UInt32 × V)) : OrderedMap H := ⟨H.empty, 0⟩

def slot (m : OrderedMap H) (key : K) : Option (UInt32 × V) :=
  ((H.entries m.map).find? (fun entry => entry.1 = key)).map Prod.snd

def get (m : OrderedMap H) (key : K) : Option V := (m.slot key).map Prod.snd

/-- The key of greatest age under wrapping subtraction. -/
def oldestKey (m : OrderedMap H) : Option K :=
  (maxBy (fun a b => (m.nextSeq - b.2.1).toNat < (m.nextSeq - a.2.1).toNat) (H.entries m.map)).map Prod.fst

/-- Write through `get_mut`. -/
def modify (m : OrderedMap H) (key : K) (change : V → V) : OrderedMap H :=
  match m.slot key with
  | none => m
  | some (seq, value) => { m with map := H.set m.map key (seq, change value) }

def remove (m : OrderedMap H) (key : K) : OrderedMap H := { m with map := H.remove m.map key }

def insert (N : Nat) (m : OrderedMap H) (key : K) (value : V) : OrderedMap H :=
  let seq := m.nextSeq
  let bumped : OrderedMap H := { m with nextSeq := seq + 1 }
  match bumped.slot key with
  | some _ => { bumped with map := H.set bumped.map key (seq, value) }
  | none =>
    let room := if N ≤ (H.entries bumped.map).length then
        match bumped.oldestKey with
        | some oldest => H.remove bumped.map oldest
        | none => bumped.map
      else bumped.map
    { bumped with map := H.insert room key (seq, value) }

def retain (m : OrderedMap H) (keep : K → V → Bool) : OrderedMap H :=
  { m with map := H.retain m.map (fun key stamped => keep key stamped.2) }

end OrderedMap

end Leviculum.BoundedTables
