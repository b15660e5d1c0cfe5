/-!
# Shards

Keys are spread over a fixed number of shards, at least one. A key always has
the same shard. Each shard has a lock: whoever resolves a property holds the lock
of the shard of its key meanwhile.
-/

namespace Overlay

/-- The number of shards there are when `count` are asked for. -/
def shardCount (count : Nat) : Nat := max count 1

/-- A number for a key that depends on all of its characters. -/
def keyHash (key : String) : Nat :=
  key.toList.foldl (fun hash c => (hash * 31 + c.toNat) % 4294967291) 7

/-- The shard of a key. -/
def shardOf (count : Nat) (key : String) : Nat := keyHash key % shardCount count

theorem shardOf_lt (count : Nat) (key : String) : shardOf count key < shardCount count :=
  Nat.mod_lt _ (by unfold shardCount; omega)

structure Locks where
  /-- The number of shards asked for. -/
  count : Nat
  /-- The shards whose locks are held. -/
  taken : List Nat := []

namespace Locks

/-- Take the lock of a key's shard, unless it is held already. -/
def lock? (locks : Locks) (key : String) : Option Locks :=
  if shardOf locks.count key ∈ locks.taken then none
  else some { locks with taken := shardOf locks.count key :: locks.taken }

def unlock (locks : Locks) (key : String) : Locks :=
  { locks with taken := locks.taken.erase (shardOf locks.count key) }

theorem lock?_of_free {locks : Locks} (h : locks.taken = []) (key : String) :
    ∃ locked, locks.lock? key = some locked ∧ locked.unlock key = locks := by
  obtain ⟨count, taken⟩ := locks
  obtain rfl : taken = [] := h
  exact ⟨_, rfl, by simp [unlock]⟩

end Locks

end Overlay
