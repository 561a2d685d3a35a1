/- digest: A map whose entries are reached under the lock of their shard. -/

import ContextEngine.Lib.Collections

/-!
Every access asks for the shard of its key. A guard on an entry keeps the shard until it is dropped,
and a request for a shard that is kept is never granted: the result is `none`, and what follows
does not run.
-/

namespace ContextEngine

namespace HashMap

variable {K V : Type} [DecidableEq K]

theorem erase_eq_self {m : HashMap K V} {k : K} (missing : m.lookup k = none) : m.erase k = m := by
  rw [AList.lookup_eq_none] at missing
  exact AList.ext (List.kerase_of_notMem_keys missing)

theorem erase_insert (m : HashMap K V) (k : K) (v : V) : (m.insert k v).erase k = m.erase k := by
  refine AList.ext ?_
  change List.kerase k (⟨k, v⟩ :: List.kerase k m.entries) = List.kerase k m.entries
  exact List.kerase_cons_eq rfl

end HashMap

structure ShardedMap (K V S : Type) where
  table : HashMap K V
  held : List S

namespace ShardedMap

variable {K V S : Type} [DecidableEq K] [DecidableEq S]

section Operations

variable (shardOf : K → S) (map : ShardedMap K V S) (key : K)

/-- Read an entry. No guard is kept. -/
def get : Option (Option V) :=
  if shardOf key ∈ map.held then none else some (map.table.lookup key)

/-- Get hold of an entry in order to change it. A guard is kept if there is an entry. -/
def getMut : Option (Option V × ShardedMap K V S) :=
  if shardOf key ∈ map.held then none
  else
    match map.table.lookup key with
    | some entry => some (some entry, { map with held := shardOf key :: map.held })
    | none => some (none, map)

/-- Write through a guard. -/
def store (entry : V) : ShardedMap K V S := { map with table := map.table.insert key entry }

/-- Drop a guard. -/
def release : ShardedMap K V S := { map with held := map.held.erase (shardOf key) }

def remove : Option (ShardedMap K V S) :=
  if shardOf key ∈ map.held then none else some { map with table := map.table.erase key }

end Operations

variable {shardOf : K → S} {table : HashMap K V} {key : K} {held : List S}

theorem get_of_free (free : shardOf key ∉ held) :
    get shardOf ⟨table, held⟩ key = some (table.lookup key) := if_neg free

theorem get_of_held (kept : shardOf key ∈ held) : get shardOf ⟨table, held⟩ key = none :=
  if_pos kept

theorem getMut_of_some {entry : V} (free : shardOf key ∉ held)
    (found : table.lookup key = some entry) :
    getMut shardOf ⟨table, held⟩ key = some (some entry, ⟨table, shardOf key :: held⟩) := by
  rw [getMut, if_neg free]
  simp only [found]

theorem getMut_of_none (free : shardOf key ∉ held) (missing : table.lookup key = none) :
    getMut shardOf ⟨table, held⟩ key = some (none, ⟨table, held⟩) := by
  rw [getMut, if_neg free]
  simp only [missing]

theorem remove_of_free (free : shardOf key ∉ held) :
    remove shardOf ⟨table, held⟩ key = some ⟨table.erase key, held⟩ := if_neg free

omit [DecidableEq K] in
@[simp] theorem release_cons (table : HashMap K V) (held : List S) :
    release shardOf ⟨table, shardOf key :: held⟩ key = ⟨table, held⟩ := by
  rw [release, List.erase_cons_head]

theorem release_or_remove (free : shardOf key ∉ held) (bare : Bool) (entry : V) :
    (if bare then
        remove shardOf (release shardOf (store ⟨table, shardOf key :: held⟩ key entry) key) key
      else some (release shardOf (store ⟨table, shardOf key :: held⟩ key entry) key)) =
      some ⟨table.alter key fun _ => if bare then none else some entry, held⟩ := by
  have released : release shardOf (store ⟨table, shardOf key :: held⟩ key entry) key =
      ⟨table.insert key entry, held⟩ := release_cons _ _
  rw [released]
  cases bare with
  | true => simp [remove_of_free free, HashMap.erase_insert, HashMap.alter]
  | false => simp [HashMap.alter]

end ShardedMap

end ContextEngine
