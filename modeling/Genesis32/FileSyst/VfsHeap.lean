import Mathlib.Data.List.AList
import Genesis32.Library.LinkedList
import Genesis32.FileSyst.Bpb
import Genesis32.Disk.Driver

/-!
# The objects of the virtual file system

The structures of `file_syst/vfs.h`, the globals of `file_syst/vfs.c` and the memory that
`heap_cream_malloc` hands out for them. A pointer is a number and `0` is NULL. An object is known by
its type: a function that reads or writes through a pointer to anything but a live object of the
type it expects has no result.

The allocator is taken at what it promises: a call returns NULL or memory that is not in use. Which
of the two, and where, comes with the call, as an offer that fails where the memory is taken.
-/

namespace Genesis32

open Word

/-- A pointer; `0` is NULL. -/
abbrev Ptr := Nat

/-- The `CTE_` constants. -/
inductive ContentType where
  | mountPnt
  | file
  | dir
  | root
  deriving DecidableEq, Repr

/-- `struct cache_table_entry`. The union of a mount entry and a node is one pointer. -/
structure CacheTableEntry where
  pathHash : UInt64
  contentType : ContentType
  content : Ptr
  refcount : Nat
  flags : Nat
  next : Ptr
  prev : Ptr

/-- The fields of `struct partition` that mounting reads. -/
structure PartitionRef where
  fDisk : DiskPorts
  startSect : Nat

/-- `struct mount_table_entry`. -/
structure MountTableEntry where
  mntPart : PartitionRef
  fsRootNode : Ptr
  ctTableEntry : Ptr
  fsBpb : Ptr
  next : Ptr
  prev : Ptr

/-- `struct vfs_node`, without the fields that nothing here reads or writes. -/
structure VfsNode where
  size : Nat
  nodeId : Nat
  mode : Nat
  content : Ptr
  originMountPoint : Ptr
  fsSpecific : Nat

/-- What a pointer from `heap_cream_malloc` points to. -/
inductive VfsObject where
  | cacheEntry (e : CacheTableEntry)
  | mountEntry (e : MountTableEntry)
  | vfsNode (n : VfsNode)
  | bpb (b : Fat16Bpb)
  | sector

/-- A type of objects. -/
structure ObjectKind (ε : Type) where
  wrap : ε → VfsObject
  unwrap : VfsObject → Option ε
  unwrap_iff : ∀ o e, unwrap o = some e ↔ o = wrap e

/-- A type of objects with the two pointers of a linked list. -/
structure LinkKind (ε : Type) extends ObjectKind ε where
  next : ε → Ptr
  prev : ε → Ptr
  setNext : Ptr → ε → ε
  setPrev : Ptr → ε → ε
  next_setNext : ∀ p e, next (setNext p e) = p
  prev_setNext : ∀ p e, prev (setNext p e) = prev e
  next_setPrev : ∀ p e, next (setPrev p e) = next e
  prev_setPrev : ∀ p e, prev (setPrev p e) = p

def cacheKind : LinkKind CacheTableEntry where
  wrap := .cacheEntry
  unwrap
    | .cacheEntry e => some e
    | _ => none
  unwrap_iff o e := by cases o <;> simp
  next := CacheTableEntry.next
  prev := CacheTableEntry.prev
  setNext p e := { e with next := p }
  setPrev p e := { e with prev := p }
  next_setNext _ _ := rfl
  prev_setNext _ _ := rfl
  next_setPrev _ _ := rfl
  prev_setPrev _ _ := rfl

def mountKind : LinkKind MountTableEntry where
  wrap := .mountEntry
  unwrap
    | .mountEntry e => some e
    | _ => none
  unwrap_iff o e := by cases o <;> simp
  next := MountTableEntry.next
  prev := MountTableEntry.prev
  setNext p e := { e with next := p }
  setPrev p e := { e with prev := p }
  next_setNext _ _ := rfl
  prev_setNext _ _ := rfl
  next_setPrev _ _ := rfl
  prev_setPrev _ _ := rfl

def nodeKind : ObjectKind VfsNode where
  wrap := .vfsNode
  unwrap
    | .vfsNode n => some n
    | _ => none
  unwrap_iff o e := by cases o <;> simp

def bpbKind : ObjectKind Fat16Bpb where
  wrap := .bpb
  unwrap
    | .bpb b => some b
    | _ => none
  unwrap_iff o e := by cases o <;> simp

/-- The globals of `vfs.c` and the live objects. `given` is what `heap_cream_malloc` has returned
and `freed` what `heap_cream_free` has been called with, NULL apart, in order. -/
structure VfsState where
  heap : AList fun _ : Ptr => VfsObject
  given : List Ptr
  freed : List Ptr
  mountTableStart : Ptr
  mountTableLast : Ptr
  cacheTableStart : Ptr
  cacheTableLast : Ptr
  cacheTableCount : Nat
  vfsInodeIdCount : Nat

namespace VfsState

variable {ε : Type}

/-- The object that a pointer points to. -/
def object (s : VfsState) (p : Ptr) : Option VfsObject :=
  if p = 0 then none else s.heap.lookup p

/-- The state with an object at a pointer. -/
def put (s : VfsState) (p : Ptr) (o : VfsObject) : VfsState :=
  { s with heap := s.heap.insert p o }

/-- A read of an object through a pointer. -/
def deref (s : VfsState) (K : ObjectKind ε) (p : Ptr) : Option ε :=
  (s.object p).bind K.unwrap

/-- A write to an object through a pointer. -/
def update (s : VfsState) (K : ObjectKind ε) (p : Ptr) (f : ε → ε) : Option VfsState :=
  (s.deref K p).map fun e => s.put p (K.wrap (f e))

/-- `heap_cream_malloc`, with the bytes that the memory has before it is filled. -/
def heapCreamMalloc (s : VfsState) (offer : Ptr) (stale : VfsObject) : Ptr × VfsState :=
  if offer = 0 ∨ (s.object offer).isSome then (0, s)
  else (offer, { s.put offer stale with given := s.given ++ [offer] })

/-- `heap_cream_free`. -/
def heapCreamFree (s : VfsState) (ptr : Ptr) : VfsState :=
  if ptr = 0 then s else { s with heap := s.heap.erase ptr, freed := s.freed ++ [ptr] }

/-- The next and the previous pointer of an object. -/
def links (s : VfsState) (K : LinkKind ε) (p : Ptr) : Option (Ptr × Ptr) :=
  (s.deref K.toObjectKind p).map fun e => (K.next e, K.prev e)

/-- A walk along a list that visits more cells than there are objects never ends. -/
def rounds (s : VfsState) : Nat := s.heap.keys.length + 1

/-! ## Reading after writing -/

theorem object_zero (s : VfsState) : s.object 0 = none := rfl

theorem ne_zero_of_object {s : VfsState} {p : Ptr} {o : VfsObject} (h : s.object p = some o) :
    p ≠ 0 := by
  rintro rfl
  cases h

theorem object_put {s : VfsState} {p : Ptr} (hp : p ≠ 0) (o : VfsObject) (x : Ptr) :
    (s.put p o).object x = if x = p then some o else s.object x := by
  unfold object put
  rcases eq_or_ne x p with rfl | hx
  · rw [if_neg hp, if_pos rfl]
    exact AList.lookup_insert _
  · rw [if_neg hx]
    simp only [AList.lookup_insert_ne hx]

theorem object_free (s : VfsState) (p x : Ptr) :
    (s.heapCreamFree p).object x = if x = p then none else s.object x := by
  unfold heapCreamFree
  rcases eq_or_ne p 0 with rfl | hp
  · rw [if_pos rfl]
    rcases eq_or_ne x 0 with rfl | hx
    · rw [if_pos rfl, object_zero]
    · rw [if_neg hx]
  · rw [if_neg hp]
    unfold object
    rcases eq_or_ne x p with rfl | hx
    · rw [if_neg hp, if_pos rfl]
      exact AList.lookup_erase _ _
    · rw [if_neg hx]
      simp only [AList.lookup_erase_ne hx]

theorem object_count (s : VfsState) (count : Nat) (x : Ptr) :
    ({ s with cacheTableCount := count } : VfsState).object x = s.object x := rfl

/-! `heap_cream_free` changes no global. -/

@[simp] theorem free_mount_table_start (s : VfsState) (p : Ptr) :
    (s.heapCreamFree p).mountTableStart = s.mountTableStart := by
  unfold heapCreamFree
  split_ifs <;> rfl

@[simp] theorem free_mount_table_last (s : VfsState) (p : Ptr) :
    (s.heapCreamFree p).mountTableLast = s.mountTableLast := by
  unfold heapCreamFree
  split_ifs <;> rfl

@[simp] theorem free_cache_table_start (s : VfsState) (p : Ptr) :
    (s.heapCreamFree p).cacheTableStart = s.cacheTableStart := by
  unfold heapCreamFree
  split_ifs <;> rfl

@[simp] theorem free_cache_table_last (s : VfsState) (p : Ptr) :
    (s.heapCreamFree p).cacheTableLast = s.cacheTableLast := by
  unfold heapCreamFree
  split_ifs <;> rfl

@[simp] theorem free_cache_table_count (s : VfsState) (p : Ptr) :
    (s.heapCreamFree p).cacheTableCount = s.cacheTableCount := by
  unfold heapCreamFree
  split_ifs <;> rfl

@[simp] theorem free_given (s : VfsState) (p : Ptr) :
    (s.heapCreamFree p).given = s.given := by
  unfold heapCreamFree
  split_ifs <;> rfl

/-- A call to `heap_cream_malloc` returns NULL or memory that was not in use. -/
theorem heap_cream_malloc_cases (s : VfsState) (offer : Ptr) (stale : VfsObject) :
    (s.heapCreamMalloc offer stale = (0, s) ∧ (offer = 0 ∨ (s.object offer).isSome)) ∨
    (s.heapCreamMalloc offer stale =
        (offer, { s.put offer stale with given := s.given ++ [offer] }) ∧
      offer ≠ 0 ∧ s.object offer = none) := by
  unfold heapCreamMalloc
  by_cases h : offer = 0 ∨ (s.object offer).isSome
  · rw [if_pos h]
    exact Or.inl ⟨rfl, h⟩
  · rw [if_neg h]
    push Not at h
    exact Or.inr ⟨rfl, h.1, by simpa using h.2⟩

theorem deref_iff {s : VfsState} {K : ObjectKind ε} {p : Ptr} {e : ε} :
    s.deref K p = some e ↔ s.object p = some (K.wrap e) := by
  unfold deref
  rw [Option.bind_eq_some_iff]
  constructor
  · intro hall
    obtain ⟨o, ho, he⟩ := hall
    rw [ho, (K.unwrap_iff o e).mp he]
  · intro h
    exact ⟨_, h, (K.unwrap_iff _ e).mpr rfl⟩

theorem update_of_object {s : VfsState} {K : ObjectKind ε} {p : Ptr} {e : ε}
    (h : s.object p = some (K.wrap e)) (f : ε → ε) :
    s.update K p f = some (s.put p (K.wrap (f e))) := by
  unfold update
  rw [deref_iff.mpr h, Option.map_some]

theorem object_of_update {s s' : VfsState} {K : ObjectKind ε} {p : Ptr} {f : ε → ε}
    (h : s.update K p f = some s') :
    ∃ e, s.object p = some (K.wrap e) ∧ s' = s.put p (K.wrap (f e)) := by
  obtain ⟨e, he, rfl⟩ := Option.map_eq_some_iff.mp h
  exact ⟨e, deref_iff.mp he, rfl⟩

theorem links_of_object {s : VfsState} {K : LinkKind ε} {p : Ptr} {e : ε}
    (h : s.object p = some (K.wrap e)) : s.links K p = some (K.next e, K.prev e) := by
  unfold links
  rw [deref_iff.mpr h, Option.map_some]

/-- A list of live cells has no more cells than there are objects. -/
theorem length_lt_rounds {s : VfsState} {l : List Ptr} (hnodup : l.Nodup)
    (hlive : ∀ p ∈ l, (s.object p).isSome) : l.length < s.rounds := by
  have hsub : l ⊆ s.heap.keys := fun p hp => by
    have hsome := hlive p hp
    unfold object at hsome
    rcases eq_or_ne p 0 with rfl | hne
    · rw [if_pos rfl] at hsome
      cases hsome
    · rw [if_neg hne] at hsome
      exact AList.mem_keys.mp (AList.lookup_isSome.mp hsome)
  exact Nat.lt_succ_of_le (List.subperm_of_subset hnodup hsub).length_le

end VfsState

end Genesis32
