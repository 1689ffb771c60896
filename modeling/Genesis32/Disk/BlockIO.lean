import Genesis32.Library.ByteMem
import Genesis32.Library.Word

/-!
# The disk as the file system sees it

`read_disk_block` and `write_disk_block` as a caller that ignores their return value sees them: the
check against the size of the disk, and then the sectors that the device moves before the command
ends. The bytes of the disk are one memory, with 512 of them in a sector. `BlockEnv` holds what the
operation cannot know: how far each command gets, what each call to `heap_cream_malloc` returns, and
what is on the stack where a local is not initialised.
-/

namespace Genesis32

open Word

/-- What an operation meets. The `n`-th command, of `total` sectors, moves `moved n total` of them
before it ends. The `n`-th call to `heap_cream_malloc` returns memory with the bytes that it held
before, or NULL. The last two are the locals of `get_free_cluster` that may not be initialised, in
the call that makes the `n`-th allocation. -/
structure BlockEnv where
  sectCount : Nat
  moved : Nat → Nat → Nat
  scratch : Nat → Option ByteMem
  newClusterSector : Nat → Nat
  curClusterSectNo : Nat → Nat

/-- The bytes of the disk, the number of commands and of allocations so far, the sectors that have
been written, in order, and whether a store has gone outside the memory it was meant for. -/
structure BlockState where
  disk : ByteMem
  commands : Nat
  mallocs : Nat
  written : List Nat
  stray : Bool

namespace BlockState

/-- `read_disk_block(disk, lba, total, &buf[a])`. -/
def readBlock (env : BlockEnv) (lba total : Nat) (buf : ByteMem) (a : Nat) (s : BlockState) :
    ByteMem × BlockState :=
  if add32 lba total > env.sectCount then (buf, s)
  else
    (buf.copy a s.disk (512 * lba) (512 * min total (env.moved s.commands total)),
      { s with commands := s.commands + 1 })

/-- `write_disk_block(disk, lba, total, &buf[a])`. -/
def writeBlock (env : BlockEnv) (lba total : Nat) (buf : ByteMem) (a : Nat) (s : BlockState) :
    BlockState :=
  if add32 lba total > env.sectCount then s
  else
    { s with
      disk := s.disk.copy (512 * lba) buf a (512 * min total (env.moved s.commands total))
      commands := s.commands + 1
      written := s.written ++ List.range' lba (min total (env.moved s.commands total)) }

/-- `heap_cream_malloc` for memory that is used without a test: no result on NULL. -/
def heapCreamMalloc (env : BlockEnv) (s : BlockState) : Option (ByteMem × BlockState) :=
  (env.scratch s.mallocs).map fun buf => (buf, { s with mallocs := s.mallocs + 1 })

end BlockState

/-- Every command moves all its sectors and no allocation fails. -/
structure BlockEnv.Works (env : BlockEnv) : Prop where
  moved : ∀ n total, total ≤ env.moved n total
  scratch : ∀ n, (env.scratch n).isSome
  size : env.sectCount < 4294967296

variable {env : BlockEnv} {s s' : BlockState}

theorem read_block_ok (hworks : env.Works) {lba total : Nat} (h : lba + total ≤ env.sectCount)
    (buf : ByteMem) (a : Nat) (s : BlockState) :
    s.readBlock env lba total buf a = (buf.copy a s.disk (512 * lba) (512 * total),
      { s with commands := s.commands + 1 }) := by
  have hsize := hworks.size
  unfold BlockState.readBlock
  rw [add32_of_lt (by omega), if_neg (by omega), Nat.min_eq_left (hworks.moved _ _)]

theorem write_block_ok (hworks : env.Works) {lba total : Nat} (h : lba + total ≤ env.sectCount)
    (buf : ByteMem) (a : Nat) (s : BlockState) :
    s.writeBlock env lba total buf a = { s with
      disk := s.disk.copy (512 * lba) buf a (512 * total)
      commands := s.commands + 1
      written := s.written ++ List.range' lba total } := by
  have hsize := hworks.size
  unfold BlockState.writeBlock
  rw [add32_of_lt (by omega), if_neg (by omega), Nat.min_eq_left (hworks.moved _ _)]

/-- A read stores where it is meant to. -/
@[simp] theorem read_block_stray (env : BlockEnv) (lba total : Nat) (buf : ByteMem) (a : Nat)
    (s : BlockState) : (s.readBlock env lba total buf a).2.stray = s.stray := by
  unfold BlockState.readBlock
  split_ifs <;> rfl

/-- So does a write. -/
@[simp] theorem write_block_stray (env : BlockEnv) (lba total : Nat) (buf : ByteMem) (a : Nat)
    (s : BlockState) : (s.writeBlock env lba total buf a).stray = s.stray := by
  unfold BlockState.writeBlock
  split_ifs <;> rfl

/-- A read leaves the disk alone. -/
@[simp] theorem read_block_disk (env : BlockEnv) (lba total : Nat) (buf : ByteMem) (a : Nat)
    (s : BlockState) : (s.readBlock env lba total buf a).2.disk = s.disk := by
  unfold BlockState.readBlock
  split_ifs <;> rfl

/-- A write, whether it fails or not, leaves every other sector alone. -/
theorem write_block_outside {lba total x : Nat} (hx : x < 512 * lba ∨ 512 * (lba + total) ≤ x)
    (buf : ByteMem) (a : Nat) (s : BlockState) :
    (s.writeBlock env lba total buf a).disk x = s.disk x := by
  have hmin : min total (env.moved s.commands total) ≤ total := Nat.min_le_left _ _
  unfold BlockState.writeBlock
  split_ifs
  · rfl
  · exact ByteMem.copy_outside (by omega)

theorem malloc_ok (hworks : env.Works) (s : BlockState) :
    ∃ buf, s.heapCreamMalloc env = some (buf, { s with mallocs := s.mallocs + 1 }) := by
  obtain ⟨buf, hbuf⟩ := Option.isSome_iff_exists.mp (hworks.scratch s.mallocs)
  refine ⟨buf, ?_⟩
  unfold BlockState.heapCreamMalloc
  rw [hbuf]
  rfl

/-! ## Effects -/

/-- From `s` to `s'` the disk becomes `disk`, every sector that is written lies in `[lo, hi)` and no
store goes astray. -/
structure IoEffect (lo hi : Nat) (s s' : BlockState) (disk : ByteMem) : Prop where
  disk : s'.disk = disk
  writes : ∃ sectors, s'.written = s.written ++ sectors ∧ ∀ x ∈ sectors, lo ≤ x ∧ x < hi
  stray : s'.stray = s.stray

namespace IoEffect

variable {lo hi : Nat} {disk disk' : ByteMem} {t : BlockState}

theorem refl (lo hi : Nat) (s : BlockState) : IoEffect lo hi s s s.disk where
  disk := rfl
  writes := ⟨[], by simp, fun _ hx => absurd hx List.not_mem_nil⟩
  stray := rfl

theorem trans (h : IoEffect lo hi s s' disk) (h' : IoEffect lo hi s' t disk') :
    IoEffect lo hi s t disk' where
  disk := h'.disk
  writes := by
    obtain ⟨xs, hxs, hin⟩ := h.writes
    obtain ⟨ys, hys, hin'⟩ := h'.writes
    refine ⟨xs ++ ys, by rw [hys, hxs, List.append_assoc], fun x hx => ?_⟩
    rcases List.mem_append.mp hx with hx | hx
    · exact hin x hx
    · exact hin' x hx
  stray := h'.stray.trans h.stray

theorem mono {lo' hi' : Nat} (h : IoEffect lo hi s s' disk) (hlo : lo' ≤ lo) (hhi : hi ≤ hi') :
    IoEffect lo' hi' s s' disk where
  disk := h.disk
  writes := by
    obtain ⟨xs, hxs, hin⟩ := h.writes
    exact ⟨xs, hxs, fun x hx => ⟨hlo.trans (hin x hx).1, (hin x hx).2.trans_le hhi⟩⟩
  stray := h.stray

/-- Commands that read, and allocations. -/
theorem reads (lo hi : Nat) (s : BlockState) (commands mallocs : Nat) :
    IoEffect lo hi s { s with commands := commands, mallocs := mallocs } s.disk where
  disk := rfl
  writes := ⟨[], by simp, fun _ hx => absurd hx List.not_mem_nil⟩
  stray := rfl

/-- A command that writes. -/
theorem write (hworks : env.Works) {lba total : Nat} (h : lba + total ≤ env.sectCount)
    (hlo : lo ≤ lba) (hhi : lba + total ≤ hi) (buf : ByteMem) (a : Nat) (s : BlockState) :
    IoEffect lo hi s (s.writeBlock env lba total buf a)
      (s.disk.copy (512 * lba) buf a (512 * total)) := by
  rw [write_block_ok hworks h]
  exact
    { disk := rfl
      writes := ⟨_, rfl, fun x hx => by
        have hmem := List.mem_range'_1.mp hx
        omega⟩
      stray := rfl }

end IoEffect

end Genesis32
