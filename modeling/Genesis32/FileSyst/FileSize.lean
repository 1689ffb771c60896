import Genesis32.FileSyst.WriteFat16

/-!
# The size of a file

`struct vfs_node` holds the number of bytes of a file in `size`. The loop of `write_fat16` moves the
offset in the file and the index into the buffer, and sets the size from the index alone. The loop
of `read_fat16` does not look at the size: it ends with the request or with the chain.
-/

namespace Genesis32

open Word

variable {env : BlockEnv} {m : Fat16Mount} {f f' : Fat16File} {hi : Nat}

/-! ## Writing -/

/-- The three counters at the end of the loop of `write_fat16`. -/
theorem write_loop_counters {buffer : ByteMem} {size r : Nat} {s' : BlockState} :
    ∀ (k h x cur idx : Nat) (file : Fat16File) (buf temp : ByteMem) (s : BlockState), idx ≤ size →
      writeLoop env m buffer size k h x cur idx file buf temp s = some (r, f', s') →
      r = size ∧ f'.size = max file.size size ∧
        f'.offset = add32 file.offset (size - idx) := by
  intro k
  induction k with
  | zero =>
      intro h x cur idx file buf temp s _ hrun
      cases hrun
  | succ k ih =>
      intro h x cur idx file buf temp s hidx hrun
      rw [writeLoop] at hrun
      cases hhops : writeHops env m h cur file.dirtyBit buf s with
      | none =>
          rw [hhops] at hrun
          cases hrun
      | some hops =>
          obtain ⟨cur₁, dirtyBit, buf₁, s₁⟩ := hops
          rw [hhops] at hrun
          simp only at hrun
          generalize ht : min (size - idx) (m.clusterSize - x) = t at hrun
          have hle : t ≤ size - idx := ht ▸ Nat.min_le_left _ _
          by_cases hdone : idx + t ≥ size
          · -- the last round: the index has reached the size of the request
            rw [if_pos hdone] at hrun
            cases hrun
            have hall : t = size - idx := by omega
            refine ⟨by omega, ?_, by rw [hall]⟩
            rw [show idx + t = size by omega]
          · rw [if_neg hdone] at hrun
            obtain ⟨hr, hsize, hoffset⟩ := ih _ _ _ _ _ _ _ _ (by omega) hrun
            refine ⟨hr, ?_, ?_⟩
            · rw [hsize]
              simp only
              omega
            · rw [hoffset]
              simp only [add32_add32]
              rw [show t + (size - (idx + t)) = size - idx by omega]

/-- A write that returns has written the whole buffer and set the size from its length. -/
theorem write_fat16_counters {k n r : Nat} {buffer : ByteMem} {s s' : BlockState} (hn : 1 ≤ n)
    (hrun : writeFat16 env m k f buffer n s = some (r, f', s')) :
    r = n ∧ f'.size = max f.size n ∧ f'.offset = add32 f.offset n := by
  unfold writeFat16 at hrun
  rw [if_neg (by omega)] at hrun
  obtain ⟨⟨file, s₁⟩, hfirst, hrun⟩ := Option.bind_eq_some_iff.mp hrun
  obtain ⟨⟨buf, s₂⟩, _, hrun⟩ := Option.bind_eq_some_iff.mp hrun
  obtain ⟨⟨temp, s₃⟩, _, hrun⟩ := Option.bind_eq_some_iff.mp hrun
  have hfile : file.size = f.size ∧ file.offset = f.offset := by
    unfold firstCluster at hfirst
    simp only at hfirst
    by_cases hend : EndMark (f.fsSpecific % 65536)
    · rw [if_pos hend] at hfirst
      obtain ⟨_, _, heq⟩ := Option.map_eq_some_iff.mp hfirst
      cases heq
      exact ⟨rfl, rfl⟩
    · rw [if_neg hend] at hfirst
      cases hfirst
      exact ⟨rfl, rfl⟩
  obtain ⟨hr, hsize, hoffset⟩ := write_loop_counters _ _ _ _ _ _ _ _ _ (Nat.zero_le n) hrun
  rw [hfile.1] at hsize
  rw [hfile.2, Nat.sub_zero] at hoffset
  exact ⟨hr, hsize, hoffset⟩

/-- Calls of `write_fat16` one after the other, with buffers of the lengths in the list. Other calls
may change the disk between them. -/
inductive Appends (env : BlockEnv) (m : Fat16Mount) : Fat16File → List Nat → Fat16File → Prop
  | nil (f : Fat16File) : Appends env m f [] f
  | cons {f f₁ f' : Fat16File} {k n : Nat} {ns : List Nat} {buffer : ByteMem} {s s' : BlockState}
      (hn : 1 ≤ n) (hrun : writeFat16 env m k f buffer n s = some (n, f₁, s'))
      (hrest : Appends env m f₁ ns f') : Appends env m f (n :: ns) f'

/-- The size after a run is that of its longest buffer, and its buffers are not empty. -/
theorem Appends.size {ns : List Nat} (h : Appends env m f ns f') :
    f'.size = max f.size (ns.foldr max 0) ∧ ∀ n ∈ ns, 1 ≤ n := by
  induction h with
  | nil f => exact ⟨(Nat.max_zero _).symm, fun n hn => by cases hn⟩
  | @cons f f₁ f' k n ns buffer s s' hn hrun _ ih =>
      obtain ⟨_, hsize, _⟩ := write_fat16_counters hn hrun
      refine ⟨?_, List.forall_mem_cons.mpr ⟨hn, ih.2⟩⟩
      rw [ih.1, hsize, List.foldr_cons, Nat.max_assoc]

/-- Every buffer of a run is written behind the one before it. -/
theorem Appends.offset {ns : List Nat} (h : Appends env m f ns f')
    (hword : f.offset + ns.sum < 4294967296) : f'.offset = f.offset + ns.sum := by
  induction h with
  | nil f => rfl
  | @cons f f₁ f' k n ns buffer s s' hn hrun _ ih =>
      obtain ⟨_, _, hoffset⟩ := write_fat16_counters hn hrun
      rw [List.sum_cons] at hword ⊢
      rw [add32_of_lt (by omega)] at hoffset
      rw [ih (by omega), hoffset]
      omega

/-- The longest of several lengths is less than their sum. -/
theorem foldr_max_eq_sum_iff {ns : List Nat} (hpos : ∀ n ∈ ns, 1 ≤ n) :
    ns.foldr max 0 = ns.sum ↔ ns.length ≤ 1 := by
  have hle : ∀ ns : List Nat, ns.foldr max 0 ≤ ns.sum := by
    intro ns
    induction ns with
    | nil => exact le_rfl
    | cons n ns ih =>
        rw [List.foldr_cons, List.sum_cons]
        omega
  match ns with
  | [] => exact ⟨fun _ => Nat.zero_le 1, fun _ => rfl⟩
  | [n] => exact ⟨fun _ => le_rfl, fun _ => Nat.max_zero n⟩
  | n :: n' :: ns =>
      have hn := hpos n (by simp)
      have hn' := hpos n' (by simp)
      have hrest := hle ns
      simp only [List.foldr_cons, List.sum_cons, List.length_cons]
      omega

/-- The size after a write is the greater of the old size and the end of what was written exactly if
the write starts at the start of the file or ends inside it; and the size after appending to an
empty file is the number of bytes that were appended exactly if there was at most one buffer. -/
theorem write_fat16_size_iff (env : BlockEnv) (m : Fat16Mount) :
    (∀ (k n : Nat) (f f' : Fat16File) (buffer : ByteMem) (s s' : BlockState), 1 ≤ n →
      f.offset ≤ f.size → f.offset + n < 4294967296 →
      writeFat16 env m k f buffer n s = some (n, f', s') →
      (f'.size = max f.size (f.offset + n) ↔ f.offset = 0 ∨ f.offset + n ≤ f.size)) ∧
    ∀ (f f' : Fat16File) (ns : List Nat), f.offset = 0 → f.size = 0 → ns.sum < 4294967296 →
      Appends env m f ns f' → f'.offset = ns.sum ∧ (f'.size = ns.sum ↔ ns.length ≤ 1) := by
  constructor
  · intro k n f f' buffer s s' hn _ _ hrun
    obtain ⟨_, hsize, _⟩ := write_fat16_counters hn hrun
    rw [hsize]
    omega
  · intro f f' ns hoffset hempty hword hrun
    obtain ⟨hsize, hpos⟩ := hrun.size
    have hend := hrun.offset (by omega)
    rw [hoffset, Nat.zero_add] at hend
    rw [hempty, Nat.zero_max] at hsize
    rw [hsize]
    exact ⟨hend, foldr_max_eq_sum_iff hpos⟩

/-- A write to the first cluster of the small disk. -/
theorem small_write {n : Nat} (hn : 1 ≤ n) (hf : f.fsSpecific = 2) (hin : f.offset + n ≤ 512) :
    ∃ s', writeFat16 smallEnv smallMount n f (fun _ => 0x41) n smallDisk =
      some (n, { f with offset := add32 f.offset n, size := max f.size n }, s') := by
  have hcluster : ∀ k, smallMount.cluster smallDisk.disk f k =
      smallMount.cluster smallDisk.disk smallFile k := fun k => by
    unfold Fat16Mount.cluster Fat16Mount.startCluster
    rw [hf]
    rfl
  have hok : smallMount.ChainOk 10 smallDisk.disk f := fun k c hc =>
    small_chain_ok k c ((hcluster k).symm.trans hc)
  have hreach : (smallMount.cluster smallDisk.disk f
      ((f.offset + n - 1) / smallMount.clusterSize)).isSome := by
    rw [hcluster, show smallMount.clusterSize = 512 from rfl,
      show (f.offset + n - 1) / 512 = 0 by omega]
    rfl
  obtain ⟨s', hrun, _⟩ := write_fat16_splices small_mounted hok hn hreach le_rfl fun _ => 0x41
  exact ⟨s', hrun⟩

/-- Two bytes are written over the end of a file, and then one byte twice to an empty file. -/
theorem write_fat16_size_iff_small :
    (∃ f' s', writeFat16 smallEnv smallMount 2 smallFile (fun _ => 0x41) 2 smallDisk =
        some (2, f', s') ∧ f'.size = 512) ∧
      ∃ f', Appends smallEnv smallMount ⟨0, 2, 0, 0⟩ [1, 1] f' ∧ f'.size ≠ 2 := by
  obtain ⟨s₁, hover⟩ := small_write (f := smallFile) (show 1 ≤ 2 by decide) rfl (by decide)
  obtain ⟨s₂, hfirst⟩ := small_write (f := ⟨0, 2, 0, 0⟩) (show 1 ≤ 1 by decide) rfl (by decide)
  obtain ⟨s₃, hsecond⟩ := small_write (f := ⟨1, 2, 1, 0⟩) (show 1 ≤ 1 by decide) rfl (by decide)
  have hrun := Appends.cons le_rfl hfirst (Appends.cons le_rfl hsecond (Appends.nil _))
  obtain ⟨hcall, hruns⟩ := write_fat16_size_iff smallEnv smallMount
  refine ⟨⟨_, s₁, hover, ?_⟩, _, hrun, fun hsize => ?_⟩
  · exact (hcall 2 2 _ _ _ _ s₁ (by decide) (by decide) (by decide) hover).mpr (Or.inr (by decide))
  · exact absurd ((hruns _ _ _ rfl rfl (by decide) hrun).2.mp hsize) (by decide)

/-- Two bytes appended to a file of 510 bytes leave its size at 510. -/
theorem append_keeps_size : ∃ f' s',
    writeFat16 smallEnv smallMount 2 ⟨510, 2, 510, 0⟩ (fun _ => 0x41) 2 smallDisk =
      some (2, f', s') ∧ f'.size = 510 ∧ f'.size ≠ max 510 (510 + 2) := by
  obtain ⟨s', hrun⟩ := small_write (f := ⟨510, 2, 510, 0⟩) (show 1 ≤ 2 by decide) rfl (by decide)
  exact ⟨_, s', hrun, by decide, by decide⟩

/-! ## Reading -/

/-- A read of `n` bytes brings the bytes up to the size of the file and stores nothing past them. -/
def StopsAtSize (env : BlockEnv) (m : Fat16Mount) (k : Nat) (f : Fat16File) (buffer : ByteMem)
    (n : Nat) (s : BlockState) : Prop :=
  ∃ buffer' f' s', readFat16 env m k f buffer n s =
      some (min n (f.size - f.offset), buffer', f', s') ∧
    ∀ i, min n (f.size - f.offset) ≤ i → buffer' i = buffer i

/-- A read of `n` bytes brings the bytes up to the end of the chain. -/
theorem read_fat16_count (hv : m.Volume env hi) {n k len : Nat} {s : BlockState}
    (hlen : Chain.HasLength (m.nextCluster s.disk) (Fat16Mount.startCluster f) len)
    (hok : m.ChainOk hi s.disk f) (hoffset : f.offset < 4294967296) (hk : n ≤ k)
    (buffer : ByteMem) :
    ∃ buffer' f' s', readFat16 env m k f buffer n s =
        some (min n (len * m.clusterSize - f.offset), buffer', f', s') ∧
      ∀ i, min n (len * m.clusterSize - f.offset) ≤ i → buffer' i = buffer i := by
  obtain ⟨r, buffer', s', hrun, _, hread⟩ :=
    read_fat16_reads hv.works hv.toSectors512 (hv.reaches hok f.offset n) hoffset hk buffer
  have hcount := hread.slice.count hlen hv.clusterSize_pos
  have hr : r = min n (len * m.clusterSize - f.offset) := by
    rw [← Nat.cast_mul, ← ENat.natCast_sub, ← Monotone.map_min Nat.mono_cast] at hcount
    exact Nat.cast_inj.mp hcount
  rw [← hr]
  exact ⟨buffer', _, s', hrun, fun i hi => hread.outside i (by omega)⟩

/-- A read stops at the end of the file exactly if it is empty or ends inside the file, if the chain
has no byte behind the file, or if the offset lies behind the chain. -/
theorem read_fat16_size_iff (hv : m.Volume env hi) {n k len : Nat} {s : BlockState}
    (hlen : Chain.HasLength (m.nextCluster s.disk) (Fat16Mount.startCluster f) len)
    (hok : m.ChainOk hi s.disk f) (hcover : f.size ≤ len * m.clusterSize)
    (hoffset : f.offset < 4294967296) (hk : n ≤ k) (buffer : ByteMem) :
    StopsAtSize env m k f buffer n s ↔
      n = 0 ∨ f.offset + n ≤ f.size ∨ len * m.clusterSize = f.size ∨
        len * m.clusterSize ≤ f.offset := by
  obtain ⟨buffer', f', s', hrun, houtside⟩ := read_fat16_count hv hlen hok hoffset hk buffer
  have hsame : StopsAtSize env m k f buffer n s ↔
      min n (len * m.clusterSize - f.offset) = min n (f.size - f.offset) := by
    constructor
    · intro h
      obtain ⟨_, _, _, heq, _⟩ := h
      exact congrArg Prod.fst (Option.some.inj (hrun.symm.trans heq))
    · intro heq
      rw [heq] at hrun houtside
      exact ⟨buffer', f', s', hrun, houtside⟩
  rw [hsame]
  omega

/-- The file on the small disk fills its cluster. -/
theorem read_fat16_size_iff_small :
    StopsAtSize smallEnv smallMount 3 smallFile (fun _ => 0x00) 3 smallDisk :=
  (read_fat16_size_iff small_mounted small_chain small_chain_ok (by decide) (by decide) le_rfl
    fun _ => 0x00).mpr (Or.inr (Or.inr (Or.inl rfl)))

/-- Of a file of 511 bytes a read at the offset 510 brings two. -/
theorem byte_past_size_read :
    (511 : Nat) ≤ 1 * smallMount.clusterSize ∧
      ¬ StopsAtSize smallEnv smallMount 2 ⟨510, 2, 511, 0⟩ (fun _ => 0x00) 2 smallDisk := by
  obtain ⟨buffer', f', s', hrun, _⟩ := read_fat16_count (f := ⟨510, 2, 511, 0⟩) small_mounted
    small_chain small_chain_ok (by decide) (le_refl 2) fun _ => 0x00
  refine ⟨by decide, ?_⟩
  intro h
  obtain ⟨_, _, _, heq, _⟩ := h
  have hcount := congrArg Prod.fst (Option.some.inj (hrun.symm.trans heq))
  rw [show smallMount.clusterSize = 512 from rfl] at hcount
  simp at hcount

end Genesis32
