import Genesis32.FileSyst.WriteFat16

/-!
# What a write keeps

`write_fat16` takes steps of three kinds: it follows the FAT from a cluster to the next one, it
allocates a cluster where the chain ends, and it reads a cluster and writes it back. A property of
the hops that are left, the cluster and the state that each of them keeps holds at the end of every
call, and a call with memory for its buffers ends.
-/

namespace Genesis32

open Word

/-- A property of the hops that a write has still to take, of its cluster and of the state, which
every step of `write_fat16` keeps. A cluster is read and written with `r` hops left at most: those
before the offset have been taken. -/
structure WriteInv (env : BlockEnv) (m : Fat16Mount) (r : Nat)
    (P : Nat → Nat → BlockState → Prop) : Prop where
  granted : ∀ n, (env.scratch n).isSome
  idle : ∀ {h c s} (commands mallocs : Nat), P h c s →
    P h c { s with commands := commands, mallocs := mallocs }
  hop : ∀ {h c v buf buf' s s'}, P (h + 1) c s → hopCluster env m c buf s = (v, buf', s') →
    ¬ EndMark v → P h v s'
  extend : ∀ {h c v buf buf' s s'}, P (h + 1) c s → hopCluster env m c buf s = (v, buf', s') →
    EndMark v → ∃ d t, getFreeCluster env m.bpb (add32 m.startSect m.bpb.reservedSectors) v s' =
      some (d, t) ∧ P h d t
  round : ∀ {h c temp temp' s s'} (buf : ByteMem), h ≤ r → P h c s →
    readCluster env m (m.clusterSector c) m.bpb.sectPerClust 0 temp s = (temp', s') →
    P h c (writeCluster env m (m.clusterSector c) m.bpb.sectPerClust 0 buf s')

variable {env : BlockEnv} {m : Fat16Mount} {f : Fat16File} {s : BlockState} {r : Nat}
  {P : Nat → Nat → BlockState → Prop}

theorem malloc_granted (hgranted : ∀ n, (env.scratch n).isSome) (s : BlockState) :
    ∃ buf, s.heapCreamMalloc env = some (buf, { s with mallocs := s.mallocs + 1 }) := by
  obtain ⟨buf, hbuf⟩ := Option.isSome_iff_exists.mp (hgranted s.mallocs)
  refine ⟨buf, ?_⟩
  unfold BlockState.heapCreamMalloc
  rw [hbuf]
  rfl

/-- The hop loop takes its hops. -/
theorem write_hops_inv (hP : WriteInv env m r P) (j : Nat) :
    ∀ (h cur dirtyBit : Nat) (buf : ByteMem) (s : BlockState), P (j + h) cur s →
      ∃ (c dirtyBit' : Nat) (buf' : ByteMem) (s' : BlockState),
        writeHops env m h cur dirtyBit buf s = some (c, dirtyBit', buf', s') ∧ P j c s' := by
  intro h
  induction h with
  | zero => exact fun cur dirtyBit buf s hs => ⟨cur, dirtyBit, buf, s, rfl, hs⟩
  | succ h ih =>
      intro cur dirtyBit buf s hs
      rw [← Nat.add_assoc] at hs
      cases hhop : hopCluster env m cur buf s with
      | mk v r =>
          obtain ⟨buf₁, s₁⟩ := r
          rw [writeHops, hhop]
          simp only
          by_cases hend : EndMark v
          · obtain ⟨d, t, hfree, ht⟩ := hP.extend hs hhop hend
            rw [if_pos hend, hfree]
            exact ih d 1 buf₁ t ht
          · rw [if_neg hend]
            exact ih v dirtyBit buf₁ s₁ (hP.hop hs hhop hend)

/-- The outer loop ends, with no hop left. -/
theorem write_loop_inv {p size : Nat}
    (hP : WriteInv env m ((p + size - 1) / m.clusterSize - p / m.clusterSize) P)
    (hsize : 0 < m.clusterSize) (buffer : ByteMem) :
    ∀ (k h q cur x idx : Nat) (file : Fat16File) (buf temp : ByteMem) (s : BlockState),
      P ((p + size - 1) / m.clusterSize - q) cur s → x < m.clusterSize →
      (q + h) * m.clusterSize + x = p + idx → idx < size → size - idx ≤ k →
      ∃ (file' : Fat16File) (s' : BlockState) (c : Nat),
        writeLoop env m buffer size k h x cur idx file buf temp s = some (size, file', s') ∧
        file'.fsSpecific = file.fsSpecific ∧ P 0 c s' := by
  intro k
  induction k with
  | zero => omega
  | succ k ih =>
      intro h q cur x idx file buf temp s hs hx hpos hidx hk
      have hle : q + h ≤ (p + size - 1) / m.clusterSize :=
        (Nat.le_div_iff_mul_le hsize).mpr (by omega)
      have hstart : p / m.clusterSize < q + h + 1 :=
        (Nat.div_lt_iff_lt_mul hsize).mpr (by rw [Nat.add_mul, Nat.one_mul]; omega)
      have hhops : (p + size - 1) / m.clusterSize - q =
          (p + size - 1) / m.clusterSize - (q + h) + h := by omega
      rw [hhops] at hs
      obtain ⟨c, dirtyBit, buf₁, s₁, hrun, hs₁⟩ :=
        write_hops_inv hP _ h cur file.dirtyBit buf s hs
      rw [writeLoop, hrun]
      simp only
      cases hread : readCluster env m (m.clusterSector c) m.bpb.sectPerClust 0 temp s₁ with
      | mk temp₁ s₂ =>
          simp only
          generalize ht : min (size - idx) (m.clusterSize - x) = t
          have hs₂ := hP.round (temp₁.copy x buffer idx t) (by omega) hs₁ hread
          generalize writeCluster env m (m.clusterSector c) m.bpb.sectPerClust 0
            (temp₁.copy x buffer idx t) s₂ = s₃ at hs₂ ⊢
          by_cases hdone : idx + t ≥ size
          · rw [if_pos hdone, show idx + t = size by omega]
            -- the last byte lies in this cluster, so no hop is left
            have hlast : (p + size - 1) / m.clusterSize < q + h + 1 :=
              (Nat.div_lt_iff_lt_mul hsize).mpr (by rw [Nat.add_mul, Nat.one_mul]; omega)
            rw [show (p + size - 1) / m.clusterSize - (q + h) = 0 by omega] at hs₂
            exact ⟨_, s₃, c, rfl, rfl, hs₂⟩
          · rw [if_neg hdone]
            obtain ⟨file', s', c', hrest, hfile, hs'⟩ := ih 1 (q + h) c 0 (idx + t)
              { file with
                offset := add32 file.offset t
                size := max file.size (idx + t)
                dirtyBit := dirtyBit } buf₁ (temp₁.copy x buffer idx t) s₃ hs₂ hsize
              (by rw [Nat.add_mul (q + h) 1, Nat.one_mul]; omega) (by omega) (by omega)
            exact ⟨file', s', c', hrest, hfile, hs'⟩

/-- A write that is past its first step ends, with no hop left. -/
theorem write_fat16_inv {n k : Nat} {file₁ : Fat16File} {s₁ : BlockState}
    (hP : WriteInv env m
      ((file₁.offset + n - 1) / m.clusterSize - file₁.offset / m.clusterSize) P)
    (hsize : 0 < m.clusterSize) (hn : 1 ≤ n) (hk : n ≤ k) (buffer : ByteMem)
    (hfirst : firstCluster env m f s = some (file₁, s₁))
    (hs : P ((file₁.offset + n - 1) / m.clusterSize) (file₁.fsSpecific % 65536) s₁) :
    ∃ (f' : Fat16File) (s' : BlockState) (c : Nat),
      writeFat16 env m k f buffer n s = some (n, f', s') ∧
      f'.fsSpecific = file₁.fsSpecific ∧ P 0 c s' := by
  obtain ⟨buf, hbuf⟩ := malloc_granted hP.granted s₁
  obtain ⟨temp, htemp⟩ := malloc_granted hP.granted { s₁ with mallocs := s₁.mallocs + 1 }
  have hpos := Nat.div_add_mod' file₁.offset m.clusterSize
  obtain ⟨f', s', c, hrun, hfile, hs'⟩ := write_loop_inv hP hsize buffer k
    (file₁.offset / m.clusterSize) 0 (file₁.fsSpecific % 65536) (file₁.offset % m.clusterSize) 0
    file₁ buf temp { s₁ with mallocs := s₁.mallocs + 1 + 1 }
    (hP.idle s₁.commands (s₁.mallocs + 1 + 1) hs) (Nat.mod_lt _ hsize)
    (by rw [Nat.zero_add]; omega) (by omega) (by omega)
  refine ⟨f', s', c, ?_, hfile, hs'⟩
  unfold writeFat16
  simp only [if_neg (show ¬ n = 0 by omega), Option.bind_eq_bind]
  rw [hfirst]
  simp only [Option.bind_some]
  rw [hbuf]
  simp only [Option.bind_some]
  rw [htemp]
  simp only [Option.bind_some]
  exact hrun

theorem first_cluster_kept (hstart : ¬ EndMark (f.fsSpecific % 65536)) :
    firstCluster env m f s = some (f, s) := if_neg hstart

theorem first_cluster_taken (hstart : EndMark (f.fsSpecific % 65536)) {d : Nat} {s' : BlockState}
    (hfree : getFreeCluster env m.bpb (add32 m.startSect m.bpb.reservedSectors)
      (f.fsSpecific % 65536) s = some (d, s')) :
    firstCluster env m f s = some ({ f with fsSpecific := d, dirtyBit := 1 }, s') := by
  unfold firstCluster
  simp only
  rw [if_pos hstart, hfree]
  rfl

end Genesis32
