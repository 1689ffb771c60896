import Mathlib.Data.List.Nodup
import Mathlib.Data.List.Range

/-!
# Tables of marked runs

An allocator that hands out runs of equal units often keeps one table entry a unit: a free entry, an
entry for a run of a single unit, and, for a longer run, one entry at its first unit, one at its
last, and one at each unit in between. Freeing a run then needs no length, because the run ends at
its last mark.

`Block M t k b` says that the table `t` marks the `b` units from `k` as one run. A run is determined
by its first unit (`Block.length_unique`), and distinct runs are disjoint (`Block.disjoint`), with
no further invariant: both facts are read off the marks. `Covered M t n` says that every taken entry
below `n` belongs to a run below `n`; `covered_segments` shows that such a table is a concatenation
of free entries and whole runs. `FirstFit` is the first-fit choice.
-/

/-- The entries of a table of marked runs. -/
structure Marks (α : Type*) where
  free : α
  single : α
  first : α
  mid : α
  last : α
  nodup : [free, single, first, mid, last].Nodup

namespace Marks

variable {α : Type*} (M : Marks α)

/-- The entry at offset `j` of a run of `b` units. -/
def mark (b j : Nat) : α :=
  if b = 1 then M.single else if j = 0 then M.first else if j + 1 = b then M.last else M.mid

theorem mark_ne_free (b j : Nat) : M.mark b j ≠ M.free := by
  have h := M.nodup
  simp only [List.nodup_cons, List.mem_cons, not_or] at h
  unfold mark
  split_ifs <;> grind

/-- The entry at the first unit tells a run from the others: it is `single` or `first`. -/
theorem mark_zero (b : Nat) : M.mark b 0 = M.single ∨ M.mark b 0 = M.first := by
  by_cases hb : b = 1 <;> simp [mark, hb]

/-- The entries after the first unit are neither `single` nor `first`. -/
theorem mark_succ_ne {b j : Nat} (hj : 0 < j) (hb : j < b) :
    M.mark b j ≠ M.single ∧ M.mark b j ≠ M.first := by
  have h := M.nodup
  simp only [List.nodup_cons, List.mem_cons, not_or] at h
  unfold mark
  rw [if_neg (by omega), if_neg (by omega)]
  split_ifs <;> grind

/-- The table `t` marks the `b` units from `k` as one run. -/
structure Block (t : Nat → α) (k b : Nat) : Prop where
  pos : 0 < b
  marks : ∀ j, j < b → t (k + j) = M.mark b j

/-- Every taken entry below `n` belongs to a run that lies below `n`. -/
def Covered (t : Nat → α) (n : Nat) : Prop :=
  ∀ i, i < n → t i ≠ M.free → ∃ k b, M.Block t k b ∧ k ≤ i ∧ i < k + b ∧ k + b ≤ n

/-- The `b` entries from `k` are free and lie below `n`. -/
structure FreeRun (t : Nat → α) (n k b : Nat) : Prop where
  bound : k + b ≤ n
  free : ∀ j, j < b → t (k + j) = M.free

/-- `k` is the lowest start of `b` consecutive free entries below `n`. -/
structure FirstFit (t : Nat → α) (n b k : Nat) : Prop where
  run : M.FreeRun t n k b
  lowest : ∀ k', k' < k → ¬ M.FreeRun t n k' b

/-- Mark the `b` units from `k` as one run. -/
def put (t : Nat → α) (k b : Nat) : Nat → α :=
  fun i => if k ≤ i ∧ i < k + b then M.mark b (i - k) else t i

/-- Free the `b` entries from `k`. -/
def erase (t : Nat → α) (k b : Nat) : Nat → α :=
  fun i => if k ≤ i ∧ i < k + b then M.free else t i

variable {M}

/-- There is one first fit. -/
theorem FirstFit.unique {t : Nat → α} {n b k k' : Nat} (h : M.FirstFit t n b k)
    (h' : M.FirstFit t n b k') : k = k' := by
  rcases Nat.lt_trichotomy k k' with hlt | heq | hgt
  · exact absurd h.run (h'.lowest k hlt)
  · exact heq
  · exact absurd h'.run (h.lowest k' hgt)

/-- A free run depends on the entries below `n` only. -/
theorem FreeRun.congr {t t' : Nat → α} {n k b : Nat} (h : M.FreeRun t n k b)
    (hag : ∀ i < n, t' i = t i) : M.FreeRun t' n k b :=
  ⟨h.bound, fun j hj => by
    have hbound := h.bound
    rw [hag _ (by omega)]
    exact h.free j hj⟩

/-- So does the first fit. -/
theorem FirstFit.congr {t t' : Nat → α} {n b k : Nat} (h : M.FirstFit t n b k)
    (hag : ∀ i < n, t' i = t i) : M.FirstFit t' n b k :=
  ⟨h.run.congr hag, fun j hj hrun => h.lowest j hj (hrun.congr fun i hi => (hag i hi).symm)⟩

/-! ## Searching -/

/-- The first entry of a free stretch that is too short starts no free run, and neither does any
entry up to the one that ends the stretch. -/
theorem no_run_of_short {t : Nat → α} {n b k d : Nat} (hshort : d < b)
    (hstop : k + d < n → t (k + d) ≠ M.free) :
    ∀ k', k ≤ k' → k' ≤ k + d → ¬ M.FreeRun t n k' b := by
  intro k' hl hh hrun
  have hbound := hrun.bound
  have hfree := hrun.free (k + d - k') (by omega)
  rw [show k' + (k + d - k') = k + d by omega] at hfree
  exact hstop (by omega) hfree

/-- A search with a bound on its rounds: at the end of the table it fails, past a taken entry it
goes on with the next one, and at a free entry it counts the `d` free entries behind it, up to `b`
in all; it ends where they are enough and otherwise goes on behind the entry that ended them. -/
structure Search {β : Type*} (t : Nat → α) (n b : Nat) (search : Nat → Nat → β) (found : Nat → β)
    (failed : β) : Prop where
  stop : ∀ fuel k, n ≤ k → search fuel k = failed
  taken : ∀ fuel k, k < n → t k ≠ M.free → search (fuel + 1) k = search fuel (k + 1)
  count : ∀ fuel k, k < n → t k = M.free → ∃ d,
    (∀ j < d, k + 1 + j < n ∧ t (k + 1 + j) = M.free) ∧
    (1 + d = b ∧ search (fuel + 1) k = found k ∨
      1 + d < b ∧ (k + 1 + d < n → t (k + 1 + d) ≠ M.free) ∧
        search (fuel + 1) k = search fuel (k + d + 2))

/-- Such a search finds the first fit among the entries from `k` on, if no run starts earlier. -/
theorem Search.first_fit {β : Type*} {t : Nat → α} {n b : Nat} {search : Nat → Nat → β}
    {found : Nat → β} {failed : β} (h : M.Search t n b search found failed) (hb : 0 < b) :
    ∀ fuel k, n ≤ k + fuel → (∀ k' < k, ¬ M.FreeRun t n k' b) →
      (search fuel k = failed ∧ ∀ k', ¬ M.FreeRun t n k' b) ∨
      ∃ k', search fuel k = found k' ∧ M.FirstFit t n b k' := by
  have hend : ∀ fuel k, n ≤ k → (∀ k' < k, ¬ M.FreeRun t n k' b) →
      (search fuel k = failed ∧ ∀ k', ¬ M.FreeRun t n k' b) := by
    intro fuel k hk hlow
    refine ⟨h.stop fuel k hk, fun k' hrun => hlow k' ?_ hrun⟩
    have hbound := hrun.bound
    omega
  intro fuel
  induction fuel with
  | zero => exact fun k hfuel hlow => Or.inl (hend 0 k (by omega) hlow)
  | succ fuel ih =>
      intro k hfuel hlow
      rcases Nat.lt_or_ge k n with hk | hk
      · by_cases hfree : t k = M.free
        · obtain ⟨d, hfrees, ⟨hcount, heq⟩ | ⟨hshort, hstop, heq⟩⟩ := h.count fuel k hk hfree
          · -- the free entries are enough, and `k` is the first of them
            refine Or.inr ⟨k, heq, ⟨?_, fun j hj => ?_⟩, hlow⟩
            · rcases Nat.eq_zero_or_pos d with hd | hd
              · omega
              · have hlast := (hfrees (d - 1) (by omega)).1
                omega
            · rcases j with _ | j
              · exact hfree
              · have hnext := (hfrees j (by omega)).2
                rwa [show k + 1 + j = k + (j + 1) by omega] at hnext
          · -- no run starts in the stretch or at the entry that ends it
            rw [heq]
            refine ih (k + d + 2) (by omega) fun k' hk' => ?_
            rcases Nat.lt_or_ge k' k with hlt | hge
            · exact hlow k' hlt
            · have hnone : k + (d + 1) < n → t (k + (d + 1)) ≠ M.free := by
                rwa [show k + (d + 1) = k + 1 + d by omega]
              exact no_run_of_short (by omega) hnone k' hge (by omega)
        · rw [h.taken fuel k hk hfree]
          refine ih (k + 1) (by omega) fun k' hk' => ?_
          rcases Nat.lt_or_ge k' k with hlt | hge
          · exact hlow k' hlt
          · have hnone : k + 0 < n → t (k + 0) ≠ M.free := fun _ => hfree
            exact no_run_of_short hb hnone k' hge (by omega)
      · exact Or.inl (hend (fuel + 1) k hk hlow)

/-! ## Runs -/

theorem Block.ne_free {t : Nat → α} {k b i : Nat} (h : M.Block t k b) (hl : k ≤ i)
    (hh : i < k + b) : t i ≠ M.free := by
  have hi := h.marks (i - k) (by omega)
  rw [Nat.add_sub_cancel' hl] at hi
  rw [hi]
  exact M.mark_ne_free _ _

theorem Block.head {t : Nat → α} {k b : Nat} (h : M.Block t k b) :
    t k = M.single ∨ t k = M.first := by
  have h0 := h.marks 0 h.pos
  rw [Nat.add_zero] at h0
  rw [h0]
  exact M.mark_zero b

/-- No run starts inside another one. -/
theorem Block.not_inside {t : Nat → α} {k b k' b' : Nat} (h : M.Block t k b)
    (h' : M.Block t k' b') (hl : k < k') : k + b ≤ k' := by
  by_contra hlt
  have hin := h.marks (k' - k) (by omega)
  rw [Nat.add_sub_cancel' hl.le] at hin
  have hne := M.mark_succ_ne (b := b) (j := k' - k) (by omega) (by omega)
  rcases h'.head with hs | hf
  · exact hne.1 (hin.symm.trans hs)
  · exact hne.2 (hin.symm.trans hf)

/-- Distinct runs are disjoint. -/
theorem Block.disjoint {t : Nat → α} {k b k' b' : Nat} (h : M.Block t k b)
    (h' : M.Block t k' b') (hne : k ≠ k') : k + b ≤ k' ∨ k' + b' ≤ k := by
  rcases Nat.lt_or_gt_of_ne hne with hl | hl
  · exact Or.inl (h.not_inside h' hl)
  · exact Or.inr (h'.not_inside h hl)

/-- A run of one unit starts with `single`, a longer one with `first`. -/
theorem Block.single_iff {t : Nat → α} {k b : Nat} (h : M.Block t k b) :
    t k = M.single ↔ b = 1 := by
  have h0 := h.marks 0 h.pos
  rw [Nat.add_zero] at h0
  rw [h0]
  by_cases hb : b = 1
  · simp [mark, hb]
  · have hn := M.nodup
    simp only [List.nodup_cons, List.mem_cons, not_or] at hn
    simp only [mark, hb, if_false, if_true, iff_false]
    grind

/-- Only the last unit of a run of more than one unit carries `last`. -/
theorem Block.last_iff {t : Nat → α} {k b j : Nat} (h : M.Block t k b) (hb : b ≠ 1)
    (hj : j < b) : t (k + j) = M.last ↔ j + 1 = b := by
  have hn := M.nodup
  simp only [List.nodup_cons, List.mem_cons, not_or] at hn
  rw [h.marks j hj]
  simp only [mark, hb, if_false]
  split_ifs with h0 h1
  · constructor
    · intro he
      grind
    · intro he
      have := h.pos
      omega
  · simp [h1]
  · constructor
    · intro he
      grind
    · intro he
      exact absurd he h1

/-- A run is determined by its first unit. -/
theorem Block.length_unique {t : Nat → α} {k b b' : Nat} (h : M.Block t k b)
    (h' : M.Block t k b') : b = b' := by
  by_cases hb : b = 1
  · exact hb.trans (h'.single_iff.mp (h.single_iff.mpr hb)).symm
  · have hb' : b' ≠ 1 := fun he => hb (h.single_iff.mp (h'.single_iff.mpr he))
    have hp := h.pos
    have hp' := h'.pos
    rcases Nat.lt_trichotomy b b' with hl | he | hl
    · have hlast := (h.last_iff hb (j := b - 1) (by omega)).mpr (by omega)
      have := (h'.last_iff hb' (j := b - 1) (by omega)).mp hlast
      omega
    · exact he
    · have hlast := (h'.last_iff hb' (j := b' - 1) (by omega)).mpr (by omega)
      have := (h.last_iff hb (j := b' - 1) (by omega)).mp hlast
      omega

/-- A run depends on its own entries only. -/
theorem Block.congr {t t' : Nat → α} {k k' b : Nat} (h : M.Block t k b)
    (hag : ∀ j, j < b → t' (k' + j) = t (k + j)) : M.Block t' k' b :=
  ⟨h.pos, fun j hj => (hag j hj).trans (h.marks j hj)⟩

/-! ## Marking and freeing a run -/

theorem put_outside {t : Nat → α} {k b i : Nat} (h : i < k ∨ k + b ≤ i) :
    M.put t k b i = t i := by
  have hno : ¬ (k ≤ i ∧ i < k + b) := by omega
  simp only [put, hno, if_false]

theorem put_block (t : Nat → α) {k b : Nat} (hb : 0 < b) : M.Block (M.put t k b) k b := by
  refine ⟨hb, fun j hj => ?_⟩
  have hin : k ≤ k + j ∧ k + j < k + b := by omega
  simp only [put, hin, and_self, if_true, Nat.add_sub_cancel_left]

theorem erase_outside {t : Nat → α} {k b i : Nat} (h : i < k ∨ k + b ≤ i) :
    M.erase t k b i = t i := by
  have hno : ¬ (k ≤ i ∧ i < k + b) := by omega
  simp only [erase, hno, if_false]

theorem erase_inside {t : Nat → α} {k b i : Nat} (hl : k ≤ i) (hh : i < k + b) :
    M.erase t k b i = M.free := by
  simp [erase, hl, hh]

/-- Marking a run in a table that starts at `e` of a larger one. -/
theorem put_shift (t : Nat → α) (e k b : Nat) :
    (fun i => M.put t (e + k) b (e + i)) = M.put (fun i => t (e + i)) k b := by
  funext i
  have hiff : (e + k ≤ e + i ∧ e + i < e + k + b) ↔ (k ≤ i ∧ i < k + b) := by omega
  simp only [put, hiff, show e + i - (e + k) = i - k by omega]

/-- Freeing entries in a table that starts at `e` of a larger one. -/
theorem erase_shift (t : Nat → α) (e k b : Nat) :
    (fun i => M.erase t (e + k) b (e + i)) = M.erase (fun i => t (e + i)) k b := by
  funext i
  have hiff : (e + k ≤ e + i ∧ e + i < e + k + b) ↔ (k ≤ i ∧ i < k + b) := by omega
  simp only [erase, hiff]

/-- Freeing a run undoes the marking of free entries. -/
theorem erase_put {t : Nat → α} {k b n : Nat} (h : M.FreeRun t n k b) :
    M.erase (M.put t k b) k b = t := by
  funext i
  by_cases hin : k ≤ i ∧ i < k + b
  · have hfree := h.free (i - k) (by omega)
    rw [Nat.add_sub_cancel' hin.1] at hfree
    rw [erase_inside hin.1 hin.2, hfree]
  · rw [erase_outside (by omega), put_outside (by omega)]

/-- The order in which entries are freed does not matter. -/
theorem erase_comm (t : Nat → α) (k b k' b' : Nat) :
    M.erase (M.erase t k b) k' b' = M.erase (M.erase t k' b') k b := by
  funext i
  simp only [erase]
  split_ifs <;> rfl

/-- The runs of a table and its free entries do not meet. -/
theorem Block.disjoint_freeRun {t : Nat → α} {k b n k' b' : Nat} (h : M.Block t k b)
    (hf : M.FreeRun t n k' b') (hb' : 0 < b') : k + b ≤ k' ∨ k' + b' ≤ k := by
  by_contra hno
  have hin : ∃ i, k ≤ i ∧ i < k + b ∧ k' ≤ i ∧ i < k' + b' := by
    have := h.pos
    exact ⟨max k k', by omega, by omega, by omega, by omega⟩
  obtain ⟨i, hl, hh, hl', hh'⟩ := hin
  have hfree := hf.free (i - k') (by omega)
  rw [Nat.add_sub_cancel' hl'] at hfree
  exact h.ne_free hl hh hfree

/-- Marking free entries keeps every run. -/
theorem Block.put {t : Nat → α} {k b n k' b' : Nat} (h : M.Block t k b)
    (hf : M.FreeRun t n k' b') (hb' : 0 < b') : M.Block (M.put t k' b') k b := by
  have hd := h.disjoint_freeRun hf hb'
  exact h.congr fun j hj => put_outside (by omega)

/-- Freeing a run keeps every other run. -/
theorem Block.erase {t : Nat → α} {k b k' b' : Nat} (h : M.Block t k b)
    (h' : M.Block t k' b') (hne : k ≠ k') : M.Block (M.erase t k' b') k b := by
  have hd := h.disjoint h' hne
  exact h.congr fun j hj => erase_outside (by omega)

/-- The runs after one has been marked: this one and those of before. -/
theorem block_put_iff {t : Nat → α} {k b n k' b' : Nat} (hf : M.FreeRun t n k b) (hb : 0 < b) :
    M.Block (M.put t k b) k' b' ↔ k' = k ∧ b' = b ∨ M.Block t k' b' := by
  have hnew := put_block (M := M) t (k := k) hb
  constructor
  · intro h
    by_cases heq : k' = k
    · subst heq
      exact Or.inl ⟨rfl, h.length_unique hnew⟩
    · have hd := h.disjoint hnew heq
      exact Or.inr (h.congr fun j hj => (put_outside (by omega)).symm)
  · intro h
    rcases h with h | h
    · obtain ⟨rfl, rfl⟩ := h
      exact hnew
    · exact h.put hf hb

/-- The runs after one has been freed: the others. -/
theorem Block.erase_iff {t : Nat → α} {k b k' b' : Nat} (h : M.Block t k b) :
    M.Block (M.erase t k b) k' b' ↔ k' ≠ k ∧ M.Block t k' b' := by
  constructor
  · intro h'
    -- an entry in both ranges would be free
    have hd : k + b ≤ k' ∨ k' + b' ≤ k := by
      by_contra hno
      have hpos := h.pos
      have hpos' := h'.pos
      exact h'.ne_free (i := max k k') (by omega) (by omega) (erase_inside (by omega) (by omega))
    have hpos := h.pos
    have hpos' := h'.pos
    exact ⟨by omega, h'.congr fun j hj => (erase_outside (by omega)).symm⟩
  · intro h'
    exact h'.2.erase h h'.1

/-- Entries that a scan from a first mark clears: a first mark, then only marks of the inside or the
end of a run. The entries may be left over from an earlier use of the table. -/
structure Stretch (t : Nat → α) (k r : Nat) : Prop where
  pos : 0 < r
  head : t k = M.single ∨ t k = M.first
  rest : ∀ j, 0 < j → j < r → t (k + j) = M.mid ∨ t (k + j) = M.last

/-- Clearing a stretch keeps every run that does not start where the stretch starts. -/
theorem Block.erase_stretch {t : Nat → α} {k b k' r : Nat} (h : M.Block t k b)
    (hs : M.Stretch t k' r) (hne : k ≠ k') : M.Block (M.erase t k' r) k b := by
  have hn := M.nodup
  simp only [List.nodup_cons, List.mem_cons, not_or] at hn
  have hdisjoint : k + b ≤ k' ∨ k' + r ≤ k := by
    by_contra hno
    have hpos := h.pos
    rcases Nat.lt_or_gt_of_ne hne with hlt | hgt
    · have hin := h.marks (k' - k) (by omega)
      rw [Nat.add_sub_cancel' hlt.le] at hin
      have hmid := M.mark_succ_ne (b := b) (j := k' - k) (by omega) (by omega)
      rcases hs.head with hh | hh
      · exact hmid.1 (hin.symm.trans hh)
      · exact hmid.2 (hin.symm.trans hh)
    · have hrest := hs.rest (k - k') (by omega) (by omega)
      rw [Nat.add_sub_cancel' hgt.le] at hrest
      have hhead := h.head
      grind
  exact h.congr fun j hj => erase_outside (by omega)

/-- A run is a stretch. -/
theorem Block.stretch {t : Nat → α} {k b : Nat} (h : M.Block t k b) : M.Stretch t k b := by
  refine ⟨h.pos, h.head, fun j h0 hj => ?_⟩
  rw [h.marks j hj]
  unfold mark
  rw [if_neg (by omega), if_neg (by omega)]
  split_ifs <;> simp

theorem Covered.put {t : Nat → α} {n k b : Nat} (h : M.Covered t n)
    (hf : M.FreeRun t n k b) (hb : 0 < b) : M.Covered (M.put t k b) n := by
  intro i hi hne
  by_cases hin : k ≤ i ∧ i < k + b
  · exact ⟨k, b, put_block t hb, hin.1, hin.2, hf.bound⟩
  · rw [put_outside (by omega)] at hne
    obtain ⟨k', b', hblock, hl, hh, hn⟩ := h i hi hne
    exact ⟨k', b', hblock.put hf hb, hl, hh, hn⟩

theorem Covered.erase {t : Nat → α} {n k b : Nat} (h : M.Covered t n)
    (hblock : M.Block t k b) : M.Covered (M.erase t k b) n := by
  intro i hi hne
  have hout : i < k ∨ k + b ≤ i := by
    by_contra hin
    exact hne (erase_inside (by omega) (by omega))
  rw [erase_outside hout] at hne
  obtain ⟨k', b', hblock', hl, hh, hn⟩ := h i hi hne
  have hk : k' ≠ k := by
    rintro rfl
    have := hblock.length_unique hblock'
    omega
  exact ⟨k', b', hblock'.erase hblock hk, hl, hh, hn⟩

/-- Whether a table is covered depends on its entries. -/
theorem Covered.congr {t t' : Nat → α} {n : Nat} (h : M.Covered t n)
    (hag : ∀ i < n, t' i = t i) : M.Covered t' n := by
  intro i hi hne
  rw [hag i hi] at hne
  obtain ⟨k, b, hblock, hl, hh, hn⟩ := h i hi hne
  exact ⟨k, b, hblock.congr fun j hj => hag _ (by omega), hl, hh, hn⟩

/-- The table with every entry free is covered. -/
theorem covered_free {t : Nat → α} {n : Nat} (h : ∀ i, i < n → t i = M.free) :
    M.Covered t n :=
  fun i hi hne => absurd (h i hi) hne

/-! ## The grammar of a covered table -/

/-- A concatenation of free entries, single units, and longer runs. -/
inductive Segments (M : Marks α) : List α → Prop where
  | nil : Segments M []
  | free {l : List α} : Segments M l → Segments M (M.free :: l)
  | single {l : List α} : Segments M l → Segments M (M.single :: l)
  | run {l : List α} (r : Nat) : Segments M l →
      Segments M (M.first :: (List.replicate r M.mid ++ M.last :: l))

/-- The entries of a run, as a list. -/
theorem Block.entries {t : Nat → α} {k b : Nat} (h : M.Block t k b) :
    (List.range' k b).map t =
      if b = 1 then [M.single]
      else M.first :: (List.replicate (b - 2) M.mid ++ [M.last]) := by
  split_ifs with hb
  · subst hb
    simpa using h.single_iff.mpr rfl
  · have hp := h.pos
    refine List.ext_getElem (by simp; omega) fun j h1 h2 => ?_
    simp only [List.length_map, List.length_range'] at h1
    simp only [List.getElem_map, List.getElem_range', Nat.one_mul, h.marks j h1, mark, hb, if_false]
    rcases j with _ | j
    · simp
    · simp only [Nat.add_one_ne_zero, if_false, List.getElem_cons_succ]
      by_cases hj : j < b - 2
      · rw [List.getElem_append_left (by simpa using hj), List.getElem_replicate,
          if_neg (by omega)]
      · have : j = b - 2 := by omega
        subst this
        rw [if_pos (by omega), List.getElem_append_right (by simp)]
        simp

/-- A covered table is a concatenation of segments. The induction is on the entries left, and it
starts a segment only where no run straddles the start. -/
theorem covered_segments {t : Nat → α} {n : Nat} (h : M.Covered t n) :
    Segments M ((List.range n).map t) := by
  have hfrom : ∀ r i, r = n - i → i ≤ n →
      (∀ k b, M.Block t k b → k < i → k + b ≤ i) →
      Segments M ((List.range' i r).map t) := by
    intro r
    induction r using Nat.strong_induction_on with
    | _ r ih =>
        intro i hr hi hstart
        rcases Nat.eq_zero_or_pos r with hz | hpos
        · subst hz
          exact .nil
        · by_cases hfree : t i = M.free
          · obtain ⟨r, rfl⟩ : ∃ r', r = r' + 1 := ⟨r - 1, by omega⟩
            rw [List.range'_succ, List.map_cons, hfree]
            refine .free (ih r (by omega) (i + 1) (by omega) (by omega) fun k b hb hk => ?_)
            rcases Nat.lt_or_eq_of_le (Nat.lt_succ_iff.mp hk) with hlt | heq
            · have := hstart k b hb hlt
              omega
            · subst heq
              exact absurd hfree (hb.ne_free (Nat.le_refl _) (by have := hb.pos; omega))
          · -- the run that covers entry `i` starts there, as none straddles it
            obtain ⟨k, b, hb, hl, hh, hn⟩ := h i (by omega) hfree
            have hk : k = i := by
              by_contra hne
              have := hstart k b hb (by omega)
              omega
            subst hk
            have hbr : b ≤ r := by omega
            have hrest : Segments M ((List.range' (k + b) (r - b)).map t) := by
              have hp := hb.pos
              refine ih (r - b) (by omega) (k + b) (by omega) (by omega) fun k' b' hb' hk' => ?_
              -- no run starts inside this one, so none straddles its end
              by_cases hlt : k' < k
              · have := hstart k' b' hb' hlt
                omega
              · by_cases heq : k' = k
                · subst heq
                  rw [hb.length_unique hb']
                · have := hb.not_inside hb' (by omega)
                  omega
            have hsplit : List.range' k r = List.range' k b ++ List.range' (k + b) (r - b) := by
              rw [List.range'_append_1]
              congr 1
              omega
            rw [hsplit, List.map_append, hb.entries]
            split_ifs with hone
            · exact .single hrest
            · simpa using Segments.run (b - 2) hrest
  have hall := hfrom n 0 (by omega) (by omega) (by omega)
  rwa [← List.range_eq_range'] at hall

end Marks
