import Genesis32.UserHeap.BlockList

/-!
# Best fit

Which block `malloc` of `gen32_heap/heap.c` takes. It returns the first exact fit, but among the
blocks that it can split it keeps the largest: the comparison of sizes is the wrong way round.
`best_fit_iff` says for which heaps this makes no difference.
-/

namespace Genesis32

open Word

namespace UserHeap

/-- A free block of exactly the rounded size. -/
def Exact (size : Nat) (b : Block) : Prop := b.free = true ∧ b.size = roundUp size

/-- A free block that exceeds the rounded size by more than a header and a least block. -/
def Splittable (size : Nat) (b : Block) : Prop := b.free = true ∧ roundUp size + 32 < b.size

/-- `malloc` takes the first exact fit before the last block; where there is none, it splits a
smallest block that can be split. -/
structure BestFit (m : ByteMem) (blocks : List Block) (last : Block) (size next : Nat) : Prop where
  exact : (∃ b ∈ blocks, Exact size b) →
    ∃ xs b ys m', blocks = xs ++ b :: ys ∧ Exact size b ∧ (∀ c ∈ xs, ¬ Exact size c) ∧
      (∀ k, blocks.length < k → malloc m size next k = some (b.addr + 16, m')) ∧
      BlockList m' (xs ++ ⟨b.addr, b.size, false⟩ :: (ys ++ [last]))
  smallest : (∀ b ∈ blocks, ¬ Exact size b) → (∃ b ∈ blocks, Splittable size b) →
    ∃ xs b ys m', blocks = xs ++ b :: ys ∧ Splittable size b ∧
      (∀ c ∈ blocks, Splittable size c → b.size ≤ c.size) ∧
      (∀ k, blocks.length < k → malloc m size next k = some (b.addr + 16, m')) ∧
      BlockList m' (xs ++ ([⟨b.addr, roundUp size, false⟩,
        ⟨b.addr + roundUp size + 16, b.size - (16 + roundUp size), true⟩] ++ (ys ++ [last])))

/-- It makes no difference which block is split. For a size of 0, which `malloc` refuses, there is
none to take or to split. -/
structure NoChoice (blocks : List Block) (size : Nat) : Prop where
  zero : size = 0 → ∀ b ∈ blocks, ¬ Exact size b ∧ ¬ Splittable size b
  same : size ≠ 0 → (∃ b ∈ blocks, Exact size b) ∨
    ∀ b ∈ blocks, ∀ c ∈ blocks, Splittable size b → Splittable size c → b.size = c.size

variable {m : ByteMem} {blocks : List Block} {last : Block} {size next limit : Nat}

/-! ## The candidate -/

/-- A block that `pick` may end with: the candidate or a free block of the list, above the limit. -/
def Fits (limit : Nat) (cand : Option Block) (ys : List Block) (b : Block) : Prop :=
  (b ∈ ys ∧ b.free = true ∨ cand = some b) ∧ limit < b.size

/-- The new candidate is the larger one of the old and the block, if they are above the limit. -/
theorem better_spec (limit : Nat) (cand : Option Block) (y : Block) :
    (∀ b, cand = some b ∨ b = y → limit < b.size →
      ∃ b', better limit cand y = some b' ∧ b.size ≤ b'.size) ∧
    ∀ b, better limit cand y = some b → limit < b.size → cand = some b ∨ b = y := by
  unfold better
  cases cand with
  | none =>
      simp only [reduceCtorEq, false_or, and_true, forall_eq]
      split_ifs with hlarge hlimit
      · exact ⟨fun _ => ⟨y, rfl, Nat.le_refl _⟩, fun b hb _ => (Option.some.inj hb).symm⟩
      · exact ⟨fun h => absurd h hlarge, fun b hb _ => (Option.some.inj hb).symm⟩
      · exact ⟨fun h => absurd h hlarge, fun b hb _ => nomatch hb⟩
  | some c =>
      simp only [reduceCtorEq, and_false, if_false, Option.some.injEq]
      split_ifs with hlarge hless
      · refine ⟨?_, fun b hb _ => Or.inr (Option.some.inj hb).symm⟩
        rintro b (rfl | rfl) _
        · exact ⟨y, rfl, Nat.le_of_lt hless⟩
        · exact ⟨b, rfl, Nat.le_refl _⟩
      · refine ⟨?_, fun b hb _ => Or.inl (Option.some.inj hb)⟩
        rintro b (rfl | rfl) _
        · exact ⟨c, rfl, Nat.le_refl _⟩
        · exact ⟨c, rfl, Nat.not_lt.mp hless⟩
      · refine ⟨?_, fun b hb _ => Or.inl (Option.some.inj hb)⟩
        rintro b (rfl | rfl) hb
        · exact ⟨c, rfl, Nat.le_refl _⟩
        · exact absurd hb hlarge

/-- One block: it becomes the candidate where it is larger, and nothing larger is lost. -/
theorem fits_step (limit : Nat) (cand : Option Block) (y : Block) (ys : List Block) :
    (∀ b, Fits limit cand (y :: ys) b →
      ∃ b', Fits limit (if y.free then better limit cand y else cand) ys b' ∧ b.size ≤ b'.size) ∧
    ∀ b, Fits limit (if y.free then better limit cand y else cand) ys b →
      Fits limit cand (y :: ys) b := by
  have hkeep : ∀ b, b ∈ ys ∧ b.free = true → b ∈ y :: ys ∧ b.free = true :=
    fun b hb => ⟨List.mem_cons_of_mem _ hb.1, hb.2⟩
  cases hfree : y.free with
  | false =>
      simp only [Bool.false_eq_true, if_false]
      constructor
      · rintro b ⟨hb | hb, hsize⟩
        · rcases List.mem_cons.mp hb.1 with rfl | hmem
          · rw [hfree] at hb
            exact absurd hb.2 Bool.false_ne_true
          · exact ⟨b, ⟨Or.inl ⟨hmem, hb.2⟩, hsize⟩, Nat.le_refl _⟩
        · exact ⟨b, ⟨Or.inr hb, hsize⟩, Nat.le_refl _⟩
      · rintro b ⟨hb | hb, hsize⟩
        · exact ⟨Or.inl (hkeep b hb), hsize⟩
        · exact ⟨Or.inr hb, hsize⟩
  | true =>
      simp only [if_true]
      obtain ⟨hup, hdown⟩ := better_spec limit cand y
      constructor
      · rintro b ⟨hb, hsize⟩
        have hcases : (cand = some b ∨ b = y) ∨ b ∈ ys ∧ b.free = true := by
          rcases hb with ⟨hmem, hbfree⟩ | hb
          · rcases List.mem_cons.mp hmem with rfl | hmem
            · exact Or.inl (Or.inr rfl)
            · exact Or.inr ⟨hmem, hbfree⟩
          · exact Or.inl (Or.inl hb)
        rcases hcases with hnew | hlater
        · obtain ⟨b', hb', hle⟩ := hup b hnew hsize
          exact ⟨b', ⟨Or.inr hb', Nat.lt_of_lt_of_le hsize hle⟩, hle⟩
        · exact ⟨b, ⟨Or.inl hlater, hsize⟩, Nat.le_refl _⟩
      · rintro b ⟨hb | hb, hsize⟩
        · exact ⟨Or.inl (hkeep b hb), hsize⟩
        · rcases hdown b hb hsize with hold | rfl
          · exact ⟨Or.inr hold, hsize⟩
          · exact ⟨Or.inl ⟨List.mem_cons_self, hfree⟩, hsize⟩

/-- The candidate behind a list is a largest block above the limit, where there is one. -/
theorem pick_largest : ∀ (ys : List Block) (cand : Option Block), (∃ b, Fits limit cand ys b) →
    ∃ c, pick limit cand ys = some c ∧ Fits limit cand ys c ∧
      ∀ b, Fits limit cand ys b → b.size ≤ c.size := by
  intro ys
  induction ys with
  | nil =>
      rintro cand ⟨b, hb | hb, hsize⟩
      · exact absurd hb.1 List.not_mem_nil
      · subst hb
        refine ⟨b, rfl, ⟨Or.inr rfl, hsize⟩, ?_⟩
        rintro b' ⟨hb' | hb', _⟩
        · exact absurd hb'.1 List.not_mem_nil
        · cases hb'
          exact Nat.le_refl _
  | cons y ys ih =>
      rintro cand ⟨b, hb⟩
      obtain ⟨hup, hdown⟩ := fits_step limit cand y ys
      obtain ⟨b', hb', _⟩ := hup b hb
      obtain ⟨c, hpick, hc, hlargest⟩ := ih _ ⟨b', hb'⟩
      refine ⟨c, hpick, hdown c hc, fun d hd => ?_⟩
      obtain ⟨d', hd', hle⟩ := hup d hd
      exact Nat.le_trans hle (hlargest d' hd')

/-! ## The limits -/

/-- Up to the size of the heap nothing wraps. -/
theorem round_size_eq (hsize : roundUp size ≤ 0x2000000) :
    roundSize size = roundUp size ∧ splitLimit (roundSize size) = roundUp size + 32 := by
  have hround := round_size_of_le ((round_up_ge size).trans (hsize.trans (by decide)))
  refine ⟨hround, ?_⟩
  have hheader : add32 (roundUp size) heapHeader = roundUp size + 16 := add32_of_lt (by
    simp only [heapHeader]
    omega)
  rw [splitLimit, hround, hheader]
  exact add32_of_lt (by simp only [heapMinLimit]; omega)

/-- A block that is taken or split is no larger than the heap. -/
theorem round_up_le (h : BlockList m (blocks ++ [last])) {b : Block} (hb : b ∈ blocks)
    (hfits : Exact size b ∨ Splittable size b) : roundUp size ≤ 0x2000000 := by
  obtain ⟨hlo, hhi⟩ := h.bounds (b := b) (List.mem_append_left _ hb)
  rcases hfits with ⟨_, heq⟩ | ⟨_, hlt⟩ <;> omega

theorem exact_fit_iff {b : Block} (hround : roundSize size = roundUp size) :
    exactFit (roundSize size) b = true ↔ Exact size b := by
  rw [exactFit, Bool.and_eq_true_iff, decide_eq_true_eq, hround]
  rfl

/-! ## The choice -/

/-- An exact fit is taken, and it is the first. -/
theorem malloc_exact (h : BlockList m (blocks ++ [last])) (hsize : size ≠ 0)
    (hexact : ∃ b ∈ blocks, Exact size b) :
    ∃ xs b ys m', blocks = xs ++ b :: ys ∧ Exact size b ∧ (∀ c ∈ xs, ¬ Exact size c) ∧
      (∀ k, blocks.length < k → malloc m size next k = some (b.addr + 16, m')) ∧
      BlockList m' (xs ++ ⟨b.addr, b.size, false⟩ :: (ys ++ [last])) := by
  obtain ⟨b₀, hb₀, hfit₀⟩ := hexact
  obtain ⟨hround, _⟩ := round_size_eq (round_up_le h hb₀ (Or.inl hfit₀))
  cases hfind : blocks.find? (exactFit (roundSize size)) with
  | none =>
      have hnone := List.find?_eq_none.mp hfind b₀ hb₀
      exact absurd ((exact_fit_iff hround).mpr hfit₀) hnone
  | some b =>
      obtain ⟨hb, xs, ys, rfl, hfirst⟩ := List.find?_eq_some_iff_append.mp hfind
      rw [List.append_assoc, List.cons_append] at h
      obtain ⟨heq, htaken⟩ := h.take
      refine ⟨xs, b, ys, _, rfl, (exact_fit_iff hround).mp hb, fun c hc hfit => ?_, fun k hk => ?_,
        htaken⟩
      · have hno := hfirst c hc
        rw [(exact_fit_iff hround).mpr hfit] at hno
        exact absurd hno (by decide)
      · rw [← List.cons_append, ← List.append_assoc] at h
        rw [malloc_block_list h hsize hk, hfind]
        exact congrArg some heq

/-- Without an exact fit a largest of the blocks that can be split is split. -/
theorem malloc_splits (next : Nat) (h : BlockList m (blocks ++ [last])) (hsize : size ≠ 0)
    (hexact : ∀ b ∈ blocks, ¬ Exact size b) (hsplit : ∃ b ∈ blocks, Splittable size b) :
    ∃ xs b ys m', blocks = xs ++ b :: ys ∧ Splittable size b ∧
      (∀ c ∈ blocks, Splittable size c → c.size ≤ b.size) ∧
      (∀ k, blocks.length < k → malloc m size next k = some (b.addr + 16, m')) ∧
      BlockList m' (xs ++ ([⟨b.addr, roundUp size, false⟩,
        ⟨b.addr + roundUp size + 16, b.size - (16 + roundUp size), true⟩] ++ (ys ++ [last]))) := by
  obtain ⟨b₀, hb₀, hfit₀⟩ := hsplit
  obtain ⟨hround, hlimit⟩ := round_size_eq (round_up_le h hb₀ (Or.inr hfit₀))
  have hfind : blocks.find? (exactFit (roundSize size)) = none :=
    List.find?_eq_none.mpr fun b hb hfit => hexact b hb ((exact_fit_iff hround).mp hfit)
  have hfits : ∀ b, Fits (splitLimit (roundSize size)) none blocks b ↔
      b ∈ blocks ∧ Splittable size b := by
    intro b
    rw [Fits, hlimit, Splittable]
    simp only [reduceCtorEq, or_false, and_assoc]
  obtain ⟨c, hpick, hc, hlargest⟩ := pick_largest blocks none ⟨b₀, (hfits b₀).mpr ⟨hb₀, hfit₀⟩⟩
  obtain ⟨hmem, hcsplit⟩ := (hfits c).mp hc
  obtain ⟨xs, ys, rfl⟩ := List.append_of_mem hmem
  have hlarge := hcsplit.2
  have hlist := h
  rw [List.append_assoc, List.cons_append] at hlist
  obtain ⟨m', heq, hcut⟩ := hlist.split (show 16 + roundUp size ≤ c.size by omega)
  refine ⟨xs, c, ys, m', rfl, hcsplit, fun d hd hdsplit => hlargest d ((hfits d).mpr ⟨hd, hdsplit⟩),
    fun k hk => ?_, hcut⟩
  rw [malloc_block_list h hsize hk, hfind]
  simp only
  rw [hpick, place, if_pos (by rw [hlimit]; exact hlarge), hround, heq]

/-- `malloc` has one result: two blocks whose bytes it returns are one. -/
theorem malloc_block_unique (h : BlockList m (blocks ++ [last])) {b c : Block} {m₁ m₂ : ByteMem}
    (hb : b ∈ blocks) (hc : c ∈ blocks)
    (hrun : ∀ k, blocks.length < k → malloc m size next k = some (b.addr + 16, m₁))
    (hrun' : ∀ k, blocks.length < k → malloc m size next k = some (c.addr + 16, m₂)) : b = c := by
  have heq := (hrun _ (Nat.lt_succ_self _)).symm.trans (hrun' _ (Nat.lt_succ_self _))
  have hptr : b.addr + 16 = c.addr + 16 := congrArg Prod.fst (Option.some.inj heq)
  have hwidth : ∀ b ∈ blocks ++ [last], 0 < b.width := fun b _ =>
    Nat.lt_of_lt_of_le (Nat.succ_pos 15) (Nat.le_add_right 16 b.size)
  exact h.tiles.addr_inj hwidth (List.mem_append_left _ hb) (List.mem_append_left _ hc)
    (Nat.add_right_cancel hptr)

/-- A size of 0 is refused, so no block is taken or split for it. -/
theorem best_fit_zero :
    BestFit m blocks last 0 next ↔ ∀ b ∈ blocks, ¬ Exact 0 b ∧ ¬ Splittable 0 b := by
  have hnull : ∀ {b : Block} {m' : ByteMem},
      ¬ ∀ k, blocks.length < k → malloc m 0 next k = some (b.addr + 16, m') := by
    intro b m' hrun
    have heq : some (0, m) = some (b.addr + 16, m') := hrun _ (Nat.lt_succ_self _)
    exact Nat.ne_of_lt (Nat.succ_pos _) (congrArg Prod.fst (Option.some.inj heq))
  constructor
  · intro hbest
    have hexact : ∀ b ∈ blocks, ¬ Exact 0 b := by
      intro b hb hfit
      obtain ⟨_, _, _, _, _, _, _, hrun, _⟩ := hbest.exact ⟨b, hb, hfit⟩
      exact hnull hrun
    refine fun b hb => ⟨hexact b hb, fun hfit => ?_⟩
    obtain ⟨_, _, _, _, _, _, _, hrun, _⟩ := hbest.smallest hexact ⟨b, hb, hfit⟩
    exact hnull hrun
  · intro hno
    refine ⟨fun hexact => ?_, fun _ hsplit => ?_⟩
    · obtain ⟨b, hb, hfit⟩ := hexact
      exact absurd hfit (hno b hb).1
    · obtain ⟨b, hb, hfit⟩ := hsplit
      exact absurd hfit (hno b hb).2

/-- For every well-formed block list and every size, `malloc` makes the best fit exactly when the
blocks that it could split are all of one size, or it takes an exact fit; for a size of 0, which it
refuses, when there is nothing to take or to split. -/
theorem best_fit_iff (h : BlockList m (blocks ++ [last])) (size next : Nat) :
    BestFit m blocks last size next ↔ NoChoice blocks size := by
  by_cases hsize : size = 0
  · subst hsize
    rw [best_fit_zero]
    exact ⟨fun hno => ⟨fun _ => hno, fun hne => absurd rfl hne⟩, fun hno => hno.zero rfl⟩
  · constructor
    · intro hbest
      refine ⟨fun hzero => absurd hzero hsize, fun _ => ?_⟩
      by_cases hexact : ∃ b ∈ blocks, Exact size b
      · exact Or.inl hexact
      refine Or.inr fun b hb c hc hfit hfit' => ?_
      have hnone : ∀ b ∈ blocks, ¬ Exact size b := fun b hb hfit => hexact ⟨b, hb, hfit⟩
      -- the block that is split is a smallest and a largest
      obtain ⟨_, s, _, _, hsplit, _, hsmallest, hrun, _⟩ := hbest.smallest hnone ⟨b, hb, hfit⟩
      obtain ⟨_, l, _, _, hsplit', _, hlargest, hrun', _⟩ :=
        malloc_splits next h hsize hnone ⟨b, hb, hfit⟩
      have hs : s ∈ blocks := by
        rw [hsplit]
        simp
      have hl : l ∈ blocks := by
        rw [hsplit']
        simp
      obtain rfl := malloc_block_unique h hs hl hrun hrun'
      have hb₁ := hsmallest b hb hfit
      have hb₂ := hlargest b hb hfit
      have hc₁ := hsmallest c hc hfit'
      have hc₂ := hlargest c hc hfit'
      omega
    · intro hno
      refine ⟨fun hexact => malloc_exact h hsize hexact, fun hnone hsplit => ?_⟩
      rcases hno.same hsize with ⟨b, hb, hfit⟩ | hsame
      · exact absurd hfit (hnone b hb)
      · obtain ⟨xs, b, ys, m', heq, hfit, _, hrun, hlist⟩ :=
          malloc_splits next h hsize hnone hsplit
        refine ⟨xs, b, ys, m', heq, hfit, fun c hc hcfit => ?_, hrun, hlist⟩
        exact Nat.le_of_eq (hsame b (by rw [heq]; simp) c hc hfit hcfit)

/-! ## Two free blocks -/

/-- Two free blocks, of 64 and of 128 bytes, before the last. -/
def twoFree : List Block := [⟨0x1000000, 64, true⟩, ⟨0x1000050, 128, true⟩]

/-- The rest of the heap. -/
def lastFree : Block := ⟨0x10000e0, 0x1ffff10, true⟩

/-- Their headers. -/
def twoFreeHeap : ByteMem := fun x =>
  match x with
  | 0x1000000 => 0x40
  | 0x1000004 => 0x50
  | 0x1000007 | 0x1000008 => 0x01
  | 0x1000050 => 0x80
  | 0x1000054 => 0xe0
  | 0x1000057 | 0x1000058 => 0x01
  | 0x10000e0 => 0x10
  | 0x10000e1 | 0x10000e2 => 0xff
  | 0x10000e3 | 0x10000e8 => 0x01
  | _ => 0x00

theorem two_free_list : BlockList twoFreeHeap (twoFree ++ [lastFree]) where
  linked := by
    refine ⟨rfl, by decide, by decide, ?_⟩
    refine ⟨by decide, by decide, by decide, ?_⟩
    exact ⟨by decide, by decide, by decide, rfl⟩
  tiles := ⟨rfl, rfl, rfl, rfl⟩

/-- An exact fit of 128 bytes. -/
theorem best_fit_iff_exact : BestFit twoFreeHeap twoFree lastFree 128 0 :=
  (best_fit_iff two_free_list 128 0).mpr
    ⟨fun h => absurd h (by decide), fun _ => Or.inl ⟨⟨0x1000050, 128, true⟩, by decide, rfl, rfl⟩⟩

/-- A request of 16 bytes splits the larger of the two. -/
theorem larger_block_split : ¬ BestFit twoFreeHeap twoFree lastFree 16 0 := by
  intro hbest
  have hnone : ∀ b ∈ twoFree, ¬ Exact 16 b := by
    unfold Exact
    decide
  have hsplit : Splittable 16 ⟨0x1000050, 128, true⟩ := ⟨rfl, by decide⟩
  have hsplit' : Splittable 16 ⟨0x1000000, 64, true⟩ := ⟨rfl, by decide⟩
  obtain ⟨_, s, _, _, hs, _, hsmallest, hrun, _⟩ := hbest.smallest hnone ⟨_, by decide, hsplit⟩
  obtain ⟨_, l, _, _, hl, _, hlargest, hrun', _⟩ :=
    malloc_splits 0 two_free_list (by decide) hnone ⟨_, by decide, hsplit⟩
  have hs' : s ∈ twoFree := by
    rw [hs]
    simp
  have hl' : l ∈ twoFree := by
    rw [hl]
    simp
  obtain rfl := malloc_block_unique two_free_list hs' hl' hrun hrun'
  have hsmall : s.size ≤ 64 := hsmallest _ (by decide) hsplit'
  have hlarge : 128 ≤ s.size := hlargest _ (by decide) hsplit
  omega

end UserHeap

end Genesis32
