import Genesis32.Library.Transition
import Genesis32.UserHeap.BlockList

/-!
# Runs of the user heap

What callers of `malloc` and `free` of `gen32_heap/heap.c` may rely on after `heap_init`, over every
order of their calls. The first request already decides: the check of `default_case` adds the whole
block to the size and compares with the size of the heap, so every request that fits is refused,
and a request near 4 GiB wraps past the check and is answered with an address. `heap_law_iff` says
which runs keep the law.
-/

namespace Genesis32

open Word

namespace UserHeap

/-! ## The law -/

/-- What a caller holds: an address that `malloc` returned and the size it asked for. -/
structure LiveBlock where
  ptr : Nat
  size : Nat
  deriving DecidableEq, Repr

/-- The memory, and the blocks that the callers hold. -/
structure UserState where
  mem : ByteMem
  live : List LiveBlock

/-- A call with its argument. `next` is what the unset local of `default_case` holds. -/
inductive UserOp where
  | malloc (size next result : Nat)
  | free (ptr : Nat)

/-- One call. `malloc` takes any 32-bit size, and `free` an address that is live. -/
def UserStep (s : UserState) : UserOp → UserState → Prop
  | .malloc size next result, s' => size < 4294967296 ∧ next < 4294967296 ∧
      (∃ k, malloc s.mem size next k = some (result, s'.mem)) ∧
      s'.live = if result = 0 then s.live else ⟨result, size⟩ :: s.live
  | .free ptr, s' => (∃ a ∈ s.live, a.ptr = ptr) ∧ s'.mem = free s.mem ptr ∧
      s'.live = s.live.filter fun a => a.ptr ≠ ptr

/-- The blocks tile the heap, each live pointer has the bytes asked for behind the header of a block
that is not free, and the live blocks are disjoint. -/
def Sound (s : UserState) : Prop :=
  ∃ bs, BlockList s.mem bs ∧
    (∀ a ∈ s.live, ∃ b ∈ bs, b.free = false ∧ a.ptr = b.addr + heapHeader ∧ a.size ≤ b.size) ∧
    s.live.Pairwise fun a a' => a.ptr + a.size ≤ a'.ptr ∨ a'.ptr + a'.size ≤ a.ptr

/-- `malloc` returns `NULL` only if no free block is as large as the rounded size. -/
def NullOnlyWhenFull (m : ByteMem) : UserOp → Prop
  | .malloc size _ result => 0 < size → result = 0 →
      ∀ bs, BlockList m bs → ∀ b ∈ bs, b.free = true → b.size < roundUp size
  | .free _ => True

/-- A step that keeps the law. -/
def Lawful (x : Transition UserState UserOp) : Prop :=
  Sound x.after ∧ NullOnlyWhenFull x.before.mem x.event

/-- A call that cannot break the law: no bytes are asked for, or more than the heap has, with a size
for which the check of `default_case` does not wrap. -/
def Refusable (x : Transition UserState UserOp) : Prop :=
  ∀ size next result, x.event = .malloc size next result →
    size = 0 ∨ 0x1fffff0 < size ∧ size ≤ 0xfdfffff0

/-! ## The fresh heap -/

/-- The block that `heap_init` makes. -/
def wholeBlock : Block := ⟨heapStart, heapSize - 0x10, true⟩

/-- The heap as `heap_init` leaves it, with nothing handed out. -/
structure Fresh (s : UserState) : Prop where
  header : Header s.mem heapStart (heapSize - 0x10) 0 true
  live : s.live = []

variable {s s' : UserState} {m : ByteMem} {size next result : Nat}

theorem fresh_heap_init (m : ByteMem) : Fresh ⟨heapInit m, []⟩ where
  header := by
    have hstale : Header m heapStart (sizeOf m heapStart) (addrN m heapStart)
        (isFree m heapStart) := ⟨rfl, rfl, rfl⟩
    exact ((hstale.setAddrN (by decide)).setFree true).setSize (by decide)
  live := rfl

theorem Fresh.block_list (h : Fresh s) : BlockList s.mem [wholeBlock] where
  linked := ⟨rfl, h.header.size, h.header.free, h.header.next⟩
  tiles := ⟨rfl, rfl⟩

theorem Fresh.sound (h : Fresh s) : Sound s := by
  refine ⟨[wholeBlock], h.block_list, ?_, ?_⟩
  · rw [h.live]
    exact fun a ha => absurd ha List.not_mem_nil
  · rw [h.live]
    exact List.Pairwise.nil

/-! ## Requests to the fresh heap -/

/-- The only block is the last, so every request ends in `default_case`. -/
theorem Fresh.malloc_eq (h : Fresh s) {k : Nat} {r : Nat × ByteMem} (hsize : size ≠ 0)
    (hrun : malloc s.mem size next k = some r) :
    r = defaultCase s.mem heapStart (roundSize size) next := by
  cases k with
  | zero =>
      rw [malloc, if_neg hsize, mallocLoop] at hrun
      cases hrun
  | succ k =>
      have hlist : BlockList s.mem ([] ++ [wholeBlock]) := h.block_list
      rw [malloc_block_list hlist hsize (Nat.succ_pos k)] at hrun
      exact (Option.some.inj hrun).symm

/-- The check of `default_case` adds the size to a block that is already as large as the heap. -/
theorem Fresh.default_case_refuses (h : Fresh s) {r : Nat} (hpos : 0 < r) (hr : r ≤ 0xfdfffff0) :
    defaultCase s.mem heapStart r next = (0, s.mem) := by
  have hsum : add32 (add32 (heapSize - 0x10) r) heapHeader = 0x2000000 + r := by
    unfold add32
    simp only [heapSize, heapHeader]
    omega
  rw [defaultCase, h.header.size, hsum, if_pos (Nat.lt_add_of_pos_right hpos)]

/-- A size near 4 GiB wraps, in the rounding or in the check. -/
theorem Fresh.default_case_wraps (h : Fresh s) (hsize : size < 4294967296)
    (hwrap : 0xfdfffff0 < size) :
    (defaultCase s.mem heapStart (roundSize size) next).1 = 0x1000010 := by
  have hsum : ¬ add32 (add32 (heapSize - 0x10) (roundSize size)) heapHeader > heapSize := by
    rw [round_size_eq_div]
    unfold add32
    simp only [heapSize, heapHeader]
    omega
  rw [defaultCase, h.header.size, if_neg hsum]
  rfl

/-- A size up to that of the block is refused although the block is free. -/
theorem Fresh.refuses_fitting (h : Fresh s) {k : Nat} (hpos : 0 < size) (hfits : size ≤ 0x1fffff0)
    (hrun : malloc s.mem size next k = some (result, m)) :
    ¬ NullOnlyWhenFull s.mem (.malloc size next result) := by
  have hround := round_size_of_le (show size ≤ 0xfffffff0 by omega)
  have hge := round_up_ge size
  have hle : roundUp size ≤ 0x1fffff0 := by
    unfold roundUp
    omega
  have hnull := h.malloc_eq (Nat.ne_of_gt hpos) hrun
  rw [hround, h.default_case_refuses (by omega) (by omega)] at hnull
  intro hfull
  have hlt := hfull hpos (congrArg Prod.fst hnull) _ h.block_list wholeBlock List.mem_cons_self rfl
  exact absurd hlt (Nat.not_lt.mpr hle)

/-- A block of the size asked for does not lie in the heap. -/
theorem not_sound_of_large {a : LiveBlock} (ha : a ∈ s.live) (hsize : 0x1fffff0 < a.size) :
    ¬ Sound s := by
  intro h
  obtain ⟨bs, hbs, hblocks, _⟩ := h
  obtain ⟨b, hb, _, _, hle⟩ := hblocks a ha
  obtain ⟨hlo, hhi⟩ := hbs.bounds hb
  omega

/-- A request for more than the heap has may be refused. -/
theorem null_of_large (hsize : 0x1fffff0 < size) :
    NullOnlyWhenFull m (.malloc size next result) := by
  intro _ _ bs hbs b hb _
  obtain ⟨hlo, hhi⟩ := hbs.bounds hb
  have hge := round_up_ge size
  omega

/-- A request that is refused leaves the fresh heap as it is. -/
theorem Fresh.refused (h : Fresh s) (hmem : s'.mem = s.mem) (hlive : s'.live = s.live) :
    Fresh s' where
  header := hmem ▸ h.header
  live := hlive.trans h.live

/-- A request to the fresh heap keeps the law exactly when it cannot break it, and then it leaves
the heap fresh. -/
theorem Fresh.malloc_step (h : Fresh s) (hstep : UserStep s (.malloc size next result) s') :
    (Lawful ⟨s, .malloc size next result, s'⟩ ↔
      size = 0 ∨ 0x1fffff0 < size ∧ size ≤ 0xfdfffff0) ∧
    (size = 0 ∨ 0x1fffff0 < size ∧ size ≤ 0xfdfffff0 → Fresh s') := by
  obtain ⟨hword, _, ⟨k, hrun⟩, hlive⟩ := hstep
  rcases Nat.eq_zero_or_pos size with rfl | hpos
  · -- `malloc(0)` does nothing
    obtain ⟨rfl, hmem⟩ := Prod.mk.inj (Option.some.inj (hrun.symm.trans (if_pos rfl)))
    have hfresh : Fresh s' := h.refused hmem (hlive.trans (if_pos rfl))
    exact ⟨⟨fun _ => Or.inl rfl, fun _ => ⟨hfresh.sound, fun hlt => absurd hlt (Nat.lt_irrefl 0)⟩⟩,
      fun _ => hfresh⟩
  have hdefault := h.malloc_eq (Nat.ne_of_gt hpos) hrun
  rcases Nat.lt_or_ge 0x1fffff0 size with hlarge | hfits
  · rcases Nat.lt_or_ge 0xfdfffff0 size with hwrap | hsmall
    · -- the check wraps, and the caller holds an address without the bytes
      have hptr : result = 0x1000010 :=
        (congrArg Prod.fst hdefault).trans (h.default_case_wraps hword hwrap)
      have hmem : (⟨result, size⟩ : LiveBlock) ∈ s'.live := by
        rw [hlive, if_neg (by omega)]
        exact List.mem_cons_self
      have hno := not_sound_of_large hmem hlarge
      exact ⟨⟨fun hlaw => absurd hlaw.1 hno, by omega⟩, by omega⟩
    · -- refused, and the heap has not that much
      have hround := round_size_of_le (show size ≤ 0xfffffff0 by omega)
      have hge := round_up_ge size
      have hle : roundUp size ≤ 0xfdfffff0 := by
        unfold roundUp
        omega
      rw [hround, h.default_case_refuses (by omega) hle] at hdefault
      obtain ⟨rfl, hmem⟩ := Prod.mk.inj hdefault
      have hfresh : Fresh s' := h.refused hmem (hlive.trans (if_pos rfl))
      exact ⟨⟨fun _ => Or.inr ⟨hlarge, hsmall⟩, fun _ => ⟨hfresh.sound, null_of_large hlarge⟩⟩,
        fun _ => hfresh⟩
  · -- refused although it fits
    have hno := h.refuses_fitting hpos hfits hrun
    exact ⟨⟨fun hlaw => absurd hlaw.2 hno, by omega⟩, by omega⟩

/-- One step from the fresh heap; nothing is live that could be freed. -/
theorem Fresh.step {x : Transition UserState UserOp} (h : Fresh x.before)
    (hstep : UserStep x.before x.event x.after) :
    (Lawful x ↔ Refusable x) ∧ (Refusable x → Fresh x.after) := by
  obtain ⟨s, event, s'⟩ := x
  cases event with
  | malloc size next result =>
      obtain ⟨hiff, hfresh⟩ := h.malloc_step hstep
      have hcond : Refusable ⟨s, .malloc size next result, s'⟩ ↔
          size = 0 ∨ 0x1fffff0 < size ∧ size ≤ 0xfdfffff0 := by
        refine ⟨fun hx => hx size next result rfl, ?_⟩
        rintro hx _ _ _ ⟨⟩
        exact hx
      exact ⟨hiff.trans hcond.symm, fun hx => hfresh (hcond.mp hx)⟩
  | free ptr =>
      obtain ⟨⟨a, ha, _⟩, _⟩ := hstep
      rw [h.live] at ha
      exact absurd ha List.not_mem_nil

/-! ## Runs -/

/-- After `heap_init` the law holds, in every state and at every step of a run of `malloc` and
`free`, exactly when every request of the run is for no bytes, or for more than the heap has and
not for a size at which the check wraps. -/
theorem heap_law_iff {m₀ : ByteMem} {trace : List (Transition UserState UserOp)} {s : UserState}
    (hrun : Run UserStep ⟨heapInit m₀, []⟩ trace s) :
    (Sound ⟨heapInit m₀, []⟩ ∧ ∀ x ∈ trace, Lawful x) ↔ ∀ x ∈ trace, Refusable x := by
  have hinit := fresh_heap_init m₀
  have hiff := (hrun.forall_iff (fun x hx hstep => hx.step hstep) hinit).1
  exact ⟨fun h => hiff.mp h.2, fun h => ⟨hinit.sound, hiff.mpr h⟩⟩

/-- The fresh heap refuses every request whose size does not wrap, and stays as it is. -/
theorem malloc_fresh_refused (m₀ : ByteMem) (hpos : 0 < roundSize size)
    (hle : roundSize size ≤ 0xfdfffff0) (hsize : size ≠ 0) :
    malloc (heapInit m₀) size 0 1 = some (0, heapInit m₀) := by
  have hinit := fresh_heap_init m₀
  have hlist : BlockList (heapInit m₀) ([] ++ [wholeBlock]) := hinit.block_list
  rw [malloc_block_list hlist hsize Nat.zero_lt_one]
  exact congrArg some (hinit.default_case_refuses hpos hle)

/-- The fresh heap. -/
def freshStart : UserState := ⟨heapInit fun _ => 0x00, []⟩

/-- A request that leaves the fresh heap as it is. -/
def refusedRequest (size : Nat) : Transition UserState UserOp :=
  ⟨freshStart, .malloc size 0 0, freshStart⟩

/-- Requests for no bytes and for more than the heap has keep the law; a request for 16 bytes after
them does not. -/
theorem heap_law_iff_refused :
    (Sound freshStart ∧ ∀ x ∈ [refusedRequest 0, refusedRequest 0x2000000], Lawful x) ∧
    ¬ (Sound freshStart ∧
      ∀ x ∈ [refusedRequest 0, refusedRequest 0x2000000, refusedRequest 16], Lawful x) := by
  have hstep : ∀ size, size < 4294967296 →
      (∃ k, malloc freshStart.mem size 0 k = some (0, freshStart.mem)) →
      UserStep freshStart (.malloc size 0 0) freshStart :=
    fun size hsize hrun => ⟨hsize, by decide, hrun, rfl⟩
  have hzero := hstep 0 (by decide) ⟨0, rfl⟩
  have hlarge := hstep 0x2000000 (by decide)
    ⟨1, malloc_fresh_refused _ (by decide) (by decide) (by decide)⟩
  have hsmall := hstep 16 (by decide)
    ⟨1, malloc_fresh_refused _ (by decide) (by decide) (by decide)⟩
  constructor
  · refine (heap_law_iff (.snoc (.snoc .nil hzero) hlarge)).mpr fun x hx => ?_
    rcases List.mem_cons.mp hx with rfl | hx
    · rintro _ _ _ ⟨⟩
      exact Or.inl rfl
    · obtain rfl := List.mem_singleton.mp hx
      rintro _ _ _ ⟨⟩
      exact Or.inr (by decide)
  · intro hlaw
    have hcond := (heap_law_iff (.snoc (.snoc (.snoc .nil hzero) hlarge) hsmall)).mp hlaw
    have hlast := hcond _ (List.mem_append_right _ List.mem_cons_self)
    exact absurd (hlast 16 0 0 rfl) (by decide)

/-- The first request for 16 bytes is refused by an empty heap. -/
theorem first_request_refused : ¬ ∀ (trace : List (Transition UserState UserOp)) (s : UserState),
    Run UserStep ⟨heapInit (fun _ => 0x00), []⟩ trace s → ∀ x ∈ trace, Lawful x := by
  intro h
  have hrefused : malloc (heapInit fun _ => 0x00) 16 0 1 = some (0, heapInit fun _ => 0x00) :=
    malloc_fresh_refused _ (by decide) (by decide) (by decide)
  have hstep : UserStep ⟨heapInit (fun _ => 0x00), []⟩ (.malloc 16 0 0)
      ⟨heapInit (fun _ => 0x00), []⟩ := ⟨by decide, by decide, ⟨1, hrefused⟩, rfl⟩
  have hlaw := h _ _ (.snoc .nil hstep) _ List.mem_cons_self
  exact (fresh_heap_init _).refuses_fitting (by decide) (by decide) hrefused hlaw.2

end UserHeap

end Genesis32
