import Genesis32.Library.ByteMem
import Genesis32.Library.Tiling
import Genesis32.Library.Word

/-!
# The user heap

`malloc`, `free` and `heap_init` of `gen32_heap/heap.c`, on the bytes of the heap. A block is a
header of 16 bytes, its size, the address of the next header and whether it is free, with its usable
bytes behind it. `BlockList` says that a list is what is reached through `addr_n` from the first
block and that it tiles the heap; `malloc_block_list` says what `malloc` does on such a heap in
terms of the list.

`default_case` computes the header of the block that it carves and then overwrites the link with a
local that it never sets; what that holds is a parameter.
-/

namespace Genesis32

open Word

namespace UserHeap

/-- `HEAP_START`. -/
abbrev heapStart : Nat := 0x1000000

/-- `HEAP_SIZE`. -/
abbrev heapSize : Nat := 0x2000000

/-- `HEAP_HEADER`. -/
abbrev heapHeader : Nat := 16

/-- `HEAP_MIN_LIMIT`. -/
abbrev heapMinLimit : Nat := 16

/-! ## The fields of a header -/

/-- `cur->size`. -/
def sizeOf (m : ByteMem) (cur : Nat) : Nat := m.word32 cur

/-- `cur->addr_n`. -/
def addrN (m : ByteMem) (cur : Nat) : Nat := m.word32 (cur + 4)

/-- `cur->free==true`. -/
def isFree (m : ByteMem) (cur : Nat) : Bool := m (cur + 8) = 0x01

def setSize (m : ByteMem) (cur size : Nat) : ByteMem := m.setWord32 cur size

def setAddrN (m : ByteMem) (cur next : Nat) : ByteMem := m.setWord32 (cur + 4) next

def setFree (m : ByteMem) (cur : Nat) (free : Bool) : ByteMem :=
  Function.update m (cur + 8) (if free then 0x01 else 0x00)

/-! ## The functions -/

/-- `heap_init`. -/
def heapInit (m : ByteMem) : ByteMem :=
  setSize (setFree (setAddrN m heapStart 0) heapStart true) heapStart (heapSize - 0x10)

/-- `default_case`: the result and the memory. `next` is what the local of that name holds. -/
def defaultCase (m : ByteMem) (cur size next : Nat) : Nat × ByteMem :=
  if add32 (add32 (sizeOf m cur) size) heapHeader > heapSize then (0, m)
  else
    let m := setAddrN m cur (add32 (add32 cur heapHeader) size)
    -- the link is overwritten before it is used
    let m := setAddrN m cur next
    let m := setSize m next (sub32 (sizeOf m cur) (add32 heapHeader size))
    let m := setSize m cur size
    let m := setFree m cur false
    let m := setFree m next true
    let m := setAddrN m next 0
    (add32 cur heapHeader, m)

/-- `favourable_worst`. -/
def favourableWorst (m : ByteMem) (cur : Nat) : Nat × ByteMem :=
  (add32 cur heapHeader, setFree m cur false)

/-- `fair`. -/
def fair (m : ByteMem) (cur size : Nat) : Nat × ByteMem :=
  let next := add32 (add32 cur size) heapHeader
  let m := setAddrN m next (addrN m cur)
  let m := setAddrN m cur next
  let m := setSize m next (sub32 (sizeOf m cur) (add32 heapHeader size))
  let m := setSize m cur size
  let m := setFree m next true
  let m := setFree m cur false
  (add32 cur heapHeader, m)

/-- `(size+0xf) & ~(0xf)`. -/
def roundSize (size : Nat) : Nat := add32 size 0xf &&& 0xfffffff0

/-- `size+HEAP_HEADER+HEAP_MIN_LIMIT`. -/
def splitLimit (size : Nat) : Nat := add32 (add32 size heapHeader) heapMinLimit

/-- The candidate of `malloc` behind a free block that is no exact fit. -/
def candidate (m : ByteMem) (size cur cand : Nat) : Nat :=
  if sizeOf m cur > splitLimit size then
    if cand = 0 then cur
    else if sizeOf m cand < sizeOf m cur then cur else cand
  else if sizeOf m cur = splitLimit size ∧ cand = 0 then cur
  else cand

/-- The `while` of `malloc` and what follows it, with `k` rounds before it is known not to end. -/
def mallocLoop (m : ByteMem) (size next : Nat) : Nat → Nat → Nat → Option (Nat × ByteMem)
  | 0, _, _ => none
  | k + 1, cur, cand =>
      if addrN m cur ≠ 0 then
        if isFree m cur = true then
          if sizeOf m cur = size then some (favourableWorst m cur)
          else mallocLoop m size next k (addrN m cur) (candidate m size cur cand)
        else mallocLoop m size next k (addrN m cur) cand
      else if cand = 0 then some (defaultCase m cur size next)
      else if sizeOf m cand > splitLimit size then some (fair m cand size)
      else some (favourableWorst m cand)

/-- `malloc`. -/
def malloc (m : ByteMem) (size next k : Nat) : Option (Nat × ByteMem) :=
  if size = 0 then some (0, m) else mallocLoop m (roundSize size) next k heapStart 0

/-- `free`. -/
def free (m : ByteMem) (ptr : Nat) : ByteMem := setFree m (sub32 ptr heapHeader) true

/-! ## Block lists -/

/-- A block: the address of its header, its usable bytes, and whether it is free. -/
structure Block where
  addr : Nat
  size : Nat
  free : Bool
  deriving DecidableEq, Repr

/-- The bytes of a block with its header. -/
def Block.width (b : Block) : Nat := 16 + b.size

/-- The headers in memory from `p` on, along their links up to `q`, are those of the list. -/
def BlockSeg (m : ByteMem) : Nat → List Block → Nat → Prop
  | p, [], q => p = q
  | p, b :: bs, q => b.addr = p ∧ sizeOf m p = b.size ∧ isFree m p = b.free ∧
      BlockSeg m (addrN m p) bs q

/-- The list is what is reached through `addr_n` from the first block, and it tiles the heap. -/
structure BlockList (m : ByteMem) (bs : List Block) : Prop where
  linked : BlockSeg m heapStart bs 0
  tiles : Tiles Block.addr Block.width heapStart bs (heapStart + heapSize)

/-- Two memories have the same header at an address. -/
def SameHeader (m m' : ByteMem) (a : Nat) : Prop := ∀ x, a ≤ x → x < a + 9 → m' x = m x

variable {m m' : ByteMem} {bs xs ys : List Block} {b : Block} {p q : Nat}

theorem SameHeader.fields (h : SameHeader m m' p) :
    sizeOf m' p = sizeOf m p ∧ addrN m' p = addrN m p ∧ isFree m' p = isFree m p := by
  refine ⟨ByteMem.word32_congr fun x hl hh => h x hl (by omega),
    ByteMem.word32_congr fun x hl hh => h x (by omega) (by omega), ?_⟩
  rw [isFree, isFree, h (p + 8) (by omega) (by omega)]

theorem block_seg_append : ∀ {xs : List Block} {p : Nat},
    BlockSeg m p (xs ++ ys) q ↔ ∃ r, BlockSeg m p xs r ∧ BlockSeg m r ys q
  | [], p => ⟨fun h => ⟨p, rfl, h⟩, fun ⟨_, hp, h⟩ => hp ▸ h⟩
  | b :: xs, p => by
      rw [List.cons_append, BlockSeg, block_seg_append]
      constructor
      · intro hall
        obtain ⟨haddr, hsize, hfree, r, hxs, hys⟩ := hall
        exact ⟨r, ⟨haddr, hsize, hfree, hxs⟩, hys⟩
      · intro hall
        obtain ⟨r, ⟨haddr, hsize, hfree, hxs⟩, hys⟩ := hall
        exact ⟨haddr, hsize, hfree, r, hxs, hys⟩

/-- A segment depends on the headers of its blocks. -/
theorem BlockSeg.congr : ∀ {bs : List Block} {p : Nat}, BlockSeg m p bs q →
    (∀ b ∈ bs, SameHeader m m' b.addr) → BlockSeg m' p bs q
  | [], _, h, _ => h
  | b :: bs, p, ⟨haddr, hsize, hfree, h⟩, hsame => by
      obtain ⟨hsize', hnext', hfree'⟩ := (haddr ▸ hsame b List.mem_cons_self).fields
      refine ⟨haddr, hsize'.trans hsize, hfree'.trans hfree, ?_⟩
      rw [hnext']
      exact h.congr fun b' hb' => hsame b' (List.mem_cons_of_mem _ hb')

/-! ## What `malloc` chooses -/

/-- A free block of exactly the size. -/
def exactFit (size : Nat) (b : Block) : Bool := b.free && b.size = size

/-- The candidate behind a free block that is no exact fit. -/
def better (limit : Nat) (cand : Option Block) (b : Block) : Option Block :=
  if limit < b.size then
    match cand with
    | none => some b
    | some c => if c.size < b.size then some b else some c
  else if b.size = limit ∧ cand = none then some b
  else cand

/-- The candidate behind the blocks of a list. -/
def pick (limit : Nat) : Option Block → List Block → Option Block
  | cand, [] => cand
  | cand, b :: bs => pick limit (if b.free then better limit cand b else cand) bs

/-- What `malloc` does with its candidate behind the last block. -/
def place (m : ByteMem) (size next last : Nat) : Option Block → Nat × ByteMem
  | none => defaultCase m last size next
  | some c => if c.size > splitLimit size then fair m c.addr size else favourableWorst m c.addr

/-- The address that stands for a candidate. -/
def candAddr : Option Block → Nat
  | none => 0
  | some c => c.addr

/-- A candidate is a block of the memory. -/
def Held (m : ByteMem) (cand : Option Block) : Prop :=
  ∀ c, cand = some c → c.addr ≠ 0 ∧ sizeOf m c.addr = c.size

/-- The candidate in memory follows the candidate of the list. -/
theorem candidate_eq {cand : Option Block} (hcand : Held m cand) (hb : b.addr ≠ 0)
    (hsize : sizeOf m b.addr = b.size) (size : Nat) :
    candidate m size b.addr (candAddr cand) = candAddr (better (splitLimit size) cand b) ∧
      Held m (better (splitLimit size) cand b) := by
  have hself : Held m (some b) := fun c hc => by
    cases hc
    exact ⟨hb, hsize⟩
  unfold candidate better
  rw [hsize]
  cases cand with
  | none =>
      simp only [candAddr, and_true, if_true]
      split_ifs with hlarge hlimit
      · exact ⟨rfl, hself⟩
      · exact ⟨rfl, hself⟩
      · exact ⟨rfl, hcand⟩
  | some c =>
      obtain ⟨hne, hc⟩ := hcand c rfl
      simp only [candAddr, hc, reduceCtorEq, and_false, if_false, gt_iff_lt, hne]
      split_ifs with hlarge hless
      · exact ⟨rfl, hself⟩
      · exact ⟨rfl, hcand⟩
      · exact ⟨rfl, hcand⟩

/-- The loop of `malloc` takes the first exact fit, and without one it ends at the last block with
the candidate of the blocks before. -/
theorem malloc_loop_eq {last : Block} (size next : Nat) : ∀ (ys : List Block) (cand : Option Block)
    (p k : Nat), BlockSeg m p (ys ++ [last]) 0 → (∀ b ∈ ys ++ [last], b.addr ≠ 0) →
    Held m cand → ys.length < k →
    mallocLoop m size next k p (candAddr cand) =
      some (match ys.find? (exactFit size) with
        | some b => favourableWorst m b.addr
        | none => place m size next last.addr (pick (splitLimit size) cand ys)) := by
  intro ys
  induction ys with
  | nil =>
      intro cand p k hseg hpos hcand hk
      obtain ⟨k, rfl⟩ := Nat.exists_eq_succ_of_ne_zero (Nat.ne_zero_of_lt hk)
      obtain ⟨haddr, _, _, hend⟩ := hseg
      have hlast : addrN m p = 0 := hend
      rw [mallocLoop, if_neg (not_not.mpr hlast)]
      cases cand with
      | none =>
          rw [← haddr]
          rfl
      | some c =>
          obtain ⟨hne, hsize⟩ := hcand c rfl
          rw [candAddr, if_neg hne, hsize]
          simp only [List.find?_nil, pick, place]
          split_ifs <;> rfl
  | cons b ys ih =>
      intro cand p k hseg hpos hcand hk
      obtain ⟨k, rfl⟩ := Nat.exists_eq_succ_of_ne_zero (Nat.ne_zero_of_lt hk)
      obtain ⟨rfl, hsize, hfree, hrest⟩ := hseg
      have hpos' : ∀ b' ∈ ys ++ [last], b'.addr ≠ 0 := fun b' hb' =>
        hpos b' (List.mem_cons_of_mem _ hb')
      have hnext : addrN m b.addr ≠ 0 := by
        cases ys with
        | nil => exact hrest.1 ▸ hpos' last List.mem_cons_self
        | cons b' ys => exact hrest.1 ▸ hpos' b' List.mem_cons_self
      have hb := hpos b List.mem_cons_self
      rw [mallocLoop, if_pos hnext, hfree, List.find?_cons, exactFit, pick]
      cases hbfree : b.free with
      | false =>
          simp only [Bool.false_eq_true, if_false, Bool.false_and]
          exact ih cand _ k hrest hpos' hcand (Nat.lt_of_succ_lt_succ hk)
      | true =>
          simp only [if_true, Bool.true_and, hsize]
          by_cases hexact : b.size = size
          · rw [if_pos hexact, decide_eq_true hexact]
          · rw [if_neg hexact, decide_eq_false hexact]
            obtain ⟨hnew, hheld⟩ := candidate_eq hcand hb hsize size
            rw [hnew]
            exact ih _ _ k hrest hpos' hheld (Nat.lt_of_succ_lt_succ hk)

/-- `malloc` on a block list. -/
theorem malloc_block_list {last : Block} (h : BlockList m (ys ++ [last])) {size next k : Nat}
    (hsize : size ≠ 0) (hk : ys.length < k) :
    malloc m size next k =
      some (match ys.find? (exactFit (roundSize size)) with
        | some b => favourableWorst m b.addr
        | none => place m (roundSize size) next last.addr
            (pick (splitLimit (roundSize size)) none ys)) := by
  have hpos : ∀ b ∈ ys ++ [last], b.addr ≠ 0 := by
    intro b hb
    obtain ⟨hle, _⟩ := h.tiles.bounds hb
    simp only [heapStart] at hle
    omega
  rw [malloc, if_neg hsize]
  exact malloc_loop_eq _ next ys none _ k h.linked hpos (fun c hc => by cases hc) hk

/-! ## The rounding -/

/-- The size rounded up to a multiple of 16. -/
def roundUp (size : Nat) : Nat := (size + 15) / 16 * 16

theorem round_up_ge (size : Nat) : size ≤ roundUp size := by
  unfold roundUp
  omega

/-- The code rounds the wrapped sum down. -/
theorem round_size_eq_div (size : Nat) : roundSize size = add32 size 0xf / 16 * 16 := by
  have hlt : add32 size 0xf < 2 ^ 32 := Nat.mod_lt _ (by decide)
  have hland := land_high (w := 32) (n := 4) (by decide) hlt
  rw [roundSize, show (0xfffffff0 : Nat) = 2 ^ 32 - 2 ^ 4 by decide, hland]
  omega

theorem round_size_of_le {size : Nat} (hsize : size ≤ 0xfffffff0) :
    roundSize size = roundUp size := by
  rw [round_size_eq_div, add32_of_lt (by omega), roundUp]

/-! ## Headers -/

/-- The fields of the header at an address. -/
structure Header (m : ByteMem) (a size next : Nat) (free : Bool) : Prop where
  size : sizeOf m a = size
  next : addrN m a = next
  free : isFree m a = free

namespace Header

variable {a c size next v : Nat} {free : Bool}

theorem same (h : Header m a size next free) (hsame : SameHeader m m' a) :
    Header m' a size next free := by
  obtain ⟨hsize, hnext, hfree⟩ := hsame.fields
  exact ⟨hsize.trans h.size, hnext.trans h.next, hfree.trans h.free⟩

theorem setSize (h : Header m a size next free) (hv : v < 4294967296) :
    Header (setSize m a v) a v next free where
  size := (ByteMem.word32_setWord32_same m a v).trans (Nat.mod_eq_of_lt hv)
  next := (ByteMem.word32_setWord32_other (by omega)).trans h.next
  free := by
    rw [← h.free, isFree, isFree, UserHeap.setSize, ByteMem.setWord32_outside (by omega)]

theorem setAddrN (h : Header m a size next free) (hv : v < 4294967296) :
    Header (setAddrN m a v) a size v free where
  size := (ByteMem.word32_setWord32_other (by omega)).trans h.size
  next := (ByteMem.word32_setWord32_same m (a + 4) v).trans (Nat.mod_eq_of_lt hv)
  free := by
    rw [← h.free, isFree, isFree, UserHeap.setAddrN, ByteMem.setWord32_outside (by omega)]

theorem setFree (h : Header m a size next free) (f : Bool) :
    Header (setFree m a f) a size next f where
  size := (ByteMem.word32_congr fun x _ _ => Function.update_of_ne (by omega) ..).trans h.size
  next := (ByteMem.word32_congr fun x _ _ => Function.update_of_ne (by omega) ..).trans h.next
  free := by
    rw [isFree, UserHeap.setFree, Function.update_self]
    cases f <;> rfl

end Header

/-- A store to one header leaves every byte outside it. -/
theorem set_outside {c v x : Nat} (f : Bool) (hx : x < c ∨ c + 9 ≤ x) :
    setSize m c v x = m x ∧ setAddrN m c v x = m x ∧ setFree m c f x = m x :=
  ⟨ByteMem.setWord32_outside (by omega), ByteMem.setWord32_outside (by omega),
    Function.update_of_ne (by omega) ..⟩

/-- A store to one header leaves every other header. -/
theorem Header.other {a c size next v : Nat} {free : Bool} (h : Header m a size next free)
    (f : Bool) (hc : a + 9 ≤ c ∨ c + 9 ≤ a) :
    Header (UserHeap.setSize m c v) a size next free ∧
      Header (UserHeap.setAddrN m c v) a size next free ∧
      Header (UserHeap.setFree m c f) a size next free := by
  have hx : ∀ x, a ≤ x → x < a + 9 → x < c ∨ c + 9 ≤ x := by omega
  exact ⟨h.same fun x hl hh => (set_outside f (hx x hl hh)).1,
    h.same fun x hl hh => (set_outside f (hx x hl hh)).2.1,
    h.same fun x hl hh => (set_outside (v := v) f (hx x hl hh)).2.2⟩

/-! ## Taking and splitting a block -/

/-- A block can be replaced by blocks whose headers lie in its bytes. -/
theorem BlockList.replace (h : BlockList m (xs ++ b :: ys)) {cells : List Block}
    (hsame : ∀ x, x < b.addr ∨ b.addr + b.width ≤ x → m' x = m x)
    (hcells : BlockSeg m' b.addr cells (addrN m b.addr))
    (htiles : Tiles Block.addr Block.width b.addr cells (b.addr + b.width)) :
    BlockList m' (xs ++ (cells ++ ys)) := by
  obtain ⟨hbefore, hafter⟩ := h.tiles.apart
  obtain ⟨r, hxs, hb⟩ := block_seg_append.mp h.linked
  obtain ⟨rfl, _, _, hys⟩ := hb
  refine ⟨block_seg_append.mpr ⟨_, hxs.congr fun b' hb' x hl hh => hsame x ?_,
    block_seg_append.mpr ⟨_, hcells, hys.congr fun b' hb' x hl hh => hsame x ?_⟩⟩,
    h.tiles.replace htiles⟩
  · have hle := hbefore b' hb'
    simp only [Block.width] at hle
    omega
  · have hle := hafter b' hb'
    omega

/-- The header of a block of a list. -/
theorem BlockList.header (h : BlockList m (xs ++ b :: ys)) :
    ∃ next, next < 4294967296 ∧ Header m b.addr b.size next b.free := by
  obtain ⟨r, _, rfl, hsize, hfree, _⟩ := block_seg_append.mp h.linked
  exact ⟨_, ByteMem.word32_lt _ _, hsize, rfl, hfree⟩

/-- A block lies in the heap. -/
theorem BlockList.bounds (h : BlockList m bs) (hb : b ∈ bs) :
    0x1000000 ≤ b.addr ∧ b.addr + 16 + b.size ≤ 0x3000000 := by
  obtain ⟨hlo, hhi⟩ := h.tiles.bounds hb
  simp only [heapStart, heapSize, Block.width] at hlo hhi
  omega

/-- `favourable_worst` takes the whole block. -/
theorem BlockList.take (h : BlockList m (xs ++ b :: ys)) :
    favourableWorst m b.addr = (b.addr + 16, setFree m b.addr false) ∧
      BlockList (setFree m b.addr false) (xs ++ ⟨b.addr, b.size, false⟩ :: ys) := by
  obtain ⟨hlo, hhi⟩ := h.bounds (b := b) (by simp)
  obtain ⟨next, _, hheader⟩ := h.header
  have htaken := hheader.setFree false
  refine ⟨?_, ?_⟩
  · rw [favourableWorst, add32_of_lt (by simp only [heapHeader]; omega)]
  · have hcells : BlockSeg (setFree m b.addr false) b.addr [⟨b.addr, b.size, false⟩]
        (addrN m b.addr) := by
      refine ⟨rfl, htaken.size, htaken.free, ?_⟩
      rw [htaken.next, hheader.next]
      rfl
    refine h.replace (fun x hx => ?_) hcells ⟨rfl, rfl⟩
    simp only [Block.width] at hx
    exact (set_outside (v := 0) false (by omega)).2.2

/-- `fair` on a header whose block has room for another one. -/
theorem fair_eq {a size old link : Nat} {free : Bool} (h : Header m a old link free)
    (hlink : link < 4294967296) (hsize : 16 + size ≤ old) (hend : a + 16 + old < 4294967296) :
    ∃ m', fair m a size = (a + 16, m') ∧ Header m' a size (a + size + 16) false ∧
      Header m' (a + size + 16) (old - (16 + size)) link true ∧
      ∀ x, x < a ∨ a + 16 + old ≤ x → m' x = m x := by
  have hnext : add32 (add32 a size) heapHeader = a + size + 16 := by
    rw [add32_of_lt (show a + size < 4294967296 by omega),
      add32_of_lt (by simp only [heapHeader]; omega)]
  have hptr : add32 a heapHeader = a + 16 := add32_of_lt (by simp only [heapHeader]; omega)
  generalize hn : a + size + 16 = n at hnext ⊢
  have hbehind : a + 9 ≤ n ∨ n + 9 ≤ a := by omega
  have hbefore : n + 9 ≤ a ∨ a + 9 ≤ n := by omega
  -- the two headers, store by store
  have hstale : Header m n (sizeOf m n) (addrN m n) (isFree m n) := ⟨rfl, rfl, rfl⟩
  have ha₁ := (h.other (v := link) true hbehind).2.1
  have hn₁ := hstale.setAddrN hlink
  have ha₂ := ha₁.setAddrN (show n < 4294967296 by omega)
  have hn₂ := (hn₁.other (v := n) true hbefore).2.1
  have hrest : sub32 old (add32 heapHeader size) = old - (16 + size) := by
    rw [add32_of_lt (by simp only [heapHeader]; omega)]
    simp only [sub32, heapHeader]
    omega
  have ha₃ := (ha₂.other (v := old - (16 + size)) true hbehind).1
  have hn₃ := hn₂.setSize (show old - (16 + size) < 4294967296 by omega)
  have ha₄ := ha₃.setSize (show size < 4294967296 by omega)
  have hn₄ := (hn₃.other (v := size) true hbefore).1
  have ha₅ := (ha₄.other (v := 0) true hbehind).2.2
  have hn₅ := hn₄.setFree true
  have ha₆ := ha₅.setFree false
  have hn₆ := (hn₅.other (v := 0) false hbefore).2.2
  refine ⟨_, ?_, ha₆, hn₆, fun x hx => ?_⟩
  · rw [fair, hnext, h.next, hptr, ha₂.size, hrest]
  · have hxa : x < a ∨ a + 9 ≤ x := by omega
    have hxn : x < n ∨ n + 9 ≤ x := by omega
    rw [(set_outside (v := 0) false hxa).2.2, (set_outside (v := 0) true hxn).2.2,
      (set_outside true hxa).1, (set_outside true hxn).1, (set_outside true hxa).2.1,
      (set_outside true hxn).2.1]

/-- `fair` cuts the block in two. -/
theorem BlockList.split (h : BlockList m (xs ++ b :: ys)) {size : Nat}
    (hsize : 16 + size ≤ b.size) :
    ∃ m', fair m b.addr size = (b.addr + 16, m') ∧
      BlockList m' (xs ++ ([⟨b.addr, size, false⟩,
        ⟨b.addr + size + 16, b.size - (16 + size), true⟩] ++ ys)) := by
  obtain ⟨hlo, hhi⟩ := h.bounds (b := b) (by simp)
  obtain ⟨link, hlink, hheader⟩ := h.header
  obtain ⟨m', heq, hfirst, hrest, hsame⟩ := fair_eq hheader hlink hsize (by omega)
  refine ⟨m', heq, h.replace (fun x hx => hsame x (by simp only [Block.width] at hx; omega)) ?_ ?_⟩
  · refine ⟨rfl, hfirst.size, hfirst.free, ?_⟩
    rw [hfirst.next]
    refine ⟨rfl, hrest.size, hrest.free, ?_⟩
    rw [hrest.next, hheader.next]
    rfl
  · refine ⟨rfl, ?_, ?_⟩
    · simp only [Block.width]
      omega
    · simp only [Tiles, Block.width]
      omega

end UserHeap

end Genesis32
