import Mathlib.Data.List.Nodup
import Genesis32.Heap.PageHeapSafety
import Genesis32.Library.ByteLists
import Genesis32.Library.Refinement
import Genesis32.Strings.ByteLoops

/-!
# The page heap as separate buffers

The kernel takes pages from `heap/kheap.c`, stores into them, and copies between them with the
functions of `essentials/essentials.c`. All of it happens in one memory, in which the table of the
heap lies too. A caller may think of buffers that have nothing to do with each other: the heap with
these functions refines that view (`Buffers.contract`), and a client that is right about separate
buffers is right about the memory of the heap (`heap_client_runs`).
-/

namespace Genesis32

open Word

/-! ## The calls -/

/-- What the kernel does with the memory that it allocates. -/
inductive BufferCall where
  | heap (op : HeapOp)
  | load (ptr i : Nat)
  | store (ptr i : Nat) (v : UInt8)
  | memset (ptr i c n : Nat)
  | memcpy (dest x src y n : Nat)

/-- The calls in the memory of the kernel. -/
def bufferObject (H : Heap) : Object ByteMem BufferCall Nat
  | .heap op, m => some (op.call H m)
  | .load ptr i, m => some ((m (add32 ptr i)).toNat, m)
  | .store ptr i v, m => some (0, Function.update m (add32 ptr i) v)
  | .memset ptr i c n, m => some (add32 ptr i, memset m (add32 ptr i) c n)
  | .memcpy dest x src y n, m =>
      some (add32 dest x, Genesis32.memcpy m (add32 dest x) (add32 src y) n)

/-! ## Separate buffers -/

/-- Buffers of bytes, each under the address at which it was given. -/
abbrev Buffers := Nat → Option (List UInt8)

namespace Buffers

/-- The buffer at `ptr` has `n` bytes from `x` on. -/
def Has (t : Buffers) (ptr x n : Nat) : Prop := ∃ bytes, t ptr = some bytes ∧ x + n ≤ bytes.length

/-- The `n` bytes of the buffer at `ptr` from `x` on. -/
def slice (t : Buffers) (ptr x n : Nat) : List UInt8 := (((t ptr).getD []).drop x).take n

/-- Put bytes into the buffer at `ptr`. -/
def put (t : Buffers) (ptr x : Nat) (new : List UInt8) : Buffers :=
  Function.update t ptr ((t ptr).map fun bytes => overwrite bytes x new)

/-- What may come of a call that asks for `size` bytes: nothing, or a new buffer of whole pages that
begins with the bytes of `first`. -/
def Gives (t : Buffers) (size : Nat) (first : List UInt8) (r : Nat) (t' : Buffers) : Prop :=
  (r = 0 ∧ t' = t) ∨
    (r ≠ 0 ∧ t r = none ∧ ∃ bytes : List UInt8, bytes.length = 4096 * pagesFor size ∧
      first <+: bytes ∧ t' = Function.update t r (some bytes))

/-- The calls on separate buffers. A copy inside one buffer goes down, or not into its source. -/
def contract : Contract Buffers BufferCall Nat where
  pre
    | .heap (.malloc size), _ => size < 4294967296
    | .heap (.zalloc size), _ => size < 4294967296
    | .heap (.free addr), t => (t addr).isSome = true
    | .load ptr i, t => t.Has ptr i 1
    | .store ptr i _, t => t.Has ptr i 1
    | .memset ptr i _ n, t => t.Has ptr i n
    | .memcpy dest x src y n, t =>
        t.Has dest x n ∧ t.Has src y n ∧ (dest = src → x ≤ y ∨ y + n ≤ x)
  post
    | .heap (.malloc size), t, r, t' => t.Gives size [] r t'
    | .heap (.zalloc size), t, r, t' => t.Gives size (List.replicate size 0x00) r t'
    | .heap (.free addr), t, r, t' => r = 0 ∧ t' = Function.update t addr none
    | .load ptr i, t, r, t' => (t.slice ptr i 1).map UInt8.toNat = [r] ∧ t' = t
    | .store ptr i v, t, r, t' => r = 0 ∧ t' = t.put ptr i [v]
    | .memset ptr i c n, t, r, t' =>
        r = ptr + i ∧ t' = t.put ptr i (List.replicate n (UInt8.ofNat c))
    | .memcpy dest x src y n, t, r, t' => r = dest + x ∧ t' = t.put dest x (t.slice src y n)

variable {t t' : Buffers} {ptr p x y k n size r : Nat} {first new : List UInt8}

/-! The calls in terms of the bytes that a client sees. -/

theorem Has.part (h : t.Has ptr x n) (hle : y + k ≤ x + n) : t.Has ptr y k := by
  obtain ⟨bytes, hbytes, hlength⟩ := h
  exact ⟨bytes, hbytes, Nat.le_trans hle hlength⟩

theorem has_put : (t.put ptr x new).Has p y n ↔ t.Has p y n := by
  rw [Has, Has, put, Function.update_apply]
  split_ifs with hp
  · rw [hp]
    cases t ptr with
    | none => exact Iff.rfl
    | some bytes => simp only [Option.map_some, Option.some.injEq, exists_eq_left',
        length_overwrite]
  · exact Iff.rfl

theorem Gives.has_new (h : t.Gives size first r t') (hr : r ≠ 0) :
    t'.Has r 0 (4096 * pagesFor size) := by
  rcases h with ⟨hzero, _⟩ | ⟨_, _, bytes, hlength, _, rfl⟩
  · exact absurd hzero hr
  · exact ⟨bytes, Function.update_self .., by omega⟩

theorem Gives.has_old (h : t.Gives size first r t') (hp : t.Has p x n) (hr : r ≠ 0) :
    p ≠ r ∧ t'.Has p x n := by
  rcases h with ⟨hzero, _⟩ | ⟨_, hnone, bytes, _, _, rfl⟩
  · exact absurd hzero hr
  · obtain ⟨old, hold, hlength⟩ := hp
    have hne : p ≠ r := by
      rintro rfl
      rw [hnone] at hold
      cases hold
    exact ⟨hne, old, by rw [Function.update_of_ne hne, hold], hlength⟩

/-- What has been put into a buffer is there. -/
theorem slice_put (h : t.Has ptr x new.length) (hlo : x ≤ y) (hhi : y + n ≤ x + new.length) :
    (t.put ptr x new).slice ptr y n = (new.drop (y - x)).take n := by
  obtain ⟨bytes, hbytes, hlength⟩ := h
  rw [slice, put, Function.update_self, hbytes, Option.map_some, Option.getD_some]
  refine List.ext_getElem? fun i => ?_
  rcases Nat.lt_or_ge i n with hi | hi
  · rw [List.getElem?_take_of_lt hi, List.getElem?_take_of_lt hi, List.getElem?_drop,
      List.getElem?_drop, overwrite_get, if_pos (by omega)]
    congr 1
    omega
  · rw [List.getElem?_take_eq_none hi, List.getElem?_take_eq_none hi]

theorem length_slice (h : t.Has ptr x n) : (t.slice ptr x n).length = n := by
  obtain ⟨bytes, hbytes, hlength⟩ := h
  rw [slice, hbytes, Option.getD_some, List.length_take, List.length_drop]
  omega

/-- A part of a part. -/
theorem slice_slice (hle : y + k ≤ n) :
    ((t.slice ptr x n).drop y).take k = t.slice ptr (x + y) k := by
  rw [slice, slice, List.drop_take, List.drop_drop, List.take_take, Nat.min_eq_left (by omega)]

/-- The memory holds the buffers: they are the live allocations, with the bytes that are there. -/
structure HeldBy (t : Buffers) (P : PageHeap) (live : List Allocation) (m : ByteMem) : Prop where
  heap : HeapInv P ⟨m, live⟩
  bytes : ∀ a ∈ live, t a.ptr = some (m.bytes a.ptr (4096 * pagesFor a.size))
  only : ∀ ptr, (t ptr).isSome = true → ∃ a ∈ live, a.ptr = ptr

end Buffers

/-- An owned allocation ends below the last address. -/
theorem PageHeap.Owns.end_lt {P : PageHeap} {m : ByteMem} {a : Allocation} (h : P.Owns m a) :
    a.ptr + 4096 * pagesFor a.size < 4294967296 := by
  obtain ⟨k, hptr, _, hbound⟩ := h
  have hend := page_bound (P := P) hbound
  have hlt := P.endLt
  rw [hptr]
  omega

namespace Buffers.HeldBy

variable {P : PageHeap} {live : List Allocation} {m m' : ByteMem} {t : Buffers} {a c : Allocation}
  {ptr x n : Nat}

/-- The buffer at an address is an allocation. -/
theorem of_has (h : t.HeldBy P live m) (hhas : t.Has ptr x n) :
    ∃ a ∈ live, a.ptr = ptr ∧ x + n ≤ 4096 * pagesFor a.size ∧
      ptr + (x + n) < 4294967296 := by
  obtain ⟨bytes, hbytes, hle⟩ := hhas
  obtain ⟨a, ha, rfl⟩ := h.only ptr (by rw [hbytes]; rfl)
  have hsame := (h.bytes a ha).symm.trans hbytes
  rw [Option.some.injEq] at hsame
  rw [← hsame, ByteMem.length_bytes] at hle
  have hend := (h.heap.owned a ha).end_lt
  exact ⟨a, ha, rfl, hle, by omega⟩

/-- Allocations at one address are the same. -/
theorem eq_of_ptr (h : t.HeldBy P live m) (ha : a ∈ live) (hc : c ∈ live) (hptr : a.ptr = c.ptr) :
    a = c :=
  List.inj_on_of_nodup_map (List.pairwise_map.mpr h.heap.distinct) ha hc hptr

theorem apart (h : t.HeldBy P live m) (ha : a ∈ live) (hc : c ∈ live) (hptr : a.ptr ≠ c.ptr) :
    a.Apart c :=
  (h.heap.owned a ha).apart (h.heap.owned c hc) hptr

/-- A part of a buffer is a part of the memory. -/
theorem slice_eq (h : t.HeldBy P live m) (ha : a ∈ live) (hle : x + n ≤ 4096 * pagesFor a.size) :
    t.slice a.ptr x n = m.bytes (a.ptr + x) n := by
  rw [slice, h.bytes a ha, Option.getD_some, ByteMem.bytes_slice m a.ptr hle]

/-- A part of a buffer does not reach into a part of another one, nor up into a part of its own that
it is copied from. -/
theorem copy_down (h : t.HeldBy P live m) (ha : a ∈ live) (hc : c ∈ live) {y : Nat}
    (hle : x + n ≤ 4096 * pagesFor a.size) (hle' : y + n ≤ 4096 * pagesFor c.size)
    (hdown : a.ptr = c.ptr → x ≤ y ∨ y + n ≤ x) :
    a.ptr + x ≤ c.ptr + y ∨ c.ptr + y + n ≤ a.ptr + x := by
  by_cases hptr : a.ptr = c.ptr
  · have := hdown hptr
    omega
  · by_contra hinside
    -- the target would begin with a byte of the source
    exact h.apart ha hc hptr (a.ptr + x) ⟨by omega, by omega⟩ ⟨by omega, by omega⟩

/-- A write into one allocation puts bytes into one buffer. -/
theorem write (h : t.HeldBy P live m) (ha : a ∈ live) {new : List UInt8}
    (hout : ∀ x, ¬ a.Covers x → m' x = m x)
    (hnew : m'.bytes a.ptr (4096 * pagesFor a.size) =
      overwrite (m.bytes a.ptr (4096 * pagesFor a.size)) x new) :
    (t.put a.ptr x new).HeldBy P live m' where
  heap := h.heap.congr fun x hx => hout x fun hcov =>
    PageHeap.not_in_table_of_in_pages ((h.heap.owned a ha).in_pages hcov) hx
  bytes := fun c hc => by
    rw [put, Function.update_apply]
    split_ifs with hptr
    · obtain rfl := h.eq_of_ptr hc ha hptr
      rw [h.bytes c hc, Option.map_some, hnew]
    · rw [h.bytes c hc, ByteMem.bytes_congr fun i hi => hout _ fun hcov => ?_]
      exact h.apart ha hc (Ne.symm hptr) _ hcov ⟨Nat.le_add_right .., by omega⟩
  only := fun ptr hsome => by
    rw [put, Function.update_apply] at hsome
    split_ifs at hsome with hptr
    · exact ⟨a, ha, hptr.symm⟩
    · exact h.only ptr hsome

/-- An allocating call gives a new buffer. -/
theorem alloc (h : t.HeldBy P live m) (op : HeapOp) {size : Nat} (hsize : op.size? = some size)
    (hop : op.Admissible P.toHeap) {first : List UInt8}
    (hfirst : ∀ k m', op.call P.toHeap m = (P.page k, m') →
      first <+: m'.bytes (P.page k) (4096 * pagesFor size)) :
    ∃ result m' t', op.call P.toHeap m = (result, m') ∧ t.Gives size first result t' ∧
      ∃ live', t'.HeldBy P live' m' := by
  rcases h.heap.alloc hsize hop with heq | ⟨k, m', heq, _, _, hinv, hkeep, hframe⟩
  · exact ⟨0, m, t, heq, Or.inl ⟨rfl, rfl⟩, live, h⟩
  have hnew : ∀ c ∈ live, P.page k ≠ c.ptr := (List.pairwise_cons.mp hinv.distinct).1
  have hnone : t (P.page k) = none := by
    rw [← Option.not_isSome_iff_eq_none]
    intro hsome
    obtain ⟨c, hc, hptr⟩ := h.only _ hsome
    exact hnew c hc hptr.symm
  refine ⟨P.page k, m', Function.update t (P.page k)
      (some (m'.bytes (P.page k) (4096 * pagesFor size))), heq,
    Or.inr ⟨Nat.ne_of_gt (PageHeap.page_pos k), hnone, _, ByteMem.length_bytes ..,
      hfirst k m' heq, rfl⟩, ⟨P.page k, size⟩ :: live, hinv, fun c hc => ?_, fun ptr hsome => ?_⟩
  · rcases List.mem_cons.mp hc with rfl | hc
    · rw [Function.update_self]
    · rw [Function.update_of_ne (hnew c hc).symm, h.bytes c hc]
      have howned := h.heap.owned c hc
      refine congrArg some (ByteMem.bytes_congr fun i hi => ?_).symm
      have hcov : c.Covers (c.ptr + i) := ⟨Nat.le_add_right .., by omega⟩
      exact hframe _ (PageHeap.not_in_table_of_in_pages (howned.in_pages hcov))
        ((hkeep c howned).2 _ hcov)
  · rw [Function.update_apply] at hsome
    split_ifs at hsome with hptr
    · exact ⟨_, List.mem_cons_self, hptr.symm⟩
    · obtain ⟨c, hc, hptr⟩ := h.only ptr hsome
      exact ⟨c, List.mem_cons_of_mem _ hc, hptr⟩

/-- A free takes one buffer away. -/
theorem free (h : t.HeldBy P live m) (ha : a ∈ live) :
    ∃ live', Buffers.HeldBy (Function.update t a.ptr none) P live'
      (heapFree P.toHeap m a.ptr) := by
  have howned := h.heap.owned a ha
  have hfirst : a.Covers a.ptr := howned.covers_first (Nat.le_refl _) (by omega)
  obtain ⟨hinv, _, hframe⟩ := h.heap.free (howned.in_pages hfirst)
  -- the other allocations begin in other pages
  have hkept : ∀ c ∈ live, c.ptr ≤ a.ptr ∧ a.ptr < c.ptr + 4096 ↔ c.ptr = a.ptr := by
    intro c hc
    constructor
    · rintro ⟨hlo, hhi⟩
      by_contra hne
      exact h.apart hc ha hne a.ptr ((h.heap.owned c hc).covers_first hlo hhi) hfirst
    · intro hptr
      rw [hptr]
      omega
  refine ⟨_, hinv, fun c hc => ?_, fun ptr hsome => ?_⟩
  · obtain ⟨hc, hother⟩ := List.mem_filter.mp hc
    have hne : c.ptr ≠ a.ptr := fun hptr => of_decide_eq_true hother ((hkept c hc).mpr hptr)
    rw [Function.update_of_ne hne, h.bytes c hc]
    refine congrArg some (ByteMem.bytes_congr fun i hi => ?_).symm
    exact hframe _ (PageHeap.not_in_table_of_in_pages
      ((h.heap.owned c hc).in_pages ⟨Nat.le_add_right .., by omega⟩))
  · rw [Function.update_apply] at hsome
    split_ifs at hsome with hptr
    · cases hsome
    · obtain ⟨c, hc, rfl⟩ := h.only ptr hsome
      exact ⟨c, List.mem_filter.mpr ⟨hc, decide_eq_true fun hin => hptr ((hkept c hc).mp hin)⟩,
        rfl⟩

end Buffers.HeldBy

/-! ## The refinement -/

open Buffers

/-- `kzalloc` clears the bytes that were asked for. -/
theorem kzalloc_first (P : PageHeap) (m : ByteMem) {size k : Nat} {m' : ByteMem}
    (hsize : size < 4294967296) (heq : kzalloc P.toHeap m size = (P.page k, m')) :
    List.replicate size 0x00 <+: m'.bytes (P.page k) (4096 * pagesFor size) := by
  rcases PageHeap.kzalloc_cases (P := P) m hsize with ⟨k', _, _, _, heq'⟩ | hnull
  · obtain ⟨hpage, hmem⟩ := Prod.mk.inj (heq.symm.trans heq')
    rw [hmem, hpage, ← ByteMem.bytes_of_fill]
    exact ByteMem.bytes_prefix _ _ (by
      unfold pagesFor
      omega)
  · exact absurd (Prod.mk.inj (heq.symm.trans hnull)).1 (Nat.ne_of_gt (PageHeap.page_pos k))

/-- The heap with the memory functions refines separate buffers. -/
theorem buffers_refine (P : PageHeap) :
    (bufferObject P.toHeap).Refines Buffers.contract fun m t => ∃ live, t.HeldBy P live m := by
  rintro call m t ⟨live, h⟩ hpre
  cases call with
  | heap op =>
      cases op with
      | malloc size =>
          obtain ⟨r, m', t', heq, hgives, hheld⟩ :=
            h.alloc (.malloc size) rfl hpre fun _ _ _ => List.nil_prefix
          exact ⟨r, m', t', congrArg some heq, hgives, hheld⟩
      | zalloc size =>
          obtain ⟨r, m', t', heq, hgives, hheld⟩ :=
            h.alloc (.zalloc size) rfl hpre fun _ _ heq => kzalloc_first P m hpre heq
          exact ⟨r, m', t', congrArg some heq, hgives, hheld⟩
      | free addr =>
          obtain ⟨a, ha, rfl⟩ := h.only addr hpre
          exact ⟨0, _, _, rfl, ⟨rfl, rfl⟩, h.free ha⟩
  | load ptr i =>
      obtain ⟨a, ha, rfl, hle, hlt⟩ := h.of_has hpre
      refine ⟨_, m, t, rfl, ⟨?_, rfl⟩, live, h⟩
      rw [h.slice_eq ha hle, add32_of_lt (by omega)]
      rfl
  | store ptr i v =>
      obtain ⟨a, ha, rfl, hle, hlt⟩ := h.of_has hpre
      refine ⟨0, _, _, rfl, ⟨rfl, rfl⟩, live, ?_⟩
      rw [add32_of_lt (by omega)]
      refine h.write ha (fun x hx => ?_) (ByteMem.bytes_update ..)
      exact Function.update_of_ne (fun heq => hx ⟨by omega, by omega⟩) ..
  | memset ptr i c n =>
      obtain ⟨a, ha, rfl, hle, hlt⟩ := h.of_has hpre
      refine ⟨_, _, _, rfl, ⟨add32_of_lt (by omega), rfl⟩, live, ?_⟩
      rw [add32_of_lt (by omega), memset_eq_fill]
      refine h.write ha (fun x hx => ByteMem.fill_outside ?_) (ByteMem.bytes_fill ..)
      by_contra hin
      exact hx ⟨by omega, by omega⟩
  | memcpy dest x src y n =>
      obtain ⟨hdest, hsrc, hdown⟩ := hpre
      obtain ⟨a, ha, rfl, hle, hlt⟩ := h.of_has hdest
      obtain ⟨b, hb, rfl, hle', hlt'⟩ := h.of_has hsrc
      refine ⟨_, _, _, rfl, ⟨add32_of_lt (by omega), rfl⟩, live, ?_⟩
      rw [add32_of_lt (by omega), add32_of_lt (by omega), h.slice_eq hb hle',
        memcpy_eq_copy m (by omega) (by omega) (h.copy_down ha hb hle hle' hdown)]
      refine h.write ha (fun z hz => ByteMem.copy_outside ?_) (ByteMem.bytes_copy ..)
      by_contra hin
      exact hz ⟨by omega, by omega⟩

/-- A cleared table holds no buffers. -/
theorem no_buffers_held (P : PageHeap) (m : ByteMem) :
    Buffers.HeldBy (fun _ => none) P [] (m.fill P.table.entries P.table.total 0x00) where
  heap := HeapInv.cleared P m
  bytes := fun a ha => absurd ha List.not_mem_nil
  only := fun ptr hsome => by cases hsome

/-- What a client can rely on with separate buffers, it can rely on behind a successful
`heap_create`: if it leads from no buffers to `Q`, whatever the contract lets come of its calls,
then it ends in the memory of the heap too, with buffers that meet `Q`, each of them where it was
given. -/
theorem heap_client_runs {m₀ m : ByteMem} {ptr endPtr : Nat} {heapT : HeapTable} {H : Heap}
    (hcreate : heapCreate m₀ ptr endPtr heapT = .ok (H, m))
    (hstart : 0 < ptr) (hlt : ptr < endPtr) (hend : endPtr < 4294967296)
    (hsigned : endPtr - ptr < 2147483648)
    (htable : heapT.entries + heapT.total ≤ 4294967296)
    (houtside : heapT.entries + heapT.total ≤ ptr ∨ endPtr ≤ heapT.entries)
    {α : Type} {client : Client BufferCall Nat α} {Q : α → Buffers → Prop}
    (hwp : Buffers.contract.wp Q client fun _ => none) :
    ∃ a m' t, client.run (bufferObject H) m = some (a, m') ∧ Q a t ∧
      ∀ p bytes, t p = some bytes → m'.bytes p bytes.length = bytes := by
  obtain ⟨P, rfl, hH, rfl⟩ :=
    PageHeap.of_heap_create hcreate hstart hlt hend hsigned htable houtside
  have hheld := no_buffers_held P m₀
  rw [show P.table = heapT from congrArg Heap.table hH] at hheld
  obtain ⟨a, m', t, hrun, hQ, live, hheld⟩ := Contract.run_client
    (fun hR hpre => buffers_refine P hR hpre) Q client ⟨[], hheld⟩ hwp
  refine ⟨a, m', t, hrun, hQ, fun p bytes hbytes => ?_⟩
  obtain ⟨b, hb, rfl⟩ := hheld.only p (by rw [hbytes]; rfl)
  have hsame := (hheld.bytes b hb).symm.trans hbytes
  rw [Option.some.injEq] at hsame
  rw [← hsame, ByteMem.length_bytes]

/-- A client that copies a buffer to another one and reads from there what it has stored. -/
def copyClient : Client BufferCall Nat Nat :=
  .call (.heap (.zalloc 512)) fun p =>
    if p = 0 then .done 0x41
    else .call (.heap (.malloc 512)) fun q =>
      if q = 0 then .done 0x41
      else .call (.store p 3 0x41) fun _ =>
        .call (.memcpy q 0 p 0 512) fun _ => .call (.load q 3) .done

/-- With separate buffers the client reads what it has stored. -/
theorem copy_client_reads :
    Buffers.contract.wp (fun a _ => a = 0x41) copyClient fun _ => none := by
  refine ⟨show 512 < 4294967296 by decide, fun p t hp => ?_⟩
  by_cases hp0 : p = 0
  · simp only [hp0, if_true]
    exact rfl
  simp only [hp0, if_false]
  refine ⟨show 512 < 4294967296 by decide, fun q t' hq => ?_⟩
  by_cases hq0 : q = 0
  · simp only [hq0, if_true]
    exact rfl
  simp only [hq0, if_false]
  have hhasq : t'.Has q 0 4096 := hq.has_new hq0
  obtain ⟨hne, hhasp⟩ : p ≠ q ∧ t'.Has p 0 4096 := hq.has_old (hp.has_new hp0) hq0
  refine ⟨hhasp.part (by omega), ?_⟩
  rintro _ _ ⟨_, rfl⟩
  have hsource : (t'.put p 3 [0x41]).Has p 0 512 := has_put.mpr (hhasp.part (by omega))
  have htarget : (t'.put p 3 [0x41]).Has q 0 512 := has_put.mpr (hhasq.part (by omega))
  have hlength := length_slice hsource
  have hcopied : (t'.put p 3 [0x41]).Has q 0 ((t'.put p 3 [0x41]).slice p 0 512).length := by
    rwa [hlength]
  refine ⟨⟨htarget, hsource, fun heq => absurd heq hne.symm⟩, ?_⟩
  rintro _ _ ⟨_, rfl⟩
  refine ⟨has_put.mpr (htarget.part (by omega)), ?_⟩
  rintro result _ ⟨hload, _⟩
  rw [slice_put hcopied (by omega) (by omega), slice_slice (by omega),
    slice_put (hhasp.part (by simp)) (by omega) (by simp)] at hload
  exact (List.singleton_injective hload).symm

/-- The client with the heap of the kernel. -/
theorem heap_client_runs_copy :
    ∃ a m, ∃ t : Buffers,
      copyClient.run (bufferObject kernelHeap) (memset (fun _ => 0xff) 0x7e00 0x00 25600) =
        some (a, m) ∧ a = 0x41 ∧
      ∀ p bytes, t p = some bytes → m.bytes p bytes.length = bytes :=
  heap_client_runs (kheap_init_ok fun _ => 0xff) (by decide) (by decide) (by decide) (by decide)
    (by decide) (by decide) copy_client_reads

end Genesis32
