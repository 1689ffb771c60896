import Genesis32.Paging.PagedKernel

/-!
# Interrupts behind the page tables

The table of `idt_init` lies outside the heap, and the processor reads it through the page tables
that `kernel_main` takes from the heap afterwards. Neither `create_32_dir_table` nor a run of the
kernel changes memory outside the heap unless a store goes there (`PagingInv.run_outside`). So
`paged_gates_stay`: while no store and no call of `set_page_table_enrty` is about the table itself,
every vector leads to its handler.
-/

namespace Genesis32

open Word PagedOp

/-- The memory as the processor sees it, with zeros where an access faults. -/
def PagedState.seen (s : PagedState) : ByteMem := fun va =>
  match translate s.regs s.mem va with
  | none => 0x00
  | some pa => s.mem pa

/-- The gate of a vector as the processor reads it through the page tables, or none if the entry is
not inside the table or an access to it faults. -/
def Idtr.pagedGate (idtr : Idtr) (s : PagedState) (vector : Nat) : Option Gate :=
  if (List.range 8).all fun i => (translate s.regs s.mem (idtr.addr + 8 * vector + i)).isSome then
    idtr.gate s.seen vector
  else none

/-- A step is about an address: it stores there, or it sets its page. -/
def PagedOp.Concerns (s : PagedState) (x : Nat) : PagedOp → Prop
  | .heap _ => False
  | .store va _ => translate s.regs s.mem va = some x
  | .setPage call => call.virtAddr / 4096 = x / 4096

variable {P : PageHeap} {m : ByteMem} {x : Nat}

/-! ## The directory -/

theorem covers_heap_byte {a : Allocation} (h : P.Owns m a) (hx : a.Covers x) :
    HeapByte P.toHeap x :=
  Or.inr (h.in_pages hx)

/-- `kzalloc` stores in the table and in the pages that it gives. -/
theorem kzalloc_outside (m : ByteMem) {size : Nat} (hsize : size < 4294967296)
    (hx : ¬ HeapByte P.toHeap x) :
    (kzalloc P.toHeap m size).2 x = m x ∧
      ((kzalloc P.toHeap m size).1 ≠ 0 → P.startAddr ≤ (kzalloc P.toHeap m size).1 ∧
        (kzalloc P.toHeap m size).1 + 4096 * pagesFor size ≤ P.endAddr) := by
  rcases PageHeap.kzalloc_cases (P := P) m hsize with ⟨k, _, _, hfit, heq⟩ | heq
  · have hbound := hfit.run.bound
    have hend := PageHeap.page_bound hbound
    have hlow : P.startAddr ≤ P.page k := Nat.le_add_right ..
    rw [heq]
    refine ⟨?_, fun _ => ⟨hlow, hend⟩⟩
    have hpages : x < P.page k ∨ P.page k + size ≤ x := by
      by_contra hin
      refine hx (Or.inr ⟨by omega, ?_⟩)
      unfold pagesFor at hend
      omega
    have htable : x < P.table.entries + k ∨ P.table.entries + k + pagesFor size ≤ x := by
      by_contra hin
      exact hx (Or.inl ⟨by omega, by omega⟩)
    exact (ByteMem.fill_outside hpages).trans (Marks.put_outside htable)
  · rw [heq]
    exact ⟨rfl, fun hne => absurd rfl hne⟩

/-- Filling a page table stores in its entries. -/
theorem fill_table_outside {page flags : Nat} :
    ∀ n (m : ByteMem) j offset, (x < page + 4 * j ∨ page + 4 * (j + n) ≤ x) →
      (fillTable m page flags n j offset).1 x = m x := by
  intro n
  induction n with
  | zero => exact fun _ _ _ _ => rfl
  | succ n ih =>
      intro m j offset hx
      rw [fillTable, ih _ _ _ (by omega)]
      exact ByteMem.setWord32_outside (by omega)

/-- A round of `create_32_dir_table` stores in the heap only. -/
theorem fill_dir_entry_outside (m : ByteMem) {dir flags i : Nat} (offset : Nat)
    (hlow : P.startAddr ≤ dir) (hhigh : dir + 4096 ≤ P.endAddr) (hi : i < 1024)
    (hx : ¬ HeapByte P.toHeap x) : (fillDirEntry P.toHeap m dir flags i offset).1 x = m x := by
  obtain ⟨hzalloc, hgiven⟩ := kzalloc_outside (P := P) m (show 4096 < 4294967296 by decide) hx
  have hout : x < P.startAddr ∨ P.endAddr ≤ x := by
    by_contra hin
    exact hx (Or.inr ⟨by omega, by omega⟩)
  have hset : ∀ (m : ByteMem) (v : Nat), m.setWord32 (dir + 4 * i) v x = m x :=
    fun m v => ByteMem.setWord32_outside (by omega)
  rw [fillDirEntry]
  rcases hcall : kzalloc P.toHeap m 4096 with ⟨indexVal, m₁⟩
  rw [hcall] at hzalloc hgiven
  simp only
  split_ifs with hnull halign
  · exact (hset ..).trans hzalloc
  · exact (hset ..).trans hzalloc
  · obtain ⟨hstart, hend⟩ := hgiven hnull
    rw [pages_for_table] at hend
    exact (fill_table_outside 1024 _ 0 offset (by omega)).trans ((hset ..).trans hzalloc)

/-- `create_32_dir_table` stores in the heap only. -/
theorem create_32_dir_table_outside (m : ByteMem) (flags : Nat) (hx : ¬ HeapByte P.toHeap x) :
    (create32DirTable P.toHeap m flags).2 x = m x := by
  obtain ⟨hzalloc, hgiven⟩ := kzalloc_outside (P := P) m (show 4096 < 4294967296 by decide) hx
  rw [create32DirTable]
  rcases hcall : kzalloc P.toHeap m 4096 with ⟨dir, m₁⟩
  rw [hcall] at hzalloc hgiven
  simp only
  split_ifs with hnull halign
  · exact hzalloc
  · exact hzalloc
  · obtain ⟨hlow, hhigh⟩ := hgiven hnull
    rw [pages_for_table] at hhigh
    have hloop : ∀ n (m : ByteMem) i offset, i + n = 1024 →
        fillDirTable P.toHeap m dir flags n i offset x = m x := by
      intro n
      induction n with
      | zero => exact fun _ _ _ _ => rfl
      | succ n ih =>
          intro m i offset hi
          rw [fillDirTable, ih _ _ _ (by omega)]
          exact fill_dir_entry_outside m offset hlow hhigh (by omega) hx
    dsimp only
    rw [hloop 1024 m₁ 0 0 (by omega)]
    exact hzalloc

/-! ## Runs -/

namespace PagingInv

variable {t : Nat → Nat} {f : Nat → Nat} {s s' : PagedState}

/-- A step that is not about an address outside the heap leaves its byte alone. -/
theorem step_outside (h : PagingInv P t f s) {op : PagedOp} (hop : op.Admissible P.toHeap s)
    (hx : ¬ HeapByte P.toHeap x) (hother : ¬ op.Concerns s x) :
    (op.next P.toHeap s).mem x = s.mem x := by
  have htable : ¬ P.InTable x := fun hin => hx (Or.inl hin)
  cases op with
  | heap op =>
      have halloc : ∀ size, op.size? = some size → op.Admissible P.toHeap →
          (op.call P.toHeap s.mem).2 x = s.mem x := by
        intro size hsize hadm
        rcases h.heap.alloc hsize hadm with heq | ⟨k, m', heq, _, _, hinv, _, hframe⟩
        · rw [heq]
        · rw [heq]
          have hnew := hinv.owned _ List.mem_cons_self
          exact hframe x htable fun hcov => hx (covers_heap_byte hnew hcov)
      cases op with
      | malloc size => exact halloc size rfl hop
      | zalloc size => exact halloc size rfl hop
      | free addr =>
          obtain ⟨a, ha, hlo, hhi⟩ := hop
          have howned := h.heap.owned a ha
          exact (h.heap.free (howned.in_pages (howned.covers_first hlo hhi))).2.2 x htable
  | store va v =>
      obtain ⟨_, pa, hpa, _⟩ := hop
      have hne : x ≠ pa := by
        rintro rfl
        exact hother hpa
      rw [PagedOp.next, hpa]
      exact Function.update_of_ne hne ..
  | setPage c =>
      exact h.maps.set_outside hop.1 fun i hi hcov => hx (covers_heap_byte (h.maps.owned i hi) hcov)

/-- A run that is not about an address outside the heap leaves its byte alone. -/
theorem run_outside (h : PagingInv P t f s) {trace : List (Transition PagedState PagedOp)}
    (hrun : Run (PagedStep P.toHeap) s trace s') (hx : ¬ HeapByte P.toHeap x)
    (hother : ∀ y ∈ trace, ¬ y.event.Concerns y.before x) : s'.mem x = s.mem x := by
  induction hrun with
  | nil => rfl
  | snoc hrun hlast ih =>
      obtain ⟨hinv, _⟩ := h.run hrun
      have hrest := ih fun y hy => hother y (List.mem_append_left _ hy)
      have hstep := hother _ (List.mem_append_right _ List.mem_cons_self)
      obtain ⟨hop, rfl⟩ := hlast
      exact (hinv.step_outside hop hx hstep).trans hrest

/-- From the identity map on, the processor sees at such an address what was there. -/
theorem run_seen {flags : Nat} (h : PagingInv P t (identityMap flags) s)
    {trace : List (Transition PagedState PagedOp)} (hrun : Run (PagedStep P.toHeap) s trace s')
    (hlt : x < 4294967296) (hx : ¬ HeapByte P.toHeap x)
    (hother : ∀ y ∈ trace, ¬ y.event.Concerns y.before x) :
    translate s'.regs s'.mem x = some x ∧ s'.seen x = s.mem x := by
  obtain ⟨hinv, _⟩ := h.run hrun
  have hunset : ∀ y ∈ trace, ∀ c, y.event = .setPage c → c.virtAddr / 4096 ≠ x / 4096 := by
    intro y hy c hevent heq
    refine hother y hy ?_
    rw [hevent]
    exact heq
  have htranslate : translate s'.regs s'.mem x = some x := by
    rw [hinv.translate_mapped hlt, mapped, map_after_unset trace _ _ hunset]
    exact mapped_identity _ hlt
  refine ⟨htranslate, ?_⟩
  rw [PagedState.seen, htranslate]
  exact h.run_outside hrun hx hother

end PagingInv

/-! ## The gates -/

/-- In every run of the kernel behind its page tables that is not about the interrupt table, the
processor finds for every vector of the table the gate of its handler, and for no other one. -/
theorem paged_gates_stay (mem : ByteMem) (regs : PagingRegs) (c : Console)
    {idtTable idtrDescriptor : Nat} {address : Handler → Nat}
    (haddress : ∀ h, address h < 4294967296)
    (hlt : idtTable + 8 * totalInterrupts ≤ 4294967296)
    (hidt : ∀ x, idtTable ≤ x → x < idtTable + 8 * totalInterrupts → ¬ HeapByte kernelHeap x)
    (hapart : idtrDescriptor + 6 ≤ idtTable ∨ idtTable + 8 * totalInterrupts ≤ idtrDescriptor)
    (hidtr : idtrDescriptor + 6 ≤ 0x7e00 ∨ 0x7e00 + 25600 ≤ idtrDescriptor) :
    ∃ s₀, startPaging mem regs c idtTable idtrDescriptor address = .ok (kernelHeap, s₀) ∧
      ∀ trace s, Run (PagedStep kernelHeap) s₀ trace s →
        (∀ x, idtTable ≤ x → x < idtTable + 8 * totalInterrupts →
          ∀ y ∈ trace, ¬ y.event.Concerns y.before x) →
        ∀ v, (idtInit idtTable idtrDescriptor address c mem).idtr.pagedGate s v =
          if v < totalInterrupts then
            some ⟨address (handlerOf v), kernelCodeSelector, interruptKC31⟩
          else none := by
  have hinside : idtTable + 8 * totalInterrupts ≤ 0x7e00 ∨ 0x7e00 + 25600 ≤ idtTable := by
    have htotal : totalInterrupts = 512 := rfl
    by_contra hmeet
    exact hidt (max idtTable 0x7e00) (Nat.le_max_left ..) (by omega)
      (Or.inl ⟨Nat.le_max_right .., show _ < 0x7e00 + 25600 by omega⟩)
  obtain ⟨t, dir, mem', hcreate, hstart⟩ := start_paging_inv mem regs c haddress hinside hidtr
  refine ⟨_, start_paging_eq mem regs c idtTable idtrDescriptor address hcreate,
    fun trace s hrun hother v => ?_⟩
  -- the processor sees every byte of the table where it is and as it was made
  have hseen : ∀ x, idtTable ≤ x → x < idtTable + 8 * totalInterrupts →
      translate s.regs s.mem x = some x ∧
        s.seen x =
          (idtInit idtTable idtrDescriptor address c (memset mem 0x7e00 0x00 25600)).mem x := by
    intro x hlo hhi
    have hheap := hidt x hlo hhi
    obtain ⟨htranslate, hbyte⟩ := hstart.run_seen hrun (by omega) hheap (hother x hlo hhi)
    refine ⟨htranslate, hbyte.trans ?_⟩
    have hcreated := create_32_dir_table_outside (P := kernelPageHeap)
      (idtInit idtTable idtrDescriptor address c (memset mem 0x7e00 0x00 25600)).mem
      (pagingPresent ||| readAndWrite) hheap
    rwa [show create32DirTable kernelPageHeap.toHeap _ _ = (dir, mem') from hcreate] at hcreated
  have hlimit : 8 * v + 7 ≤ 8 * totalInterrupts - 1 ↔ v < totalInterrupts := by omega
  rw [← idt_gate_of_init haddress hlt hapart c (memset mem 0x7e00 0x00 25600) v,
    idtr_of_init haddress hlt hapart, idtr_of_init haddress hlt hapart]
  simp only [Idtr.pagedGate, Idtr.gate, hlimit]
  by_cases hv : v < totalInterrupts
  · have hmapped : ((List.range 8).all fun i =>
        (translate s.regs s.mem (idtTable + 8 * v + i)).isSome) = true := by
      refine List.all_eq_true.mpr fun i hi => ?_
      rw [List.mem_range] at hi
      rw [(hseen _ (by omega) (by omega)).1]
      rfl
    rw [hmapped, if_pos rfl, if_pos hv, if_pos hv]
    exact congrArg some (entry_gate_congr fun x hlo hhi => (hseen x (by omega) (by omega)).2)
  · rw [if_neg hv, if_neg hv, ite_self]

/-- The kernel with its interrupt table behind the first megabyte. -/
theorem paged_gates_stay_at :
    let address : Handler → Nat := fun _ => 0x100200
    let c : Console := ⟨fun _ => 0x0020, 0, 3, []⟩
    ∃ s₀, startPaging (fun _ => 0xff) ⟨1, 0⟩ c 0x110000 0x111000 address = .ok (kernelHeap, s₀) ∧
      ∀ trace s, Run (PagedStep kernelHeap) s₀ trace s →
        (∀ x, 0x110000 ≤ x → x < 0x110000 + 8 * totalInterrupts →
          ∀ y ∈ trace, ¬ y.event.Concerns y.before x) →
        ∀ v, (idtInit 0x110000 0x111000 address c fun _ => 0xff).idtr.pagedGate s v =
          if v < totalInterrupts then
            some ⟨address (handlerOf v), kernelCodeSelector, interruptKC31⟩
          else none := by
  refine paged_gates_stay _ _ _ (fun _ => by decide) (by decide) (fun x hlo hhi hheap => ?_)
    (Or.inr (by decide)) (Or.inr (by decide))
  rcases hheap with ⟨_, hlt⟩ | ⟨hle, _⟩
  · have hlt : x < 0x7e00 + 25600 := hlt
    omega
  · have hle : 0x1000000 ≤ x := hle
    have htotal : totalInterrupts = 512 := rfl
    omega

end Genesis32
