import Genesis32.FileSyst.CreatePath
import Genesis32.Strings.CStrings

/-!
# The components of a path

`set_fname` of `file_syst/fat16.c` as its three loops are: the stores to `f_name` within a number of
rounds, and the result where there is one. The loop that copies the component counts both of its
indices up and waits for the lower one to reach the other, so it ends on an empty component only.
`extracts_component_iff` has the exact condition, and `set_fname_overruns` shows that no buffer is
large enough for the other components. `set_fname_contract` is about what the comment promises,
which the model of `create_file_fat16` has in its place.
-/

namespace Genesis32.PathComponent

/-! ## The model -/

/-- The characters that a component ends with. -/
def EndsName (c : UInt8) : Prop := c = 0x2f ∨ c = 0x00

instance (c : UInt8) : Decidable (EndsName c) := inferInstanceAs (Decidable (_ ∨ _))

/-- The first `for` of `set_fname`. -/
def clearName (size : Nat) : List ByteStore := (List.range size).map fun i => (i, 0x00)

/-- The second `for`, from `i` on: where the component ends. -/
def nameEnd (path : ByteMem) : Nat → Nat → Option Nat
  | 0, _ => none
  | fuel + 1, i =>
      if EndsName (path i) then some i
      -- `i` is an `int`, and there is no result where it overflows
      else if i + 1 < 2147483648 then nameEnd path fuel (i + 1) else none

/-- The third `for`: the stores within `fuel` rounds, and both indices behind the loop. -/
def copyName (path : ByteMem) : Nat → Nat → Nat → List ByteStore × Option (Nat × Nat)
  | 0, _, _ => ([], none)
  | fuel + 1, j, i =>
      if j < i then
        -- `i` is counted up with `j`
        if i + 1 < 2147483648 then
          match copyName path fuel (j + 1) (i + 1) with
          | (stores, out) => ((j, path i) :: stores, out)
        else ([(j, path i)], none)
      else ([], some (j, i))

/-- `set_fname`: the stores to `f_name` with `fuel` rounds for each loop, and the result. -/
def setFname (path : ByteMem) (start size fuel : Nat) : List ByteStore × Option Int :=
  match nameEnd path fuel start with
  | none => (clearName size, none)
  | some i =>
      match copyName path fuel start i with
      | (stores, none) => (clearName size ++ stores, none)
      | (stores, some (j, i)) => (clearName size ++ stores ++ [(j, 0x00)], some ((i : Int) - 1))

/-! ## What it is for -/

/-- The component from `start` on has `c` characters. -/
structure IsComponent (path : ByteMem) (start c : Nat) : Prop where
  chars : ∀ j < c, ¬ EndsName (path (start + j))
  last : EndsName (path (start + c))

/-- The first `n` characters from `start` on, and a NUL. -/
structure HoldsName (fName path : ByteMem) (start n : Nat) : Prop where
  chars : ∀ j < n, fName j = path (start + j)
  nul : fName n = 0x00

/-- The call ends with the index of the last character of the component. It stores inside the
buffer only, and leaves the component there, as far as there is room for it and a NUL. -/
def ExtractsComponent (path : ByteMem) (start size : Nat) : Prop :=
  ∃ fuel stores c, IsComponent path start c ∧
    setFname path start size fuel = (stores, some ((start : Int) + c - 1)) ∧
    (∀ w ∈ stores, w.1 < size) ∧
    ∀ stale, HoldsName (storeAll stale stores) path start (min c (size - 1))

variable {path : ByteMem} {start size fuel i j c len : Nat}

theorem IsComponent.tail (h : IsComponent path start (c + 1)) : IsComponent path (start + 1) c := by
  refine ⟨fun j hj => ?_, ?_⟩
  · rw [Nat.add_right_comm]
    exact h.chars (j + 1) (by omega)
  · rw [Nat.add_right_comm]
    exact h.last

theorem IsComponent.empty (h : EndsName (path start)) : IsComponent path start 0 where
  chars := fun j hj => absurd hj (Nat.not_lt_zero j)
  last := h

theorem IsComponent.cons (hchar : ¬ EndsName (path start)) (h : IsComponent path (start + 1) c) :
    IsComponent path start (c + 1) := by
  refine ⟨fun j hj => ?_, ?_⟩
  · cases j with
    | zero => exact hchar
    | succ j =>
        have hrest := h.chars j (by omega)
        rwa [Nat.add_right_comm] at hrest
  · have hlast := h.last
    rwa [Nat.add_right_comm] at hlast

theorem HoldsName.empty {fName : ByteMem} (h : fName 0 = 0x00) : HoldsName fName path start 0 where
  chars := fun j hj => absurd hj (Nat.not_lt_zero j)
  nul := h

/-- There is a component from every place of a string on, and it ends inside the string. -/
theorem exists_component : ∀ {len start : Nat}, HasLength path start len →
    ∃ c ≤ len, IsComponent path start c := by
  intro len
  induction len with
  | zero => exact fun hlen => ⟨0, le_rfl, .empty (.inr hlen.2)⟩
  | succ len ih =>
      intro start hlen
      by_cases hend : EndsName (path start)
      · exact ⟨0, Nat.zero_le _, .empty hend⟩
      · obtain ⟨c, hle, hcomp⟩ := ih hlen.tail
        exact ⟨c + 1, Nat.succ_le_succ hle, .cons hend hcomp⟩

/-! ## The loops -/

theorem name_end_here (h : EndsName (path start)) : nameEnd path (fuel + 1) start = some start := by
  rw [nameEnd, if_pos h]

theorem le_name_end : ∀ {fuel i e : Nat}, nameEnd path fuel i = some e → i ≤ e := by
  intro fuel
  induction fuel with
  | zero => exact fun {i e} h => nomatch h
  | succ fuel ih =>
      intro i e h
      rw [nameEnd] at h
      split_ifs at h with hend hint
      · exact (Option.some.inj h).le
      · have := ih h
        omega

/-- A search that finds a separator at `e` has stopped at a separator. -/
theorem name_end_ends : ∀ {fuel i e : Nat}, nameEnd path fuel i = some e → EndsName (path e) := by
  intro fuel
  induction fuel with
  | zero => exact fun {i e} h => nomatch h
  | succ fuel ih =>
      intro i e h
      rw [nameEnd] at h
      split_ifs at h with hend hint
      · rwa [← Option.some.inj h]
      · exact ih h

/-- The search ends behind the component. -/
theorem name_end_component : ∀ {c start : Nat}, IsComponent path start c →
    start + c < 2147483648 → ∀ fuel, c < fuel → nameEnd path fuel start = some (start + c) := by
  intro c
  induction c with
  | zero =>
      intro start h hint fuel hfuel
      obtain ⟨fuel, rfl⟩ := Nat.exists_eq_add_one.mpr hfuel
      exact name_end_here h.last
  | succ c ih =>
      intro start h hint fuel hfuel
      obtain ⟨fuel, rfl⟩ := Nat.exists_eq_add_one.mpr (Nat.zero_lt_of_lt hfuel)
      have hchar : ¬ EndsName (path start) := h.chars 0 (Nat.succ_pos c)
      rw [nameEnd, if_neg hchar, if_pos (by omega), ih h.tail (by omega) fuel (by omega),
        Nat.add_right_comm]
      rfl

theorem copy_name_ended (h : ¬ j < i) : copyName path (fuel + 1) j i = ([], some (j, i)) := by
  rw [copyName, if_neg h]

/-- The distance of the indices stays as it is, so the loop does not end. -/
theorem copy_name_never (path : ByteMem) : ∀ (fuel : Nat) {j i : Nat}, j < i →
    (copyName path fuel j i).2 = none := by
  intro fuel
  induction fuel with
  | zero => exact fun {j i} _ => rfl
  | succ fuel ih =>
      intro j i hlt
      rw [copyName, if_pos hlt]
      split_ifs with hint
      · exact ih (Nat.succ_lt_succ hlt)
      · rfl

/-- The stores of `n` rounds. -/
theorem copy_name_stores (path : ByteMem) : ∀ (n : Nat) {j i : Nat}, j < i → i + n < 2147483648 →
    (copyName path n j i).1 = (List.range n).map fun k => (j + k, path (i + k)) := by
  intro n
  induction n with
  | zero => exact fun {j i} _ _ => rfl
  | succ n ih =>
      intro j i hlt hint
      have hrest := ih (show j + 1 < i + 1 by omega) (show i + 1 + n < 2147483648 by omega)
      rw [copyName, if_pos hlt, if_pos (by omega), List.range_succ_eq_map, List.map_cons,
        List.map_map]
      refine congrArg _ (hrest.trans (List.map_congr_left fun k _ => ?_))
      rw [Function.comp_apply, Nat.add_right_comm, Nat.add_right_comm i]
      rfl

/-! ## The function -/

/-- On an empty component the result is there, and the last store is at `start`. -/
theorem set_fname_empty (h : EndsName (path start)) :
    setFname path start size (fuel + 1) =
      (clearName size ++ [(start, 0x00)], some ((start : Int) - 1)) := by
  rw [setFname, name_end_here h]
  simp only [copy_name_ended (Nat.lt_irrefl start), List.append_nil]

/-- The copying of a component that has characters does not end. -/
theorem set_fname_copies {e : Nat} (hend : nameEnd path fuel start = some e) (hlt : start < e) :
    setFname path start size fuel =
      (clearName size ++ (copyName path fuel start e).1, none) := by
  have hcopy := copy_name_never path fuel hlt
  rw [setFname, hend]
  cases hrun : copyName path fuel start e with
  | mk stores out =>
      rw [hrun] at hcopy
      obtain rfl : out = none := hcopy
      simp only [hrun]

/-- On any other there is none, however many rounds the loops may take. -/
theorem set_fname_never (h : ¬ EndsName (path start)) (size fuel : Nat) :
    (setFname path start size fuel).2 = none := by
  cases hend : nameEnd path fuel start with
  | none => rw [setFname, hend]
  | some e =>
      have hne : start ≠ e := by
        intro heq
        exact h (heq ▸ name_end_ends hend)
      rw [set_fname_copies hend (lt_of_le_of_ne (le_name_end hend) hne)]

/-- A component with characters is copied over the end of every buffer, as long as the indices are
not at their limit. -/
theorem set_fname_overruns (hlen : HasLength path start len) (h : ¬ EndsName (path start))
    (hint : start + 2 * len + size < 2147483647) :
    ∃ fuel, ∃ w ∈ (setFname path start size fuel).1, size ≤ w.1 := by
  obtain ⟨c, hle, hcomp⟩ := exists_component hlen
  have hpos : 0 < c := by
    by_contra hzero
    obtain rfl := Nat.eq_zero_of_not_pos hzero
    exact h hcomp.last
  -- so many rounds find the end of the component, and then go through the buffer
  let fuel := c + size + 1
  have hend : nameEnd path fuel start = some (start + c) :=
    name_end_component hcomp (by omega) fuel (by omega)
  have hstores := copy_name_stores path fuel (show start < start + c by omega) (by omega)
  refine ⟨fuel, (start + size, path (start + c + size)), ?_, Nat.le_add_left _ _⟩
  rw [set_fname_copies hend (by omega), hstores]
  exact List.mem_append_right _ (List.mem_map_of_mem (List.mem_range.mpr (by omega)))

/-- Zeros leave the zeros that are there. -/
theorem store_all_zeros : ∀ {stores : List ByteStore} {m : ByteMem} {x : Nat},
    (∀ w ∈ stores, w.2 = 0x00) → (m x = 0x00 ∨ ∃ w ∈ stores, w.1 = x) →
      storeAll m stores x = 0x00 := by
  intro stores
  induction stores with
  | nil =>
      intro m x _ hx
      rcases hx with hx | ⟨w, hw, _⟩
      · exact hx
      · exact absurd hw List.not_mem_nil
  | cons w stores ih =>
      intro m x hzero hx
      have hw : w.2 = 0x00 := hzero w List.mem_cons_self
      have hrest : ∀ v ∈ stores, v.2 = 0x00 := fun v hv => hzero v (List.mem_cons_of_mem w hv)
      refine ih (m := Function.update m w.1 w.2) hrest ?_
      by_cases hat : x = w.1
      · left
        rw [hat, Function.update_self, hw]
      · rw [Function.update_of_ne hat]
        rcases hx with hx | ⟨v, hv, rfl⟩
        · exact .inl hx
        · rcases List.mem_cons.mp hv with rfl | hv
          · exact absurd rfl hat
          · exact .inr ⟨v, hv, rfl⟩

/-- The stores of a call on an empty component: each is a zero, and one is at every index of the
buffer and at `start`. -/
theorem empty_stores {w : ByteStore} (hw : w ∈ clearName size ++ [(start, 0x00)]) :
    w.2 = 0x00 ∧ (w.1 < size ∨ w.1 = start) := by
  rcases List.mem_append.mp hw with hw | hw
  · obtain ⟨i, hi, rfl⟩ := List.mem_map.mp hw
    exact ⟨rfl, .inl (List.mem_range.mp hi)⟩
  · obtain rfl := List.mem_singleton.mp hw
    exact ⟨rfl, .inr rfl⟩

/-- `set_fname` does what it is for exactly when the component is empty and `start` is an index of
the buffer. -/
theorem extracts_component_iff (path : ByteMem) (start size : Nat) :
    ExtractsComponent path start size ↔
      (path start = 0x2f ∨ path start = 0x00) ∧ start < size := by
  constructor
  · intro h
    obtain ⟨fuel, stores, c, _, hcall, hbound, _⟩ := h
    have hend : EndsName (path start) := by
      by_contra hchar
      have hnever := set_fname_never hchar size fuel
      rw [hcall] at hnever
      exact nomatch hnever
    refine ⟨hend, ?_⟩
    cases fuel with
    | zero => exact nomatch congrArg Prod.snd hcall
    | succ fuel =>
        rw [set_fname_empty hend] at hcall
        obtain rfl := congrArg Prod.fst hcall
        exact hbound (start, 0x00) (List.mem_append_right _ (List.mem_singleton_self _))
  · intro h
    obtain ⟨hend, hsize⟩ := h
    refine ⟨1, clearName size ++ [(start, 0x00)], 0, .empty hend, ?_, fun w hw => ?_,
      fun stale => ?_⟩
    · rw [set_fname_empty hend, Int.natCast_zero, Int.add_zero]
    · have := (empty_stores hw).2
      omega
    · rw [Nat.zero_min]
      have hfirst : ((0, 0x00) : ByteStore) ∈ clearName size ++ [(start, 0x00)] :=
        List.mem_append_left _ (List.mem_map_of_mem (List.mem_range.mpr (by omega)))
      exact .empty (store_all_zeros (fun w hw => (empty_stores hw).1) (.inr ⟨_, hfirst, rfl⟩))

/-- The one character of the component of "/A" from index 1 on. -/
theorem component_not_extracted :
    IsComponent (cString [0x2f, 0x41]) 1 1 ∧
      ¬ ExtractsComponent (cString [0x2f, 0x41]) 1 fNameLen := by
  refine ⟨⟨by decide, by decide⟩, fun h => ?_⟩
  obtain ⟨fuel, stores, c, _, hcall, _⟩ := h
  have hchar : ¬ EndsName (cString [0x2f, 0x41] 1) := by decide
  have hnever := set_fname_never hchar fNameLen fuel
  rw [hcall] at hnever
  exact nomatch hnever

/-! ## What the comment promises -/

theorem c_string_drop (path : List UInt8) (start j : Nat) :
    cString (path.drop start) j = cString path (start + j) := by
  unfold cString
  rw [List.getD_eq_getElem?_getD, List.getD_eq_getElem?_getD, List.getElem?_drop]

/-- The characters of a list up to its first slash, where the list is the rest of a string. -/
theorem take_while_component : ∀ (l : List UInt8) {start : Nat}, 0x00 ∉ l →
    (∀ j, path (start + j) = cString l j) →
      IsComponent path start (l.takeWhile (· ≠ 0x2f)).length ∧
        HoldsName (cString (l.takeWhile (· ≠ 0x2f))) path start
          (l.takeWhile (· ≠ 0x2f)).length := by
  intro l
  induction l with
  | nil =>
      intro start _ hrest
      exact ⟨.empty (.inr (hrest 0)), .empty rfl⟩
  | cons char l ih =>
      intro start hnul hrest
      have hchar : path start = char := hrest 0
      by_cases hslash : char = 0x2f
      · rw [List.takeWhile_cons_of_neg (by simpa using hslash)]
        exact ⟨.empty (.inl (hchar.trans hslash)), .empty rfl⟩
      · have hne : char ≠ 0x00 := fun heq => hnul (heq ▸ List.mem_cons_self)
        have hnext : ∀ j, path (start + 1 + j) = cString l j := by
          intro j
          rw [Nat.add_right_comm]
          exact hrest (j + 1)
        obtain ⟨hcomp, hname⟩ := ih (fun hmem => hnul (List.mem_cons_of_mem _ hmem)) hnext
        rw [List.takeWhile_cons_of_pos (by simpa using hslash), List.length_cons]
        refine ⟨.cons (by rw [hchar]; exact not_or.mpr ⟨hslash, hne⟩) hcomp, fun j hj => ?_,
          hname.nul⟩
        cases j with
        | zero => exact hchar.symm
        | succ j =>
            have hnamed := hname.chars j (Nat.lt_of_succ_lt_succ hj)
            rwa [Nat.add_right_comm] at hnamed

/-- The name and the index of the contract are the component and its last character. -/
theorem set_fname_contract {path fName : List UInt8} {e : Int} (hpath : 0x00 ∉ path)
    (h : Genesis32.setFname path start = some (fName, e)) :
    IsComponent (cString path) start fName.length ∧
      HoldsName (cString fName) (cString path) start fName.length ∧
      e = start + fName.length - 1 := by
  rw [Genesis32.setFname, if_neg (by omega), Int.toNat_natCast] at h
  obtain ⟨rfl, rfl⟩ := Prod.mk.inj (Option.some.inj h)
  obtain ⟨hcomp, hname⟩ := take_while_component (path.drop start)
    (fun hmem => hpath (List.mem_of_mem_drop hmem)) fun j => (c_string_drop path start j).symm
  exact ⟨hcomp, hname, rfl⟩

end Genesis32.PathComponent
