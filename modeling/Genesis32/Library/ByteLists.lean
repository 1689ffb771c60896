import Genesis32.Library.ByteMem

/-!
# Lists of bytes

A range of a byte memory as a list, and lists of which a part is replaced. A store into the range, a
fill and a copy inside it replace a part of its list.
-/

/-- Replace the elements of `l` from position `p` on by those of `new`, as far as `l` goes. -/
def overwrite {α : Type*} (l : List α) (p : Nat) (new : List α) : List α :=
  l.take p ++ new.take (l.length - p) ++ l.drop (p + new.length)

section

variable {α : Type*}

theorem length_overwrite (l new : List α) (p : Nat) : (overwrite l p new).length = l.length := by
  rw [overwrite, List.length_append, List.length_append, List.length_take, List.length_take,
    List.length_drop]
  omega

theorem overwrite_get (l new : List α) (p i : Nat) :
    (overwrite l p new)[i]? =
      if p ≤ i ∧ i < p + new.length ∧ i < l.length then new[i - p]? else l[i]? := by
  rw [overwrite]
  split_ifs with hin
  · rw [List.append_assoc, List.getElem?_append_right (by rw [List.length_take]; omega),
      List.length_take, Nat.min_eq_left (by omega),
      List.getElem?_append_left (by rw [List.length_take]; omega),
      List.getElem?_take_of_lt (by omega)]
  · rcases Nat.lt_or_ge i l.length with hlt | hge
    · rcases Nat.lt_or_ge i p with hip | hpi
      · rw [List.append_assoc, List.getElem?_append_left (by rw [List.length_take]; omega),
          List.getElem?_take_of_lt hip]
      · have hlength : (l.take p ++ new.take (l.length - p)).length = p + new.length := by
          rw [List.length_append, List.length_take, List.length_take]
          omega
        rw [List.getElem?_append_right (by omega), hlength, List.getElem?_drop]
        congr 1
        omega
    · rw [List.getElem?_eq_none hge, List.getElem?_eq_none]
      rw [List.length_append, List.length_append, List.length_take, List.length_take,
        List.length_drop]
      omega

end

namespace ByteMem

/-- The `n` bytes of `m` from `a` on. -/
def bytes (m : ByteMem) (a n : Nat) : List UInt8 := (List.range n).map fun i => m (a + i)

variable {m m' : ByteMem} {a n : Nat}

@[simp] theorem length_bytes (m : ByteMem) (a n : Nat) : (bytes m a n).length = n := by
  rw [bytes, List.length_map, List.length_range]

theorem bytes_get (m : ByteMem) (a : Nat) {i : Nat} (hi : i < n) :
    (bytes m a n)[i]? = some (m (a + i)) := by
  rw [bytes, List.getElem?_map, List.getElem?_range hi, Option.map_some]

theorem bytes_get_none (m : ByteMem) (a : Nat) {i : Nat} (hi : n ≤ i) :
    (bytes m a n)[i]? = none :=
  List.getElem?_eq_none (by rwa [length_bytes])

theorem bytes_congr (h : ∀ i < n, m' (a + i) = m (a + i)) : bytes m' a n = bytes m a n :=
  List.map_congr_left fun i hi => h i (List.mem_range.mp hi)

/-- A memory that differs from `m` in a part of a range only. -/
theorem bytes_overwrite {x k : Nat} {new : List UInt8} (hlength : new.length = k)
    (hin : ∀ i < k, some (m' (a + (x + i))) = new[i]?)
    (hout : ∀ i < n, i < x ∨ x + k ≤ i → m' (a + i) = m (a + i)) :
    bytes m' a n = overwrite (bytes m a n) x new := by
  refine List.ext_getElem? fun i => ?_
  rw [overwrite_get, length_bytes, hlength]
  rcases Nat.lt_or_ge i n with hi | hi
  · rw [bytes_get _ _ hi, bytes_get _ _ hi]
    split_ifs with hpart
    · rw [← hin (i - x) (by omega), Nat.add_sub_cancel' hpart.1]
    · rw [hout i hi (by omega)]
  · rw [bytes_get_none _ _ hi, bytes_get_none _ _ hi, if_neg (by omega)]

/-- A filled range. -/
theorem bytes_of_fill (m : ByteMem) (a n : Nat) (v : UInt8) :
    bytes (fill m a n v) a n = List.replicate n v := by
  refine List.eq_replicate_iff.mpr ⟨length_bytes .., fun b hb => ?_⟩
  obtain ⟨i, hi, rfl⟩ := List.mem_map.mp hb
  rw [List.mem_range] at hi
  exact fill_inside (by omega) (by omega)

theorem bytes_update (m : ByteMem) (a n x : Nat) (v : UInt8) :
    bytes (Function.update m (a + x) v) a n = overwrite (bytes m a n) x [v] := by
  refine bytes_overwrite (k := 1) rfl (fun i hi => ?_) fun i _ hi => ?_
  · obtain rfl := Nat.lt_one_iff.mp hi
    rw [Nat.add_zero, Function.update_self]
    rfl
  · exact Function.update_of_ne (by omega) ..

theorem bytes_fill (m : ByteMem) (a n x k : Nat) (v : UInt8) :
    bytes (fill m (a + x) k v) a n = overwrite (bytes m a n) x (List.replicate k v) := by
  refine bytes_overwrite List.length_replicate (fun i hi => ?_) fun i _ hi => ?_
  · rw [fill_inside (by omega) (by omega), List.getElem?_replicate_of_lt hi]
  · exact fill_outside (by omega)

theorem bytes_copy (m src : ByteMem) (a n x b k : Nat) :
    bytes (copy m (a + x) src b k) a n = overwrite (bytes m a n) x (bytes src b k) := by
  refine bytes_overwrite (length_bytes ..) (fun i hi => ?_) fun i _ hi => ?_
  · rw [copy_inside (by omega) (by omega), bytes_get _ _ hi,
      show b + (a + (x + i) - (a + x)) = b + i by omega]
  · exact copy_outside (by omega)

/-- A part of a range. -/
theorem bytes_slice (m : ByteMem) (a : Nat) {y k : Nat} (h : y + k ≤ n) :
    bytes m (a + y) k = ((bytes m a n).drop y).take k := by
  refine List.ext_getElem? fun i => ?_
  rcases Nat.lt_or_ge i k with hi | hi
  · rw [bytes_get _ _ hi, List.getElem?_take_of_lt hi, List.getElem?_drop,
      bytes_get _ _ (by omega), Nat.add_assoc]
  · rw [bytes_get_none _ _ hi, List.getElem?_take_eq_none hi]

/-- The first bytes of a range. -/
theorem bytes_prefix (m : ByteMem) (a : Nat) {k : Nat} (h : k ≤ n) :
    bytes m a k <+: bytes m a n := by
  have hslice := bytes_slice m a (show 0 + k ≤ n by omega)
  rw [Nat.add_zero, List.drop_zero] at hslice
  rw [hslice]
  exact List.take_prefix k _

end ByteMem
