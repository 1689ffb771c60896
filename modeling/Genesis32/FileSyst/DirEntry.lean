import Mathlib.Data.List.GetD
import Genesis32.FileSyst.DirLookup

/-!
# Making a directory entry

The part of `create_file_fat16` of `file_syst/fat16.c` that fills in `dir_ent`, with `strncpy` of
`string/string.c`. The component of the path is in `f_name` as `set_fname` is meant to leave it: the
text, and zeros up to `F_NAME_LEN`. `entry_round_trip_iff` says for which components, and over which
old entries, the lookup and the open get back what went in.
-/

namespace Genesis32

/-- `F_NAME_LEN`. -/
abbrev fNameLen : Nat := 13

/-! ## The model -/

/-- `strncpy(&dest[a], &src[i], n)`. When the string is longer than `n`, the test `n--` wraps
around, and the padding loop clears the `2^32-1` bytes that follow, the program among them: no
result. -/
def strncpy (dest : ByteMem) (a : Nat) (src : ByteMem) : Nat → Nat → Option ByteMem
  | 0, i => if src i = 0x00 then some dest else none
  | n + 1, i =>
      if src i = 0x00 then some (dest.fill a (n + 1) 0x00)
      else strncpy (Function.update dest a (src i)) (a + 1) src n (i + 1)

/-- The dates, the times and the cluster of `dir_ent`, and the lower half of its size. -/
def fillFields (dirEnt : ByteMem) (date time cluster : Nat) : ByteMem :=
  let dirEnt := ((dirEnt.setWord16 24 date).setWord16 18 date).setWord16 16 date
  let dirEnt := (dirEnt.setWord16 14 time).setWord16 22 time
  let dirEnt : ByteMem := Function.update (Function.update dirEnt 20 0x00) 21 0x00
  (dirEnt.setWord16 26 cluster).setWord16 28 0

/-- How `create_file_fat16` fills in `dir_ent`, for the cluster that it has allocated. The type that
is asked for does not come into it. -/
def fillDirEnt (fName dirEnt : ByteMem) (date time cluster : Nat) : Option ByteMem := do
  let dirEnt ← strncpy dirEnt 0 fName fileNameLenMax 0
  let dirEnt ← strncpy dirEnt fileNameLenMax fName (fNameLen - fileNameLenMax) (fileNameLenMax + 1)
  some (fillFields dirEnt date time cluster)

/-- The content type that `fat16_sub_open_file` gives an entry. -/
def contentTypeOf (dirEnt : ByteMem) : ContentType :=
  if dirEnt 11 &&& 0x10 = 0 then .file else .dir

/-- The entry, as `fat16_sub_open_file` decodes it and `read_cluster_find_match` compares it, is
what went in: the name, the cluster, no bytes, and a directory exactly when one was asked for. -/
structure RoundTrip (name : Name83) (cluster : Nat) (directory : Prop) (dirEnt : ByteMem) :
    Prop where
  name : strncmp dirEnt 0 name.cString 0 fileNameLenMax = 0
  cluster : dirEnt.word16 26 = cluster
  size : dirEnt.word32 28 = 0
  type : contentTypeOf dirEnt = .dir ↔ directory

/-! ## Copying a string -/

/-- A string that fits is copied and padded with zeros. -/
theorem strncpy_fits (src : ByteMem) :
    ∀ (n l i a : Nat) (dest : ByteMem), l ≤ n → (∀ j < l, src (i + j) ≠ 0x00) →
      src (i + l) = 0x00 → ∃ dest', strncpy dest a src n i = some dest' ∧
        (∀ j < l, dest' (a + j) = src (i + j)) ∧
        (∀ j, l ≤ j → j < n → dest' (a + j) = 0x00) ∧
        ∀ x, x < a ∨ a + n ≤ x → dest' x = dest x := by
  intro n
  induction n with
  | zero =>
      intro l i a dest hl _ hend
      obtain rfl := Nat.le_zero.mp hl
      exact ⟨dest, if_pos hend, fun j hj => absurd hj (Nat.not_lt_zero j),
        fun j _ hj => absurd hj (Nat.not_lt_zero j), fun _ _ => rfl⟩
  | succ n ih =>
      intro l i a dest hl hchars hend
      rw [strncpy]
      cases l with
      | zero =>
          -- the end of the string: the rest of the field is padding
          rw [if_pos (show src i = 0x00 from hend)]
          exact ⟨_, rfl, fun j hj => absurd hj (Nat.not_lt_zero j),
            fun j _ hj => ByteMem.fill_inside (by omega) (by omega),
            fun x hx => ByteMem.fill_outside hx⟩
      | succ l =>
          rw [if_neg (show src i ≠ 0x00 from hchars 0 (by omega))]
          obtain ⟨dest', hcopy, htext, hpad, hout⟩ := ih l (i + 1) (a + 1)
            (Function.update dest a (src i)) (by omega)
            (fun j hj => by
              rw [Nat.add_right_comm]
              exact hchars (j + 1) (by omega))
            (by rw [Nat.add_right_comm]; exact hend)
          refine ⟨dest', hcopy, fun j hj => ?_, fun j hl hh => ?_, fun x hx => ?_⟩
          · cases j with
            | zero =>
                rw [Nat.add_zero, Nat.add_zero, hout a (by omega)]
                exact Function.update_self ..
            | succ j =>
                have hbyte := htext j (by omega)
                rwa [Nat.add_right_comm, Nat.add_right_comm i] at hbyte
          · obtain ⟨j, rfl⟩ : ∃ k, j = k + 1 := ⟨j - 1, by omega⟩
            have hbyte := hpad j (by omega) (by omega)
            rwa [Nat.add_right_comm] at hbyte
          · rw [hout x (by omega)]
            exact Function.update_of_ne (by omega) ..

/-- The copy of a longer string runs away. -/
theorem strncpy_runs_away (src : ByteMem) :
    ∀ (n i a : Nat) (dest : ByteMem), (∀ j ≤ n, src (i + j) ≠ 0x00) →
      strncpy dest a src n i = none := by
  intro n
  induction n with
  | zero => exact fun i a dest h => if_neg (h 0 le_rfl)
  | succ n ih =>
      intro i a dest h
      rw [strncpy, if_neg (show src i ≠ 0x00 from h 0 (by omega))]
      refine ih (i + 1) (a + 1) _ fun j hj => ?_
      rw [Nat.add_right_comm]
      exact h (j + 1) (by omega)

/-! ## The entry -/

namespace Name83

variable (name : Name83)

/-- No character of the text is a NUL. -/
theorem text_ne_zero {c : UInt8} (hc : c ∈ name.text) : c ≠ 0x00 := by
  have hchar : ∀ d ∈ name.base ++ name.ext, d ≠ 0x00 := by
    rintro d hd rfl
    exact absurd (name.chars _ hd).1 (by decide)
  unfold text at hc
  split_ifs at hc
  · exact hchar c (List.mem_append_left _ hc)
  · rcases List.mem_append.mp hc with hbase | hrest
    · exact hchar c (List.mem_append_left _ hbase)
    · rcases List.mem_cons.mp hrest with rfl | hext
      · decide
      · exact hchar c (List.mem_append_right _ hext)

theorem c_string_ne_zero {i : Nat} (hi : i < name.text.length) : name.cString i ≠ 0x00 := by
  unfold cString
  rw [List.getD_eq_getElem _ _ hi]
  exact name.text_ne_zero (List.getElem_mem hi)

theorem c_string_end {i : Nat} (hi : name.text.length ≤ i) : name.cString i = 0x00 :=
  List.getD_eq_default _ _ hi

end Name83

variable {name : Name83} {fName : ByteMem}

/-- The fields lie in bytes 14 to 29. -/
theorem fill_fields_outside (dirEnt : ByteMem) (date time cluster : Nat) {x : Nat}
    (hx : x < 14 ∨ 30 ≤ x) : fillFields dirEnt date time cluster x = dirEnt x := by
  unfold fillFields
  rw [ByteMem.setWord16_outside (by omega), ByteMem.setWord16_outside (by omega),
    Function.update_of_ne (by omega), Function.update_of_ne (by omega),
    ByteMem.setWord16_outside (by omega), ByteMem.setWord16_outside (by omega),
    ByteMem.setWord16_outside (by omega), ByteMem.setWord16_outside (by omega),
    ByteMem.setWord16_outside (by omega)]

theorem fill_fields_cluster (dirEnt : ByteMem) (date time : Nat) {cluster : Nat}
    (hcluster : cluster < 65536) : (fillFields dirEnt date time cluster).word16 26 = cluster := by
  unfold fillFields
  rw [ByteMem.word16_setWord16_other (by omega), ByteMem.word16_setWord16_same,
    Nat.mod_eq_of_lt hcluster]

/-- The upper half of the size is what the buffer held before. -/
theorem fill_fields_size (dirEnt : ByteMem) (date time cluster : Nat) :
    (fillFields dirEnt date time cluster).word32 28 =
      65536 * ((dirEnt 30).toNat + 256 * (dirEnt 31).toNat) := by
  have hlow : (fillFields dirEnt date time cluster).word16 28 = 0 := by
    unfold fillFields
    rw [ByteMem.word16_setWord16_same]
  rw [ByteMem.word32, hlow, Nat.zero_add, ByteMem.word16,
    fill_fields_outside _ _ _ _ (by omega), fill_fields_outside _ _ _ _ (by omega)]

/-- The entry for a text of at most eight characters: the text padded with zeros, an attribute byte
that is zero, the cluster, and a size whose upper half is left. -/
theorem fill_dir_ent_short (hname : ∀ i < fNameLen, fName i = name.cString i)
    (hshort : name.text.length ≤ fileNameLenMax) (dirEnt : ByteMem) (date time : Nat)
    {cluster : Nat} (hcluster : cluster < 65536) :
    ∃ entry, fillDirEnt fName dirEnt date time cluster = some entry ∧
      (∀ j < fileNameLenMax, entry j = name.cString j) ∧ entry 11 = 0x00 ∧
      entry.word16 26 = cluster ∧
      entry.word32 28 = 65536 * ((dirEnt 30).toNat + 256 * (dirEnt 31).toNat) := by
  have h8 : fileNameLenMax = 8 := rfl
  have h13 : fNameLen = 13 := rfl
  obtain ⟨e₁, hcopy₁, htext₁, hpad₁, hout₁⟩ := strncpy_fits fName fileNameLenMax
    name.text.length 0 0 dirEnt hshort
    (fun j hj => by
      rw [Nat.zero_add, hname j (by omega)]
      exact name.c_string_ne_zero hj)
    (by rw [Nat.zero_add, hname _ (by omega)]; exact name.c_string_end le_rfl)
  -- what follows the eighth character in the buffer is empty
  obtain ⟨e₂, hcopy₂, _, hpad₂, hout₂⟩ := strncpy_fits fName (fNameLen - fileNameLenMax) 0
    (fileNameLenMax + 1) fileNameLenMax e₁ (Nat.zero_le _)
    (fun j hj => absurd hj (Nat.not_lt_zero j))
    (by rw [Nat.add_zero, hname _ (by omega)]; exact name.c_string_end (by omega))
  refine ⟨fillFields e₂ date time cluster, ?_, fun j hj => ?_, ?_,
    fill_fields_cluster _ _ _ hcluster,
    ?_⟩
  · unfold fillDirEnt
    rw [hcopy₁, Option.bind_eq_bind, Option.bind_some, hcopy₂]
    rfl
  · rw [fill_fields_outside _ _ _ _ (by omega), hout₂ j (by omega)]
    rcases Nat.lt_or_ge j name.text.length with hin | hpad
    · have hbyte := htext₁ j hin
      rw [Nat.zero_add] at hbyte
      rw [hbyte, hname j (by omega)]
    · have hbyte := hpad₁ j hpad hj
      rw [Nat.zero_add] at hbyte
      rw [hbyte, name.c_string_end hpad]
  · rw [fill_fields_outside _ _ _ _ (by omega)]
    exact hpad₂ 3 (by omega) (by omega)
  · rw [fill_fields_size, hout₂ 30 (by omega), hout₂ 31 (by omega), hout₁ 30 (by omega),
      hout₁ 31 (by omega)]

/-- There is no entry for a longer text. -/
theorem fill_dir_ent_long (hname : ∀ i < fNameLen, fName i = name.cString i)
    (hlong : fileNameLenMax < name.text.length) (dirEnt : ByteMem) (date time cluster : Nat) :
    fillDirEnt fName dirEnt date time cluster = none := by
  have h8 : fileNameLenMax = 8 := rfl
  have h13 : fNameLen = 13 := rfl
  unfold fillDirEnt
  rw [strncpy_runs_away fName fileNameLenMax 0 0 dirEnt fun j hj => by
    rw [Nat.zero_add, hname j (by omega)]
    exact name.c_string_ne_zero (by omega)]
  rfl

/-- For every component, type, cluster and old entry, the entry that is made brings back what went
in exactly when the component has at most eight characters, its dot included, the last two bytes of
the old entry are zero and no directory is asked for. -/
theorem entry_round_trip_iff (hname : ∀ i < fNameLen, fName i = name.cString i) (dirEnt : ByteMem)
    (date time : Nat) {cluster : Nat} (hcluster : cluster < 65536)
    (intermediate directoryType : Prop) :
    (∃ entry, fillDirEnt fName dirEnt date time cluster = some entry ∧
      RoundTrip name cluster (intermediate ∨ directoryType) entry) ↔
      name.text.length ≤ fileNameLenMax ∧ dirEnt 30 = 0x00 ∧ dirEnt 31 = 0x00 ∧
        ¬ (intermediate ∨ directoryType) := by
  constructor
  · intro hall
    obtain ⟨entry, hfill, hround⟩ := hall
    have hshort : name.text.length ≤ fileNameLenMax := by
      by_contra hlong
      rw [fill_dir_ent_long hname (by omega)] at hfill
      cases hfill
    obtain ⟨entry', hfill', _, hattr, _, hsize⟩ := fill_dir_ent_short hname hshort dirEnt date time
      hcluster
    obtain rfl := Option.some.inj (hfill.symm.trans hfill')
    have hzero := hround.size
    rw [hsize] at hzero
    refine ⟨hshort, UInt8.toNat_inj.mp ?_, UInt8.toNat_inj.mp ?_, fun hdir => ?_⟩
    · show (dirEnt 30).toNat = 0
      omega
    · show (dirEnt 31).toNat = 0
      omega
    · have htype := hround.type.mpr hdir
      unfold contentTypeOf at htype
      rw [hattr] at htype
      exact absurd htype (by decide)
  · intro hall
    obtain ⟨hshort, h30, h31, hfile⟩ := hall
    obtain ⟨entry, hfill, htext, hattr, hword, hsize⟩ := fill_dir_ent_short hname hshort dirEnt date
      time hcluster
    refine ⟨entry, hfill, strncmp_eq_zero _ _ _ fun j hj => ?_, hword, ?_, ?_⟩
    · rw [Nat.zero_add]
      exact htext j (by omega)
    · rw [hsize, h30, h31]
      rfl
    · unfold contentTypeOf
      rw [hattr]
      exact ⟨fun h => absurd h (by decide), fun h => absurd h hfile⟩

/-- The component A, over a buffer that is zero, for a file. -/
theorem entry_round_trip_iff_name_a : ∃ entry,
    fillDirEnt nameA.cString (fun _ => 0x00) 0 0 2 = some entry ∧
      RoundTrip nameA 2 (False ∨ False) entry :=
  (entry_round_trip_iff (fun _ _ => rfl) (fun _ => 0x00) 0 0 (by decide) False False).mpr
    ⟨by decide, rfl, rfl, by simp⟩

/-- The name of a text file. -/
def nameReadme : Name83 :=
  ⟨[0x52, 0x45, 0x41, 0x44, 0x4d, 0x45], [0x54, 0x58, 0x54], by simp, by simp, by simp⟩

/-- For README.TXT nothing is made; for A as a directory a file is made; and over a buffer with ones
the file has a size. -/
theorem entries_not_round_trip :
    fillDirEnt nameReadme.cString (fun _ => 0x00) 0 0 2 = none ∧
    ¬ (∃ entry, fillDirEnt nameA.cString (fun _ => 0x00) 0 0 2 = some entry ∧
      RoundTrip nameA 2 (True ∨ False) entry) ∧
    ¬ ∃ entry, fillDirEnt nameA.cString (fun _ => 0x01) 0 0 2 = some entry ∧
      RoundTrip nameA 2 (False ∨ False) entry := by
  have hfile : (fillDirEnt nameA.cString (fun _ => 0x00) 0 0 2).map contentTypeOf = some .file := by
    decide +kernel
  have hsize : (fillDirEnt nameA.cString (fun _ => 0x01) 0 0 2).map (ByteMem.word32 · 28) =
      some 0x01010000 := by decide +kernel
  refine ⟨by decide +kernel, ?_, ?_⟩
  · intro h
    obtain ⟨entry, hfill, hround⟩ := h
    rw [hfill, Option.map_some] at hfile
    exact absurd ((Option.some.inj hfile).symm.trans (hround.type.mpr (Or.inl trivial))) (by decide)
  · intro h
    obtain ⟨entry, hfill, hround⟩ := h
    rw [hfill, Option.map_some] at hsize
    exact absurd ((Option.some.inj hsize).symm.trans hround.size) (by decide)

end Genesis32
