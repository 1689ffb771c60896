import Genesis32.FileSyst.MountTable

/-!
# The lists of the mount table and the cache table

`TableLists s ms cs` says that the entries `ms` and `cs` are the two tables: linked in both
directions, with the start and the last pointer of each. Under it the walks of `mount_fat16` and
`umount_fat16` end, and appending and unlinking an entry do what they do to the list, but for the
entry at an end of the list: unlinking that one writes through NULL.
-/

namespace Genesis32

open Word

variable {ε : Type} {s : VfsState} {ms cs : List Ptr}

/-- `ms` is the mount table and `cs` is the cache table. -/
structure TableLists (s : VfsState) (ms cs : List Ptr) : Prop where
  mountList : DoublyLinked 0 (s.links mountKind) ms
  mountStart : s.mountTableStart = ms.headD 0
  mountLast : s.mountTableLast = ms.getLastD 0
  cacheList : DoublyLinked 0 (s.links cacheKind) cs
  cacheStart : s.cacheTableStart = cs.headD 0
  cacheLast : s.cacheTableLast = cs.getLastD 0

/-- Every cell of a list is a live object of its type. -/
theorem exists_object {K : LinkKind ε} {l : List Ptr} (h : DoublyLinked 0 (s.links K) l) {p : Ptr}
    (hp : p ∈ l) : ∃ e, s.object p = some (K.wrap e) := by
  obtain ⟨x, hx⟩ := h.exists_links hp
  obtain ⟨e, he, _⟩ := Option.map_eq_some_iff.mp hx
  exact ⟨e, VfsState.deref_iff.mp he⟩

/-- The two pointers of a cell are its neighbours. -/
theorem neighbours {K : LinkKind ε} {xs ys : List Ptr} {p : Ptr} {e : ε}
    (h : DoublyLinked 0 (s.links K) (xs ++ p :: ys)) (he : s.object p = some (K.wrap e)) :
    K.next e = ys.headD 0 ∧ K.prev e = xs.getLastD 0 := by
  have hlinks := h.linked xs p ys rfl
  rw [VfsState.links_of_object he] at hlinks
  exact Prod.ext_iff.mp (Option.some.inj hlinks)

theorem length_lt_rounds {K : LinkKind ε} {l : List Ptr} (h : DoublyLinked 0 (s.links K) l) :
    l.length < s.rounds :=
  VfsState.length_lt_rounds h.nodup fun p hp => by
    obtain ⟨e, he⟩ := exists_object h hp
    rw [he]
    rfl

/-! ## The walks along the cache table -/

/-- The cache entry at `ct` has the hash. -/
def HasHash (s : VfsState) (hashValue : UInt64) (ct : Ptr) : Prop :=
  ∃ e, s.object ct = some (.cacheEntry e) ∧ e.pathHash = hashValue

/-- `ct` is the last entry of the cache table with the hash. -/
def IsLastWith (s : VfsState) (hashValue : UInt64) (cs : List Ptr) (ct : Ptr) : Prop :=
  ∃ us vs, cs = us ++ ct :: vs ∧ HasHash s hashValue ct ∧ ∀ c ∈ vs, ¬ HasHash s hashValue c

instance (s : VfsState) (hashValue : UInt64) (ct : Ptr) : Decidable (HasHash s hashValue ct) :=
  decidable_of_iff (∃ e ∈ s.deref cacheKind.toObjectKind ct, e.pathHash = hashValue) <| by
    simp only [Option.mem_def, VfsState.deref_iff]
    rfl

theorem has_hash_iff {hashValue : UInt64} {ct : Ptr} {e : CacheTableEntry}
    (he : s.object ct = some (.cacheEntry e)) :
    HasHash s hashValue ct ↔ e.pathHash = hashValue := by
  constructor
  · intro h
    obtain ⟨e', he', hhash⟩ := h
    rw [he] at he'
    cases he'
    exact hhash
  · exact fun hhash => ⟨e, he, hhash⟩

theorem IsLastWith.mem {hashValue : UInt64} {ct : Ptr} (h : IsLastWith s hashValue cs ct) :
    ct ∈ cs := by
  obtain ⟨us, vs, rfl, _⟩ := h
  exact List.mem_append_right _ List.mem_cons_self

/-- Only one entry is the last with a hash. -/
theorem IsLastWith.unique {hashValue : UInt64} {c c' : Ptr} (h : IsLastWith s hashValue cs c)
    (h' : IsLastWith s hashValue cs c') : c = c' := by
  obtain ⟨us, vs, rfl, hhash, hafter⟩ := h
  obtain ⟨us', vs', heq, hhash', hafter'⟩ := h'
  rcases List.append_eq_append_iff.mp heq with ⟨ws, hus, hvs⟩ | ⟨ws, hus, hvs⟩
  · cases ws with
    | nil => exact (List.cons.inj hvs).1
    | cons w ws =>
        rw [(List.cons.inj hvs).2] at hafter
        exact absurd hhash' (hafter c' (List.mem_append_right _ List.mem_cons_self))
  · cases ws with
    | nil => exact (List.cons.inj hvs).1.symm
    | cons w ws =>
        rw [(List.cons.inj hvs).2] at hafter'
        exact absurd hhash (hafter' c (List.mem_append_right _ List.mem_cons_self))

/-- The walk of `mount_fat16` finds whether some entry has the hash. -/
theorem hash_taken_suffix (h : DoublyLinked 0 (s.links cacheKind) cs) (hashValue : UInt64) :
    ∀ (ys xs : List Ptr) (k : Nat), cs = xs ++ ys → ys.length < k →
      ∃ b, s.hashTaken hashValue k (ys.headD 0) = some b ∧
        (b = true ↔ ∃ ct ∈ ys, HasHash s hashValue ct) := by
  intro ys
  induction ys with
  | nil =>
      intro xs k _ hk
      cases k with
      | zero => exact absurd hk (Nat.lt_irrefl 0)
      | succ k => exact ⟨false, rfl, by simp⟩
  | cons p ys ih =>
      intro xs k hcs hk
      cases k with
      | zero => exact absurd hk (Nat.not_lt_zero _)
      | succ k =>
          obtain ⟨e, he⟩ := exists_object h (p := p) (by rw [hcs]; simp)
          have hnext : e.next = ys.headD 0 := (neighbours (hcs ▸ h) he).1
          rw [List.headD_cons, VfsState.hashTaken, if_neg (VfsState.ne_zero_of_object he),
            VfsState.deref_iff.mpr he]
          simp only [Option.bind_eq_bind, Option.bind_some]
          by_cases hhash : e.pathHash = hashValue
          · rw [if_pos hhash]
            exact ⟨true, rfl, fun _ => ⟨p, List.mem_cons_self, (has_hash_iff he).mpr hhash⟩,
              fun _ => rfl⟩
          · rw [if_neg hhash, hnext]
            obtain ⟨b, hb, hiff⟩ := ih (xs ++ [p]) k (by rw [hcs]; simp) (Nat.lt_of_succ_lt_succ hk)
            refine ⟨b, hb, hiff.trans
              ⟨fun ⟨ct, hct, hh⟩ => ⟨ct, List.mem_cons_of_mem _ hct, hh⟩, ?_⟩⟩
            intro hall
            obtain ⟨ct, hct, hh⟩ := hall
            rcases List.mem_cons.mp hct with rfl | hct
            · exact absurd ((has_hash_iff he).mp hh) hhash
            · exact ⟨ct, hct, hh⟩

theorem hash_taken_iff (h : TableLists s ms cs) (hashValue : UInt64) :
    ∃ b, s.hashTaken hashValue s.rounds s.cacheTableStart = some b ∧
      (b = true ↔ ∃ ct ∈ cs, HasHash s hashValue ct) := by
  rw [h.cacheStart]
  exact hash_taken_suffix h.cacheList hashValue cs [] s.rounds rfl (length_lt_rounds h.cacheList)

/-- The walk of `umount_fat16` ends with the last entry with the hash, or with the entry it came
with when no entry has it. -/
theorem last_with_hash_suffix (h : DoublyLinked 0 (s.links cacheKind) cs) (hashValue : UInt64) :
    ∀ (ys xs : List Ptr) (k : Nat) (temp : Ptr), cs = xs ++ ys → ys.length < k →
      ∃ ct, s.lastWithHash hashValue k (ys.headD 0) temp = some ct ∧
        ((ct = temp ∧ ∀ c ∈ ys, ¬ HasHash s hashValue c) ∨ IsLastWith s hashValue ys ct) := by
  intro ys
  induction ys with
  | nil =>
      intro xs k temp _ hk
      cases k with
      | zero => exact absurd hk (Nat.lt_irrefl 0)
      | succ k => exact ⟨temp, rfl, Or.inl ⟨rfl, by simp⟩⟩
  | cons p ys ih =>
      intro xs k temp hcs hk
      cases k with
      | zero => exact absurd hk (Nat.not_lt_zero _)
      | succ k =>
          obtain ⟨e, he⟩ := exists_object h (p := p) (by rw [hcs]; simp)
          have hnext : e.next = ys.headD 0 := (neighbours (hcs ▸ h) he).1
          rw [List.headD_cons, VfsState.lastWithHash, if_neg (VfsState.ne_zero_of_object he),
            VfsState.deref_iff.mpr he]
          simp only [Option.bind_eq_bind, Option.bind_some]
          rw [hnext]
          obtain ⟨ct, hct, hor⟩ := ih (xs ++ [p]) k (if e.pathHash = hashValue then p else temp)
            (by rw [hcs]; simp) (Nat.lt_of_succ_lt_succ hk)
          refine ⟨ct, hct, ?_⟩
          rcases hor with ⟨hkept, hnone⟩ | ⟨us, vs, hys, hhash, hafter⟩
          · by_cases hhash : e.pathHash = hashValue
            · rw [if_pos hhash] at hkept
              rw [hkept]
              exact Or.inr ⟨[], ys, rfl, (has_hash_iff he).mpr hhash, hnone⟩
            · rw [if_neg hhash] at hkept
              refine Or.inl ⟨hkept, fun c hc => ?_⟩
              rcases List.mem_cons.mp hc with rfl | hc
              · exact fun hh => hhash ((has_hash_iff he).mp hh)
              · exact hnone c hc
          · exact Or.inr ⟨p :: us, vs, by rw [hys]; rfl, hhash, hafter⟩

/-- What `umount_fat16` looks up: NULL when no entry has the hash, else the last that has it. -/
theorem last_with_hash_cases (h : TableLists s ms cs) (hashValue : UInt64) :
    (s.lastWithHash hashValue s.rounds s.cacheTableStart 0 = some 0 ∧
      ∀ c ∈ cs, ¬ HasHash s hashValue c) ∨
    ∃ ct, s.lastWithHash hashValue s.rounds s.cacheTableStart 0 = some ct ∧
      IsLastWith s hashValue cs ct := by
  rw [h.cacheStart]
  obtain ⟨ct, hct, hor⟩ := last_with_hash_suffix h.cacheList hashValue cs [] s.rounds 0 rfl
    (length_lt_rounds h.cacheList)
  rcases hor with ⟨hzero, hnone⟩ | hlast
  · exact Or.inl ⟨by rw [hct, hzero], hnone⟩
  · exact Or.inr ⟨ct, hct, hlast⟩

/-! ## Linking and unlinking -/

theorem headD_append_singleton (l : List Ptr) (p : Ptr) (hl : l ≠ []) :
    (l ++ [p]).headD 0 = l.headD 0 :=
  DoublyLinked.headD_append l [p] hl

/-- Linking an entry behind the last one. -/
theorem link_last_spec {K : LinkKind ε} {last p : Ptr} {e a : ε}
    (hlast : s.object last = some (K.wrap a)) (hp : s.object p = some (K.wrap e))
    (hne : last ≠ p) :
    linkLast K s last p =
      some ((s.put last (K.wrap (K.setNext p a))).put p (K.wrap (K.setPrev last e))) := by
  unfold linkLast
  rw [VfsState.update_of_object hlast]
  simp only [Option.bind_eq_bind, Option.bind_some]
  refine VfsState.update_of_object ?_ _
  rw [VfsState.object_put (VfsState.ne_zero_of_object hlast), if_neg hne.symm, hp]

/-- What appending an entry to a table does to the objects. -/
theorem append_entry_spec {K : LinkKind ε} {l : List Ptr} {p : Ptr} {e : ε}
    (h : DoublyLinked 0 (s.links K) l) (hp : s.object p = some (K.wrap e)) (hmem : p ∉ l) :
    ∃ heap, appendEntry K s (l.headD 0) (l.getLastD 0) p =
        some ({ s with heap := heap }, (l ++ [p]).headD 0, p) ∧
      ∀ x, ({ s with heap := heap } : VfsState).object x =
        if x = p then some (K.wrap (K.setNext 0 (K.setPrev (l.getLastD 0) e)))
        else if x = l.getLastD 0 then (s.deref K.toObjectKind x).map fun a => K.wrap (K.setNext p a)
        else s.object x := by
  have hnull := VfsState.ne_zero_of_object hp
  rcases eq_or_ne l [] with rfl | hl
  · refine ⟨((s.put p (K.wrap (K.setPrev 0 e))).put p
      (K.wrap (K.setNext 0 (K.setPrev 0 e)))).heap, ?_, fun x => ?_⟩
    · rw [appendEntry, if_pos (show ([] : List Ptr).headD 0 = 0 from rfl),
        VfsState.update_of_object hp]
      simp only [Option.bind_eq_bind, Option.bind_some]
      rw [VfsState.update_of_object (e := K.setPrev 0 e)
        (by rw [VfsState.object_put hnull, if_pos rfl])]
      rfl
    · show ((s.put p _).put p _).object x = _
      rw [VfsState.object_put hnull, VfsState.object_put hnull]
      rcases eq_or_ne x p with rfl | hx
      · rw [if_pos rfl, if_pos rfl]
        rfl
      · rw [if_neg hx, if_neg hx, if_neg hx]
        rcases eq_or_ne x 0 with rfl | hzero
        · rfl
        · rw [if_neg (show x ≠ List.getLastD [] 0 from hzero)]
  · obtain ⟨a, ha⟩ := exists_object h (DoublyLinked.getLastD_mem hl)
    have hstart : l.headD 0 ≠ 0 := fun hzero =>
      h.ne_null (hzero ▸ DoublyLinked.headD_mem hl)
    have hne : l.getLastD 0 ≠ p := fun heq => hmem (heq ▸ DoublyLinked.getLastD_mem hl)
    have hlast := VfsState.ne_zero_of_object ha
    refine ⟨(((s.put (l.getLastD 0) (K.wrap (K.setNext p a))).put p
      (K.wrap (K.setPrev (l.getLastD 0) e))).put p
      (K.wrap (K.setNext 0 (K.setPrev (l.getLastD 0) e)))).heap, ?_, fun x => ?_⟩
    · rw [appendEntry, if_neg hstart, link_last_spec ha hp hne]
      simp only [Option.bind_eq_bind, Option.bind_some]
      rw [VfsState.update_of_object (e := K.setPrev (l.getLastD 0) e)
        (by rw [VfsState.object_put hnull, if_pos rfl]), headD_append_singleton l p hl]
      rfl
    · show (((s.put _ _).put p _).put p _).object x = _
      rw [VfsState.object_put hnull, VfsState.object_put hnull, VfsState.object_put hlast]
      rcases eq_or_ne x p with rfl | hx
      · rw [if_pos rfl, if_pos rfl]
      · rw [if_neg hx, if_neg hx, if_neg hx]
        rcases eq_or_ne x (l.getLastD 0) with rfl | hx'
        · rw [if_pos rfl, if_pos rfl, VfsState.deref_iff.mpr ha]
          rfl
        · rw [if_neg hx', if_neg hx']

/-- What unlinking an entry between two others does to the objects. -/
theorem unlink_entry_spec {K : LinkKind ε} {xs ys : List Ptr} {p : Ptr}
    (h : DoublyLinked 0 (s.links K) (xs ++ p :: ys)) (hxs : xs ≠ []) (hys : ys ≠ []) :
    ∃ heap, unlinkEntry K s (xs.getLastD 0) (ys.headD 0) = some { s with heap := heap } ∧
      ∀ x, ({ s with heap := heap } : VfsState).object x =
        if x = xs.getLastD 0 then
          (s.deref K.toObjectKind x).map fun a => K.wrap (K.setNext (ys.headD 0) a)
        else if x = ys.headD 0 then
          (s.deref K.toObjectKind x).map fun a => K.wrap (K.setPrev (xs.getLastD 0) a)
        else s.object x := by
  have hprev : xs.getLastD 0 ∈ xs := DoublyLinked.getLastD_mem hxs
  have hnext : ys.headD 0 ∈ ys := DoublyLinked.headD_mem hys
  obtain ⟨a, ha⟩ := exists_object h (List.mem_append_left _ hprev)
  obtain ⟨b, hb⟩ := exists_object h (List.mem_append_right _ (List.mem_cons_of_mem _ hnext))
  have hne : xs.getLastD 0 ≠ ys.headD 0 := fun heq =>
    (List.nodup_append.mp h.nodup).2.2 _ hprev _ (List.mem_cons_of_mem _ hnext) heq
  have ha0 := VfsState.ne_zero_of_object ha
  refine ⟨((s.put (xs.getLastD 0) (K.wrap (K.setNext (ys.headD 0) a))).put (ys.headD 0)
    (K.wrap (K.setPrev (xs.getLastD 0) b))).heap, ?_, fun x => ?_⟩
  · unfold unlinkEntry
    rw [VfsState.update_of_object ha]
    simp only [Option.bind_eq_bind, Option.bind_some]
    rw [VfsState.update_of_object (e := b)
      (by rw [VfsState.object_put ha0, if_neg hne.symm, hb])]
    rfl
  · show ((s.put _ _).put _ _).object x = _
    rw [VfsState.object_put (VfsState.ne_zero_of_object hb), VfsState.object_put ha0]
    rcases eq_or_ne x (xs.getLastD 0) with rfl | hx
    · rw [if_neg hne, if_pos rfl, if_pos rfl, VfsState.deref_iff.mpr ha]
      rfl
    · rw [if_neg hx, if_neg hx]
      rcases eq_or_ne x (ys.headD 0) with rfl | hx'
      · rw [if_pos rfl, if_pos rfl, VfsState.deref_iff.mpr hb]
        rfl
      · rw [if_neg hx', if_neg hx']

/-- Unlinking an entry at an end of its list writes through NULL. -/
theorem unlink_entry_null (K : LinkKind ε) (s : VfsState) {previous next : Ptr}
    (h : previous = 0 ∨ next = 0) : unlinkEntry K s previous next = none := by
  have hnull : ∀ (s : VfsState) f, s.update K.toObjectKind 0 f = none := fun s f => rfl
  unfold unlinkEntry
  rcases h with rfl | rfl
  · rw [hnull]
    rfl
  · cases s.update K.toObjectKind previous (K.setNext 0) with
    | none => rfl
    | some s' => exact hnull s' (K.setPrev previous)

end Genesis32
