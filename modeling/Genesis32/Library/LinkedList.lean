import Mathlib.Data.List.Basic

/-!
# Linked lists

`DoublyLinked null links l` says that the cells of `l`, with two pointers each, are linked in this
order in both directions, with `null` before the first and after the last. The lemmas say what
appending a cell and unlinking one do to the list, for a store in which these change only the
pointers that they must. `SinglyLinked null next p l` says the same of cells with one pointer each,
from the pointer `p` to the first on.
-/

/-- `links p` is the next pointer and the previous pointer of the cell at `p`, or `none` where there
is no cell. -/
structure DoublyLinked {α : Type*} (null : α) (links : α → Option (α × α)) (l : List α) :
    Prop where
  linked : ∀ xs b ys, l = xs ++ b :: ys → links b = some (ys.headD null, xs.getLastD null)
  nodup : l.Nodup
  ne_null : null ∉ l

namespace DoublyLinked

variable {α : Type*} {null : α} {links links' : α → Option (α × α)} {l : List α}

theorem nil : DoublyLinked null links [] :=
  ⟨fun xs b ys h => by simp at h, List.nodup_nil, List.not_mem_nil⟩

/-- Every cell of the list exists. -/
theorem exists_links (h : DoublyLinked null links l) {b : α} (hb : b ∈ l) :
    ∃ p, links b = some p := by
  obtain ⟨xs, ys, rfl⟩ := List.append_of_mem hb
  exact ⟨_, h.linked xs b ys rfl⟩

theorem congr (h : DoublyLinked null links l) (hsame : ∀ b ∈ l, links' b = links b) :
    DoublyLinked null links' l :=
  ⟨fun xs b ys heq => by
    rw [hsame b (by rw [heq]; exact List.mem_append_right _ List.mem_cons_self),
      h.linked xs b ys heq], h.nodup, h.ne_null⟩

theorem headD_append (xs ys : List α) (hxs : xs ≠ []) :
    (xs ++ ys).headD null = xs.headD null := by
  cases xs with
  | nil => exact absurd rfl hxs
  | cons a xs => rfl

theorem getLastD_append (xs ys : List α) (hys : ys ≠ []) :
    (xs ++ ys).getLastD null = ys.getLastD null := by
  rcases List.eq_nil_or_concat' ys with rfl | ⟨zs, c, rfl⟩
  · exact absurd rfl hys
  · rw [← List.append_assoc, List.getLastD_concat, List.getLastD_concat]

theorem headD_mem {xs : List α} (hxs : xs ≠ []) : xs.headD null ∈ xs := by
  cases xs with
  | nil => exact absurd rfl hxs
  | cons a xs => exact List.mem_cons_self

theorem getLastD_mem {xs : List α} (hxs : xs ≠ []) : xs.getLastD null ∈ xs := by
  rcases List.eq_nil_or_concat' xs with rfl | ⟨zs, c, rfl⟩
  · exact absurd rfl hxs
  · rw [List.getLastD_concat]
    exact List.mem_append_right _ (List.mem_singleton.mpr rfl)

/-- A cell is the last of the list exactly when none comes after it. -/
theorem eq_getLastD_iff (h : DoublyLinked null links l) {xs ys : List α} {b : α}
    (heq : l = xs ++ b :: ys) : b = l.getLastD null ↔ ys = [] := by
  have hnodup := h.nodup
  rw [heq] at hnodup ⊢
  constructor
  · intro hlast
    by_contra hys
    rw [show xs ++ b :: ys = (xs ++ [b]) ++ ys by simp, getLastD_append _ _ hys] at hlast
    have hmem : ys.getLastD null ∈ ys := getLastD_mem hys
    rw [← hlast] at hmem
    exact (List.nodup_cons.mp (List.nodup_append.mp hnodup).2.1).1 hmem
  · rintro rfl
    rw [List.getLastD_concat]

/-- A cell that is linked behind the last one extends the list. -/
theorem append (h : DoublyLinked null links l) {p : α} (hp : p ∉ l) (hnull : p ≠ null)
    [DecidableEq α] (hnew : links' p = some (null, l.getLastD null))
    (hold : ∀ b ∈ l, links' b =
      (links b).map fun x => (if b = l.getLastD null then p else x.1, x.2)) :
    DoublyLinked null links' (l ++ [p]) := by
  refine ⟨fun xs b ys heq => ?_, ?_, ?_⟩
  · rcases List.eq_nil_or_concat' ys with rfl | ⟨zs, c, rfl⟩
    · obtain ⟨hl, hb⟩ := List.append_inj' heq rfl
      obtain rfl := (List.cons.inj hb).1
      rw [hnew, hl]
      rfl
    · rw [show xs ++ b :: (zs ++ [c]) = (xs ++ b :: zs) ++ [c] by simp] at heq
      obtain ⟨hl, hc⟩ := List.append_inj' heq rfl
      obtain rfl := (List.cons.inj hc).1
      rw [hold b (by rw [hl]; exact List.mem_append_right _ List.mem_cons_self),
        h.linked xs b zs hl]
      simp only [Option.map_some]
      cases zs with
      | nil => rw [if_pos ((h.eq_getLastD_iff hl).mpr rfl)]; rfl
      | cons z zs =>
          rw [if_neg fun hlast => by cases (h.eq_getLastD_iff hl).mp hlast]
          rfl
  · have hsingle : [p].Nodup := List.nodup_cons.mpr ⟨List.not_mem_nil, List.nodup_nil⟩
    refine List.nodup_append.mpr ⟨h.nodup, hsingle, fun a ha b hb => ?_⟩
    rw [List.mem_singleton.mp hb]
    exact fun hab => hp (hab ▸ ha)
  · intro hmem
    rcases List.mem_append.mp hmem with hmem | hmem
    · exact h.ne_null hmem
    · exact hnull (List.mem_singleton.mp hmem).symm

/-- Linking the neighbours of a cell to each other takes it out of the list. -/
theorem unlink {xs ys : List α} {b : α} (h : DoublyLinked null links (xs ++ b :: ys))
    [DecidableEq α]
    (hrest : ∀ c ∈ xs ++ ys, links' c = (links c).map fun x =>
      (if c = xs.getLastD null then ys.headD null else x.1,
        if c = ys.headD null then xs.getLastD null else x.2)) :
    DoublyLinked null links' (xs ++ ys) := by
  have hnodup := List.nodup_append.mp h.nodup
  have hapart : ∀ c ∈ xs, c ∉ ys := fun c hx hy =>
    hnodup.2.2 c hx c (List.mem_cons_of_mem _ hy) rfl
  -- `null` is in neither part, so a cell is not the missing neighbour at an end
  have hnull : ∀ c ∈ xs ++ ys, c ≠ null := fun c hc heq => by
    refine h.ne_null (heq ▸ ?_)
    rcases List.mem_append.mp hc with hc | hc
    · exact List.mem_append_left _ hc
    · exact List.mem_append_right _ (List.mem_cons_of_mem _ hc)
  refine ⟨fun us c vs heq => ?_, ?_, fun hmem => hnull null hmem rfl⟩
  · have hc : c ∈ xs ++ ys := by
      rw [heq]
      exact List.mem_append_right _ List.mem_cons_self
    rw [hrest c hc]
    rcases List.append_eq_append_iff.mp heq with ⟨ws, hus, hys⟩ | ⟨ws, hxs, hvs⟩
    · -- the cell comes after the one that is taken out
      have hmem : c ∈ ys := by
        rw [hys]
        exact List.mem_append_right _ List.mem_cons_self
      have hnext : c ≠ xs.getLastD null := by
        rcases eq_or_ne xs [] with rfl | hne
        · exact hnull c hc
        · exact fun hlast => hapart _ (getLastD_mem hne) (hlast ▸ hmem)
      rw [h.linked (xs ++ b :: ws) c vs (by rw [hys]; simp)]
      simp only [Option.map_some, if_neg hnext]
      rw [hus]
      -- only the first cell behind it gets a new predecessor
      cases ws with
      | nil =>
          have hfirst : c = ys.headD null := by
            rw [hys]
            rfl
          rw [if_pos hfirst, List.append_nil]
      | cons w ws =>
          have hprev : c ≠ ys.headD null := by
            rw [hys]
            intro hfirst
            have hnodup' := (List.nodup_cons.mp hnodup.2.1).2
            rw [hys] at hnodup'
            exact (List.nodup_append.mp hnodup').2.2 _ List.mem_cons_self c List.mem_cons_self
              hfirst.symm
          rw [if_neg hprev, show xs ++ b :: w :: ws = (xs ++ [b]) ++ (w :: ws) by simp,
            getLastD_append _ _ (List.cons_ne_nil w ws),
            getLastD_append _ _ (List.cons_ne_nil w ws)]
    · -- the cell comes before the one that is taken out, or `ws` is empty and it starts `ys`
      cases ws with
      | nil =>
          rw [List.append_nil] at hxs
          rw [List.nil_append] at hvs
          have hmem : c ∈ ys := by
            rw [← hvs]
            exact List.mem_cons_self
          have hnext : c ≠ xs.getLastD null := by
            rcases eq_or_ne xs [] with rfl | hne
            · exact hnull c hc
            · exact fun hlast => hapart _ (getLastD_mem hne) (hlast ▸ hmem)
          rw [h.linked (xs ++ [b]) c vs (by rw [← hvs]; simp)]
          simp only [Option.map_some, if_neg hnext]
          have hfirst : c = ys.headD null := by
            rw [← hvs]
            rfl
          rw [if_pos hfirst, hxs]
      | cons w ws =>
          obtain ⟨hcw, hrest'⟩ := List.cons.inj hvs
          subst hcw
          have hmem : c ∈ xs := by
            rw [hxs]
            exact List.mem_append_right _ List.mem_cons_self
          have hprev : c ≠ ys.headD null := by
            rcases eq_or_ne ys [] with rfl | hne
            · exact hnull c hc
            · exact fun hfirst => hapart c hmem (hfirst ▸ headD_mem hne)
          rw [h.linked us c (ws ++ b :: ys) (by rw [hxs]; simp)]
          simp only [Option.map_some, if_neg hprev]
          rw [show vs = ws ++ ys from hrest']
          -- only the last cell in front of it gets a new successor
          cases ws with
          | nil =>
              rw [hxs, List.getLastD_concat, if_pos rfl]
              rfl
          | cons v ws =>
              have hnext : c ≠ xs.getLastD null := by
                rw [hxs]
                intro hlast
                rw [show us ++ c :: v :: ws = (us ++ [c]) ++ (v :: ws) by simp,
                  getLastD_append _ _ (List.cons_ne_nil v ws)] at hlast
                have hnodup' := hnodup.1
                rw [hxs] at hnodup'
                exact (List.nodup_cons.mp (List.nodup_append.mp hnodup').2.1).1
                  (hlast ▸ getLastD_mem (List.cons_ne_nil v ws))
              rw [if_neg hnext]
              rfl
  · refine List.nodup_append.mpr ⟨hnodup.1, (List.nodup_cons.mp hnodup.2.1).2, ?_⟩
    intro a ha c hc hac
    exact hapart a ha (hac ▸ hc)

end DoublyLinked

/-! ## Singly linked lists -/

/-- The cells of a list, from the pointer to the first to the `null` behind the last. -/
def SinglyLinked {α : Type*} (null : α) (next : α → α) : α → List α → Prop
  | p, [] => p = null
  | p, a :: l => p = a ∧ a ≠ null ∧ SinglyLinked null next (next a) l

namespace SinglyLinked

variable {α : Type*} {null : α} {next next' : α → α}

theorem congr : ∀ {l : List α} {p : α}, SinglyLinked null next p l → (∀ a ∈ l, next' a = next a) →
    SinglyLinked null next' p l
  | [], _, h, _ => h
  | a :: _, _, ⟨hp, hnull, h⟩, hsame =>
      ⟨hp, hnull, (hsame a List.mem_cons_self).symm ▸
        congr h fun b hb => hsame b (List.mem_cons_of_mem _ hb)⟩

/-- The first pointer is `null` exactly for the empty list. -/
theorem eq_null_iff {l : List α} {p : α} (h : SinglyLinked null next p l) : p = null ↔ l = [] := by
  cases l with
  | nil => exact ⟨fun _ => rfl, fun _ => h⟩
  | cons a l =>
      obtain ⟨rfl, hnull, _⟩ := h
      exact ⟨fun hp => absurd hp hnull, fun hl => by cases hl⟩

/-- A cell behind which nothing comes extends the list, if the last cell is made to point to it. -/
theorem append [DecidableEq α] {c : α} (hc : c ≠ null) (hend : next' c = null) :
    ∀ {l : List α} {p : α}, SinglyLinked null next p l → l.Nodup →
      (∀ a ∈ l, next' a = if a = l.getLastD null then c else next a) →
      SinglyLinked null next' (if p = null then c else p) (l ++ [c])
  | [], p, h, _, _ => by
      rw [if_pos (show p = null from h)]
      exact ⟨rfl, hc, hend⟩
  | [a], p, ⟨hp, hnull, _⟩, _, hlast => by
      have hnext : next' a = c := by
        rw [hlast a List.mem_cons_self]
        exact if_pos rfl
      rw [if_neg (hp ▸ hnull)]
      exact ⟨hp, hnull, hnext, hc, hend⟩
  | a :: b :: l, p, ⟨hp, hnull, h⟩, hnodup, hlast => by
      have hne : a ≠ (b :: l).getLastD null := by
        intro heq
        have hmem : (b :: l).getLastD null ∈ b :: l :=
          DoublyLinked.getLastD_mem (List.cons_ne_nil b l)
        exact (List.nodup_cons.mp hnodup).1 (heq ▸ hmem)
      have hnext : next' a = next a := by
        rw [hlast a List.mem_cons_self, List.getLastD_cons]
        exact if_neg hne
      have hrest := append hc hend h (List.nodup_cons.mp hnodup).2 fun x hx => by
        rw [hlast x (List.mem_cons_of_mem _ hx), List.getLastD_cons, List.getLastD_cons,
          List.getLastD_cons]
      rw [if_neg (hp ▸ hnull)]
      refine ⟨hp, hnull, ?_⟩
      rw [hnext]
      obtain ⟨hfirst, hb, _⟩ := h
      rwa [if_neg (hfirst ▸ hb)] at hrest

end SinglyLinked
