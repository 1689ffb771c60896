import Genesis32.Library.Transition
import Mathlib.Logic.Function.Basic

/-!
# The console

`print`, `scroll1` and `clear_screen` of `kernel.c`, with the video memory as a map from cell
indexes to cells and every store to it on record. `console_bounds_iff` says which printed
characters keep the cursor on the screen, and with it every store: all but a tab in one of the last
five columns.
-/

namespace Genesis32

/-- The characters of a string constant. -/
def chars (str : String) : List UInt8 := str.toList.map fun ch => UInt8.ofNat ch.toNat

/-- The video memory, the cursor, and the cell indexes that have been stored to, the last one
first. -/
structure Console where
  vedio : Nat → UInt16
  cursorX : Nat
  cursorY : Nat
  stores : List Nat

namespace Console

/-- `vedio[index]=value`. -/
def store (c : Console) (index : Nat) (value : UInt16) : Console :=
  { c with vedio := Function.update c.vedio index value, stores := index :: c.stores }

/-- `simp_text_hex_gen`, with `char` signed. -/
def simpTextHexGen (letter color : UInt8) : UInt16 :=
  color.toUInt16 <<< 8 ||| letter.toInt8.toInt16.toUInt16

/-- The inner `for` of `scroll1`, with `r` columns left. -/
def scrollRow (i : Nat) : Nat → Nat → Console → Console
  | 0, _, c => c
  | r + 1, j, c => scrollRow i r (j + 1) (c.store (i * 80 + j) (c.vedio ((i + 1) * 80 + j)))

/-- The outer `for` of `scroll1`, with `r` rows left. -/
def scrollRows : Nat → Nat → Console → Console
  | 0, _, c => c
  | r + 1, i, c => scrollRows r (i + 1) (scrollRow i 79 0 c)

/-- The last `for` of `scroll1`, with `r` cells left. -/
def clearRow : Nat → Nat → Console → Console
  | 0, _, c => c
  | r + 1, i, c => clearRow r (i + 1) (c.store (24 * 79 + i) 0)

/-- `scroll1`. -/
def scroll1 (c : Console) : Console := clearRow 79 0 (scrollRows 24 0 c)

/-- The `for` of `clear_screen`, with `r` cells left. -/
def clearCells : Nat → Nat → Console → Console
  | 0, _, c => c
  | r + 1, i, c => clearCells r (i + 1) (c.store i 0x0020)

/-- `clear_screen`. -/
def clearScreen (c : Console) : Console :=
  { clearCells (25 * 80) 0 c with cursorX := 0, cursorY := 0 }

/-- The step to the next row, which both the newline and the end of a row make. -/
def nextRow (c : Console) : Console :=
  if c.cursorY < 24 then { c with cursorX := 0, cursorY := c.cursorY + 1 }
  else { scroll1 c with cursorX := 0 }

/-- The `switch` of `print`. -/
def printChar (c : Console) (ch : UInt8) : Console :=
  if ch = 10 then c.nextRow
  else if ch = 9 then { c with cursorX := (c.cursorX + 5) % 65536 }
  else
    let c := c.store (c.cursorY * 80 + c.cursorX) (simpTextHexGen ch 15)
    let c := { c with cursorX := (c.cursorX + 1) % 65536 }
    if c.cursorX > 79 then c.nextRow else c

/-- `print`. -/
def print (c : Console) : List UInt8 → Console
  | [] => c
  | ch :: str => if ch = 0 then c else print (c.printChar ch) str

/-! ## The characters of a run -/

/-- What each character of a string does. -/
def printTrail (c : Console) : List UInt8 → List (Transition Console UInt8)
  | [] => []
  | ch :: str =>
      if ch = 0 then [] else ⟨c, ch, c.printChar ch⟩ :: printTrail (c.printChar ch) str

/-- What each character of the strings of a sequence of calls does. -/
def printsTrail (c : Console) : List (List UInt8) → List (Transition Console UInt8)
  | [] => []
  | str :: strs => c.printTrail str ++ printsTrail (c.print str) strs

/-- The cursor is on the screen, and no store has gone outside the video memory. -/
structure InBounds (c : Console) : Prop where
  x : c.cursorX < 80
  y : c.cursorY < 25
  stores : ∀ i ∈ c.stores, i < 80 * 25

/-- The character is no tab in one of the last five columns. -/
def TabFits (t : Transition Console UInt8) : Prop := t.event = 9 → t.before.cursorX < 75

/-! ## The stores -/

variable {c : Console}

theorem store_in_bounds (h : ∀ i ∈ c.stores, i < 80 * 25) {index : Nat} (hindex : index < 80 * 25)
    (value : UInt16) : ∀ i ∈ (c.store index value).stores, i < 80 * 25 := by
  intro i hi
  rcases List.mem_cons.mp hi with rfl | hi
  · exact hindex
  · exact h i hi

theorem scroll_row_in_bounds {i : Nat} (hi : i < 24) :
    ∀ (r j : Nat) (c : Console), j + r ≤ 79 → (∀ x ∈ c.stores, x < 80 * 25) →
      (∀ x ∈ (scrollRow i r j c).stores, x < 80 * 25) ∧
        (scrollRow i r j c).cursorY = c.cursorY := by
  intro r
  induction r with
  | zero => exact fun j c _ h => ⟨h, rfl⟩
  | succ r ih =>
      intro j c hj h
      exact ih (j + 1) _ (by omega) (store_in_bounds h (by omega) _)

theorem scroll_rows_in_bounds :
    ∀ (r i : Nat) (c : Console), i + r ≤ 24 → (∀ x ∈ c.stores, x < 80 * 25) →
      (∀ x ∈ (scrollRows r i c).stores, x < 80 * 25) ∧
        (scrollRows r i c).cursorY = c.cursorY := by
  intro r
  induction r with
  | zero => exact fun i c _ h => ⟨h, rfl⟩
  | succ r ih =>
      intro i c hi h
      obtain ⟨hrow, hy⟩ := scroll_row_in_bounds (show i < 24 by omega) 79 0 c (by omega) h
      obtain ⟨hrows, hy'⟩ := ih (i + 1) (scrollRow i 79 0 c) (by omega) hrow
      exact ⟨hrows, hy'.trans hy⟩

theorem clear_row_in_bounds :
    ∀ (r i : Nat) (c : Console), i + r ≤ 79 → (∀ x ∈ c.stores, x < 80 * 25) →
      (∀ x ∈ (clearRow r i c).stores, x < 80 * 25) ∧ (clearRow r i c).cursorY = c.cursorY := by
  intro r
  induction r with
  | zero => exact fun i c _ h => ⟨h, rfl⟩
  | succ r ih =>
      intro i c hi h
      exact ih (i + 1) _ (by omega) (store_in_bounds h (by omega) _)

/-- Scrolling stays in the video memory and moves no row of the cursor. -/
theorem scroll1_in_bounds (h : ∀ x ∈ c.stores, x < 80 * 25) :
    (∀ x ∈ (scroll1 c).stores, x < 80 * 25) ∧ (scroll1 c).cursorY = c.cursorY := by
  obtain ⟨hrows, hy⟩ := scroll_rows_in_bounds 24 0 c (by omega) h
  obtain ⟨hclear, hy'⟩ := clear_row_in_bounds 79 0 (scrollRows 24 0 c) (by omega) hrows
  exact ⟨hclear, hy'.trans hy⟩

theorem clear_cells_in_bounds :
    ∀ (r i : Nat) (c : Console), i + r ≤ 80 * 25 → (∀ x ∈ c.stores, x < 80 * 25) →
      ∀ x ∈ (clearCells r i c).stores, x < 80 * 25 := by
  intro r
  induction r with
  | zero => exact fun i c _ h => h
  | succ r ih =>
      intro i c hi h
      exact ih (i + 1) _ (by omega) (store_in_bounds h (by omega) _)

/-- A cleared screen is in bounds. -/
theorem clear_screen_in_bounds (h : c.stores = []) : (clearScreen c).InBounds := by
  have hcells := clear_cells_in_bounds (25 * 80) 0 c (by omega) (by simp [h])
  unfold clearScreen
  generalize clearCells (25 * 80) 0 c = cleared at hcells ⊢
  exact ⟨Nat.succ_pos 79, Nat.succ_pos 24, hcells⟩

/-! ## The cursor -/

theorem next_row_in_bounds (hy : c.cursorY < 25) (h : ∀ x ∈ c.stores, x < 80 * 25) :
    c.nextRow.InBounds := by
  unfold nextRow
  split_ifs with hlast
  · exact ⟨Nat.succ_pos 79, Nat.succ_lt_succ hlast, h⟩
  · obtain ⟨hstores, hrow⟩ := scroll1_in_bounds h
    generalize scroll1 c = scrolled at hstores hrow ⊢
    exact ⟨Nat.succ_pos 79, hrow ▸ hy, hstores⟩

/-- In bounds, a character stays there exactly when it is no tab near the end of a row. -/
theorem print_char_in_bounds (h : c.InBounds) (ch : UInt8) :
    (c.printChar ch).InBounds ↔ TabFits ⟨c, ch, c.printChar ch⟩ := by
  have hx := h.x
  have hy := h.y
  unfold printChar TabFits
  by_cases hnewline : ch = 10
  · rw [if_pos hnewline, hnewline]
    exact ⟨fun _ htab => absurd htab (show (10 : UInt8) ≠ 9 by decide),
      fun _ => next_row_in_bounds h.y h.stores⟩
  rw [if_neg hnewline]
  by_cases htab : ch = 9
  · rw [if_pos htab]
    have hmod : (c.cursorX + 5) % 65536 = c.cursorX + 5 := Nat.mod_eq_of_lt (by omega)
    constructor
    · intro hin _
      have hlt : (c.cursorX + 5) % 65536 < 80 := hin.x
      show c.cursorX < 75
      omega
    · intro hfits
      have hlt : c.cursorX < 75 := hfits htab
      exact ⟨show (c.cursorX + 5) % 65536 < 80 by omega, h.y, h.stores⟩
  · rw [if_neg htab]
    refine ⟨fun _ heq => absurd heq htab, fun _ => ?_⟩
    have hstores := store_in_bounds h.stores (show c.cursorY * 80 + c.cursorX < 80 * 25 by omega)
      (simpTextHexGen ch 15)
    simp only
    split_ifs with hend
    · exact next_row_in_bounds h.y hstores
    · exact ⟨Nat.lt_succ_of_le (Nat.not_lt.mp hend), h.y, hstores⟩

/-- The characters of a string stay in bounds exactly when every tab of it fits, and then so does
the string. -/
theorem print_in_bounds (str : List UInt8) : ∀ c : Console, c.InBounds →
    ((∀ t ∈ c.printTrail str, t.after.InBounds) ↔ ∀ t ∈ c.printTrail str, TabFits t) ∧
      ((∀ t ∈ c.printTrail str, t.after.InBounds) → (c.print str).InBounds) := by
  induction str with
  | nil => exact fun c h => ⟨by simp [printTrail], fun _ => h⟩
  | cons ch str ih =>
      intro c h
      rw [printTrail, print]
      by_cases hend : ch = 0
      · simp only [if_pos hend]
        exact ⟨by simp, fun _ => h⟩
      · simp only [if_neg hend, List.forall_mem_cons]
        have hchar := print_char_in_bounds h ch
        constructor
        · constructor
          · intro hall
            obtain ⟨hin, hrest⟩ := hall
            exact ⟨hchar.mp hin, (ih _ hin).1.mp hrest⟩
          · intro hall
            obtain ⟨hfits, hrest⟩ := hall
            have hin := hchar.mpr hfits
            exact ⟨hin, (ih _ hin).1.mpr hrest⟩
        · intro hall
          obtain ⟨hin, hrest⟩ := hall
          exact (ih _ hin).2 hrest

/-- A string without tabs stays in bounds. -/
theorem print_in_bounds_of_no_tab {str : List UInt8} (hstr : ∀ ch ∈ str, ch ≠ 9) :
    ∀ c : Console, c.InBounds → (c.print str).InBounds := by
  induction str with
  | nil => exact fun c h => h
  | cons ch str ih =>
      intro c h
      have hchar := (print_char_in_bounds h ch).mpr fun htab =>
        absurd htab (hstr ch List.mem_cons_self)
      rw [print]
      split_ifs
      · exact h
      · exact ih (fun ch' hch => hstr ch' (List.mem_cons_of_mem ch hch)) _ hchar

/-- So do the characters of a sequence of strings. -/
theorem prints_in_bounds (strs : List (List UInt8)) : ∀ c : Console, c.InBounds →
    ((∀ t ∈ c.printsTrail strs, t.after.InBounds) ↔ ∀ t ∈ c.printsTrail strs, TabFits t) := by
  induction strs with
  | nil => exact fun c _ => by simp [printsTrail]
  | cons str strs ih =>
      intro c h
      obtain ⟨hstr, hlast⟩ := print_in_bounds str c h
      simp only [printsTrail, List.forall_mem_append]
      constructor
      · intro hall
        obtain ⟨hin, hrest⟩ := hall
        exact ⟨hstr.mp hin, (ih _ (hlast hin)).mp hrest⟩
      · intro hall
        obtain ⟨hfits, hrest⟩ := hall
        have hin := hstr.mpr hfits
        exact ⟨hin, (ih _ (hlast hin)).mpr hrest⟩

/-- From `clear_screen` on, every character of every sequence of strings leaves the cursor on the
screen and every store in the video memory exactly when each tab is printed before column 75. -/
theorem console_bounds_iff (c : Console) (strs : List (List UInt8)) :
    (∀ t ∈ (clearScreen { c with stores := [] }).printsTrail strs, t.after.InBounds) ↔
      ∀ t ∈ (clearScreen { c with stores := [] }).printsTrail strs,
        t.event = 9 → t.before.cursorX < 75 :=
  prints_in_bounds strs _ (clear_screen_in_bounds rfl)

/-- Sixteen tabs leave the cursor behind the end of its row; in the last row the character after
them is stored behind the end of the video memory. -/
theorem tabs_leave_screen :
    ¬ (∀ t ∈ (clearScreen ⟨fun _ => 0, 0, 0, []⟩).printsTrail [List.replicate 16 9],
      t.after.InBounds) ∧
    80 * 25 ∈ ((clearScreen ⟨fun _ => 0, 0, 0, []⟩).print
      (List.replicate 24 10 ++ List.replicate 16 9 ++ [65])).stores := by
  refine ⟨fun h => ?_, by decide +kernel⟩
  have hlast : ∃ t ∈ (clearScreen ⟨fun _ => 0, 0, 0, []⟩).printsTrail [List.replicate 16 9],
      ¬ t.after.cursorX < 80 := by decide +kernel
  obtain ⟨t, ht, hx⟩ := hlast
  exact hx (h t ht).x

end Console

end Genesis32
