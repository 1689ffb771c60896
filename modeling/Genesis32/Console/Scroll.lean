import Mathlib.Data.List.GetD
import Genesis32.Console.Print

/-!
# Scrolling

What `scroll1` of `kernel.c` does to the screen. Its copy loop leaves the last column of every row
where it is, and its clearing loop begins at `24*79`, the last part of row 23, and ends before
column 55 of row 24: `scroll_cell`. So a row loses the end of its line when it leaves the last row,
and the last row keeps the end of the line before. `screen_cell` says what a printed text leaves on
the screen after any number of scrolls, `scroll_shows_iff` for which texts this is what the last 25
lines of it show.
-/

namespace Genesis32

namespace Console

variable {c : Console}

/-- The cell at a row and a column. -/
def cell (c : Console) (row col : Nat) : UInt16 := c.vedio (row * 80 + col)

/-- A cell shows nothing: its character is a space or NUL and its background is black. -/
def Blank (value : UInt16) : Prop := value &&& 0xf0ff = 0 ∨ value &&& 0xf0ff = 0x20

instance (value : UInt16) : Decidable (Blank value) := inferInstanceAs (Decidable (_ ∨ _))

/-- What a cell shows. -/
def shown (value : UInt16) : Option UInt16 := if Blank value then none else some value

/-! ## One scroll -/

theorem scroll_row_spec (i : Nat) : ∀ r j (c : Console), j + r ≤ 80 →
    (scrollRow i r j c).cursorX = c.cursorX ∧ (scrollRow i r j c).cursorY = c.cursorY ∧
      ∀ x, (scrollRow i r j c).vedio x =
        if i * 80 + j ≤ x ∧ x < i * 80 + j + r then c.vedio (x + 80) else c.vedio x := by
  intro r
  induction r with
  | zero =>
      intro j c _
      exact ⟨rfl, rfl, fun x => (if_neg (by omega)).symm⟩
  | succ r ih =>
      intro j c hj
      obtain ⟨hx, hy, hcells⟩ :=
        ih (j + 1) (c.store (i * 80 + j) (c.vedio ((i + 1) * 80 + j))) (by omega)
      refine ⟨hx, hy, fun x => (hcells x).trans ?_⟩
      unfold store
      simp only
      by_cases hfirst : x = i * 80 + j
      · rw [if_neg (by omega), if_pos (by omega), hfirst, Function.update_self,
          show (i + 1) * 80 + j = i * 80 + j + 80 by omega]
      · rw [Function.update_of_ne hfirst]
        by_cases hlater : i * 80 + (j + 1) ≤ x ∧ x < i * 80 + (j + 1) + r
        · -- the row below has not been stored to
          rw [if_pos hlater, if_pos (by omega), Function.update_of_ne (by omega)]
        · rw [if_neg hlater, if_neg (by omega)]

theorem scroll_rows_spec : ∀ r i (c : Console),
    (scrollRows r i c).cursorX = c.cursorX ∧ (scrollRows r i c).cursorY = c.cursorY ∧
      ∀ row col, col < 80 → (scrollRows r i c).cell row col =
        if i ≤ row ∧ row < i + r ∧ col < 79 then c.cell (row + 1) col else c.cell row col := by
  intro r
  induction r with
  | zero =>
      intro i c
      exact ⟨rfl, rfl, fun row col _ => (if_neg (by omega)).symm⟩
  | succ r ih =>
      intro i c
      obtain ⟨hx, hy, hcells⟩ := scroll_row_spec i 79 0 c (by omega)
      obtain ⟨hx', hy', hcells'⟩ := ih (i + 1) (scrollRow i 79 0 c)
      refine ⟨hx'.trans hx, hy'.trans hy, fun row col hcol => (hcells' row col hcol).trans ?_⟩
      have hbelow : (scrollRow i 79 0 c).cell row col =
          if row = i ∧ col < 79 then c.cell (row + 1) col else c.cell row col := by
        rw [cell, hcells, cell, cell, show (row + 1) * 80 + col = row * 80 + col + 80 by omega]
        exact if_congr (by omega) rfl rfl
      have hnext : i + 1 ≤ row →
          (scrollRow i 79 0 c).cell (row + 1) col = c.cell (row + 1) col := by
        intro hrow
        rw [cell, hcells, if_neg (by omega)]
        rfl
      by_cases hlater : i + 1 ≤ row ∧ row < i + 1 + r ∧ col < 79
      · rw [if_pos hlater, if_pos (by omega), hnext hlater.1]
      · rw [if_neg hlater, hbelow]
        exact if_congr (by omega) rfl rfl

theorem clear_row_spec : ∀ r i (c : Console),
    (clearRow r i c).cursorX = c.cursorX ∧ (clearRow r i c).cursorY = c.cursorY ∧
      ∀ x, (clearRow r i c).vedio x =
        if 24 * 79 + i ≤ x ∧ x < 24 * 79 + i + r then 0 else c.vedio x := by
  intro r
  induction r with
  | zero =>
      intro i c
      exact ⟨rfl, rfl, fun x => (if_neg (by omega)).symm⟩
  | succ r ih =>
      intro i c
      obtain ⟨hx, hy, hcells⟩ := ih (i + 1) (c.store (24 * 79 + i) 0)
      refine ⟨hx, hy, fun x => (hcells x).trans ?_⟩
      unfold store
      simp only
      by_cases hfirst : x = 24 * 79 + i
      · rw [if_neg (by omega), if_pos (by omega), hfirst, Function.update_self]
      · rw [Function.update_of_ne hfirst]
        exact if_congr (by omega) rfl rfl

theorem clear_cells_spec : ∀ r i (c : Console) x, (clearCells r i c).vedio x =
    if i ≤ x ∧ x < i + r then 0x0020 else c.vedio x := by
  intro r
  induction r with
  | zero => exact fun i c x => (if_neg (by omega)).symm
  | succ r ih =>
      intro i c x
      refine (ih (i + 1) (c.store i 0x0020) x).trans ?_
      unfold store
      simp only
      by_cases hfirst : x = i
      · rw [if_neg (by omega), if_pos (by omega), hfirst, Function.update_self]
      · rw [Function.update_of_ne hfirst]
        exact if_congr (by omega) rfl rfl

theorem scroll1_cursor (c : Console) :
    (scroll1 c).cursorX = c.cursorX ∧ (scroll1 c).cursorY = c.cursorY := by
  obtain ⟨hx, hy, _⟩ := scroll_rows_spec 24 0 c
  obtain ⟨hx', hy', _⟩ := clear_row_spec 79 0 (scrollRows 24 0 c)
  exact ⟨hx'.trans hx, hy'.trans hy⟩

/-- A cell after a scroll: rows 0 to 22 take the row below but for their last column, row 23 takes
the first 56 columns of row 24 and is cleared behind them, and row 24 is cleared up to column 54. -/
theorem scroll_cell (c : Console) {row col : Nat} (hrow : row < 25) (hcol : col < 80) :
    (scroll1 c).cell row col =
      if row = 23 ∧ 56 ≤ col ∨ row = 24 ∧ col < 55 then 0
      else if row < 24 ∧ col < 79 then c.cell (row + 1) col
      else c.cell row col := by
  obtain ⟨_, _, hrows⟩ := scroll_rows_spec 24 0 c
  obtain ⟨_, _, hclear⟩ := clear_row_spec 79 0 (scrollRows 24 0 c)
  have hshifted := hrows row col hcol
  rw [cell] at hshifted
  rw [cell, scroll1, hclear, hshifted]
  refine (if_congr (by omega) rfl rfl).trans (if_congr Iff.rfl rfl ?_)
  exact if_congr (by omega) rfl rfl

/-- Behind the screen nothing is stored. -/
theorem scroll_outside (c : Console) {x : Nat} (hx : 25 * 80 ≤ x) :
    (scroll1 c).vedio x = c.vedio x := by
  obtain ⟨_, _, hclear⟩ := clear_row_spec 79 0 (scrollRows 24 0 c)
  obtain ⟨_, _, hrows⟩ := scroll_rows_spec 24 0 c
  have hcell := hrows (x / 80) (x % 80) (Nat.mod_lt _ (by omega))
  rw [if_neg (by omega), cell, cell, show x / 80 * 80 + x % 80 = x by omega] at hcell
  rw [scroll1, hclear, if_neg (by omega), hcell]

/-- `scroll1` shifts the screen: rows 0 to 23 become rows 1 to 24 of before, row 24 becomes blank,
and nothing else changes. -/
structure Shifts (c : Console) : Prop where
  rows : ∀ row < 24, ∀ col < 80, (scroll1 c).cell row col = c.cell (row + 1) col
  last : ∀ col < 80, Blank ((scroll1 c).cell 24 col)
  outside : ∀ x, 25 * 80 ≤ x → (scroll1 c).vedio x = c.vedio x
  cursorX : (scroll1 c).cursorX = c.cursorX
  cursorY : (scroll1 c).cursorY = c.cursorY

/-- Nothing is to be seen of what `scroll1` leaves out: the last column is the same in rows 0 to 23,
and the end of row 24 is clear. -/
structure EndsClear (c : Console) : Prop where
  column : ∀ row < 23, c.cell row 79 = c.cell (row + 1) 79
  row : ∀ col < 80, 56 ≤ col → c.cell 24 col = 0
  corner : Blank (c.cell 24 55)

theorem shifts_iff (c : Console) : Shifts c ↔ EndsClear c := by
  constructor
  · intro h
    refine ⟨fun row hrow => ?_, fun col hcol hend => ?_, ?_⟩
    · have hcell := h.rows row (by omega) 79 (by omega)
      rw [scroll_cell c (by omega) (by omega), if_neg (by omega), if_neg (by omega)] at hcell
      exact hcell
    · have hcell := h.rows 23 (by omega) col hcol
      rw [scroll_cell c (by omega) hcol, if_pos (by omega)] at hcell
      exact hcell.symm
    · have hcell := h.last 55 (by omega)
      rw [scroll_cell c (by omega) (by omega), if_neg (by omega), if_neg (by omega)] at hcell
      exact hcell
  · intro h
    have hcursor := scroll1_cursor c
    refine ⟨fun row hrow col hcol => ?_, fun col hcol => ?_, fun x hx => scroll_outside c hx,
      hcursor.1, hcursor.2⟩
    · rw [scroll_cell c (by omega) hcol]
      split_ifs with hclear hshift
      · obtain rfl : row = 23 := by omega
        exact (h.row col hcol (by omega)).symm
      · rfl
      · obtain rfl : col = 79 := by omega
        exact h.column row (by omega)
    · rw [scroll_cell c (by omega) hcol]
      split_ifs with hclear hshift
      · exact Or.inl rfl
      · omega
      · rcases Nat.lt_or_ge col 56 with hlt | hge
        · obtain rfl : col = 55 := by omega
          exact h.corner
        · rw [h.row col hcol hge]
          exact Or.inl rfl

/-! ## The lines of a text -/

/-- The lines of a text behind the characters of `cur`: a line ends with a newline, or with its 80th
character. -/
def wrapLines : List UInt8 → List UInt8 → List (List UInt8)
  | cur, [] => [cur]
  | cur, ch :: text =>
      if ch = 10 then cur :: wrapLines [] text
      else if cur.length = 79 then (cur ++ [ch]) :: wrapLines [] text
      else wrapLines (cur ++ [ch]) text

/-- The `m`-th line; there are empty lines behind the last. -/
def lineOf (lines : List (List UInt8)) (m : Nat) : List UInt8 := lines.getD m []

/-- What a line shows in a column. -/
def glyph (line : Nat → List UInt8) (m col : Nat) : Option UInt16 :=
  (line m)[col]?.bind fun ch => shown (simpTextHexGen ch 15)

/-- What the last of the `k` lines from line 24 on that reaches a column shows there. -/
def lastWritten (line : Nat → List UInt8) (col : Nat) : Nat → Option UInt16
  | 0 => none
  | k + 1 => if col < (line (24 + k)).length then glyph line (24 + k) col
      else lastWritten line col k

/-- What the screen shows when line `n` is being printed. -/
def screenCell (line : Nat → List UInt8) (n row col : Nat) : Option UInt16 :=
  if n ≤ 24 then glyph line row col
  else if row = 24 then if col < 55 then glyph line n col else lastWritten line col (n - 23)
  else if col = 79 then if row < 23 then glyph line row 79 else none
  else if n - 24 + row ≤ 23 ∨ col < 55 then glyph line (n - 24 + row) col
  else if col = 55 then lastWritten line 55 (n - 24 + row - 23)
  else none

/-- The cursor is behind the characters of the last line, and the screen shows what the lines leave
on it. -/
structure Printed (c : Console) (done : List (List UInt8)) (cur : List UInt8) : Prop where
  short : cur.length < 80
  x : c.cursorX = cur.length
  y : c.cursorY = min done.length 24
  cells : ∀ row < 25, ∀ col < 80,
    shown (c.cell row col) = screenCell (lineOf (done ++ [cur])) done.length row col

/-! ## One character -/

theorem shown_zero : shown 0 = none := if_pos (Or.inl rfl)

theorem glyph_behind {line : Nat → List UInt8} {m col : Nat} (h : (line m).length ≤ col) :
    glyph line m col = none := by
  rw [glyph, List.getElem?_eq_none h]
  rfl

theorem last_written_congr {line line' : Nat → List UInt8} {col : Nat} : ∀ k,
    (∀ m < k, (col < (line' (24 + m)).length ↔ col < (line (24 + m)).length) ∧
      glyph line' (24 + m) col = glyph line (24 + m) col) →
    lastWritten line' col k = lastWritten line col k := by
  intro k
  induction k with
  | zero => exact fun _ => rfl
  | succ k ih =>
      intro h
      obtain ⟨hlength, hglyph⟩ := h k (Nat.lt_succ_self k)
      rw [lastWritten, lastWritten, ih fun m hm => h m (by omega), hglyph]
      exact if_congr hlength rfl rfl

/-- With one line from line 24 on, a column shows what that line shows there. -/
theorem last_written_one (line : Nat → List UInt8) (col : Nat) :
    lastWritten line col 1 = glyph line 24 col := by
  rw [lastWritten, lastWritten]
  split_ifs with h
  · rfl
  · exact (glyph_behind (Nat.not_lt.mp h)).symm

theorem store_cell (c : Console) {x y row col : Nat} (value : UInt16) (hx : x < 80)
    (hcol : col < 80) : (c.store (y * 80 + x) value).cell row col =
      if row = y ∧ col = x then value else c.cell row col := by
  unfold store cell
  simp only
  by_cases h : row = y ∧ col = x
  · rw [if_pos h, h.1, h.2, Function.update_self]
  · rw [if_neg h, Function.update_of_ne (by omega)]

/-- A character at the end of line `n` changes the cell under the cursor and no other. -/
theorem screen_cell_append {line line' : Nat → List UInt8} {n row col : Nat} {ch : UInt8}
    (hline : line' n = line n ++ [ch]) (hother : ∀ m, m ≠ n → line' m = line m)
    (hrow : row < 25) :
    screenCell line' n row col =
      if row = min n 24 ∧ col = (line n).length then shown (simpTextHexGen ch 15)
      else screenCell line n row col := by
  have hnew : glyph line' n (line n).length = shown (simpTextHexGen ch 15) := by
    rw [glyph, hline, List.getElem?_concat_length]
    rfl
  have hglyph : ∀ m x, m ≠ n ∨ x ≠ (line n).length → glyph line' m x = glyph line m x := by
    intro m x hne
    by_cases hm : m = n
    · subst hm
      have hx : x ≠ (line m).length := hne.resolve_left fun hm => hm rfl
      rw [glyph, glyph, hline]
      rcases Nat.lt_or_gt_of_ne hx with hlt | hgt
      · rw [List.getElem?_append_left hlt]
      · rw [List.getElem?_eq_none (by simp; omega), List.getElem?_eq_none (by omega)]
    · rw [glyph, glyph, hother m hm]
  have hlast : ∀ x k, 24 + k ≤ n ∨ x ≠ (line n).length →
      lastWritten line' x k = lastWritten line x k := by
    intro x k hne
    refine last_written_congr k fun m hm => ⟨?_, hglyph _ _ (by omega)⟩
    by_cases hmn : 24 + m = n
    · rw [hmn, hline, List.length_append, List.length_singleton]
      omega
    · rw [hother _ hmn]
  by_cases hcell : row = min n 24 ∧ col = (line n).length
  · rw [if_pos hcell]
    obtain ⟨hr, rfl⟩ := hcell
    unfold screenCell
    split_ifs with hfew hbottom hfirst
    · rw [show row = n by omega]
      exact hnew
    · exact hnew
    · rw [show n - 23 = n - 24 + 1 by omega, lastWritten, show 24 + (n - 24) = n by omega, hline,
        if_pos (by simp)]
      exact hnew
    all_goals omega
  · rw [if_neg hcell]
    unfold screenCell
    split_ifs with hfew hbottom hfirst hcolumn hupper hshort hcorner
    · exact hglyph _ _ (by omega)
    · exact hglyph _ _ (by omega)
    · exact hlast _ _ (by omega)
    · exact hglyph _ _ (by omega)
    · rfl
    · exact hglyph _ _ (by omega)
    · exact hlast _ _ (by omega)
    · rfl

/-- Row 24 shows line `n` up to column 54, and behind it what the lines have left there. -/
theorem screen_cell_bottom {line : Nat → List UInt8} {n : Nat} (hn : 24 ≤ n) (col : Nat) :
    screenCell line n 24 col =
      if col < 55 then glyph line n col else lastWritten line col (n - 23) := by
  rcases Nat.eq_or_lt_of_le hn with rfl | hlate
  · rw [screenCell, if_pos (Nat.le_refl 24), show 24 - 23 = 1 from rfl, last_written_one, ite_self]
  · rw [screenCell, if_neg (by omega), if_pos rfl]

/-- The last column of the rows above row 23 shows the first lines for ever. -/
theorem screen_cell_column {line : Nat → List UInt8} {n row : Nat} (hn : 24 ≤ n) (hrow : row < 23) :
    screenCell line n row 79 = glyph line row 79 := by
  rcases Nat.eq_or_lt_of_le hn with rfl | hlate
  · rw [screenCell, if_pos (Nat.le_refl 24)]
  · rw [screenCell, if_neg (by omega), if_neg (by omega), if_pos rfl, if_pos hrow]

/-- The rest of a row above row 24 shows the line that it should, whole where that has never been in
row 24, else cut behind column 54. -/
theorem screen_cell_upper {line : Nat → List UInt8} {n row col : Nat} (hn : 24 ≤ n)
    (hrow : row < 24) (hcol : col < 79) : screenCell line n row col =
      if n - 24 + row ≤ 23 ∨ col < 55 then glyph line (n - 24 + row) col
      else if col = 55 then lastWritten line 55 (n - 24 + row - 23) else none := by
  rcases Nat.eq_or_lt_of_le hn with rfl | hlate
  · rw [screenCell, if_pos (Nat.le_refl 24), Nat.sub_self, Nat.zero_add, if_pos (by omega)]
  · rw [screenCell, if_neg (by omega), if_neg (by omega), if_neg (by omega)]

/-- A scroll behind line `n` leaves what the screen shows when the next line begins. -/
theorem screen_cell_scroll {line : Nat → List UInt8} {n : Nat} (hn : 24 ≤ n)
    (hnext : line (n + 1) = []) (c : Console)
    (h : ∀ row < 25, ∀ col < 80, shown (c.cell row col) = screenCell line n row col) :
    ∀ row < 25, ∀ col < 80, shown ((scroll1 c).cell row col) = screenCell line (n + 1) row col := by
  have hn' : 24 ≤ n + 1 := Nat.le_succ_of_le hn
  intro row hrow col hcol
  rw [scroll_cell c hrow hcol]
  by_cases hclear : row = 23 ∧ 56 ≤ col ∨ row = 24 ∧ col < 55
  · -- a cell that the scroll clears
    rw [if_pos hclear, shown_zero]
    rcases hclear with ⟨rfl, hend⟩ | ⟨rfl, hstart⟩
    · rcases Nat.lt_or_ge col 79 with hlt | hlast
      · rw [screen_cell_upper hn' (by omega) hlt, if_neg (by omega), if_neg (by omega)]
      · obtain rfl : col = 79 := by omega
        rw [screenCell, if_neg (by omega), if_neg (by omega), if_pos rfl, if_neg (by omega)]
    · rw [screen_cell_bottom hn', if_pos hstart,
        glyph_behind (by rw [hnext]; exact Nat.zero_le col)]
  rw [if_neg hclear]
  by_cases hshift : row < 24 ∧ col < 79
  · -- a cell that takes the one below
    rw [if_pos hshift, h (row + 1) (by omega) col hcol, screen_cell_upper hn' hshift.1 hshift.2]
    rcases Nat.lt_or_ge row 23 with hupper | hrow23
    · rw [screen_cell_upper hn (by omega) hshift.2,
        show n + 1 - 24 + row = n - 24 + (row + 1) by omega]
    · obtain rfl : row = 23 := by omega
      rw [screen_cell_bottom hn, show n + 1 - 24 + 23 = n by omega]
      by_cases hstart : col < 55
      · rw [if_pos hstart, if_pos (Or.inr hstart)]
      · obtain rfl : col = 55 := by omega
        rw [if_neg hstart, if_neg (by omega), if_pos rfl]
  · -- a cell that the scroll leaves as it is
    rw [if_neg hshift, h row hrow col hcol]
    rcases Nat.lt_or_ge row 24 with hupper | hrow24
    · obtain rfl : col = 79 := by omega
      rw [screen_cell_column hn (by omega), screen_cell_column hn' (by omega)]
    · obtain rfl : row = 24 := by omega
      -- the line that begins is empty, so the last columns show what they showed
      have hbottom : lastWritten line col (n + 1 - 23) = lastWritten line col (n - 23) := by
        rw [show n + 1 - 23 = n - 23 + 1 by omega, lastWritten,
          show 24 + (n - 23) = n + 1 by omega, hnext]
        exact if_neg (Nat.not_lt_zero col)
      rw [screen_cell_bottom hn, screen_cell_bottom hn', if_neg (by omega), if_neg (by omega),
        hbottom]

/-! ## A text -/

theorem line_of_last (done : List (List UInt8)) (cur : List UInt8) :
    lineOf (done ++ [cur]) done.length = cur := by
  rw [lineOf, List.getD_append_right _ _ _ _ (Nat.le_refl _), Nat.sub_self]
  rfl

theorem line_of_done (done : List (List UInt8)) (cur cur' : List UInt8) {m : Nat}
    (hm : m ≠ done.length) : lineOf (done ++ [cur]) m = lineOf (done ++ [cur']) m := by
  rw [lineOf, lineOf]
  rcases Nat.lt_or_gt_of_ne hm with hlt | hgt
  · rw [List.getD_append _ _ _ _ hlt, List.getD_append _ _ _ _ hlt]
  · rw [List.getD_eq_default _ _ (by simp; omega), List.getD_eq_default _ _ (by simp; omega)]

/-- A cleared screen shows the empty text. -/
theorem printed_clear (c : Console) : Printed (clearScreen c) [] [] := by
  have hcleared := clear_cells_spec (25 * 80) 0 c
  unfold clearScreen
  generalize clearCells (25 * 80) 0 c = cleared at hcleared ⊢
  refine ⟨Nat.succ_pos 79, rfl, rfl, fun row hrow col hcol => ?_⟩
  have hcell : cleared.vedio (row * 80 + col) = 0x0020 := (hcleared _).trans (if_pos (by omega))
  have hblank : shown 0x0020 = none := if_pos (by decide)
  rw [cell, hcell, hblank, screenCell, List.length_nil, if_pos (Nat.zero_le 24), glyph_behind]
  have hline : lineOf ([] ++ [[]]) row = [] := by
    cases row <;> rfl
  rw [hline]
  exact Nat.zero_le col

/-- The step to the next row ends the line. -/
theorem printed_next_row {done : List (List UInt8)} {cur : List UInt8}
    (hy : c.cursorY = min done.length 24)
    (hcells : ∀ row < 25, ∀ col < 80,
      shown (c.cell row col) = screenCell (lineOf (done ++ [cur])) done.length row col) :
    Printed c.nextRow (done ++ [cur]) [] := by
  have hline : lineOf (done ++ [cur] ++ [[]]) = lineOf (done ++ [cur]) := by
    funext m
    rcases Nat.lt_trichotomy m (done ++ [cur]).length with hlt | rfl | hgt
    · exact List.getD_append _ _ _ _ hlt
    · rw [line_of_last, lineOf, List.getD_eq_default _ _ (Nat.le_refl _)]
    · rw [lineOf, lineOf, List.getD_eq_default _ _ (by simp at hgt ⊢; omega),
        List.getD_eq_default _ _ (by omega)]
  have hlength : (done ++ [cur]).length = done.length + 1 := by simp
  have hnext : lineOf (done ++ [cur]) (done.length + 1) = [] := by
    rw [lineOf, List.getD_eq_default _ _ (by omega)]
  unfold Console.nextRow
  by_cases hroom : c.cursorY < 24
  · -- the screen has a row left
    rw [if_pos hroom]
    refine ⟨Nat.succ_pos 79, rfl, ?_, fun row hrow col hcol => ?_⟩
    · show c.cursorY + 1 = _
      omega
    · rw [hline, hlength, screenCell, if_pos (by omega)]
      refine (hcells row hrow col hcol).trans ?_
      rw [screenCell, if_pos (by omega)]
  · rw [if_neg hroom]
    have hcursor := scroll1_cursor c
    have hscrolled := screen_cell_scroll (n := done.length) (by omega) hnext c hcells
    rw [← hline, ← hlength] at hscrolled
    generalize scroll1 c = scrolled at hcursor hscrolled ⊢
    refine ⟨Nat.succ_pos 79, rfl, ?_, hscrolled⟩
    show scrolled.cursorY = _
    omega

/-- A character of the text is printed on its line. -/
theorem printed_char {done : List (List UInt8)} {cur : List UInt8} (h : Printed c done cur)
    {ch : UInt8} (htab : ch ≠ 9) :
    if ch = 10 then Printed (c.printChar ch) (done ++ [cur]) []
    else if cur.length = 79 then Printed (c.printChar ch) (done ++ [cur ++ [ch]]) []
    else Printed (c.printChar ch) done (cur ++ [ch]) := by
  have hshort := h.short
  have hx := h.x
  have hy := h.y
  by_cases hnewline : ch = 10
  · rw [if_pos hnewline, printChar, if_pos hnewline]
    exact printed_next_row h.y h.cells
  rw [if_neg hnewline, printChar, if_neg hnewline, if_neg htab]
  have hlast := line_of_last done cur
  have hcells : ∀ row < 25, ∀ col < 80,
      shown ((c.store (c.cursorY * 80 + c.cursorX) (simpTextHexGen ch 15)).cell row col) =
        screenCell (lineOf (done ++ [cur ++ [ch]])) done.length row col := by
    intro row hrow col hcol
    have hline : lineOf (done ++ [cur ++ [ch]]) done.length =
        lineOf (done ++ [cur]) done.length ++ [ch] := by
      rw [line_of_last, hlast]
    rw [screen_cell_append hline (fun m hm => line_of_done _ _ _ hm) hrow, hlast,
      store_cell c _ (by omega) hcol, hx, hy]
    by_cases hcursor : row = min done.length 24 ∧ col = cur.length
    · rw [if_pos hcursor, if_pos hcursor]
    · rw [if_neg hcursor, if_neg hcursor, h.cells row hrow col hcol]
  have hx' : (c.store (c.cursorY * 80 + c.cursorX) (simpTextHexGen ch 15)).cursorX =
      cur.length := hx
  have hy' : (c.store (c.cursorY * 80 + c.cursorX) (simpTextHexGen ch 15)).cursorY =
      min done.length 24 := hy
  generalize c.store (c.cursorY * 80 + c.cursorX) (simpTextHexGen ch 15) = stored
    at hcells hx' hy' ⊢
  simp only
  by_cases hend : cur.length = 79
  · rw [if_pos hend, if_pos (show (stored.cursorX + 1) % 65536 > 79 by omega)]
    exact printed_next_row hy' hcells
  · rw [if_neg hend, if_neg (show ¬ (stored.cursorX + 1) % 65536 > 79 by omega)]
    refine ⟨?_, ?_, hy', hcells⟩
    · rw [List.length_append, List.length_singleton]
      omega
    · rw [List.length_append, List.length_singleton]
      show (stored.cursorX + 1) % 65536 = _
      omega

/-- The text has no NUL and no tab. -/
def Ordinary (text : List UInt8) : Prop := ∀ ch ∈ text, ch ≠ 0 ∧ ch ≠ 9

/-- A text is printed line by line. -/
theorem printed_text : ∀ (text : List UInt8) (c : Console) (done : List (List UInt8))
    (cur : List UInt8), Ordinary text → Printed c done cur →
    ∃ done' cur', done ++ wrapLines cur text = done' ++ [cur'] ∧
      Printed (c.print text) done' cur' := by
  intro text
  induction text with
  | nil => exact fun c done cur _ h => ⟨done, cur, rfl, h⟩
  | cons ch text ih =>
      intro c done cur hordinary h
      obtain ⟨hnul, htab⟩ := hordinary ch List.mem_cons_self
      have hrest : Ordinary text := fun ch' hch' => hordinary ch' (List.mem_cons_of_mem _ hch')
      have hstep := printed_char h htab
      rw [print, if_neg hnul, wrapLines]
      by_cases hnewline : ch = 10
      · rw [if_pos hnewline] at hstep ⊢
        obtain ⟨done', cur', hlines, hprinted⟩ := ih _ _ _ hrest hstep
        exact ⟨done', cur', by rw [← hlines, List.append_assoc]; rfl, hprinted⟩
      rw [if_neg hnewline] at hstep ⊢
      by_cases hend : cur.length = 79
      · rw [if_pos hend] at hstep ⊢
        obtain ⟨done', cur', hlines, hprinted⟩ := ih _ _ _ hrest hstep
        exact ⟨done', cur', by rw [← hlines, List.append_assoc]; rfl, hprinted⟩
      · rw [if_neg hend] at hstep ⊢
        exact ih _ _ _ hrest hstep

/-! ## When the last lines are shown -/

/-- The rows show the last 25 lines of a text. -/
def ShowsLast (c : Console) (lines : List (List UInt8)) : Prop :=
  ∀ row < 25, ∀ col < 80,
    shown (c.cell row col) = glyph (lineOf lines) (lines.length - 25 + row) col

/-- Nothing is to be seen of what the scrolls before line `n` have left out: the last column of the
first 23 lines is that of the lines in their rows; a line that row 24 has been left by and that is
still shown has nothing behind column 55, and in column 55 what the last line to reach it has; and
what row 24 keeps behind the end of line `n` is blank. -/
structure EndsUnseen (line : Nat → List UInt8) (n : Nat) : Prop where
  column : ∀ row < 23, glyph line row 79 = glyph line (n - 24 + row) 79
  cut : ∀ m, 24 ≤ m → n - 24 ≤ m → m < n → ∀ col, 56 ≤ col → col < 79 → glyph line m col = none
  corner : 25 ≤ n → glyph line (n - 1) 79 = none
  kept : ∀ m, 24 ≤ m → n - 24 ≤ m → m < n → lastWritten line 55 (m - 23) = glyph line m 55
  bottom : ∀ col, 55 ≤ col → col < 80 → (line n).length ≤ col → lastWritten line col (n - 24) = none

theorem ends_unseen_few {line : Nat → List UInt8} {n : Nat} (hn : n ≤ 24) : EndsUnseen line n where
  column row _ := by rw [Nat.sub_eq_zero_of_le hn, Nat.zero_add]
  cut m hm _ hlt := by omega
  corner h := by omega
  kept m hm _ hlt := by omega
  bottom col _ _ _ := by
    rw [Nat.sub_eq_zero_of_le hn]
    rfl

/-- Row 24 shows behind the end of its line what the lines before have left there. -/
theorem last_written_bottom {line : Nat → List UInt8} {n col : Nat} (hn : 24 ≤ n) :
    lastWritten line col (n - 23) =
      if col < (line n).length then glyph line n col else lastWritten line col (n - 24) := by
  rw [show n - 23 = n - 24 + 1 by omega, lastWritten, show 24 + (n - 24) = n by omega]

theorem screen_shows_iff {line : Nat → List UInt8} {n : Nat} :
    (∀ row < 25, ∀ col < 80, screenCell line n row col = glyph line (n - 24 + row) col) ↔
      EndsUnseen line n := by
  rcases Nat.lt_or_ge 24 n with hlate | hfew
  · have hn : 24 ≤ n := Nat.le_of_lt hlate
    constructor
    · intro h
      refine ⟨fun row hrow => ?_, fun m hm hshown hlt col hl hh => ?_, fun _ => ?_,
        fun m hm hshown hlt => ?_, fun col hl hh hlength => ?_⟩
      · rw [← screen_cell_column hn hrow]
        exact h row (by omega) 79 (by omega)
      · have hcell := h (m - (n - 24)) (by omega) col (by omega)
        rw [screen_cell_upper hn (by omega) hh, show n - 24 + (m - (n - 24)) = m by omega,
          if_neg (by omega), if_neg (by omega)] at hcell
        exact hcell.symm
      · have hcell := h 23 (by omega) 79 (by omega)
        rw [screenCell, if_neg (by omega), if_neg (by omega), if_pos rfl, if_neg (by omega),
          show n - 24 + 23 = n - 1 by omega] at hcell
        exact hcell.symm
      · have hcell := h (m - (n - 24)) (by omega) 55 (by omega)
        rw [screen_cell_upper hn (by omega) (by omega), show n - 24 + (m - (n - 24)) = m by omega,
          if_neg (by omega), if_pos rfl] at hcell
        exact hcell
      · have hcell := h 24 (by omega) col hh
        rw [screen_cell_bottom hn, if_neg (by omega), last_written_bottom hn, if_neg (by omega),
          show n - 24 + 24 = n by omega, glyph_behind hlength] at hcell
        exact hcell
    · intro h row hrow col hcol
      rcases Nat.lt_or_ge row 24 with hupper | hrow24
      · rcases Nat.lt_or_ge col 79 with hinner | hcol79
        · -- a cell that has been moved up
          rw [screen_cell_upper hn hupper hinner]
          split_ifs with hwhole hcorner
          · rfl
          · rw [hcorner]
            exact h.kept _ (by omega) (by omega) (by omega)
          · exact (h.cut _ (by omega) (by omega) (by omega) col (by omega) hinner).symm
        · -- a cell of the last column, which no scroll moves
          obtain rfl : col = 79 := by omega
          rcases Nat.lt_or_ge row 23 with hrow23 | hrow23
          · rw [screen_cell_column hn hrow23]
            exact h.column row hrow23
          · obtain rfl : row = 23 := by omega
            rw [screenCell, if_neg (by omega), if_neg (by omega), if_pos rfl, if_neg (by omega),
              show n - 24 + 23 = n - 1 by omega]
            exact (h.corner hlate).symm
      · -- a cell of the last row
        obtain rfl : row = 24 := by omega
        rw [screen_cell_bottom hn, show n - 24 + 24 = n by omega]
        split_ifs with hstart
        · rfl
        · rw [last_written_bottom hn]
          split_ifs with hlength
          · rfl
          · rw [h.bottom col (by omega) hcol (by omega), glyph_behind (by omega)]
  · refine iff_of_true (fun row _ col _ => ?_) (ends_unseen_few hfew)
    rw [screenCell, if_pos hfew, Nat.sub_eq_zero_of_le hfew, Nat.zero_add]

theorem printed_shows_iff {done : List (List UInt8)} {cur : List UInt8} (h : Printed c done cur) :
    ShowsLast c (done ++ [cur]) ↔ EndsUnseen (lineOf (done ++ [cur])) done.length := by
  rw [← screen_shows_iff]
  have hlength : (done ++ [cur]).length - 25 = done.length - 24 := by simp
  unfold ShowsLast
  rw [hlength]
  refine forall₂_congr fun row hrow => forall₂_congr fun col hcol => ?_
  rw [h.cells row hrow col hcol]

theorem text_shows_iff (c : Console) (text : List UInt8) (hordinary : Ordinary text) :
    ShowsLast ((clearScreen c).print text) (wrapLines [] text) ↔
      EndsUnseen (lineOf (wrapLines [] text)) ((wrapLines [] text).length - 1) := by
  obtain ⟨done, cur, hlines, hprinted⟩ := printed_text text _ [] [] hordinary (printed_clear c)
  rw [List.nil_append] at hlines
  rw [hlines, printed_shows_iff hprinted]
  simp

/-- For every content of the screen, `scroll1` shifts it exactly when its last column is the same in
rows 0 to 23 and the end of row 24 is clear. For every text without tabs that is printed after
`clear_screen`, the screen shows the last 25 lines of it exactly when nothing is to be seen of what
the scrolls leave out. -/
theorem scroll_shows_iff (c : Console) :
    (Shifts c ↔ EndsClear c) ∧
    ∀ text : List UInt8, Ordinary text →
      (ShowsLast ((clearScreen c).print text) (wrapLines [] text) ↔
        EndsUnseen (lineOf (wrapLines [] text)) ((wrapLines [] text).length - 1)) :=
  ⟨shifts_iff c, text_shows_iff c⟩

/-- Nothing is lost of lines that end before column 55. -/
theorem ends_unseen_short {line : Nat → List UInt8} {n : Nat} (h : ∀ m, (line m).length ≤ 55) :
    EndsUnseen line n := by
  have hblank : ∀ m col, 55 ≤ col → glyph line m col = none := fun m col hcol =>
    glyph_behind (Nat.le_trans (h m) hcol)
  have hnever : ∀ k col, 55 ≤ col → lastWritten line col k = none := by
    intro k col hcol
    induction k with
    | zero => rfl
    | succ k ih => rw [lastWritten, if_neg (Nat.not_lt.mpr (Nat.le_trans (h _) hcol)), ih]
  exact
    { column := fun row _ => by rw [hblank _ 79 (by decide), hblank _ 79 (by decide)]
      cut := fun m _ _ _ col hcol _ => hblank m col (by omega)
      corner := fun _ => hblank _ 79 (by decide)
      kept := fun m _ _ _ => by rw [hnever _ 55 (by decide), hblank m 55 (by decide)]
      bottom := fun col hcol _ _ => hnever _ col hcol }

/-- Twenty-six lines of one letter. -/
def letterLines : List UInt8 := (List.replicate 26 [65, 10]).flatten

/-- The screen is scrolled twice for them, and shows the last of them. -/
theorem scroll_shows_iff_two_scrolls :
    (wrapLines [] letterLines).length = 27 ∧
      ShowsLast ((clearScreen ⟨fun _ => 0, 0, 0, []⟩).print letterLines)
        (wrapLines [] letterLines) := by
  refine ⟨by decide, ((scroll_shows_iff ⟨fun _ => 0, 0, 0, []⟩).2 letterLines ?_).mpr
    (ends_unseen_short fun m => ?_)⟩
  · simp [Ordinary, letterLines]
  · rcases Nat.lt_or_ge m 27 with hlt | hge
    · have hall : ∀ m < 27, (lineOf (wrapLines [] letterLines) m).length ≤ 55 := by decide
      exact hall m hlt
    · rw [lineOf, List.getD_eq_default _ _ hge]
      exact Nat.zero_le 55

/-- Sixty characters in the last row: the scroll behind them loses the last four. -/
def longLastLine : List UInt8 := List.replicate 24 10 ++ List.replicate 60 65 ++ [10]

/-- A screen full of letters is not shifted, and a long line in the last row is not shown whole. -/
theorem scroll_cuts_long_line :
    ¬ Shifts ⟨fun _ => 0x0f41, 0, 0, []⟩ ∧
      ¬ ShowsLast ((clearScreen ⟨fun _ => 0, 0, 0, []⟩).print longLastLine)
        (wrapLines [] longLastLine) := by
  constructor
  · rw [shifts_iff]
    intro h
    exact absurd (h.row 56 (by omega) (by omega)) (by decide)
  · have hordinary : Ordinary longLastLine := by
      intro ch hch
      simp only [longLastLine, List.mem_append, List.mem_replicate, List.mem_singleton] at hch
      rcases hch with (⟨_, rfl⟩ | ⟨_, rfl⟩) | rfl <;> decide
    rw [text_shows_iff _ _ hordinary]
    intro h
    have hcut := h.cut 24 (by decide) (by decide) (by decide) 56 (by decide) (by decide)
    exact absurd hcut (by decide)

end Console

end Genesis32
