import Mathlib.Data.Nat.Digits.Defs
import Genesis32.Console.Print

/-!
# Numbers on the console

`print_hex` of `kernel.c`, and `print_16`, `print_32` and `print_64`, each of which prints the two
halves of its value with the one before it. `print_64_digits` says what the whole cascade prints:
one numeral of sixteen digits, which reads back as the value.
-/

namespace Genesis32

/-! ## Numerals -/

/-- The last `n` digits of a number to a base, the highest first. -/
def numeral (base : Nat) : Nat → Nat → List Nat
  | 0, _ => []
  | n + 1, v => numeral base n (v / base) ++ [v % base]

theorem numeral_length (base : Nat) : ∀ n v, (numeral base n v).length = n := by
  intro n
  induction n with
  | zero => exact fun _ => rfl
  | succ n ih =>
      intro v
      rw [numeral, List.length_append, ih, List.length_singleton]

theorem numeral_lt {base : Nat} (hbase : 0 < base) :
    ∀ n v, ∀ d ∈ numeral base n v, d < base := by
  intro n
  induction n with
  | zero => exact fun _ d hd => absurd hd List.not_mem_nil
  | succ n ih =>
      intro v d hd
      rcases List.mem_append.mp hd with hd | hd
      · exact ih _ d hd
      · obtain rfl := List.mem_singleton.mp hd
        exact Nat.mod_lt v hbase

/-- The digits of a number are those of its high part and those of its low part. -/
theorem numeral_add (base n : Nat) :
    ∀ k v, numeral base (n + k) v = numeral base n (v / base ^ k) ++ numeral base k v := by
  intro k
  induction k with
  | zero =>
      intro v
      rw [Nat.pow_zero, Nat.div_one, numeral, List.append_nil, Nat.add_zero]
  | succ k ih =>
      intro v
      rw [← Nat.add_assoc, numeral, ih, numeral, List.append_assoc, Nat.div_div_eq_div_mul,
        Nat.pow_succ']

/-- Only the last digits of a number count. -/
theorem numeral_mod (base : Nat) : ∀ n v, numeral base n (v % base ^ n) = numeral base n v := by
  intro n
  induction n with
  | zero => exact fun _ => rfl
  | succ n ih =>
      intro v
      rw [numeral, numeral, Nat.pow_succ', Nat.mod_mul_right_div_self, ih, Nat.mod_mul_right_mod]

/-- A numeral reads back as the number. -/
theorem of_digits_numeral (base : Nat) :
    ∀ n v, Nat.ofDigits base (numeral base n v).reverse = v % base ^ n := by
  intro n
  induction n with
  | zero =>
      intro v
      rw [Nat.pow_zero, Nat.mod_one]
      rfl
  | succ n ih =>
      intro v
      rw [numeral, List.reverse_append, List.reverse_singleton, List.singleton_append,
        Nat.ofDigits_cons, ih, Nat.pow_succ', Nat.mod_mul]

namespace Console

/-! ## The cascade -/

/-- `hex` of `print_hex`. -/
def hexChars : List UInt8 :=
  [0x30, 0x31, 0x32, 0x33, 0x34, 0x35, 0x36, 0x37, 0x38, 0x39, 0x61, 0x62, 0x63, 0x64, 0x65, 0x66]

/-- A character of `hex`. -/
def hexChar (d : Nat) : UInt8 := hexChars.getD d 0x00

/-- `print_hex`. -/
def printHex (c : Console) (b : UInt8) : Console :=
  c.print [hexChar ((b >>> 4) &&& 0xf).toNat, hexChar (b &&& 0xf).toNat, 0x00]

/-- `print_16`. -/
def print16 (c : Console) (val : UInt16) : Console :=
  (c.printHex ((val >>> 8) &&& 0xff).toUInt8).printHex (val &&& 0xff).toUInt8

/-- `print_32`. -/
def print32 (c : Console) (val : UInt32) : Console :=
  (c.print16 ((val >>> 16) &&& 0xffff).toUInt16).print16 (val &&& 0xffff).toUInt16

/-- `print_64`. -/
def print64 (c : Console) (val : UInt64) : Console :=
  (c.print32 ((val >>> 32) &&& 0xffffffff).toUInt32).print32 (val &&& 0xffffffff).toUInt32

/-- The characters of the last `n` hexadecimal digits of a number. -/
def hexText (n v : Nat) : List UInt8 := (numeral 16 n v).map hexChar

/-- The digit of a character, as a reader of the screen takes it. -/
def hexValue (ch : UInt8) : Nat := hexChars.idxOf ch

/-- The number that a reader takes from a line of digits. -/
def readHex (text : List UInt8) : Nat := Nat.ofDigits 16 (text.map hexValue).reverse

variable {c : Console} {text : List UInt8}

/-- Strings without a NUL print one behind the other. -/
theorem print_append (hnul : ∀ ch ∈ text, ch ≠ 0) (rest : List UInt8) : ∀ c : Console,
    c.print (text ++ rest) = (c.print text).print rest := by
  induction text with
  | nil => exact fun _ => rfl
  | cons ch text ih =>
      intro c
      have hch := hnul ch List.mem_cons_self
      rw [List.cons_append, print, if_neg hch, ih fun ch' hch' =>
        hnul ch' (List.mem_cons_of_mem ch hch'), print, if_neg hch]

/-- A NUL ends a string. -/
theorem print_nul (hnul : ∀ ch ∈ text, ch ≠ 0) (c : Console) :
    c.print (text ++ [0x00]) = c.print text := by
  rw [print_append hnul, print, if_pos rfl]

theorem hex_char_value {d : Nat} (hd : d < 16) : hexValue (hexChar d) = d ∧ hexChar d ≠ 0 := by
  have hall : ∀ d < 16, hexValue (hexChar d) = d ∧ hexChar d ≠ 0 := by decide
  exact hall d hd

theorem hex_text_ne_nul (n v : Nat) : ∀ ch ∈ hexText n v, ch ≠ 0 := by
  intro ch hch
  obtain ⟨d, hd, rfl⟩ := List.mem_map.mp hch
  exact (hex_char_value (numeral_lt (Nat.succ_pos 15) n v d hd)).2

/-- A line of digits reads back as the number. -/
theorem read_hex_text (n v : Nat) : readHex (hexText n v) = v % 16 ^ n := by
  have hdigits : (hexText n v).map hexValue = numeral 16 n v := by
    rw [hexText, List.map_map]
    refine (List.map_congr_left fun d hd => ?_).trans (List.map_id _)
    exact (hex_char_value (numeral_lt (Nat.succ_pos 15) n v d hd)).1
  rw [readHex, hdigits, of_digits_numeral]

/-- Two halves of a value print as the digits of the value. -/
theorem print_halves {n v high low : Nat} (hhigh : high = v / 16 ^ n) (hlow : low = v % 16 ^ n)
    (c : Console) :
    (c.print (hexText n high)).print (hexText n low) = c.print (hexText (n + n) v) := by
  have htext : hexText (n + n) v = hexText n high ++ hexText n low := by
    rw [hexText, numeral_add, List.map_append, hhigh, hlow, hexText, hexText, numeral_mod]
  rw [htext, print_append (hex_text_ne_nul n high)]

theorem print_hex_text (c : Console) (b : UInt8) : c.printHex b = c.print (hexText 2 b.toNat) := by
  have hb := b.toNat_lt
  have hhigh : ((b >>> 4) &&& 0xf).toNat = b.toNat / 16 % 16 := by
    rw [UInt8.toNat_and, UInt8.toNat_shiftRight]
    exact (Nat.and_two_pow_sub_one_eq_mod _ 4).trans
      (congrArg (· % 16) (Nat.shiftRight_eq_div_pow _ 4))
  have hlow : (b &&& 0xf).toNat = b.toNat % 16 := by
    rw [UInt8.toNat_and]
    exact Nat.and_two_pow_sub_one_eq_mod _ 4
  rw [printHex, hhigh, hlow]
  exact print_nul (hex_text_ne_nul 2 b.toNat) c

/-- The low half of a word. -/
theorem low_half (x n : Nat) : (x &&& (2 ^ n - 1)) % 2 ^ n = x % 2 ^ n := by
  rw [Nat.and_two_pow_sub_one_eq_mod, Nat.mod_mod]

/-- The high half of a word. -/
theorem high_half {x n : Nat} (hx : x < 2 ^ n * 2 ^ n) :
    ((x >>> n) &&& (2 ^ n - 1)) % 2 ^ n = x / 2 ^ n := by
  rw [low_half, Nat.shiftRight_eq_div_pow, Nat.mod_eq_of_lt (Nat.div_lt_of_lt_mul hx)]

theorem print_16_text (c : Console) (val : UInt16) :
    c.print16 val = c.print (hexText 4 val.toNat) := by
  have hval := val.toNat_lt
  have hhigh : ((val >>> 8) &&& 0xff).toUInt8.toNat = val.toNat / 16 ^ 2 := by
    rw [UInt16.toNat_toUInt8, UInt16.toNat_and, UInt16.toNat_shiftRight]
    exact high_half (n := 8) hval
  have hlow : (val &&& 0xff).toUInt8.toNat = val.toNat % 16 ^ 2 := by
    rw [UInt16.toNat_toUInt8, UInt16.toNat_and]
    exact low_half _ 8
  rw [print16, print_hex_text, print_hex_text]
  exact print_halves hhigh hlow c

theorem print_32_text (c : Console) (val : UInt32) :
    c.print32 val = c.print (hexText 8 val.toNat) := by
  have hval := val.toNat_lt
  have hhigh : ((val >>> 16) &&& 0xffff).toUInt16.toNat = val.toNat / 16 ^ 4 := by
    rw [UInt32.toNat_toUInt16, UInt32.toNat_and, UInt32.toNat_shiftRight]
    exact high_half (n := 16) hval
  have hlow : (val &&& 0xffff).toUInt16.toNat = val.toNat % 16 ^ 4 := by
    rw [UInt32.toNat_toUInt16, UInt32.toNat_and]
    exact low_half _ 16
  rw [print32, print_16_text, print_16_text]
  exact print_halves hhigh hlow c

theorem print_64_text (c : Console) (val : UInt64) :
    c.print64 val = c.print (hexText 16 val.toNat) := by
  have hval := val.toNat_lt
  have hhigh : ((val >>> 32) &&& 0xffffffff).toUInt32.toNat = val.toNat / 16 ^ 8 := by
    rw [UInt64.toNat_toUInt32, UInt64.toNat_and, UInt64.toNat_shiftRight]
    exact high_half (n := 32) hval
  have hlow : (val &&& 0xffffffff).toUInt32.toNat = val.toNat % 16 ^ 8 := by
    rw [UInt64.toNat_toUInt32, UInt64.toNat_and]
    exact low_half _ 32
  rw [print64, print_32_text, print_32_text]
  exact print_halves hhigh hlow c

/-- What `print_64` prints is one line of sixteen characters, all of them hexadecimal digits, from
which a reader has the value back. -/
theorem print_64_digits (c : Console) (val : UInt64) :
    ∃ text : List UInt8, c.print64 val = c.print text ∧ text.length = 16 ∧
      (∀ ch ∈ text, ch ∈ hexChars) ∧ readHex text = val.toNat := by
  refine ⟨hexText 16 val.toNat, print_64_text c val, ?_, fun ch hch => ?_, ?_⟩
  · rw [hexText, List.length_map, numeral_length]
  · obtain ⟨d, hd, rfl⟩ := List.mem_map.mp hch
    have hlt := numeral_lt (Nat.succ_pos 15) 16 _ d hd
    rw [hexChar, List.getD_eq_getElem?_getD, List.getElem?_eq_getElem hlt]
    exact List.getElem_mem hlt
  · rw [read_hex_text]
    exact Nat.mod_eq_of_lt val.toNat_lt

end Console

end Genesis32
