import FlatImage.Text.Utf8

/-!
# UTF-8

The cut of a byte string into characters against the encoding of characters: the bytes of a text are
cut into its characters, and bytes that are cut into characters only are those of the text. So bytes
are a text or not without regard to how they are cut: `Utf8.decode?_eq_some_iff`.

Both directions are shown for one character at the front, of each of the four lengths. What the cut
asks of a character's bytes is put into numbers first.
-/

namespace FlatImage.Utf8

/-! ## Conditions on single bytes -/

variable {a b c d : UInt8}

theorem following_eq_one : following a = some 1 ↔ 0xC2 ≤ a.toNat ∧ a.toNat ≤ 0xDF := by
  simp only [following, UInt8.le_iff_toNat_le, UInt8.reduceToNat]
  grind

theorem following_eq_two : following a = some 2 ↔ 0xE0 ≤ a.toNat ∧ a.toNat ≤ 0xEF := by
  simp only [following, UInt8.le_iff_toNat_le, UInt8.reduceToNat]
  grind

theorem following_eq_three : following a = some 3 ↔ 0xF0 ≤ a.toNat ∧ a.toNat ≤ 0xF4 := by
  simp only [following, UInt8.le_iff_toNat_le, UInt8.reduceToNat]
  grind

theorem eq_three_of_following {n : Nat} (lead : following a = some n) (notOne : n ≠ 1)
    (notTwo : n ≠ 2) : n = 3 := by
  rw [following] at lead
  grind

theorem continues_iff : continues b ↔ 0x80 ≤ b.toNat ∧ b.toNat ≤ 0xBF := by
  simp only [continues, UInt8.le_iff_toNat_le, UInt8.reduceToNat, Bool.and_eq_true,
    decide_eq_true_eq]

/-- A second byte continues the character, and some first bytes leave it less room. -/
theorem second_iff : second a b ↔ 0x80 ≤ b.toNat ∧ b.toNat ≤ 0xBF
    ∧ (a.toNat = 0xE0 → 0xA0 ≤ b.toNat) ∧ (a.toNat = 0xED → b.toNat ≤ 0x9F)
    ∧ (a.toNat = 0xF0 → 0x90 ≤ b.toNat) ∧ (a.toNat = 0xF4 → b.toNat ≤ 0x8F) := by
  simp only [second, continues, UInt8.le_iff_toNat_le, UInt8.reduceToNat, ← UInt8.toNat_inj]
  grind

/-! ## One character -/

/-- The bytes of one character, by their number. -/
inductive Form : Bytes → Char → Prop where
  | one {a : UInt8} (low : a < 0x80) : Form [a] (Char.ofNat a.toNat)
  | two {a b : UInt8} (lead : following a = some 1) (next : second a b) :
    Form [a, b] (Char.ofNat (a.toNat % 32 * 64 + payload b))
  | three {a b c : UInt8} (lead : following a = some 2) (next : second a b) (last : continues c) :
    Form [a, b, c] (Char.ofNat ((a.toNat % 16 * 64 + payload b) * 64 + payload c))
  | four {a b c d : UInt8} (lead : following a = some 3) (next : second a b) (third : continues c)
      (last : continues d) :
    Form [a, b, c, d]
      (Char.ofNat (((a.toNat % 8 * 64 + payload b) * 64 + payload c) * 64 + payload d))

theorem not_low_of_following {n : Nat} (lead : following a = some n) : ¬ a < 0x80 := by
  intro low
  simp only [UInt8.lt_iff_toNat_lt, UInt8.reduceToNat] at low
  simp only [following, UInt8.le_iff_toNat_le, UInt8.reduceToNat] at lead
  grind

/-- The bytes of a character are cut off in one piece. -/
theorem Form.pieces_append {bytes : Bytes} {char : Char} (form : Form bytes char) (rest : Bytes) :
    pieces (bytes ++ rest) = .char char :: pieces rest := by
  cases form with
  | one low => simp [pieces, low]
  | two lead next => simp [pieces, not_low_of_following lead, lead, next]
  | three lead next last => simp [pieces, not_low_of_following lead, lead, next, last]
  | four lead next third last =>
    simp [pieces, not_low_of_following lead, lead, next, third, last]

theorem toNat_char {n : Nat} (valid : n.isValidChar) : (Char.ofNat n).val.toNat = n := by
  rw [Char.ofNat, dif_pos valid]
  rfl

theorem ofNat_eq (b : UInt8) {n : Nat} (is : n = b.toNat) : UInt8.ofNat n = b := by
  rw [is, UInt8.ofNat_toNat]

/-- The bytes of a character are its encoding. -/
theorem Form.encode {bytes : Bytes} {char : Char} (form : Form bytes char) :
    String.utf8EncodeChar char = bytes := by
  cases form with
  | @one a low =>
    simp only [UInt8.lt_iff_toNat_lt, UInt8.reduceToNat] at low
    rw [String.utf8EncodeChar, toNat_char (.inl (by omega)), if_pos (by omega), UInt8.ofNat_toNat]
  | @two a b lead next =>
    rw [following_eq_one] at lead
    rw [second_iff] at next
    have value : a.toNat % 32 * 64 + payload b = (a.toNat - 192) * 64 + (b.toNat - 128) := by
      rw [payload]
      omega
    rw [String.utf8EncodeChar, value, toNat_char (.inl (by omega)), if_neg (by omega),
      if_pos (by omega), ofNat_eq a (by omega), ofNat_eq b (by omega)]
  | @three a b c lead next last =>
    rw [following_eq_two] at lead
    rw [second_iff] at next
    rw [continues_iff] at last
    have value : (a.toNat % 16 * 64 + payload b) * 64 + payload c
        = (a.toNat - 224) * 4096 + (b.toNat - 128) * 64 + (c.toNat - 128) := by
      rw [payload, payload]
      omega
    have valid : Nat.isValidChar ((a.toNat - 224) * 4096 + (b.toNat - 128) * 64
        + (c.toNat - 128)) := by
      rw [Nat.isValidChar]
      omega
    rw [String.utf8EncodeChar, value, toNat_char valid, if_neg (by omega), if_neg (by omega),
      if_pos (by omega), ofNat_eq a (by omega), ofNat_eq b (by omega), ofNat_eq c (by omega)]
  | @four a b c d lead next third last =>
    rw [following_eq_three] at lead
    rw [second_iff] at next
    rw [continues_iff] at third last
    have value : ((a.toNat % 8 * 64 + payload b) * 64 + payload c) * 64 + payload d
        = (a.toNat - 240) * 262144 + (b.toNat - 128) * 4096 + (c.toNat - 128) * 64
          + (d.toNat - 128) := by
      rw [payload, payload, payload]
      omega
    have valid : Nat.isValidChar ((a.toNat - 240) * 262144 + (b.toNat - 128) * 4096
        + (c.toNat - 128) * 64 + (d.toNat - 128)) := by
      rw [Nat.isValidChar]
      omega
    rw [String.utf8EncodeChar, value, toNat_char valid, if_neg (by omega), if_neg (by omega),
      if_neg (by omega), ofNat_eq a (by omega), ofNat_eq b (by omega), ofNat_eq c (by omega),
      ofNat_eq d (by omega)]

theorem form_encode (char : Char) : Form (String.utf8EncodeChar char) char := by
  have valid : char.val.toNat.isValidChar := char.valid
  rw [Nat.isValidChar] at valid
  generalize is : char.val.toNat = v at valid
  have same : Char.ofNat v = char := by rw [← is]; exact Char.ofNat_toNat char
  have small {n : Nat} (h : n < 256) : (UInt8.ofNat n).toNat = n := UInt8.toNat_ofNat_of_lt' h
  rw [String.utf8EncodeChar, is]
  split
  · have form := Form.one (a := UInt8.ofNat v) (by
      simp only [UInt8.lt_iff_toNat_lt, UInt8.reduceToNat, small (show v < 256 by omega)]
      omega)
    rwa [small (by omega), same] at form
  split
  · have form := Form.two (a := UInt8.ofNat (v / 64 % 32 + 192)) (b := UInt8.ofNat (v % 64 + 128))
      (by rw [following_eq_one, small (by omega)]; omega)
      (by rw [second_iff, small (by omega), small (by omega)]; omega)
    have value : (v / 64 % 32 + 192) % 32 * 64 + (v % 64 + 128) % 64 = v := by omega
    rwa [payload, small (by omega), small (by omega), value, same] at form
  split
  · have form := Form.three (a := UInt8.ofNat (v / 4096 % 16 + 224))
      (b := UInt8.ofNat (v / 64 % 64 + 128)) (c := UInt8.ofNat (v % 64 + 128))
      (by rw [following_eq_two, small (by omega)]; omega)
      (by rw [second_iff, small (by omega), small (by omega)]; omega)
      (by rw [continues_iff, small (by omega)]; omega)
    have value : ((v / 4096 % 16 + 224) % 16 * 64 + (v / 64 % 64 + 128) % 64) * 64
        + (v % 64 + 128) % 64 = v := by omega
    rwa [payload, payload, small (by omega), small (by omega), small (by omega), value,
      same] at form
  · have form := Form.four (a := UInt8.ofNat (v / 262144 % 8 + 240))
      (b := UInt8.ofNat (v / 4096 % 64 + 128)) (c := UInt8.ofNat (v / 64 % 64 + 128))
      (d := UInt8.ofNat (v % 64 + 128))
      (by rw [following_eq_three, small (by omega)]; omega)
      (by rw [second_iff, small (by omega), small (by omega)]; omega)
      (by rw [continues_iff, small (by omega)]; omega)
      (by rw [continues_iff, small (by omega)]; omega)
    have value : (((v / 262144 % 8 + 240) % 8 * 64 + (v / 4096 % 64 + 128) % 64) * 64
        + (v / 64 % 64 + 128) % 64) * 64 + (v % 64 + 128) % 64 = v := by omega
    rwa [payload, payload, payload, small (by omega), small (by omega), small (by omega),
      small (by omega), value, same] at form

/-! ## A byte string -/

theorem characters?_map (chars : List Char) : characters? (chars.map Piece.char) = some chars := by
  induction chars with
  | nil => rfl
  | cons char chars ih => rw [List.map_cons, characters?, ih, Option.map_some]

/-- The encoding of characters is cut into these. -/
theorem pieces_flatMap (chars : List Char) :
    pieces (chars.flatMap String.utf8EncodeChar) = chars.map Piece.char := by
  induction chars with
  | nil => rw [List.flatMap_nil, List.map_nil, pieces]
  | cons char chars ih =>
    rw [List.flatMap_cons, (form_encode char).pieces_append, ih, List.map_cons]

/-- Bytes in front of which a character is cut off are the encoding of what they are cut into, if
the bytes after the character are. -/
theorem Form.eq_of_characters? {bytes rest : Bytes} {char : Char} {chars : List Char}
    (form : Form bytes char) (whole : characters? (.char char :: pieces rest) = some chars)
    (ih : ∀ {chars}, characters? (pieces rest) = some chars →
      rest = chars.flatMap String.utf8EncodeChar) :
    bytes ++ rest = chars.flatMap String.utf8EncodeChar := by
  obtain ⟨others, cut, rfl⟩ := Option.map_eq_some_iff.1 whole
  rw [List.flatMap_cons, form.encode, ← ih cut]

/-- Bytes that are cut into characters only are the encoding of these. -/
theorem eq_of_characters? {bytes : Bytes} {chars : List Char}
    (whole : characters? (pieces bytes) = some chars) :
    bytes = chars.flatMap String.utf8EncodeChar := by
  fun_induction pieces bytes generalizing chars with
  | case1 =>
    cases whole
    rfl
  | case2 a rest low ih => exact (Form.one low).eq_of_characters? whole ih
  | case6 a _ b rest next lead ih =>
    exact (Form.two lead (by simpa using next)).eq_of_characters? whole ih
  | case9 a _ b next c rest third lead _ ih =>
    exact (Form.three lead (by simpa using next) (by simpa using third)).eq_of_characters? whole ih
  | case12 a _ n lead b next notOne c third notTwo d rest last ih =>
    rw [eq_three_of_following lead notOne notTwo] at lead
    exact (Form.four lead (by simpa using next) (by simpa using third)
      (by simpa using last)).eq_of_characters? whole ih
  | case3 | case4 | case5 | case7 | case8 | case10 | case11 => cases whole

theorem ofString_ofList (chars : List Char) :
    Bytes.ofString (String.ofList chars) = chars.flatMap String.utf8EncodeChar := by
  rw [Bytes.ofString, String.toByteArray_ofList, List.utf8Encode, List.data_toByteArray]

/-- Bytes are read as a text exactly when they are its bytes. -/
theorem decode?_eq_some_iff {bytes : Bytes} {s : String} :
    decode? bytes = some s ↔ bytes = Bytes.ofString s := by
  constructor
  · intro read
    obtain ⟨chars, cut, rfl⟩ := Option.map_eq_some_iff.1 read
    rw [eq_of_characters? cut, ofString_ofList]
  · rintro rfl
    rw [← String.ofList_toList (s := s), ofString_ofList, decode?, pieces_flatMap, characters?_map,
      Option.map_some]

/-- Bytes are UTF-8 exactly when they are those of some text. -/
theorem valid_iff {bytes : Bytes} : valid bytes ↔ ∃ s : String, Bytes.ofString s = bytes := by
  rw [← isSome_decode?, Option.isSome_iff_exists]
  exact exists_congr fun s => decode?_eq_some_iff.trans eq_comm

end FlatImage.Utf8
