import TorDaemon.Library.NetworkOrder

/-! Which byte strings are UTF-8 (`util_string.c`). A read behind the string is `none`. -/
namespace TorDaemon.Encoding.Utf8
open Library.NetworkOrder

section Validate

/-- A byte with the top bits set. -/
def topBits (x : ℕ) : UInt8 := 0xFF <<< UInt8.ofNat (8 - x)

/-- A byte with the lowest bits set. -/
def lowBits (x : ℕ) : UInt8 := 0xFF >>> UInt8.ofNat (8 - x)

/-- The length of the character that starts with a byte, or 0 if none does. -/
def bytesInChar (b : UInt8) : ℕ :=
  if topBits 1 &&& b = 0x00 then 1
  else if topBits 3 &&& b = topBits 2 then 2
  else if topBits 4 &&& b = topBits 3 then 3
  else if topBits 5 &&& b = topBits 4 then 4
  else 0

def isContinuationByte (b : UInt8) : Bool := b &&& topBits 2 = topBits 1

/-- The bits of a continuation byte behind those there are. -/
def addBits (codepoint : UInt32) (c : UInt8) : UInt32 :=
  codepoint <<< 6 ||| (c &&& lowBits 6).toUInt32

/-- The loop of `validate_char`, with so many bytes to go. The inner `none` is a byte that is no
continuation byte. -/
def continueChar (str : Bytes) : ℕ → ℕ → UInt32 → Option (Option UInt32)
  | _, 0, codepoint => some (some codepoint)
  | i, n + 1, codepoint => do
    let c ← str[i]?
    if isContinuationByte c then continueChar str (i + 1) n (addBits codepoint c)
    else return none

/-- `validate_char` of the `len` bytes at a place of the string. -/
def validateChar (str : Bytes) (i len : ℕ) : Option Bool :=
  if len = 1 then some true
  else do
    let c ← str[i]?
    match ← continueChar str (i + 1) (len - 1) (c &&& lowBits (7 - len)).toUInt32 with
    | none => return false
    | some codepoint =>
      if len = 2 ∧ codepoint ≤ 0x7f then return false
      else if len = 3 ∧ codepoint ≤ 0x7ff then return false
      else if len = 4 ∧ codepoint ≤ 0xffff then return false
      else if 0xd800 ≤ codepoint ∧ codepoint ≤ 0xdfff then return false
      else return codepoint ≤ 0x10ffff

/-- The loop of `string_is_utf8`. -/
def stringIsUtf8From (str : Bytes) (len i : ℕ) : Option Bool :=
  if i < len then do
    let c ← str[i]?
    let numBytes := bytesInChar c
    if _h : numBytes = 0 then return false
    else
      let nextChar := i + numBytes
      if len < nextChar then return false
      else if ← validateChar str i numBytes then stringIsUtf8From str len nextChar
      else return false
  else some true
termination_by len - i
decreasing_by omega

/-- `string_is_utf8` of the bytes behind a pointer, which may be NULL. -/
def stringIsUtf8 (str : Option Bytes) (len : ℕ) : Option Bool :=
  match str with
  | none => some (len = 0)
  | some str => stringIsUtf8From str len 0

end Validate

section Characters
variable {b : UInt8} {v : ℕ} {l : Bytes} {x : ℕ}

/-- What a string of UTF-8 is: the encodings of Unicode scalar values, one behind the other. -/
def WellFormed (l : Bytes) : Prop := ∃ chars : List Char, l = chars.flatMap String.utf8EncodeChar

/-- The bytes of a character, by its number. -/
def encodedBytes (v : ℕ) : List ℕ :=
  if v ≤ 0x7f then [v]
  else if v ≤ 0x7ff then [v / 64 % 32 + 0xc0, v % 64 + 0x80]
  else if v ≤ 0xffff then [v / 4096 % 16 + 0xe0, v / 64 % 64 + 0x80, v % 64 + 0x80]
  else [v / 262144 % 8 + 0xf0, v / 4096 % 64 + 0x80, v / 64 % 64 + 0x80, v % 64 + 0x80]

theorem map_utf8EncodeChar (c : Char) :
    (String.utf8EncodeChar c).map UInt8.toNat = encodedBytes c.toNat := by
  have hbyte {n : ℕ} (h : n < 256) : (UInt8.ofNat n).toNat = n := by
    rw [UInt8.toNat_ofNat', Nat.mod_eq_of_lt h]
  change (String.utf8EncodeChar c).map UInt8.toNat = encodedBytes c.val.toNat
  unfold String.utf8EncodeChar encodedBytes
  dsimp only
  split_ifs <;> simp only [List.map_cons, List.map_nil]
  · rw [hbyte (by omega)]
  · rw [hbyte (by omega), hbyte (by omega)]
  · rw [hbyte (by omega), hbyte (by omega), hbyte (by omega)]
  · rw [hbyte (by omega), hbyte (by omega), hbyte (by omega), hbyte (by omega)]

theorem exists_char_iff (l : Bytes) : (∃ c : Char, l = String.utf8EncodeChar c) ↔
    ∃ v : ℕ, v.isValidChar ∧ l.map UInt8.toNat = encodedBytes v := by
  constructor
  · rintro ⟨c, rfl⟩
    exact ⟨c.toNat, c.valid, map_utf8EncodeChar c⟩
  · rintro ⟨v, hvalid, hv⟩
    have hc : (Char.ofNatAux v hvalid).toNat = v := by
      rfl
    refine ⟨Char.ofNatAux v hvalid, ?_⟩
    rw [← List.map_inj_right fun _ _ => UInt8.toNat_inj.mp, map_utf8EncodeChar, hc, hv]

theorem bytesInChar_eq (b : UInt8) : bytesInChar b =
    if b.toNat < 128 then 1 else if b.toNat < 192 then 0 else if b.toNat < 224 then 2
    else if b.toNat < 240 then 3 else if b.toNat < 248 then 4 else 0 := by
  revert b
  decide +kernel

theorem isContinuationByte_iff : isContinuationByte b ↔ 128 ≤ b.toNat ∧ b.toNat < 192 := by
  revert b
  decide +kernel

theorem toNat_and_lowBits (b : UInt8) : (b &&& lowBits 6).toNat = b.toNat % 64 ∧
    (b &&& lowBits 5).toNat = b.toNat % 32 ∧ (b &&& lowBits 4).toNat = b.toNat % 16 ∧
    (b &&& lowBits 3).toNat = b.toNat % 8 := by
  revert b
  decide +kernel

theorem toNat_addBits {codepoint : UInt32} {n : ℕ} (h : codepoint.toNat = n) (hn : n < 2 ^ 26)
    (b : UInt8) : (addBits codepoint b).toNat = 64 * n + b.toNat % 64 := by
  have hlow : (b &&& lowBits 6).toUInt32.toNat = b.toNat % 64 := by
    rw [UInt8.toNat_toUInt32, (toNat_and_lowBits b).1]
  have hlt : b.toNat % 64 < 2 ^ 6 := Nat.mod_lt _ (by decide)
  rw [addBits, UInt32.toNat_or, hlow, UInt32.toNat_shiftLeft, h, Nat.shiftLeft_eq]
  have hmod : n * 2 ^ ((6 : UInt32).toNat % 32) % 2 ^ 32 = 2 ^ 6 * n := by
    change n * 2 ^ 6 % 2 ^ 32 = 2 ^ 6 * n
    omega
  rw [hmod, ← Nat.two_pow_add_eq_or_of_lt hlt]

theorem continueChar_eq {str : Bytes} {i : ℕ} (h : l <+: str.drop i) (codepoint : UInt32) :
    continueChar str i l.length codepoint = some
      (if l.all isContinuationByte then
        some (l.foldl addBits codepoint)
      else none) := by
  induction l generalizing i codepoint with
  | nil => rfl
  | cons b l ih =>
    obtain ⟨rest, hrest⟩ := h
    have hread : str[i]? = some b := by
      rw [← Nat.add_zero i, ← List.getElem?_drop, ← hrest]
      rfl
    have htail : l <+: str.drop (i + 1) := by
      refine ⟨rest, ?_⟩
      rw [← List.drop_drop, ← hrest]
      rfl
    rw [List.length_cons, continueChar, hread]
    cases hb : isContinuationByte b with
    | false => simp [hb]
    | true => simpa [hb] using ih htail (addBits codepoint b)

theorem bytesInChar_utf8EncodeChar (c : Char) :
    ∃ b tail, String.utf8EncodeChar c = b :: tail ∧ bytesInChar b = tail.length + 1 := by
  have hmap := map_utf8EncodeChar c
  cases hc : String.utf8EncodeChar c with
  | nil =>
    rw [hc, encodedBytes] at hmap
    split_ifs at hmap <;> simp at hmap
  | cons b tail =>
    refine ⟨b, tail, rfl, ?_⟩
    rw [hc, encodedBytes] at hmap
    rw [bytesInChar_eq]
    have hlength := congrArg List.length hmap
    split_ifs at hmap hlength <;>
      simp only [List.map_cons, List.length_cons, List.length_map, List.length_nil,
        List.cons.injEq] at hmap hlength <;>
      split_ifs <;> omega

theorem encodedBytes_one (hx : x < 128) : ∃ v : ℕ, v.isValidChar ∧ [x] = encodedBytes v :=
  ⟨x, by unfold Nat.isValidChar; omega, by rw [encodedBytes, if_pos (by omega)]⟩

theorem encodedBytes_two {y : ℕ} (hx : 192 ≤ x ∧ x < 224) :
    (∃ v : ℕ, v.isValidChar ∧ [x, y] = encodedBytes v) ↔
      (128 ≤ y ∧ y < 192) ∧ 0x7f < 64 * (x % 32) + y % 64 := by
  unfold Nat.isValidChar encodedBytes
  constructor
  · rintro ⟨v, hvalid, hv⟩
    split_ifs at hv <;> simp only [List.cons.injEq, reduceCtorEq, and_false, and_true] at hv
    omega
  · rintro ⟨hy, hlong⟩
    refine ⟨64 * (x % 32) + y % 64, by omega, ?_⟩
    rw [if_neg (by omega), if_pos (by omega)]
    simp only [List.cons.injEq, and_true]
    omega

theorem encodedBytes_three {y z : ℕ} (hx : 224 ≤ x ∧ x < 240) :
    (∃ v : ℕ, v.isValidChar ∧ [x, y, z] = encodedBytes v) ↔
      ((128 ≤ y ∧ y < 192) ∧ 128 ≤ z ∧ z < 192) ∧
        (64 * (64 * (x % 16) + y % 64) + z % 64).isValidChar ∧
          0x7ff < 64 * (64 * (x % 16) + y % 64) + z % 64 := by
  unfold Nat.isValidChar encodedBytes
  constructor
  · rintro ⟨v, hvalid, hv⟩
    split_ifs at hv <;> simp only [List.cons.injEq, reduceCtorEq, and_false, and_true] at hv
    omega
  · rintro ⟨hbytes, hvalid, hlong⟩
    refine ⟨64 * (64 * (x % 16) + y % 64) + z % 64, hvalid, ?_⟩
    rw [if_neg (by omega), if_neg (by omega), if_pos (by omega)]
    simp only [List.cons.injEq, and_true]
    omega

theorem encodedBytes_four {y z w : ℕ} (hx : 240 ≤ x ∧ x < 248) :
    (∃ v : ℕ, v.isValidChar ∧ [x, y, z, w] = encodedBytes v) ↔
      ((128 ≤ y ∧ y < 192) ∧ (128 ≤ z ∧ z < 192) ∧ 128 ≤ w ∧ w < 192) ∧
        0xffff < 64 * (64 * (64 * (x % 8) + y % 64) + z % 64) + w % 64 ∧
          64 * (64 * (64 * (x % 8) + y % 64) + z % 64) + w % 64 ≤ 0x10ffff := by
  unfold Nat.isValidChar encodedBytes
  constructor
  · rintro ⟨v, hvalid, hv⟩
    split_ifs at hv <;> simp only [List.cons.injEq, reduceCtorEq, and_false, and_true] at hv
    omega
  · rintro ⟨hbytes, hlong, hvalid⟩
    refine ⟨64 * (64 * (64 * (x % 8) + y % 64) + z % 64) + w % 64, by omega, ?_⟩
    rw [if_neg (by omega), if_neg (by omega), if_neg (by omega)]
    simp only [List.cons.injEq, and_true]
    omega

end Characters

section Accepted
variable {str tail : Bytes} {b : UInt8} {i len : ℕ}

/-- The tests of `validate_char` on the number of a character of this length. -/
def Accepts (len : ℕ) (codepoint : UInt32) : Prop :=
  ¬(len = 2 ∧ codepoint ≤ 0x7f) ∧ ¬(len = 3 ∧ codepoint ≤ 0x7ff) ∧
    ¬(len = 4 ∧ codepoint ≤ 0xffff) ∧ ¬(0xd800 ≤ codepoint ∧ codepoint ≤ 0xdfff) ∧
      codepoint ≤ 0x10ffff

theorem validateChar_eq (h : str.drop i = b :: tail) (htwo : 2 ≤ len)
    (hle : len ≤ tail.length + 1) : ∃ ok, validateChar str i len = some ok ∧
      (ok = true ↔ (tail.take (len - 1)).all isContinuationByte = true ∧
        Accepts len ((tail.take (len - 1)).foldl addBits (b &&& lowBits (7 - len)).toUInt32)) := by
  have hread : str[i]? = some b := by
    rw [← Nat.add_zero i, ← List.getElem?_drop, h]
    rfl
  have htail : tail.take (len - 1) <+: str.drop (i + 1) := by
    rw [← List.drop_drop, h]
    exact List.take_prefix _ _
  have hlength : (tail.take (len - 1)).length = len - 1 := by
    rw [List.length_take]
    omega
  have hloop := continueChar_eq htail (b &&& lowBits (7 - len)).toUInt32
  rw [hlength] at hloop
  rw [validateChar, if_neg (by omega), hread]
  simp only [Option.bind_eq_bind, Option.bind_some, hloop]
  cases hall : (tail.take (len - 1)).all isContinuationByte with
  | false => exact ⟨false, rfl, by simp⟩
  | true =>
    simp only [if_true, true_and, Option.pure_def]
    split_ifs with h2 h3 h4 hsurrogate
    · exact ⟨false, rfl, iff_of_false Bool.false_ne_true fun haccepts => haccepts.1 h2⟩
    · exact ⟨false, rfl, iff_of_false Bool.false_ne_true fun haccepts => haccepts.2.1 h3⟩
    · exact ⟨false, rfl, iff_of_false Bool.false_ne_true fun haccepts => haccepts.2.2.1 h4⟩
    · exact ⟨false, rfl,
        iff_of_false Bool.false_ne_true fun haccepts => haccepts.2.2.2.1 hsurrogate⟩
    · refine ⟨_, rfl, ?_⟩
      rw [decide_eq_true_iff]
      exact ⟨fun hmax => ⟨h2, h3, h4, hsurrogate, hmax⟩, fun haccepts => haccepts.2.2.2.2⟩

theorem accepts_iff {codepoint : UInt32} {n : ℕ} (h : codepoint.toNat = n) :
    Accepts len codepoint ↔ ¬(len = 2 ∧ n ≤ 0x7f) ∧ ¬(len = 3 ∧ n ≤ 0x7ff) ∧
      ¬(len = 4 ∧ n ≤ 0xffff) ∧ n.isValidChar := by
  unfold Accepts Nat.isValidChar
  simp only [UInt32.le_iff_toNat_le, UInt32.reduceToNat]
  omega

/-- The bytes from a first byte on are accepted if they are those of a character. -/
theorem validateChar_spec (h : str.drop i = b :: tail) (hb : bytesInChar b = len)
    (hpos : len ≠ 0) (hle : len ≤ tail.length + 1) : ∃ ok, validateChar str i len = some ok ∧
      (ok = true ↔ ∃ c : Char, b :: tail.take (len - 1) = String.utf8EncodeChar c) := by
  have hlow := toNat_and_lowBits b
  rw [bytesInChar_eq] at hb
  have hcases : len = 1 ∧ b.toNat < 128 ∨ len = 2 ∧ 192 ≤ b.toNat ∧ b.toNat < 224 ∨
      len = 3 ∧ 224 ≤ b.toNat ∧ b.toNat < 240 ∨ len = 4 ∧ 240 ≤ b.toNat ∧ b.toNat < 248 := by
    split_ifs at hb <;> omega
  rcases hcases with ⟨rfl, hone⟩ | ⟨rfl, htwo⟩ | ⟨rfl, hthree⟩ | ⟨rfl, hfour⟩
  · exact ⟨true, rfl, iff_of_true rfl ((exists_char_iff _).mpr (encodedBytes_one hone))⟩
  · obtain ⟨ok, hok, hiff⟩ := validateChar_eq h le_rfl hle
    refine ⟨ok, hok, hiff.trans ?_⟩
    rcases tail with _ | ⟨y, tail⟩
    · simp at hle
    have hfirst : (b &&& lowBits 5).toUInt32.toNat = _ := hlow.2.1
    have hcp := toNat_addBits hfirst (by omega) y
    rw [exists_char_iff]
    change ([y].all isContinuationByte = true ∧
      Accepts 2 (addBits (b &&& lowBits 5).toUInt32 y)) ↔
        ∃ v : ℕ, v.isValidChar ∧ [b.toNat, y.toNat] = encodedBytes v
    rw [accepts_iff hcp, encodedBytes_two htwo]
    simp only [List.all_cons, List.all_nil, Bool.and_true, isContinuationByte_iff, true_and,
      Nat.reduceEqDiff, false_and, not_false_eq_true]
    omega
  · obtain ⟨ok, hok, hiff⟩ := validateChar_eq h (by decide) hle
    refine ⟨ok, hok, hiff.trans ?_⟩
    rcases tail with _ | ⟨y, _ | ⟨z, tail⟩⟩
    · simp at hle
    · simp at hle
    have hfirst : (b &&& lowBits 4).toUInt32.toNat = _ := hlow.2.2.1
    have hcp := toNat_addBits (toNat_addBits hfirst (by omega) y) (by omega) z
    rw [exists_char_iff]
    change ([y, z].all isContinuationByte = true ∧
      Accepts 3 (addBits (addBits (b &&& lowBits 4).toUInt32 y) z)) ↔
        ∃ v : ℕ, v.isValidChar ∧ [b.toNat, y.toNat, z.toNat] = encodedBytes v
    rw [accepts_iff hcp, encodedBytes_three hthree]
    simp only [List.all_cons, List.all_nil, Bool.and_true, Bool.and_eq_true,
      isContinuationByte_iff, true_and, Nat.reduceEqDiff, false_and, not_false_eq_true]
    omega
  · obtain ⟨ok, hok, hiff⟩ := validateChar_eq h (by decide) hle
    refine ⟨ok, hok, hiff.trans ?_⟩
    rcases tail with _ | ⟨y, _ | ⟨z, _ | ⟨w, tail⟩⟩⟩
    · simp at hle
    · simp at hle
    · simp at hle
    have hfirst : (b &&& lowBits 3).toUInt32.toNat = _ := hlow.2.2.2
    have hcp := toNat_addBits (toNat_addBits (toNat_addBits hfirst (by omega) y) (by omega) z)
      (by omega) w
    rw [exists_char_iff]
    change ([y, z, w].all isContinuationByte = true ∧
      Accepts 4 (addBits (addBits (addBits (b &&& lowBits 3).toUInt32 y) z) w)) ↔
        ∃ v : ℕ, v.isValidChar ∧ [b.toNat, y.toNat, z.toNat, w.toNat] = encodedBytes v
    rw [accepts_iff hcp, encodedBytes_four hfour]
    simp only [List.all_cons, List.all_nil, Bool.and_true, Bool.and_eq_true,
      isContinuationByte_iff, true_and, Nat.reduceEqDiff, false_and, not_false_eq_true]
    omega

end Accepted

section Strings
variable {str tail : Bytes} {b : UInt8} {i : ℕ}

theorem wellFormed_cons (b : UInt8) (tail : Bytes) : WellFormed (b :: tail) ↔
    bytesInChar b ≠ 0 ∧ bytesInChar b ≤ tail.length + 1 ∧
      (∃ c : Char, b :: tail.take (bytesInChar b - 1) = String.utf8EncodeChar c) ∧
        WellFormed (tail.drop (bytesInChar b - 1)) := by
  constructor
  · rintro ⟨chars, hchars⟩
    cases chars with
    | nil => simp at hchars
    | cons c chars =>
      obtain ⟨b', bytes, hc, hlength⟩ := bytesInChar_utf8EncodeChar c
      rw [List.flatMap_cons, hc, List.cons_append, List.cons.injEq] at hchars
      obtain ⟨rfl, rfl⟩ := hchars
      rw [hlength, Nat.add_sub_cancel, List.take_left, List.drop_left, List.length_append]
      exact ⟨Nat.succ_ne_zero _, by omega, ⟨c, hc.symm⟩, chars, rfl⟩
  · rintro ⟨-, -, ⟨c, hc⟩, chars, hchars⟩
    refine ⟨c :: chars, ?_⟩
    rw [List.flatMap_cons, ← hc, ← hchars, List.cons_append, List.take_append_drop]

/-- What the loop finds from a place on. -/
theorem stringIsUtf8From_spec (str : Bytes) (i : ℕ) :
    ∃ ok, stringIsUtf8From str str.length i = some ok ∧ (ok = true ↔ WellFormed (str.drop i)) := by
  induction hn : str.length - i using Nat.strong_induction_on generalizing i with
  | _ n ih =>
    rw [stringIsUtf8From]
    by_cases hi : i < str.length
    case neg =>
      rw [if_neg hi, List.drop_eq_nil_iff.mpr (by omega)]
      exact ⟨true, rfl, iff_of_true rfl ⟨[], rfl⟩⟩
    have hdrop : str.drop i = str[i] :: str.drop (i + 1) := List.drop_eq_getElem_cons hi
    have hlength : (str.drop (i + 1)).length = str.length - (i + 1) := List.length_drop
    rw [if_pos hi, List.getElem?_eq_getElem hi, hdrop, wellFormed_cons, hlength]
    simp only [Option.bind_eq_bind, Option.bind_some]
    by_cases hzero : bytesInChar str[i] = 0
    · rw [dif_pos hzero]
      exact ⟨false, rfl, iff_of_false Bool.false_ne_true fun h => h.1 hzero⟩
    rw [dif_neg hzero]
    by_cases hlong : str.length < i + bytesInChar str[i]
    · rw [if_pos hlong]
      exact ⟨false, rfl, iff_of_false Bool.false_ne_true fun h => by omega⟩
    rw [if_neg hlong]
    obtain ⟨accepted, hvalidate, haccepted⟩ :=
      validateChar_spec hdrop rfl hzero (by rw [hlength]; omega)
    rw [hvalidate, Option.bind_some]
    cases accepted with
    | false =>
      exact ⟨false, rfl,
        iff_of_false Bool.false_ne_true fun h => Bool.false_ne_true (haccepted.mpr h.2.2.1)⟩
    | true =>
      obtain ⟨ok, hok, hrest⟩ := ih _ (by omega) (i + bytesInChar str[i]) rfl
      have hnext : (str.drop (i + 1)).drop (bytesInChar str[i] - 1) =
          str.drop (i + bytesInChar str[i]) := by
        rw [List.drop_drop]
        congr 1
        omega
      rw [hnext]
      exact ⟨ok, hok, hrest.trans
        ⟨fun h => ⟨hzero, by omega, haccepted.mp rfl, h⟩, fun h => h.2.2.2⟩⟩

/-- Validation reads nothing but the string, and accepts it if it is UTF-8. -/
theorem stringIsUtf8_iff (str : Bytes) : ∃ ok, stringIsUtf8 (some str) str.length = some ok ∧
    (ok = true ↔ WellFormed str) :=
  stringIsUtf8From_spec str 0

end Strings
end TorDaemon.Encoding.Utf8
